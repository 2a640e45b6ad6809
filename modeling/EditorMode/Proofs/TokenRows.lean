import EditorMode.Cli.Report
import EditorMode.Proofs.Convergence
import EditorMode.Proofs.Text.Decimal
import EditorMode.Proofs.Text.Quoted
import Mathlib.Data.List.Basic

/-! # The rows on tokens can be read back

A row on a token has five columns, and each ends where its writing says: numbers behind their
digits, the category at a blank, and the text at its last quote.  Since the text is quoted, a row is
a line whatever the text holds, and so all rows are read back line by line
(`Cli.readTokenRows?_tokenRows`).  Equal rows are therefore rows on the same tokens. -/

namespace EditorMode

/-- No name of a category has a blank in it. -/
theorem Category.not_mem_name (c : Category) :
    ' ' ∉ c.name.toList ∧ '\n' ∉ c.name.toList ∧ '\r' ∉ c.name.toList := by
  cases c <;> decide +kernel

namespace Cli

/-- What a row says about a token. -/
structure TokenRow where
  lineNumber : Nat
  start : Nat
  stop : Nat
  category : Category
  text : Text
  deriving DecidableEq, Repr

/-- The row on a token of a line. -/
def TokenRow.ofToken (lineNumber : Nat) (t : Token) : TokenRow :=
  ⟨lineNumber, t.start, t.stop, t.category, t.text⟩

/-- The tokens of consecutive lines with their places, the first line having the given number. -/
def tokenPlaces (lineNumber : Nat) : List Document.Line → List TokenRow
  | [] => []
  | line :: lines =>
    line.tokens.map (TokenRow.ofToken lineNumber) ++ tokenPlaces (lineNumber + 1) lines

/-- The line that is printed for a row. -/
def TokenRow.printed (escaping : Text.Escaping) (row : TokenRow) : Text :=
  "  ".toList ++ (Text.decimal row.lineNumber ++ (":".toList ++ (Text.decimal row.start ++
    ("..".toList ++ (Text.decimal row.stop ++ (" ".toList ++ (row.category.name.toList ++
      (" ".toList ++ Text.quoted escaping row.text))))))))

/-! ## Printing -/

variable {escaping : Text.Escaping}

theorem tokenRow_eq (lineNumber : Nat) (t : Token) :
    tokenRow escaping lineNumber t =
      (TokenRow.ofToken lineNumber t).printed escaping ++ ['\n'] := by
  have hbreak : "\n".toList = ['\n'] := by decide +kernel
  unfold tokenRow TokenRow.printed TokenRow.ofToken
  simp only [List.append_assoc, hbreak]

theorem tokenRows_eq (lineNumber : Nat) (lines : List Document.Line) :
    tokenRows escaping lineNumber lines =
      Text.ofLines ((tokenPlaces lineNumber lines).map (TokenRow.printed escaping)) := by
  induction lines generalizing lineNumber with
  | nil => rfl
  | cons line lines ih =>
    have hrow : tokenRow escaping lineNumber =
        fun t => (TokenRow.ofToken lineNumber t).printed escaping ++ ['\n'] :=
      funext (tokenRow_eq lineNumber)
    rw [tokenRows, tokenPlaces, ih, hrow, Text.ofLines, Text.ofLines, List.map_append,
      List.flatMap_append, List.map_map, List.flatMap_map, List.flatMap_map]
    rfl

/-- A printed row is a line. -/
theorem TokenRow.notMem_printed (row : TokenRow) :
    '\n' ∉ row.printed escaping ∧ '\r' ∉ row.printed escaping := by
  obtain ⟨-, hfeed, hreturn⟩ := row.category.not_mem_name
  unfold printed
  simp [hfeed, hreturn, Text.lineFeed_notMem_decimal, Text.return_notMem_decimal,
    Text.notMem_quoted]

/-! ## Reading -/

/-- The row that a line prints. -/
def readTokenRow? (line : Text) : Option TokenRow := do
  let rest ← "  ".toList.isPrefixOf? line
  let (lineNumber, rest) ← Text.readDecimal? rest
  let rest ← ":".toList.isPrefixOf? rest
  let (start, rest) ← Text.readDecimal? rest
  let rest ← "..".toList.isPrefixOf? rest
  let (stop, rest) ← Text.readDecimal? rest
  let rest ← " ".toList.isPrefixOf? rest
  let category ← Category.ofName? (String.ofList (rest.takeWhile (· ≠ ' ')))
  let rest ← " ".toList.isPrefixOf? (rest.dropWhile (· ≠ ' '))
  let text ← Text.unquoted? rest
  return { lineNumber, start, stop, category, text }

/-- The rows that a text prints, one on each line. -/
def readTokenRows? (t : Text) : Option (List TokenRow) := (Text.lines t).mapM readTokenRow?

theorem isPrefixOf?_append (a b : Text) : a.isPrefixOf? (a ++ b) = some b :=
  List.isPrefixOf?_eq_some_iff_append_eq.mpr rfl

/-- **A row is read back.** -/
theorem readTokenRow?_printed (row : TokenRow) :
    readTokenRow? (row.printed escaping) = some row := by
  have hcolon : ∀ t : Text, Text.BeginsWithoutDigit (":".toList ++ t) := by
    simp [Text.BeginsWithoutDigit]
  have hdots : ∀ t : Text, Text.BeginsWithoutDigit ("..".toList ++ t) := by
    simp [Text.BeginsWithoutDigit]
  have hblank : ∀ t : Text, Text.BeginsWithoutDigit (" ".toList ++ t) := by
    simp [Text.BeginsWithoutDigit]
  have hname : ∀ c ∈ row.category.name.toList, decide (c ≠ ' ') = true := fun c hc =>
    decide_eq_true fun heq => row.category.not_mem_name.1 (heq ▸ hc)
  have htake : ∀ t : Text, (row.category.name.toList ++ (" ".toList ++ t)).takeWhile (· ≠ ' ') =
      row.category.name.toList := by
    intro t
    rw [List.takeWhile_append_of_pos hname]
    simp
  have hdrop : ∀ t : Text, (row.category.name.toList ++ (" ".toList ++ t)).dropWhile (· ≠ ' ') =
      " ".toList ++ t := by
    intro t
    rw [List.dropWhile_append_of_pos hname]
    simp
  unfold readTokenRow? TokenRow.printed
  simp only [Option.bind_eq_bind, isPrefixOf?_append, Option.bind_some,
    Text.readDecimal?_decimal_append (hcolon _), Text.readDecimal?_decimal_append (hdots _),
    Text.readDecimal?_decimal_append (hblank _), htake, hdrop, String.ofList_toList,
    Category.ofName?_name, Text.unquoted?_quoted]
  rfl

theorem mapM_readTokenRow?_printed (rows : List TokenRow) :
    (rows.map (TokenRow.printed escaping)).mapM readTokenRow? = some rows := by
  induction rows with
  | nil => rfl
  | cons row rows ih =>
    rw [List.map_cons, List.mapM_cons, readTokenRow?_printed, ih]
    rfl

/-- **All rows are read back.** -/
theorem readTokenRows?_tokenRows (lineNumber : Nat) (lines : List Document.Line) :
    readTokenRows? (tokenRows escaping lineNumber lines) =
      some (tokenPlaces lineNumber lines) := by
  have hlines : ∀ t ∈ (tokenPlaces lineNumber lines).map (TokenRow.printed escaping),
      '\n' ∉ t ∧ '\r' ∉ t := by
    intro t ht
    obtain ⟨row, -, rfl⟩ := List.mem_map.mp ht
    exact row.notMem_printed
  rw [readTokenRows?, tokenRows_eq, Text.lines_ofLines hlines, mapM_readTokenRow?_printed]

/-- **The rows on the tokens of a document are unambiguous.**  They are read back as the places, the
categories and the texts of its tokens; so documents with equal rows have the same tokens, line by
line.  It does not matter how the characters of these texts are escaped, nor need it be known to
read them back. -/
theorem tokenRows_unambiguous :
    (∀ (escaping : Text.Escaping) (doc : Document),
      readTokenRows? (tokenRows escaping 1 doc.lines) = some (tokenPlaces 1 doc.lines)) ∧
    ∀ (escaping : Text.Escaping) (doc doc' : Document),
      tokenRows escaping 1 doc.lines = tokenRows escaping 1 doc'.lines ↔
        tokenPlaces 1 doc.lines = tokenPlaces 1 doc'.lines := by
  refine ⟨fun escaping doc => readTokenRows?_tokenRows 1 doc.lines,
    fun escaping doc doc' => ⟨fun h => ?_, fun h => ?_⟩⟩
  · have hread : readTokenRows? (tokenRows escaping 1 doc.lines) = some (tokenPlaces 1 doc.lines) :=
      readTokenRows?_tokenRows 1 doc.lines
    rw [h, readTokenRows?_tokenRows] at hread
    exact (Option.some.inj hread).symm
  · rw [tokenRows_eq, tokenRows_eq, h]

end Cli
end EditorMode
