import EditorMode.Proofs.Construct
import EditorMode.Proofs.Position
import EditorMode.Proofs.Word

/-! # The lexemes of a line

What stands at the beginning of a text is one **lexeme**, and which one is settled by the construct
that is pending and, if none is, by the first character.  `Lexeme` gives this grammar with one rule
for each kind of lexeme, over the alphabets of `Alphabet`.  The rules are **maximal**: a run ends
where no character of its kind follows, a construct ends behind its first delimiter or at the end of
the line.

No rule refers to another one, so the order in which a reader tries them is not part of the
grammar.  It need not be: every text that is not empty begins with a lexeme (`exists_lexeme`), and
with one only (`Lexeme.unique`), since a cursor in front of a lexeme reads just this
(`Lexeme.read_eq`). -/

namespace EditorMode

/-! ## Maximal runs -/

/-- All characters of `w` satisfy `p`, and the text `rest` behind it does not begin with one that
does. -/
structure Text.MaximalRun (p : Char → Bool) (w rest : Text) : Prop where
  all : ∀ c ∈ w, p c
  ends : ∀ c, rest.head? = some c → ¬ p c

theorem Text.MaximalRun.takeWhile_append {p : Char → Bool} {w rest : Text}
    (h : Text.MaximalRun p w rest) : (w ++ rest).takeWhile p = w := by
  rw [List.takeWhile_append_of_pos h.all]
  cases rest with
  | nil => exact List.append_nil w
  | cons c rest =>
    rw [List.takeWhile_cons_of_neg (h.ends c rfl), List.append_nil]

/-- Every text begins with a maximal run, which may be empty. -/
theorem Text.exists_maximalRun (p : Char → Bool) (t : Text) :
    ∃ w rest, t = w ++ rest ∧ Text.MaximalRun p w rest := by
  refine ⟨t.takeWhile p, t.dropWhile p, List.takeWhile_append_dropWhile.symm, ?_, ?_⟩
  · exact fun c hc => List.all_eq_true.mp List.all_takeWhile c hc
  · intro c hc hp
    have := List.head?_dropWhile_not p t
    rw [hc] at this
    simp [hp] at this

/-! ## Kinds of characters -/

namespace Cursor

theorem isQuote_iff {c : Char} : isQuote c ↔ c = '\"' ∨ c = '\x60' := by
  simp [isQuote]

theorem not_isBlank_of_isQuote {c : Char} (h : isQuote c) : ¬ Text.isBlank c := by
  rcases isQuote_iff.mp h with rfl | rfl
  · decide
  · decide

theorem not_isBlank_of_isPunctuation {c : Char} (h : Word.isPunctuation c) :
    ¬ Text.isBlank c ∧ ¬ isQuote c := by
  simp only [Word.isPunctuation, List.contains_iff_mem, List.mem_cons, List.not_mem_nil,
    or_false] at h
  rcases h with rfl | rfl | rfl | rfl | rfl | rfl | rfl | rfl | rfl | rfl <;> decide

/-- A digit is of no other kind. -/
theorem not_isBlank_of_isDigit {c : Char} (h : c.isDigit) :
    ¬ Text.isBlank c ∧ ¬ isQuote c ∧ ¬ Word.isPunctuation c := by
  have hrange : 48 ≤ c.toNat ∧ c.toNat ≤ 57 := Char.isDigit_iff_toNat.mp h
  refine ⟨?_, ?_, ?_⟩
  · simp [Text.isBlank, Text.blankRanges]
    omega
  · intro hquote
    rcases isQuote_iff.mp hquote with rfl | rfl
    · exact absurd h (by decide)
    · exact absurd h (by decide)
  · intro hpunctuation
    simp only [Word.isPunctuation, List.contains_iff_mem, List.mem_cons, List.not_mem_nil,
      or_false] at hpunctuation
    rcases hpunctuation with rfl | rfl | rfl | rfl | rfl | rfl | rfl | rfl | rfl | rfl <;>
      exact absurd h (by decide)

/-! ## Reading by the first character -/

section Reading

variable {extraAtoms : WordSet} {c : Char} {w rest : Text} {s : Cursor}

theorem eat?_of_cons (hrest : s.rest = c :: rest) : s.eat? c = some (s.forward 1) := by
  rw [eat?, peek?, hrest, List.head?_cons, if_pos rfl]

theorem eat?_of_ne (hrest : s.rest.head? ≠ some c) : s.eat? c = none := by
  rw [eat?, peek?, if_neg hrest]

/-- Reading while `p` reads the maximal run. -/
theorem eatWhile_of_maximalRun {p : Char → Bool} (hrest : s.rest = w ++ rest)
    (hrun : Text.MaximalRun p w rest) : s.eatWhile p = s.forward w.length := by
  rw [eatWhile, hrest, hrun.takeWhile_append]

/-- Reading the first character and then a run is reading the character and the run. -/
theorem eatWhile_forward_one {p : Char → Bool} (hrest : s.rest = c :: (w ++ rest))
    (hrun : Text.MaximalRun p w rest) :
    (s.forward 1).eatWhile p = s.forward (c :: w).length := by
  have hbehind : (s.forward 1).rest = w ++ rest := by
    rw [rest_forward, hrest]
    rfl
  rw [eatWhile_of_maximalRun hbehind hrun, forward_forward, List.length_cons, Nat.add_comm]

/-- What begins with a character that is not blank is settled by this character. -/
theorem read_of_cons (hrest : s.rest = c :: rest) (hblank : ¬ Text.isBlank c) :
    s.read extraAtoms none =
      if isQuote c then (Construct.string c).read (s.forward 1)
      else if Word.isPunctuation c then ⟨.punctuation, some c, none, s.forward 1⟩
      else if c.isDigit then
        ⟨.number, none, none, (s.forward 1).eatWhile fun d => d.isDigit || d == '.'⟩
      else if c = '/' then (s.forward 1).readAfterSlash extraAtoms
      else (s.forward 1).readWord extraAtoms := by
  have hpeek : s.peek? = some c := by rw [peek?, hrest, List.head?_cons]
  have hnone : s.eatBlanks? = none := by
    rw [eatBlanks?, eatWhile?, hpeek, Option.any_some, if_neg hblank]
  have hadvance : s.advance? = some (c, s.forward 1) := by rw [advance?, hpeek, Option.map_some]
  simp only [read, hnone, readFresh, hadvance]

/-- A slash begins a comment or a word. -/
theorem read_of_slash (hrest : s.rest = '/' :: rest) :
    s.read extraAtoms none = (s.forward 1).readAfterSlash extraAtoms := by
  rw [read_of_cons hrest (by decide), if_neg (by decide), if_neg (by decide), if_neg (by decide),
    if_pos rfl]

end Reading
end Cursor

/-! ## Constructs -/

/-- How far a construct reaches in a text: what belongs to it, what is left, and what of it is
pending behind. -/
inductive Construct.Extent (k : Construct) : Text → Text → Option Construct → Prop where
  /-- It ends behind its first delimiter, -/
  | closed {w rest : Text} (h : k.RunsThrough w) : Extent k w rest none
  /-- or takes the whole line, which closes it nowhere. -/
  | unfinished {w : Text} (h : k.StaysOpen w) : Extent k w [] (some k)

theorem Construct.exists_extent (k : Construct) (t : Text) :
    ∃ w rest pending, t = w ++ rest ∧ k.Extent w rest pending := by
  rcases k.scan_spec (Cursor.ofLine t 1) with ⟨w, rest, hrest, hw, -⟩ | ⟨hopen, -⟩
  · exact ⟨w, rest, none, hrest, .closed hw⟩
  · exact ⟨t, [], some k, (List.append_nil t).symm, .unfinished hopen⟩

theorem Construct.read_of_extent {k : Construct} {w rest : Text} {pending : Option Construct}
    {s : Cursor} (h : k.Extent w rest pending) (hrest : s.rest = w ++ rest) :
    k.read s = ⟨k.category, none, pending, s.forward w.length⟩ := by
  cases h with
  | closed hw => rw [Construct.read, scan_of_runsThrough hrest hw]
  | unfinished hopen =>
    rw [List.append_nil] at hrest
    rw [Construct.read, scan_of_staysOpen (hrest ▸ hopen), Cursor.skipToEnd, hrest]

/-- A construct behind an opening delimiter that has been read. -/
theorem Construct.read_forward_of_extent {k : Construct} {w rest : Text}
    {pending : Option Construct} {s : Cursor} (opener : Text) (h : k.Extent w rest pending)
    (hrest : s.rest = opener ++ (w ++ rest)) :
    k.read (s.forward opener.length) =
      ⟨k.category, none, pending, s.forward (opener ++ w).length⟩ := by
  have hbehind : (s.forward opener.length).rest = w ++ rest := by
    rw [Cursor.rest_forward, hrest, List.drop_left]
  rw [Construct.read_of_extent h hbehind, Cursor.forward_forward, List.length_append]

/-! ## Reading each kind of lexeme -/

section Kinds

variable {extraAtoms : WordSet} {w rest : Text} {s : Cursor}

theorem Cursor.read_of_blank (hrest : s.rest = w ++ rest) (hne : w ≠ [])
    (hrun : Text.MaximalRun Text.isBlank w rest) :
    s.read extraAtoms none = ⟨.unstyled, none, none, s.forward w.length⟩ := by
  obtain ⟨d, others, rfl⟩ := List.exists_cons_of_ne_nil hne
  have hpeek : s.peek? = some d := by
    rw [peek?, hrest]
    rfl
  have hblank : s.eatBlanks? = some (s.forward (d :: others).length) := by
    rw [eatBlanks?, eatWhile?, hpeek, Option.any_some, if_pos (hrun.all d List.mem_cons_self),
      eatWhile_of_maximalRun hrest hrun]
  simp only [read, hblank]

theorem Cursor.read_of_string {quote : Char} {pending : Option Construct}
    (hrest : s.rest = quote :: (w ++ rest)) (hquote : isQuote quote)
    (h : (Construct.string quote).Extent w rest pending) :
    s.read extraAtoms none = ⟨.string, none, pending, s.forward (quote :: w).length⟩ := by
  rw [read_of_cons hrest (not_isBlank_of_isQuote hquote), if_pos hquote]
  exact Construct.read_forward_of_extent [quote] h hrest

theorem Cursor.read_of_number {digit : Char} (hrest : s.rest = digit :: (w ++ rest))
    (hdigit : digit.isDigit)
    (hrun : Text.MaximalRun (fun d => d.isDigit || d == '.') w rest) :
    s.read extraAtoms none = ⟨.number, none, none, s.forward (digit :: w).length⟩ := by
  obtain ⟨hblank, hquote, hpunctuation⟩ := not_isBlank_of_isDigit hdigit
  rw [read_of_cons hrest hblank, if_neg hquote, if_neg hpunctuation, if_pos hdigit,
    eatWhile_forward_one hrest hrun]

theorem Cursor.read_of_blockComment {pending : Option Construct}
    (hrest : s.rest = '/' :: '*' :: (w ++ rest))
    (h : Construct.blockComment.Extent w rest pending) :
    s.read extraAtoms none = ⟨.comment, none, pending, s.forward ('/' :: '*' :: w).length⟩ := by
  have hstar : (s.forward 1).eat? '*' = some ((s.forward 1).forward 1) := by
    apply eat?_of_cons
    rw [rest_forward, hrest]
    rfl
  rw [read_of_slash hrest]
  simp only [readAfterSlash, hstar, forward_forward]
  exact Construct.read_forward_of_extent ['/', '*'] h hrest

theorem Cursor.read_of_lineComment (hrest : s.rest = '/' :: '/' :: w) :
    s.read extraAtoms none = ⟨.comment, none, none, s.forward ('/' :: '/' :: w).length⟩ := by
  have hbehind : (s.forward 1).rest = '/' :: w := by
    rw [rest_forward, hrest]
    rfl
  have hinside : ((s.forward 1).forward 1).rest = w := by
    rw [rest_forward, hbehind]
    rfl
  have hstar : (s.forward 1).eat? '*' = none := by
    apply eat?_of_ne
    rw [hbehind]
    simp
  have hskip : ((s.forward 1).forward 1).skipToEnd = s.forward ('/' :: '/' :: w).length := by
    rw [skipToEnd, hinside, forward_forward, forward_forward, Nat.add_comm 1, Nat.add_comm 1]
    rfl
  rw [read_of_slash hrest]
  simp only [readAfterSlash, hstar, eat?_of_cons hbehind, hskip]

/-- What begins with a character of no other kind is a word, and so is a slash that neither a star
nor a slash follows. -/
theorem Cursor.read_of_word {initial : Char} {others : Text} {c : Category}
    (hrest : s.rest = initial :: (others ++ rest)) (hlexeme : s.lexeme = [])
    (hblank : ¬ Text.isBlank initial) (hquote : ¬ isQuote initial)
    (hpunctuation : ¬ Word.isPunctuation initial) (hdigit : ¬ initial.isDigit)
    (hslash : initial = '/' →
      (others ++ rest).head? ≠ some '*' ∧ (others ++ rest).head? ≠ some '/')
    (hrun : Text.MaximalRun Word.isWordChar others rest)
    (hcategory : Word.HasCategory extraAtoms (initial :: others) c) :
    s.read extraAtoms none = ⟨c, none, none, s.forward (initial :: others).length⟩ := by
  have hword : (s.forward 1).readWord extraAtoms =
      ⟨c, none, none, s.forward (initial :: others).length⟩ := by
    have hread : (s.forward (initial :: others).length).lexeme = initial :: others := by
      rw [lexeme_forward, hlexeme, hrest, List.nil_append, ← List.cons_append, List.take_left]
    simp only [readWord, eatWhile_forward_one hrest hrun, hread,
      Word.category_of_hasCategory hcategory]
  rw [read_of_cons hrest hblank, if_neg hquote, if_neg hpunctuation, if_neg hdigit]
  by_cases heq : initial = '/'
  · obtain ⟨hstar, hline⟩ := hslash heq
    have hbehind : (s.forward 1).rest = others ++ rest := by
      rw [rest_forward, hrest]
      rfl
    rw [← hbehind] at hstar hline
    rw [if_pos heq]
    simp only [readAfterSlash, eat?_of_ne hstar, eat?_of_ne hline]
    exact hword
  · rw [if_neg heq]
    exact hword

end Kinds

/-! ## Lexemes -/

/-- **The lexical grammar.**  With a construct or nothing pending, a text begins with the lexeme
`w`, of a category, and is left with `rest` and with what is pending behind the lexeme. -/
inductive Lexeme (extraAtoms : WordSet) :
    Option Construct → (w rest : Text) → Category → Option Construct → Prop where
  /-- What is pending goes on. -/
  | resumed {k : Construct} {w rest : Text} {pending : Option Construct} (hne : w ≠ [])
      (h : k.Extent w rest pending) : Lexeme extraAtoms (some k) w rest k.category pending
  | blank {w rest : Text} (hne : w ≠ []) (h : Text.MaximalRun Alphabet.blanks.contains w rest) :
      Lexeme extraAtoms none w rest .unstyled none
  /-- A string begins with a quote, which the same character closes. -/
  | string {quote : Char} {w rest : Text} {pending : Option Construct}
      (hquote : quote = '\"' ∨ quote = '\x60')
      (h : (Construct.string quote).Extent w rest pending) :
      Lexeme extraAtoms none (quote :: w) rest .string pending
  | punctuation {c : Char} {rest : Text}
      (hc : c ∈ ['[', ']', '{', '}', '(', ')', ',', ';', ':', '.']) :
      Lexeme extraAtoms none [c] rest .punctuation none
  | number {digit : Char} {w rest : Text} (hdigit : digit ∈ Alphabet.digits)
      (h : Text.MaximalRun Alphabet.numberCharacters.contains w rest) :
      Lexeme extraAtoms none (digit :: w) rest .number none
  /-- The star of the opening delimiter is no part of a closing one. -/
  | blockComment {w rest : Text} {pending : Option Construct}
      (h : Construct.blockComment.Extent w rest pending) :
      Lexeme extraAtoms none ('/' :: '*' :: w) rest .comment pending
  | lineComment {w : Text} : Lexeme extraAtoms none ('/' :: '/' :: w) [] .comment none
  /-- Any other character begins a word. -/
  | word {initial : Char} {others rest : Text} {category : Category}
      (hblank : initial ∉ Alphabet.blanks) (hquote : initial ≠ '\"' ∧ initial ≠ '\x60')
      (hpunctuation : initial ∉ ['[', ']', '{', '}', '(', ')', ',', ';', ':', '.'])
      (hdigit : initial ∉ Alphabet.digits)
      (hslash : initial = '/' →
        (others ++ rest).head? ≠ some '*' ∧ (others ++ rest).head? ≠ some '/')
      (hrun : Text.MaximalRun Alphabet.wordCharacters.contains others rest)
      (hcategory : Word.HasCategory extraAtoms (initial :: others) category) :
      Lexeme extraAtoms none (initial :: others) rest category none

namespace Lexeme

variable {extraAtoms : WordSet} {pending after : Option Construct} {w rest : Text} {c : Category}

theorem ne_nil (h : Lexeme extraAtoms pending w rest c after) : w ≠ [] := by
  cases h with
  | resumed hne _ => exact hne
  | blank hne _ => exact hne
  | string | punctuation | number | blockComment | lineComment | word =>
    exact List.cons_ne_nil _ _

/-- Only the punctuation characters are punctuation, each alone. -/
theorem exists_of_punctuation (h : Lexeme extraAtoms pending w rest .punctuation after) :
    ∃ c ∈ ['[', ']', '{', '}', '(', ')', ',', ';', ':', '.'], w = [c] := by
  generalize hc : Category.punctuation = c at h
  cases h with
  | @resumed k w rest after hne h =>
    cases k with
    | string quote => cases hc
    | blockComment => cases hc
  | @punctuation c rest hmem => exact ⟨c, hmem, rfl⟩
  | word hblank hquote hpunctuation hdigit hslash hrun hcategory =>
    exact absurd hc.symm hcategory.ne_punctuation
  | blank | string | number | blockComment | lineComment => cases hc

/-- The character of a lexeme that is punctuation. -/
def mark? (c : Category) (w : Text) : Option Char :=
  if c = .punctuation then w.head? else none

/-- **A cursor in front of a lexeme reads it.** -/
theorem read_eq (h : Lexeme extraAtoms pending w rest c after) {s : Cursor}
    (hrest : s.rest = w ++ rest) (hlexeme : s.lexeme = []) :
    s.read extraAtoms pending = ⟨c, mark? c w, after, s.forward w.length⟩ := by
  cases h with
  | @resumed k w rest after hne h =>
    have hmark : mark? k.category w = none := by
      cases k with
      | string quote => rfl
      | blockComment => rfl
    rw [hmark]
    exact Construct.read_of_extent h hrest
  | blank hne hrun =>
    rw [← Alphabet.isBlank_eq] at hrun
    exact Cursor.read_of_blank hrest hne hrun
  | string hquote h => exact Cursor.read_of_string hrest (Cursor.isQuote_iff.mpr hquote) h
  | @punctuation c rest hc =>
    have hpunctuation : Word.isPunctuation c := List.contains_iff_mem.mpr hc
    obtain ⟨hblank, hquote⟩ := Cursor.not_isBlank_of_isPunctuation hpunctuation
    rw [Cursor.read_of_cons hrest hblank, if_neg hquote, if_pos hpunctuation]
    rfl
  | number hdigit hrun =>
    rw [← Alphabet.isNumberChar_eq] at hrun
    exact Cursor.read_of_number hrest (Alphabet.isDigit_iff.mpr hdigit) hrun
  | blockComment h => exact Cursor.read_of_blockComment hrest h
  | lineComment =>
    rw [List.append_nil] at hrest
    exact Cursor.read_of_lineComment hrest
  | @word initial others rest c hblank hquote hpunctuation hdigit hslash hrun hcategory =>
    have hmark : mark? c (initial :: others) = none := if_neg hcategory.ne_punctuation
    have hisQuote : ¬ Cursor.isQuote initial := by
      rw [Cursor.isQuote_iff, not_or]
      exact hquote
    have hisPunctuation : ¬ Word.isPunctuation initial := fun h =>
      hpunctuation (List.contains_iff_mem.mp h)
    rw [← Alphabet.isWordChar_eq] at hrun
    rw [hmark]
    exact Cursor.read_of_word hrest hlexeme (mt Alphabet.isBlank_iff.mp hblank) hisQuote
      hisPunctuation (mt Alphabet.isDigit_iff.mp hdigit) hslash hrun hcategory

/-- **A text begins with one lexeme only.** -/
theorem unique {w' rest' : Text} {c' : Category} {after' : Option Construct}
    (h : Lexeme extraAtoms pending w rest c after)
    (h' : Lexeme extraAtoms pending w' rest' c' after') (heq : w ++ rest = w' ++ rest') :
    w = w' ∧ rest = rest' ∧ c = c' ∧ after = after' := by
  -- the rules need not be compared with one another: one cursor reads both lexemes
  have hread := h.read_eq (s := Cursor.ofLine (w ++ rest) 1) rfl rfl
  have hread' := h'.read_eq (s := Cursor.ofLine (w ++ rest) 1) heq rfl
  rw [hread, Reading.mk.injEq] at hread'
  obtain ⟨hc, -, hafter, hcursor⟩ := hread'
  have hw : w = w' := by
    have hlexeme := congrArg Cursor.lexeme hcursor
    simp only [Cursor.lexeme_forward, Cursor.ofLine, List.nil_append, List.take_left] at hlexeme
    rw [heq, List.take_left] at hlexeme
    exact hlexeme
  subst hw
  exact ⟨rfl, List.append_cancel_left heq, hc, hafter⟩

end Lexeme

/-- With nothing pending, the first character settles the kind of the lexeme; only a slash needs the
second one too. -/
theorem exists_lexeme_none (extraAtoms : WordSet) (initial : Char) (t : Text) :
    ∃ w rest c after, initial :: t = w ++ rest ∧ Lexeme extraAtoms none w rest c after := by
  by_cases hblank : initial ∈ Alphabet.blanks
  · obtain ⟨w, rest, hw, hrun⟩ := Text.exists_maximalRun Alphabet.blanks.contains (initial :: t)
    refine ⟨w, rest, .unstyled, none, hw, .blank ?_ hrun⟩
    rintro rfl
    exact hrun.ends initial (congrArg List.head? hw).symm (List.contains_iff_mem.mpr hblank)
  by_cases hquote : initial = '\"' ∨ initial = '\x60'
  · obtain ⟨w, rest, after, rfl, h⟩ := (Construct.string initial).exists_extent t
    exact ⟨initial :: w, rest, .string, after, rfl, .string hquote h⟩
  by_cases hpunctuation : initial ∈ ['[', ']', '{', '}', '(', ')', ',', ';', ':', '.']
  · exact ⟨[initial], t, .punctuation, none, rfl, .punctuation hpunctuation⟩
  by_cases hdigit : initial ∈ Alphabet.digits
  · obtain ⟨w, rest, rfl, hrun⟩ := Text.exists_maximalRun Alphabet.numberCharacters.contains t
    exact ⟨initial :: w, rest, .number, none, rfl, .number hdigit hrun⟩
  by_cases hstar : initial = '/' ∧ t.head? = some '*'
  · obtain ⟨rfl, hhead⟩ := hstar
    obtain ⟨t, rfl⟩ := List.head?_eq_some_iff.mp hhead
    obtain ⟨w, rest, after, rfl, h⟩ := Construct.blockComment.exists_extent t
    exact ⟨'/' :: '*' :: w, rest, .comment, after, rfl, .blockComment h⟩
  by_cases hslash : initial = '/' ∧ t.head? = some '/'
  · obtain ⟨rfl, hhead⟩ := hslash
    obtain ⟨t, rfl⟩ := List.head?_eq_some_iff.mp hhead
    exact ⟨'/' :: '/' :: t, [], .comment, none, (List.append_nil _).symm, .lineComment⟩
  · obtain ⟨w, rest, rfl, hrun⟩ := Text.exists_maximalRun Alphabet.wordCharacters.contains t
    refine ⟨initial :: w, rest, _, none, rfl, .word hblank (not_or.mp hquote) hpunctuation
      hdigit ?_ hrun (Word.hasCategory_category extraAtoms initial w)⟩
    intro heq
    exact ⟨fun h => hstar ⟨heq, h⟩, fun h => hslash ⟨heq, h⟩⟩

/-- **Every text that is not empty begins with a lexeme.** -/
theorem exists_lexeme (extraAtoms : WordSet) (pending : Option Construct) {t : Text}
    (hne : t ≠ []) : ∃ w rest c after, t = w ++ rest ∧
      Lexeme extraAtoms pending w rest c after := by
  cases pending with
  | some k =>
    obtain ⟨w, rest, after, rfl, h⟩ := k.exists_extent t
    refine ⟨w, rest, k.category, after, rfl, .resumed ?_ h⟩
    -- a construct takes at least its delimiter, or the whole text
    rintro rfl
    cases h with
    | closed hw => exact hw.ne_nil rfl
    | unfinished => exact hne rfl
  | none =>
    obtain ⟨initial, t, rfl⟩ := List.exists_cons_of_ne_nil hne
    exact exists_lexeme_none extraAtoms initial t

/-- Reading a part of the rest leaves the other part. -/
theorem Cursor.lexeme_rest_forward {s : Cursor} {w rest : Text} (hlexeme : s.lexeme = [])
    (hrest : s.rest = w ++ rest) :
    (s.forward w.length).lexeme = w ∧ (s.forward w.length).rest = rest := by
  constructor
  · rw [lexeme_forward, hlexeme, hrest, List.nil_append, List.take_left]
  · rw [rest_forward, hrest, List.drop_left]

/-- **What a cursor reads is a lexeme**, and the mark is its character if it is punctuation. -/
theorem Cursor.lexeme_read {s : Cursor} (extraAtoms : WordSet) (pending : Option Construct)
    (hne : s.rest ≠ []) (hlexeme : s.lexeme = []) :
    ∃ w rest c after, Lexeme extraAtoms pending w rest c after ∧
      s.read extraAtoms pending = ⟨c, Lexeme.mark? c w, after, s.forward w.length⟩ ∧
      (s.forward w.length).lexeme = w ∧ (s.forward w.length).rest = rest := by
  obtain ⟨w, rest, c, after, hrest, hw⟩ := exists_lexeme extraAtoms pending hne
  exact ⟨w, rest, c, after, hw, hw.read_eq hrest hlexeme, lexeme_rest_forward hlexeme hrest⟩

end EditorMode
