import EditorMode.Json
import EditorMode.Proofs.Text.Decimal
import Mathlib.Data.List.Basic

/-! # How JSON is spelled

JSON can spell one string in many ways, as each of its characters may be escaped, and blanks may
stand between any two of its pieces.  This module says what the spellings are, character by
character (`CharForm`), symbol by symbol (`Symbol.Form`) and for a whole text (`Spells`).  Where
numbers are kept apart, a text is divided into exactly the symbols that it spells, and a text with
anything else in it has no symbols (`Spells.symbols?_eq_some`); every text that has symbols spells
them (`spells_of_symbols?`). -/

namespace EditorMode.Json

/-! ## Characters of a string -/

/-- The hexadecimal digits in the order of their values, with letters of either case. -/
def hexDigits : List Text := ["0123456789abcdef".toList, "0123456789ABCDEF".toList]

/-- Whether a character is a hexadecimal digit of a value. -/
def IsHexDigit (value : Nat) (c : Char) : Prop := ∃ digits ∈ hexDigits, digits[value]? = some c

/-- The numbers of four hexadecimal digits. -/
inductive HexUnit : Nat → Text → Prop
  | mk {a b c d : Nat} {p q r s : Char} : IsHexDigit a p → IsHexDigit b q → IsHexDigit c r →
      IsHexDigit d s → HexUnit (((a * 16 + b) * 16 + c) * 16 + d) [p, q, r, s]

/-- What a letter behind a backslash stands for. -/
def shortEscapes : List (Char × Char) :=
  [('\"', '\"'), ('\\', '\\'), ('/', '/'), ('b', '\x08'), ('f', '\x0C'), ('n', '\n'), ('r', '\r'),
    ('t', '\t')]

/-- The forms of a character in a string: as itself, unless it is a quote, a backslash or a
control; with a letter behind a backslash; as one UTF-16 unit; or as a pair of them. -/
inductive CharForm : Char → Text → Prop
  | plain {c : Char} : c ≠ '\"' → c ≠ '\\' → 0x20 ≤ c.toNat → CharForm c [c]
  | short {letter c : Char} : (letter, c) ∈ shortEscapes → CharForm c ['\\', letter]
  | unit {c : Char} {digits : Text} : HexUnit c.toNat digits → CharForm c ('\\' :: 'u' :: digits)
  | pair {c : Char} {high low : Text} : 0x10000 ≤ c.toNat →
      HexUnit (0xD800 + (c.toNat - 0x10000) / 0x400) high →
      HexUnit (0xDC00 + (c.toNat - 0x10000) % 0x400) low →
      CharForm c ('\\' :: 'u' :: (high ++ '\\' :: 'u' :: low))

theorem toNat_lt_of_hexValue? {c : Char} {value : Nat} (h : hexValue? c = some value) :
    c.toNat < 128 := by
  have hle (last : Char) (hlast : last.toNat < 128) (hc : c ≤ last) : c.toNat < 128 :=
    Nat.lt_of_le_of_lt hc hlast
  unfold hexValue? at h
  split at h
  · rename_i hc
    exact hle '9' (by decide) (Char.isDigit_iff_toNat.mp hc).2
  · split at h
    · rename_i hc
      exact hle 'f' (by decide) hc.2
    · split at h
      · rename_i hc
        exact hle 'F' (by decide) hc.2
      · cases h

theorem isHexDigit_of_hexValue? {c : Char} {value : Nat} (h : hexValue? c = some value) :
    IsHexDigit value c := by
  have hall : ∀ n < 128, ∀ value ∈ hexValue? (Char.ofNat n), IsHexDigit value (Char.ofNat n) := by
    unfold IsHexDigit
    decide +kernel
  have hc := hall c.toNat (toNat_lt_of_hexValue? h)
  rw [Char.ofNat_toNat] at hc
  exact hc value h

theorem IsHexDigit.lt {c : Char} {value : Nat} (h : IsHexDigit value c) : value < 16 := by
  obtain ⟨digits, hdigits, hc⟩ := h
  have hlength : ∀ digits ∈ hexDigits, digits.length = 16 := by decide +kernel
  rw [← hlength digits hdigits]
  exact (List.getElem?_eq_some_iff.mp hc).1

theorem IsHexDigit.hexValue?_eq {c : Char} {value : Nat} (h : IsHexDigit value c) :
    hexValue? c = some value := by
  have hall : ∀ digits ∈ hexDigits, ∀ value < 16,
      (digits[value]?).bind hexValue? = some value := by decide +kernel
  have hlt := h.lt
  obtain ⟨digits, hdigits, hc⟩ := h
  have hvalue := hall digits hdigits value hlt
  rwa [hc, Option.bind_some] at hvalue

theorem HexUnit.lt {unit : Nat} {digits : Text} (h : HexUnit unit digits) : unit < 0x10000 := by
  cases h with
  | mk ha hb hc hd =>
    have := ha.lt
    have := hb.lt
    have := hc.lt
    have := hd.lt
    omega

theorem HexUnit.hexQuad?_append {unit : Nat} {digits : Text} (h : HexUnit unit digits)
    (rest : Text) : hexQuad? (digits ++ rest) = some (unit, rest) := by
  cases h with
  | mk ha hb hc hd =>
    simp [hexQuad?, ha.hexValue?_eq, hb.hexValue?_eq, hc.hexValue?_eq, hd.hexValue?_eq]

theorem exists_hexUnit_of_hexQuad? {unit : Nat} {t rest : Text}
    (h : hexQuad? t = some (unit, rest)) : ∃ digits, HexUnit unit digits ∧ t = digits ++ rest := by
  unfold hexQuad? at h
  split at h
  · rename_i p q r s t
    simp only [Option.bind_eq_bind, Option.bind_eq_some_iff, Option.pure_def, Option.some.injEq,
      Prod.mk.injEq] at h
    obtain ⟨a, ha, b, hb, c, hc, d, hd, rfl, rfl⟩ := h
    exact ⟨[p, q, r, s], .mk (isHexDigit_of_hexValue? ha) (isHexDigit_of_hexValue? hb)
      (isHexDigit_of_hexValue? hc) (isHexDigit_of_hexValue? hd), rfl⟩
  · cases h

/-! ### Reading a character -/

theorem toNat_ofNat_of_isValidChar {n : Nat} (h : n.isValidChar) : (Char.ofNat n).toNat = n := by
  rw [Char.ofNat, dif_pos h]
  rfl

/-- No character has the number of a surrogate. -/
theorem toNat_notMem_surrogates (c : Char) :
    c.toNat < 0xD800 ∨ 0xE000 ≤ c.toNat ∧ c.toNat < 0x110000 := by
  rcases c.valid with h | ⟨hlow, hhigh⟩
  · exact .inl h
  · exact .inr ⟨hlow, hhigh⟩

theorem unicodeEscape?_unit_append {c : Char} {digits : Text} (h : HexUnit c.toNat digits)
    (rest : Text) : unicodeEscape? (digits ++ rest) = some (c, rest) := by
  have hunit : c.toNat < 0xD800 ∨ 0xE000 ≤ c.toNat := by
    have := toNat_notMem_surrogates c
    omega
  simp [unicodeEscape?, h.hexQuad?_append, hunit, Char.ofNat_toNat]

theorem unicodeEscape?_pair_append {unit unit' : Nat} {high low : Text} (hhigh : HexUnit unit high)
    (hlow : HexUnit unit' low) (hrange : 0xD800 ≤ unit ∧ unit < 0xDC00)
    (hrange' : 0xDC00 ≤ unit' ∧ unit' < 0xE000) (rest : Text) :
    unicodeEscape? (high ++ '\\' :: 'u' :: (low ++ rest)) =
      some (Char.ofNat (0x10000 + (unit - 0xD800) * 0x400 + (unit' - 0xDC00)), rest) := by
  have hsurrogate : ¬ (unit < 0xD800 ∨ 0xE000 ≤ unit) := by omega
  simp [unicodeEscape?, hhigh.hexQuad?_append, hlow.hexQuad?_append, hsurrogate, hrange.2, hrange']

/-- A unit that is no surrogate is a form of the character with its number. -/
theorem HexUnit.charForm {unit : Nat} {digits : Text} (h : HexUnit unit digits)
    (hunit : unit < 0xD800 ∨ 0xE000 ≤ unit) :
    CharForm (Char.ofNat unit) ('\\' :: 'u' :: digits) := by
  have hlt := h.lt
  have hchar : (Char.ofNat unit).toNat = unit := by
    apply toNat_ofNat_of_isValidChar
    unfold Nat.isValidChar
    omega
  exact .unit (hchar.symm ▸ h)

/-- A high surrogate before a low one is a form of the character that they make. -/
theorem HexUnit.charForm_pair {unit unit' : Nat} {high low : Text} (hhigh : HexUnit unit high)
    (hlow : HexUnit unit' low) (hrange : 0xD800 ≤ unit ∧ unit < 0xDC00)
    (hrange' : 0xDC00 ≤ unit' ∧ unit' < 0xE000) :
    CharForm (Char.ofNat (0x10000 + (unit - 0xD800) * 0x400 + (unit' - 0xDC00)))
      ('\\' :: 'u' :: (high ++ '\\' :: 'u' :: low)) := by
  obtain ⟨n, hn⟩ : ∃ n, n = 0x10000 + (unit - 0xD800) * 0x400 + (unit' - 0xDC00) := ⟨_, rfl⟩
  have hchar : (Char.ofNat n).toNat = n := by
    apply toNat_ofNat_of_isValidChar
    unfold Nat.isValidChar
    omega
  have hquotient : 0xD800 + (n - 0x10000) / 0x400 = unit := by omega
  have hremainder : 0xDC00 + (n - 0x10000) % 0x400 = unit' := by omega
  rw [← hn]
  refine .pair ?_ ?_ ?_
  · rw [hchar]
    omega
  · rw [hchar, hquotient]
    exact hhigh
  · rw [hchar, hremainder]
    exact hlow

/-- Behind `\u` stand one or two units of the character that is read. -/
theorem exists_charForm_of_unicodeEscape? {c : Char} {t rest : Text}
    (h : unicodeEscape? t = some (c, rest)) :
    ∃ form, CharForm c ('\\' :: 'u' :: form) ∧ t = form ++ rest := by
  simp only [unicodeEscape?, Option.bind_eq_bind, Option.bind_eq_some_iff] at h
  obtain ⟨⟨unit, t'⟩, hquad, h⟩ := h
  obtain ⟨digits, hdigits, rfl⟩ := exists_hexUnit_of_hexQuad? hquad
  dsimp only at h
  split at h
  · rename_i hunit
    obtain ⟨rfl, rfl⟩ := Prod.mk.inj (Option.some.inj h)
    exact ⟨digits, hdigits.charForm hunit, rfl⟩
  · rename_i hunit
    split at h
    · rename_i hlt
      split at h
      · obtain ⟨⟨unit', t''⟩, hquad', hread⟩ := Option.bind_eq_some_iff.mp h
        obtain ⟨digits', hdigits', rfl⟩ := exists_hexUnit_of_hexQuad? hquad'
        dsimp only at hread
        split at hread
        · rename_i hrange'
          obtain ⟨rfl, rfl⟩ := Prod.mk.inj (Option.some.inj hread)
          exact ⟨_, hdigits.charForm_pair hdigits' ⟨by omega, hlt⟩ hrange', by simp⟩
        · cases hread
      · cases h
    · cases h

/-- A letter that stands for a character by itself does not begin a unit. -/
theorem shortEscape?_of_mem {letter c : Char} (h : (letter, c) ∈ shortEscapes) :
    shortEscape? letter = some c ∧ letter ≠ 'u' := by
  have hall : ∀ e ∈ shortEscapes, shortEscape? e.1 = some e.2 ∧ e.1 ≠ 'u' := by decide
  exact hall _ h

theorem mem_of_shortEscape? {letter c : Char} (h : shortEscape? letter = some c) :
    (letter, c) ∈ shortEscapes := by
  unfold shortEscape? at h
  split at h <;> simp_all [shortEscapes, eq_comm]

theorem contentChar?_short {letter : Char} (h : letter ≠ 'u') (rest : Text) :
    contentChar? ('\\' :: letter :: rest) = (shortEscape? letter).map (·, rest) := by
  rw [contentChar?]
  exact h

theorem contentChar?_plain {c : Char} (h : c ≠ '\\') (rest : Text) :
    contentChar? (c :: rest) = if c = '\\' ∨ c.toNat < 0x20 then none else some (c, rest) := by
  rw [contentChar?]
  · rintro t hc -
    exact h hc
  · rintro d t hc -
    exact h hc

theorem CharForm.contentChar?_append {c : Char} {form : Text} (h : CharForm c form) (rest : Text) :
    contentChar? (form ++ rest) = some (c, rest) := by
  cases h with
  | plain _ hbackslash hcontrol =>
    exact (contentChar?_plain hbackslash rest).trans (if_neg (by simp [hbackslash]; omega))
  | short hescape =>
    obtain ⟨hread, hu⟩ := shortEscape?_of_mem hescape
    exact (contentChar?_short hu rest).trans (by rw [hread, Option.map_some])
  | unit hdigits => exact unicodeEscape?_unit_append hdigits rest
  | pair hc hhigh hlow =>
    have hmax := toNat_notMem_surrogates c
    have hsum : 0x10000 + (0xD800 + (c.toNat - 0x10000) / 0x400 - 0xD800) * 0x400 +
        (0xDC00 + (c.toNat - 0x10000) % 0x400 - 0xDC00) = c.toNat := by omega
    have hread := unicodeEscape?_pair_append hhigh hlow (by omega) (by omega) rest
    rw [hsum, Char.ofNat_toNat] at hread
    rw [List.cons_append, List.cons_append, List.append_assoc]
    exact hread

theorem exists_charForm_of_contentChar? {c : Char} {t rest : Text} (hquote : t.head? ≠ some '\"')
    (h : contentChar? t = some (c, rest)) : ∃ form, CharForm c form ∧ t = form ++ rest := by
  unfold contentChar? at h
  split at h
  · cases h
  · obtain ⟨form, hform, rfl⟩ := exists_charForm_of_unicodeEscape? h
    exact ⟨_, hform, rfl⟩
  · obtain ⟨d, hescape, he⟩ := Option.map_eq_some_iff.mp h
    obtain ⟨rfl, rfl⟩ := Prod.mk.inj he
    exact ⟨_, .short (mem_of_shortEscape? hescape), rfl⟩
  · split at h
    · cases h
    · rename_i hplain
      obtain ⟨rfl, rfl⟩ := Prod.mk.inj (Option.some.inj h)
      obtain ⟨hbackslash, hcontrol⟩ := not_or.mp hplain
      exact ⟨_, .plain (fun hc => hquote (congrArg some hc)) hbackslash (by omega), rfl⟩

/-- No form of a character begins with the quote that ends a string. -/
theorem CharForm.head?_append {c : Char} {form : Text} (h : CharForm c form) (rest : Text) :
    (form ++ rest).head? ≠ some '\"' := by
  cases h with
  | plain hquote => exact fun hhead => hquote (Option.some.inj hhead)
  | short => simp
  | unit => simp
  | pair => simp

/-! ### Reading a string -/

theorem content?_append {content : Text} {forms : List Text}
    (h : List.Forall₂ CharForm content forms) (rest : Text) :
    content? (forms.flatten ++ '\"' :: rest) = some (content, rest) := by
  induction h with
  | nil =>
    rw [content?]
    rfl
  | @cons c form content forms hc hrest ih =>
    have hread := hc.contentChar?_append (forms.flatten ++ '\"' :: rest)
    rw [List.flatten_cons, List.append_assoc, content?, if_neg (hc.head?_append _)]
    split
    · rename_i hnone
      cases hread.symm.trans hnone
    · rename_i d t hsome
      obtain ⟨rfl, rfl⟩ := Prod.mk.inj (Option.some.inj (hread.symm.trans hsome))
      rw [ih, Option.map_some]

theorem exists_forms_of_content? {t content rest : Text} (h : content? t = some (content, rest)) :
    ∃ forms, List.Forall₂ CharForm content forms ∧ t = forms.flatten ++ '\"' :: rest := by
  fun_induction content? t generalizing content rest with
  | case1 t hquote =>
    obtain ⟨rfl, rfl⟩ := Prod.mk.inj (Option.some.inj h)
    obtain ⟨t, rfl⟩ := List.head?_eq_some_iff.mp hquote
    exact ⟨[], .nil, rfl⟩
  | case2 t hquote hnone => cases h
  | case3 t hquote c after hsome ih =>
    obtain ⟨⟨others, after'⟩, htail, he⟩ := Option.map_eq_some_iff.mp h
    obtain ⟨rfl, rfl⟩ := Prod.mk.inj he
    obtain ⟨form, hform, rfl⟩ := exists_charForm_of_contentChar? hquote hsome
    obtain ⟨forms, hforms, rfl⟩ := ih htail
    exact ⟨form :: forms, .cons hform hforms, by simp⟩

/-! ## Symbols -/

/-- The symbols that are one mark. -/
def marks : List (Symbol × Char) :=
  [(.objectStart, '{'), (.objectEnd, '}'), (.arrayStart, '['), (.arrayEnd, ']'), (.colon, ':'),
    (.comma, ',')]

/-- The forms of a symbol. -/
inductive Symbol.Form : Symbol → Text → Prop
  | mark {symbol : Symbol} {c : Char} : (symbol, c) ∈ marks → Form symbol [c]
  | null : Form .null ['n', 'u', 'l', 'l']
  | number (n : Nat) : Form (.number n) (Text.decimal n)
  | string {content : Text} {forms : List Text} : List.Forall₂ CharForm content forms →
      Form (.string content) ('\"' :: (forms.flatten ++ ['\"']))

/-- A mark is read without regard to what follows. -/
theorem symbol?_mark {symbol : Symbol} {c : Char} (h : (symbol, c) ∈ marks) (rest : Text) :
    isBlank c = false ∧ symbol? c rest = some (symbol, rest) := by
  simp only [marks, List.mem_cons, Prod.mk.injEq, List.not_mem_nil, or_false] at h
  rcases h with ⟨rfl, rfl⟩ | ⟨rfl, rfl⟩ | ⟨rfl, rfl⟩ | ⟨rfl, rfl⟩ | ⟨rfl, rfl⟩ | ⟨rfl, rfl⟩
  all_goals exact ⟨by decide, rfl⟩

theorem symbol?_of_isDigit {c : Char} (h : c.isDigit) (t : Text) :
    symbol? c t =
      if c = '0' ∧ t.takeWhile Char.isDigit ≠ [] then none
      else some (.number (Text.natOfDigits (c :: t.takeWhile Char.isDigit)),
        t.dropWhile Char.isDigit) := by
  unfold symbol?
  rw [if_pos h]

theorem not_isBlank_of_isDigit {c : Char} (h : c.isDigit) : isBlank c = false := by
  rw [isBlank, List.contains_eq_mem, decide_eq_false_iff_not]
  intro hmem
  simp only [List.mem_cons, List.not_mem_nil, or_false] at hmem
  rcases hmem with rfl | rfl | rfl | rfl
  all_goals cases h

/-- A number is read to the end of its digits. -/
theorem exists_symbol?_decimal_append (n : Nat) {rest : Text}
    (h : Text.BeginsWithoutDigit rest) :
    ∃ c t, Text.decimal n ++ rest = c :: t ∧ c.isDigit ∧
      symbol? c t = some (.number n, rest) := by
  obtain ⟨c, digits, hdigits⟩ := List.exists_cons_of_ne_nil (Text.decimal_ne_nil n)
  have hc : c.isDigit := Text.isDigit_of_mem_decimal (hdigits ▸ List.mem_cons_self)
  have hzero : ¬ (c = '0' ∧ digits ≠ []) := by
    rintro ⟨rfl, hne⟩
    have hall := Text.decimal_of_head?_eq_zero (congrArg List.head? hdigits)
    exact hne (List.cons.inj (hdigits.symm.trans hall)).2
  have htake := Text.takeWhile_isDigit_decimal_append (n := n) h
  have hdrop := Text.dropWhile_isDigit_decimal_append (n := n) h
  rw [hdigits, List.cons_append, List.takeWhile_cons_of_pos hc] at htake
  rw [hdigits, List.cons_append, List.dropWhile_cons_of_pos hc] at hdrop
  refine ⟨c, digits ++ rest, congrArg (· ++ rest) hdigits, hc, ?_⟩
  rw [symbol?_of_isDigit hc, (List.cons.inj htake).2, hdrop, if_neg hzero, ← hdigits,
    Text.natOfDigits_decimal]

/-- **A symbol is read back**, if no digits go on behind a number. -/
theorem Symbol.Form.symbol?_append {symbol : Symbol} {form rest : Text} (h : symbol.Form form)
    (hend : ∀ n, symbol = .number n → Text.BeginsWithoutDigit rest) :
    ∃ c t, form ++ rest = c :: t ∧ isBlank c = false ∧ symbol? c t = some (symbol, rest) := by
  cases h with
  | mark h => exact ⟨_, rest, rfl, symbol?_mark h rest⟩
  | null => exact ⟨'n', _, rfl, by decide, rfl⟩
  | number n =>
    obtain ⟨c, t, htext, hc, hread⟩ := exists_symbol?_decimal_append n (hend n rfl)
    exact ⟨c, t, htext, not_isBlank_of_isDigit hc, hread⟩
  | @string content forms hforms =>
    have hread (t : Text) : symbol? '\"' t = (content? t).map fun r => (.string r.1, r.2) := by
      rw [symbol?, if_neg (by decide)]
    refine ⟨'\"', forms.flatten ++ '\"' :: rest, by simp, by decide, ?_⟩
    rw [hread, content?_append hforms rest, Option.map_some]

theorem Symbol.exists_form_of_symbol? {symbol : Symbol} {c : Char} {t rest : Text}
    (h : symbol? c t = some (symbol, rest)) : ∃ form, symbol.Form form ∧ c :: t = form ++ rest := by
  unfold symbol? at h
  split at h
  · rename_i hc
    dsimp only at h
    split at h
    · cases h
    · rename_i hzero
      obtain ⟨rfl, rfl⟩ := Prod.mk.inj (Option.some.inj h)
      have hdigits : ∀ d ∈ c :: t.takeWhile Char.isDigit, d.isDigit := by
        rintro d hd
        rcases List.mem_cons.mp hd with rfl | hd
        · exact hc
        · exact List.all_eq_true.mp List.all_takeWhile d hd
      refine ⟨_, .number _, ?_⟩
      rw [Text.decimal_natOfDigits (List.cons_ne_nil _ _) hdigits, List.cons_append,
        List.takeWhile_append_dropWhile]
      intro hhead
      by_contra hne
      exact hzero ⟨Option.some.inj hhead, fun hnil => hne (by rw [hnil, Option.some.inj hhead])⟩
  · split at h
    iterate 6
      obtain ⟨rfl, rfl⟩ := Prod.mk.inj (Option.some.inj h)
      exact ⟨_, .mark (by decide), rfl⟩
    · obtain ⟨rfl, rfl⟩ := Prod.mk.inj (Option.some.inj h)
      exact ⟨_, .null, rfl⟩
    · obtain ⟨⟨content, after⟩, hcontent, he⟩ := Option.map_eq_some_iff.mp h
      obtain ⟨rfl, rfl⟩ := Prod.mk.inj he
      obtain ⟨forms, hforms, rfl⟩ := exists_forms_of_content? hcontent
      exact ⟨_, .string hforms, by simp⟩
    · cases h

/-! ## Whole texts -/

/-- A piece of a JSON text: a symbol, or one of the values that JSON has and a configuration has no
use for. -/
abbrev Piece := Option Symbol

/-- How the other values begin: `true`, `false`, negative numbers, and numbers with a fraction or an
exponent. -/
inductive OtherForm : Text → Prop
  | literal {c : Char} (t : Text) : c ∈ ['t', 'f', '-'] → OtherForm (c :: t)
  | number {digits : Text} {mark : Char} (t : Text) : digits ≠ [] → (∀ c ∈ digits, c.isDigit) →
      mark ∈ ['.', 'e', 'E'] → OtherForm (digits ++ mark :: t)

/-- The forms of a piece. -/
def Piece.Form : Piece → Text → Prop
  | some symbol => symbol.Form
  | none => OtherForm

/-- The texts that spell some pieces: one after the other, with any blanks. -/
inductive Spells : List Piece → Text → Prop
  | nil : Spells [] []
  | blank {pieces : List Piece} {c : Char} {t : Text} :
      isBlank c → Spells pieces t → Spells pieces (c :: t)
  | piece {piece : Piece} {pieces : List Piece} {form t : Text} :
      piece.Form form → Spells pieces t → Spells (piece :: pieces) (form ++ t)

/-- Whether some pieces begin with a mark that may stand behind a value, if they begin at all. -/
def BeginsWithEnd (pieces : List Piece) : Prop :=
  ∀ next ∈ pieces.head?, next ∈ [some .comma, some .objectEnd, some .arrayEnd]

/-- Whether such a mark stands behind every number. -/
def NumbersEnd : List Piece → Prop
  | [] => True
  | piece :: pieces => (∀ n, piece = some (.number n) → BeginsWithEnd pieces) ∧ NumbersEnd pieces

theorem symbols?_of_isBlank {c : Char} (h : isBlank c) (t : Text) :
    symbols? (c :: t) = symbols? t := by
  rw [symbols?, if_pos h]

theorem symbols?_of_symbol? {symbol : Symbol} {c : Char} {t rest : Text}
    (hblank : isBlank c = false) (h : symbol? c t = some (symbol, rest)) :
    symbols? (c :: t) = (symbols? rest).map (symbol :: ·) := by
  rw [symbols?, if_neg (by simp [hblank])]
  split
  · rename_i hnone
    cases h.symm.trans hnone
  · rename_i symbol' rest' hsome
    obtain ⟨rfl, rfl⟩ := Prod.mk.inj (Option.some.inj (h.symm.trans hsome))
    rfl

theorem symbols?_of_symbol?_eq_none {c : Char} {t : Text} (hblank : isBlank c = false)
    (h : symbol? c t = none) : symbols? (c :: t) = none := by
  rw [symbols?, if_neg (by simp [hblank])]
  split
  · rfl
  · rename_i hsome
    cases h.symm.trans hsome

/-- No symbol begins like another value, nor with what may go on behind the digits of one. -/
theorem symbols?_of_mem {c : Char} (h : c ∈ ['t', 'f', '-', '.', 'e', 'E']) (t : Text) :
    symbols? (c :: t) = none := by
  simp only [List.mem_cons, List.not_mem_nil, or_false] at h
  rcases h with rfl | rfl | rfl | rfl | rfl | rfl
  all_goals exact symbols?_of_symbol?_eq_none (by decide) rfl

/-- A text that begins with another value has no symbols. -/
theorem OtherForm.symbols?_append {form : Text} (h : OtherForm form) (rest : Text) :
    symbols? (form ++ rest) = none := by
  cases h with
  | literal t hc =>
    refine symbols?_of_mem ?_ _
    simp only [List.mem_cons, List.not_mem_nil, or_false] at hc ⊢
    grind
  | @number digits mark t hne hdigits hmark =>
    obtain ⟨c, digits, rfl⟩ := List.exists_cons_of_ne_nil hne
    have hc : c.isDigit := hdigits c List.mem_cons_self
    have hmark : mark ∈ ['t', 'f', '-', '.', 'e', 'E'] ∧ mark.isDigit = false := by
      simp only [List.mem_cons, List.not_mem_nil, or_false] at hmark ⊢
      rcases hmark with rfl | rfl | rfl
      all_goals decide
    have hrest :
        (digits ++ (mark :: (t ++ rest))).dropWhile Char.isDigit = mark :: (t ++ rest) := by
      rw [List.dropWhile_append_of_pos fun d hd => hdigits d (List.mem_cons_of_mem c hd),
        List.dropWhile_cons_of_neg (by simp [hmark.2])]
    have htext : (c :: digits ++ mark :: t) ++ rest = c :: (digits ++ (mark :: (t ++ rest))) := by
      simp
    have hread := symbol?_of_isDigit hc (digits ++ (mark :: (t ++ rest)))
    rw [htext]
    split at hread
    · exact symbols?_of_symbol?_eq_none (not_isBlank_of_isDigit hc) hread
    · rw [symbols?_of_symbol? (not_isBlank_of_isDigit hc) hread, hrest, symbols?_of_mem hmark.1]
      rfl

/-- What begins a piece is no digit, if it is a mark that may stand behind a value. -/
theorem Spells.beginsWithoutDigit {pieces : List Piece} {t : Text} (h : Spells pieces t)
    (hend : BeginsWithEnd pieces) : Text.BeginsWithoutDigit t := by
  intro d hd
  cases h with
  | nil => cases hd
  | @blank pieces c t hblank =>
    obtain rfl := Option.some.inj hd
    intro hdigit
    rw [not_isBlank_of_isDigit hdigit] at hblank
    cases hblank
  | @piece piece pieces form t hform =>
    have hmark := hend piece rfl
    simp only [List.mem_cons, List.not_mem_nil, or_false] at hmark
    rcases hmark with rfl | rfl | rfl
    all_goals
      cases hform with
      | mark hmark =>
        obtain rfl := Option.some.inj hd
        revert hmark
        simp only [marks, List.mem_cons, Prod.mk.injEq, List.not_mem_nil, or_false, reduceCtorEq,
          false_and, true_and, false_or]
        rintro rfl
        decide

/-- **A text is divided into the symbols that it spells**, and only a text without other values is
divided. -/
theorem Spells.symbols?_eq_some {pieces : List Piece} {t : Text} {symbols : List Symbol}
    (h : Spells pieces t) (hend : NumbersEnd pieces) :
    symbols? t = some symbols ↔ pieces = symbols.map some := by
  induction h generalizing symbols with
  | nil =>
    rw [symbols?]
    cases symbols <;> simp
  | blank hblank _ ih =>
    rw [symbols?_of_isBlank hblank]
    exact ih hend
  | @piece piece pieces form t hform hrest ih =>
    cases piece with
    | none =>
      rw [OtherForm.symbols?_append hform]
      cases symbols <;> simp
    | some symbol =>
      have hdigits (n : Nat) (hn : symbol = .number n) : Text.BeginsWithoutDigit t :=
        hrest.beginsWithoutDigit (hend.1 n (congrArg some hn))
      obtain ⟨c, t', htext, hblank, hread⟩ := Symbol.Form.symbol?_append hform hdigits
      rw [htext, symbols?_of_symbol? hblank hread]
      cases symbols with
      | nil => simp
      | cons symbol' symbols =>
        simp only [Option.map_eq_some_iff, ih hend.2, List.map_cons, List.cons.injEq,
          Option.some.injEq]
        grind

/-- **A text that is divided spells its symbols.** -/
theorem spells_of_symbols? {t : Text} {symbols : List Symbol} (h : symbols? t = some symbols) :
    Spells (symbols.map some) t := by
  fun_induction symbols? t generalizing symbols with
  | case1 =>
    obtain rfl := Option.some.inj h
    exact .nil
  | case2 c t hblank ih => exact .blank hblank (ih h)
  | case3 c t hblank hnone => cases h
  | case4 c t hblank symbol rest hsome ih =>
    obtain ⟨others, hothers, rfl⟩ := Option.map_eq_some_iff.mp h
    obtain ⟨form, hform, htext⟩ := Symbol.exists_form_of_symbol? hsome
    rw [htext]
    exact Spells.piece (show Piece.Form (some symbol) form from hform) (ih hothers)

end EditorMode.Json
