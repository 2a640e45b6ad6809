import EditorMode.Text.Blank
import EditorMode.Word
import Mathlib.Data.List.Basic

/-! # Alphabets

What the lexical rules are about are kinds of characters: digits, upper-case letters, the characters
of words, and blanks.  Here each kind is spelled out as the list of its characters, and does not
depend on how a reader tests a character.  For each test there is a lemma that it tests membership
in the list. -/

namespace EditorMode.Alphabet

/-- The digits of numbers. -/
def digits : List Char := "0123456789".toList

/-- The characters of which numbers are made, behind their first digit. -/
def numberCharacters : List Char := digits ++ ['.']

/-- The letters with which variables begin. -/
def upperCase : List Char := "ABCDEFGHIJKLMNOPQRSTUVWXYZ".toList

/-- The characters of which words are made. -/
def wordCharacters : List Char :=
  upperCase ++ "abcdefghijklmnopqrstuvwxyz".toList ++ digits ++ ['_', '$']

/-- The characters that are white space in Unicode. -/
def blanks : List Char :=
  ['\t', '\n', '\x0B', '\x0C', '\r', ' ', '\u0085', '\u00A0', '\u1680', '\u2000', '\u2001',
   '\u2002', '\u2003', '\u2004', '\u2005', '\u2006', '\u2007', '\u2008', '\u2009', '\u200A',
   '\u2028', '\u2029', '\u202F', '\u205F', '\u3000']

variable {c : Char}

/-! ## Tests for letters and digits -/

/-- A test that ASCII characters only can pass is membership in a list of such characters, if it is
so for the ASCII characters. -/
theorem iff_mem_of_ascii {p : Char → Bool} {alphabet : List Char}
    (hp : ∀ c, p c → c.toNat < 128) (halphabet : alphabet.all (·.toNat < 128))
    (hagree : (List.range 128).all fun n => p (Char.ofNat n) == alphabet.contains (Char.ofNat n))
    (c : Char) : p c ↔ c ∈ alphabet := by
  by_cases hc : c.toNat < 128
  · have h := beq_iff_eq.mp (List.all_eq_true.mp hagree c.toNat (List.mem_range.mpr hc))
    rw [Char.ofNat_toNat] at h
    rw [h, List.contains_iff_mem]
  · refine iff_of_false (mt (hp c) hc) fun hmem => hc ?_
    exact of_decide_eq_true (List.all_eq_true.mp halphabet c hmem)

theorem toNat_lt_of_isUpper (h : c.isUpper) : c.toNat < 128 := by
  obtain ⟨-, hZ⟩ : 'A'.val ≤ c.val ∧ c.val ≤ 'Z'.val := of_decide_eq_true h
  have hlast : c.toNat ≤ 90 := UInt32.le_iff_toNat_le.mp hZ
  omega

theorem toNat_lt_of_isDigit (h : c.isDigit) : c.toNat < 128 := by
  have hrange : 48 ≤ c.toNat ∧ c.toNat ≤ 57 := Char.isDigit_iff_toNat.mp h
  omega

theorem toNat_lt_of_isAlphanum (h : c.isAlphanum) : c.toNat < 128 := by
  rcases Bool.or_eq_true_iff.mp h with halpha | hdigit
  · rcases Bool.or_eq_true_iff.mp halpha with hupper | hlower
    · exact toNat_lt_of_isUpper hupper
    · obtain ⟨-, hz⟩ := Bool.and_eq_true_iff.mp hlower
      have hlast : c.toNat ≤ 122 := UInt32.le_iff_toNat_le.mp (of_decide_eq_true hz)
      omega
  · exact toNat_lt_of_isDigit hdigit

theorem isDigit_iff : c.isDigit ↔ c ∈ digits :=
  iff_mem_of_ascii (p := Char.isDigit) (fun _ => toNat_lt_of_isDigit) rfl (by decide +kernel) c

theorem isUpper_iff : c.isUpper ↔ c ∈ upperCase :=
  iff_mem_of_ascii (p := Char.isUpper) (fun _ => toNat_lt_of_isUpper) rfl (by decide +kernel) c

theorem isWordChar_iff : Word.isWordChar c ↔ c ∈ wordCharacters := by
  refine iff_mem_of_ascii (p := Word.isWordChar) (fun c hc => ?_) rfl (by decide +kernel) c
  simp only [Word.isWordChar, Bool.or_eq_true, beq_iff_eq] at hc
  rcases hc with (halphanum | rfl) | rfl
  · exact toNat_lt_of_isAlphanum halphanum
  · decide
  · decide

/-! ## The test for blanks -/

theorem isBlank_iff : Text.isBlank c ↔ c ∈ blanks := by
  have hcodes : c.toNat ∈ blanks.map Char.toNat ↔ c ∈ blanks :=
    List.mem_map_of_injective fun _ _ => Char.toNat_inj.mp
  rw [← hcodes]
  simp only [Text.isBlank, Text.blankRanges, List.any_cons, List.any_nil, Bool.or_false,
    Bool.or_eq_true, Bool.and_eq_true, decide_eq_true_eq, blanks, List.map_cons, List.map_nil,
    List.mem_cons, List.not_mem_nil, or_false, Char.reduceToNat]
  omega

/-- No character of words or numbers is blank. -/
theorem not_mem_blanks :
    (∀ c ∈ wordCharacters, c ∉ blanks) ∧ ∀ c ∈ numberCharacters, c ∉ blanks := by
  have hvisible : (wordCharacters ++ numberCharacters).all fun c => !blanks.contains c := by
    decide +kernel
  have h : ∀ c ∈ wordCharacters ++ numberCharacters, c ∉ blanks := by
    intro c hc hblank
    have hnot := List.all_eq_true.mp hvisible c hc
    simp [hblank] at hnot
  exact ⟨fun c hc => h c (List.mem_append_left _ hc), fun c hc => h c (List.mem_append_right _ hc)⟩

/-! ## The tests as functions -/

theorem isWordChar_eq : Word.isWordChar = wordCharacters.contains := by
  funext c
  rw [Bool.eq_iff_iff, isWordChar_iff, List.contains_iff_mem]

theorem isBlank_eq : Text.isBlank = blanks.contains := by
  funext c
  rw [Bool.eq_iff_iff, isBlank_iff, List.contains_iff_mem]

theorem isNumberChar_eq : (fun c : Char => c.isDigit || c == '.') = numberCharacters.contains := by
  funext c
  rw [Bool.eq_iff_iff, Bool.or_eq_true, isDigit_iff, beq_iff_eq, List.contains_iff_mem,
    numberCharacters, List.mem_append, List.mem_singleton]

end EditorMode.Alphabet
