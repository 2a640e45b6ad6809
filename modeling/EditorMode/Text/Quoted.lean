import EditorMode.Text.Combining
import EditorMode.Text.Unprintable

/-! # Quoted text

A text is **quoted** so that it can be read on a terminal and still be told from every other text:
between double quotes, with a backslash before a quote and before a backslash, short escapes for
the four commonest controls, and the code point in braces for a character that would not show or
would attach to its neighbour.

Which characters do not show is a matter of tables, and these grow with Unicode.  So an
`Escaping` is any choice among the writings that a character may have, and `Escaping.unicode` is
the choice by the tables. -/

namespace EditorMode.Text

/-- The code point of a character in braces, in lower-case hexadecimal digits. -/
def codePointEscape (c : Char) : Text :=
  ['\\', 'u', '{'] ++ Nat.toDigits 16 c.toNat ++ ['}']

/-- What a letter behind a backslash stands for. -/
def shortEscapes : List (Char × Char) :=
  [('0', '\x00'), ('t', '\t'), ('r', '\r'), ('n', '\n'), ('\"', '\"'), ('\\', '\\')]

/-- The writings of a character inside quotes. -/
inductive Writes (c : Char) : Text → Prop where
  | short {letter : Char} (h : shortEscapes.lookup letter = some c) : Writes c ['\\', letter]
  | codePoint : Writes c (codePointEscape c)
  /-- A character that neither means something inside quotes nor breaks a line may stand as it
  is. -/
  | itself (h : c ∉ ['\\', '\"', '\n', '\r']) : Writes c [c]

/-- A choice of one writing for each character. -/
structure Escaping where
  write : Char → Text
  writes : ∀ c, Writes c (write c)

namespace Escaping

/-- One character inside quotes, by the tables of Unicode. -/
def writeUnicode (c : Char) : Text :=
  if c = '\x00' then ['\\', '0']
  else if c = '\t' then ['\\', 't']
  else if c = '\r' then ['\\', 'r']
  else if c = '\n' then ['\\', 'n']
  else if c = '\"' then ['\\', '\"']
  else if c = '\\' then ['\\', '\\']
  else if isCombining c || isUnprintable c then codePointEscape c
  else [c]

theorem writes_writeUnicode (c : Char) : Writes c (writeUnicode c) := by
  by_cases hshort : c ∈ shortEscapes.map Prod.snd
  · simp only [shortEscapes, List.map_cons, List.map_nil, List.mem_cons, List.not_mem_nil,
      or_false] at hshort
    rcases hshort with rfl | rfl | rfl | rfl | rfl | rfl
    all_goals exact .short (by decide)
  · simp only [shortEscapes, List.map_cons, List.map_nil, List.mem_cons, List.not_mem_nil,
      or_false, not_or] at hshort
    obtain ⟨hnull, htab, hreturn, hfeed, hquote, hbackslash⟩ := hshort
    rw [writeUnicode, if_neg hnull, if_neg htab, if_neg hreturn, if_neg hfeed, if_neg hquote,
      if_neg hbackslash]
    split
    · exact .codePoint
    · exact .itself (by simp [hbackslash, hquote, hfeed, hreturn])

/-- The escaping by the tables of Unicode. -/
def unicode : Escaping := ⟨writeUnicode, writes_writeUnicode⟩

end Escaping

/-- A text between quotes. -/
def quoted (escaping : Escaping) (t : Text) : Text :=
  ['\"'] ++ t.flatMap escaping.write ++ ['\"']

end EditorMode.Text
