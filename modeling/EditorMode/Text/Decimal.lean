import EditorMode.Text.Basic

/-! # Decimal numbers

Numbers are written with as few decimal digits as possible, and read with any number of leading
zeros. -/

namespace EditorMode.Text

/-- The decimal digits of a number. -/
def decimal (n : Nat) : Text := Nat.toDigits 10 n

/-- The decimal digits of a number, with blanks before them up to a width. -/
def paddedDecimal (width n : Nat) : Text := (decimal n).leftpad width ' '

/-- The value of a digit. -/
def digitValue (c : Char) : Nat := c.toNat - '0'.toNat

/-- The value of a sequence of digits. -/
def natOfDigits (digits : Text) : Nat :=
  digits.foldl (fun n c => 10 * n + digitValue c) 0

/-- The number that a text writes: one or more ASCII digits and nothing else. -/
def nat? (t : Text) : Option Nat :=
  if !t.isEmpty && t.all Char.isDigit then some (natOfDigits t) else none

end EditorMode.Text
