import EditorMode.Text.Decimal
import Mathlib.Data.List.Induction

/-! # Decimal numbers can be read back

The digits of a number are read as that number (`natOfDigits_decimal`), and a number is read to the
end of its digits, so that anything but a digit may follow (`readDecimal?_decimal_append`).  Without
leading zeros a number has no other digits (`decimal_natOfDigits`). -/

namespace EditorMode.Text

variable {n : Nat} {rest : Text}

/-! ## Digits -/

theorem isDigit_of_mem_decimal {c : Char} (h : c ∈ decimal n) : c.isDigit :=
  Nat.isDigit_of_mem_toDigits (by decide) (by decide) h

theorem decimal_ne_nil (n : Nat) : decimal n ≠ [] := Nat.toDigits_ne_nil

theorem natOfDigits_decimal (n : Nat) : natOfDigits (decimal n) = n :=
  Nat.ofDigitChars_toDigits (by decide) (by decide)

theorem nat?_decimal (n : Nat) : nat? (decimal n) = some n := by
  have hdigits : (decimal n).all Char.isDigit :=
    List.all_eq_true.mpr fun _ hc => isDigit_of_mem_decimal hc
  simp [nat?, decimal_ne_nil, hdigits, natOfDigits_decimal]

theorem digitValue_lt {c : Char} (h : c.isDigit) : digitValue c < 10 := by
  have hrange := Char.isDigit_iff_toNat.mp h
  simp only [digitValue, Char.reduceToNat] at *
  omega

theorem digitChar_digitValue {c : Char} (h : c.isDigit) : Nat.digitChar (digitValue c) = c := by
  have hrange := Char.isDigit_iff_toNat.mp h
  have hchar : ∀ value < 10, Nat.digitChar value = Char.ofNat (value + '0'.toNat) := by decide
  rw [hchar _ (digitValue_lt h), digitValue, Nat.sub_add_cancel hrange.1, Char.ofNat_toNat]

theorem natOfDigits_append_singleton (digits : Text) (c : Char) :
    natOfDigits (digits ++ [c]) = 10 * natOfDigits digits + digitValue c := by
  rw [natOfDigits, List.foldl_append]
  rfl

/-- **Digits without leading zeros are the digits of their number.** -/
theorem decimal_natOfDigits {digits : Text} (hne : digits ≠ []) (hdigits : ∀ c ∈ digits, c.isDigit)
    (hzero : digits.head? = some '0' → digits = ['0']) : decimal (natOfDigits digits) = digits := by
  induction digits using List.reverseRecOn with
  | nil => exact absurd rfl hne
  | append_singleton others c ih =>
    have hc : c.isDigit := hdigits c (by simp)
    have hlt := digitValue_lt hc
    rw [natOfDigits_append_singleton, decimal, Nat.toDigits_eq_if (by decide)]
    rcases others with _ | ⟨d, others⟩
    · rw [if_pos (by simp [natOfDigits, hlt])]
      simp [natOfDigits, digitChar_digitValue hc]
    · have hd : d ≠ '0' := fun hd => by simp [hd] at hzero
      have hothers := ih (by simp) (fun e he => hdigits e (List.mem_append_left _ he))
        (fun hhead => absurd (Option.some.inj hhead) hd)
      have hpos : natOfDigits (d :: others) ≠ 0 := by
        intro hnull
        rw [hnull] at hothers
        exact hd (List.cons.inj hothers).1.symm
      rw [if_neg (by omega), Nat.mul_add_div (by decide), Nat.mul_add_mod, Nat.div_eq_of_lt hlt,
        Nat.mod_eq_of_lt hlt, Nat.add_zero, digitChar_digitValue hc]
      exact congrArg (· ++ [c]) hothers

/-- Only the digits of zero begin with a zero. -/
theorem decimal_of_head?_eq_zero {n : Nat} (h : (decimal n).head? = some '0') :
    decimal n = ['0'] := by
  induction n using Nat.strongRecOn with
  | ind n ih =>
    rw [decimal, Nat.toDigits_eq_if (by decide)] at h ⊢
    by_cases hlt : n < 10
    · rw [if_pos hlt] at h ⊢
      exact congrArg (· :: []) (Option.some.inj h)
    · have hne : Nat.toDigits 10 (n / 10) ≠ [] := decimal_ne_nil (n / 10)
      rw [if_neg hlt, List.head?_append, List.head?_eq_some_head hne, Option.some_or,
        ← List.head?_eq_some_head hne] at h
      have hquotient :=
        congrArg natOfDigits (ih (n / 10) (Nat.div_lt_self (by omega) (by decide)) h)
      rw [natOfDigits_decimal] at hquotient
      have hzero : natOfDigits ['0'] = 0 := rfl
      omega

/-- No digit begins a text. -/
def BeginsWithoutDigit (t : Text) : Prop := ∀ c, t.head? = some c → ¬ c.isDigit

theorem takeWhile_isDigit_decimal_append (h : BeginsWithoutDigit rest) :
    (decimal n ++ rest).takeWhile Char.isDigit = decimal n := by
  rw [List.takeWhile_append_of_pos fun _ hc => isDigit_of_mem_decimal hc]
  cases rest with
  | nil => exact List.append_nil _
  | cons c rest => rw [List.takeWhile_cons_of_neg (h c rfl), List.append_nil]

theorem dropWhile_isDigit_decimal_append (h : BeginsWithoutDigit rest) :
    (decimal n ++ rest).dropWhile Char.isDigit = rest := by
  rw [List.dropWhile_append_of_pos fun _ hc => isDigit_of_mem_decimal hc]
  cases rest with
  | nil => rfl
  | cons c rest => exact List.dropWhile_cons_of_neg (h c rfl)

/-! ## Reading -/

/-- The number that a text begins with, and what follows its digits. -/
def readDecimal? (t : Text) : Option (Nat × Text) :=
  (nat? (t.takeWhile Char.isDigit)).map (·, t.dropWhile Char.isDigit)

/-- **A number is read back.** -/
theorem readDecimal?_decimal_append (h : BeginsWithoutDigit rest) :
    readDecimal? (decimal n ++ rest) = some (n, rest) := by
  rw [readDecimal?, takeWhile_isDigit_decimal_append h, dropWhile_isDigit_decimal_append h,
    nat?_decimal, Option.map_some]

/-! ## Line feeds -/

theorem lineFeed_notMem_decimal (n : Nat) : '\n' ∉ decimal n := fun h =>
  absurd (isDigit_of_mem_decimal h) (by decide)

theorem return_notMem_decimal (n : Nat) : '\r' ∉ decimal n := fun h =>
  absurd (isDigit_of_mem_decimal h) (by decide)

theorem lineFeed_notMem_paddedDecimal (width n : Nat) : '\n' ∉ paddedDecimal width n := by
  rw [paddedDecimal, List.leftpad, List.mem_append, not_or]
  exact ⟨fun h => absurd (List.eq_of_mem_replicate h) (by decide), lineFeed_notMem_decimal n⟩

end EditorMode.Text
