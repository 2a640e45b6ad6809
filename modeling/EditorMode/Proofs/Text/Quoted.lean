import EditorMode.Json
import EditorMode.Text.Quoted

/-! # Quoted text can be read back

Between its quotes, a text stands character by character, and where the writing of one character
ends can be told from the writing itself (`Writes.unescape?_append`).  The end of the text is the
one quote without a backslash.  So `unquoted?` reads every quoted text back, without knowing which
writing was chosen for which character (`unquoted?_quoted`); and since no break of a line is written
as itself, a quoted text stands on one line. -/

namespace EditorMode.Text

/-! ## Hexadecimal digits -/

/-- The value of hexadecimal digits. -/
def natOfHexDigits (digits : Text) : Nat :=
  digits.foldl (fun n c => 16 * n + (Json.hexValue? c).getD 0) 0

theorem hexValue?_digitChar : ∀ d < 16, Json.hexValue? (Nat.digitChar d) = some d := by decide

/-- The digits of a number are hexadecimal digits. -/
theorem exists_digitChar_of_mem_toDigits {n : Nat} {c : Char} (h : c ∈ Nat.toDigits 16 n) :
    ∃ d < 16, c = Nat.digitChar d := by
  induction n using Nat.strongRecOn with
  | ind n ih =>
    rw [Nat.toDigits_eq_if (by decide)] at h
    split at h
    · rename_i hlt
      exact ⟨n, hlt, List.mem_singleton.mp h⟩
    · rename_i hle
      rcases List.mem_append.mp h with h | h
      · exact ih (n / 16) (Nat.div_lt_self (by omega) (by decide)) h
      · exact ⟨n % 16, Nat.mod_lt n (by decide), List.mem_singleton.mp h⟩

theorem natOfHexDigits_toDigits (n : Nat) : natOfHexDigits (Nat.toDigits 16 n) = n := by
  induction n using Nat.strongRecOn with
  | ind n ih =>
    rw [Nat.toDigits_eq_if (by decide)]
    split
    · rename_i hlt
      simp [natOfHexDigits, hexValue?_digitChar n hlt]
    · rename_i hle
      have htail := ih (n / 16) (Nat.div_lt_self (by omega) (by decide))
      rw [natOfHexDigits] at htail
      rw [natOfHexDigits, List.foldl_append, htail]
      simp only [List.foldl_cons, List.foldl_nil,
        hexValue?_digitChar _ (Nat.mod_lt n (by decide)), Option.getD_some]
      omega

/-- No hexadecimal digit is a character that ends an escape or a line. -/
theorem digitChar_ne : ∀ d < 16,
    Nat.digitChar d ≠ '}' ∧ Nat.digitChar d ≠ '\n' ∧ Nat.digitChar d ≠ '\r' := by decide

/-! ## Reading one character -/

/-- The character that the beginning of a quoted text stands for, and what follows. -/
def unescape? : Text → Option (Char × Text)
  | [] => none
  | '\\' :: 'u' :: '{' :: t =>
    some (Char.ofNat (natOfHexDigits (t.takeWhile (· ≠ '}'))), (t.dropWhile (· ≠ '}')).drop 1)
  | '\\' :: c :: t => (shortEscapes.lookup c).map (·, t)
  | c :: t => if c = '\\' ∨ c = '\"' then none else some (c, t)

theorem length_unescape?_lt {t rest : Text} {c : Char} (h : unescape? t = some (c, rest)) :
    rest.length < t.length := by
  unfold unescape? at h
  split at h
  · cases h
  · rename_i t
    obtain ⟨-, rfl⟩ := Prod.mk.inj (Option.some.inj h)
    have hdrop := (List.dropWhile_sublist (· ≠ '}') (l := t)).length_le
    simp only [List.length_drop, List.length_cons]
    omega
  · obtain ⟨d, -, he⟩ := Option.map_eq_some_iff.mp h
    obtain ⟨-, rfl⟩ := Prod.mk.inj he
    simp only [List.length_cons]
    omega
  · split at h
    · cases h
    · obtain ⟨-, rfl⟩ := Prod.mk.inj (Option.some.inj h)
      exact Nat.lt_succ_self _

theorem unescape?_codePointEscape_append (c : Char) (rest : Text) :
    unescape? (codePointEscape c ++ rest) = some (c, rest) := by
  have hdigits : ∀ d ∈ Nat.toDigits 16 c.toNat, decide (d ≠ '}') = true := by
    intro d hd
    obtain ⟨value, hvalue, rfl⟩ := exists_digitChar_of_mem_toDigits hd
    exact decide_eq_true (digitChar_ne value hvalue).1
  have htext : codePointEscape c ++ rest =
      '\\' :: 'u' :: '{' :: (Nat.toDigits 16 c.toNat ++ '}' :: rest) := by
    simp [codePointEscape]
  rw [htext, unescape?, List.takeWhile_append_of_pos hdigits,
    List.dropWhile_append_of_pos hdigits]
  simp [natOfHexDigits_toDigits]

/-- A letter behind a backslash neither begins a code point nor breaks the line. -/
theorem ne_of_lookup_shortEscapes {letter c : Char} (h : shortEscapes.lookup letter = some c) :
    letter ≠ 'u' ∧ letter ≠ '\n' ∧ letter ≠ '\r' := by
  have hne : ∀ d, shortEscapes.lookup d = none → letter ≠ d := by
    rintro d hnone rfl
    cases hnone.symm.trans h
  exact ⟨hne 'u' rfl, hne '\n' rfl, hne '\r' rfl⟩

variable {c : Char} {w : Text}

/-- **A character is read back, whatever follows.** -/
theorem Writes.unescape?_append (h : Writes c w) (rest : Text) :
    unescape? (w ++ rest) = some (c, rest) := by
  cases h with
  | @short letter hletter =>
    have hread : unescape? ('\\' :: letter :: rest) =
        (shortEscapes.lookup letter).map (·, rest) := by
      rw [unescape?]
      rintro t hu -
      exact (ne_of_lookup_shortEscapes hletter).1 hu
    exact hread.trans (by rw [hletter, Option.map_some])
  | codePoint => exact unescape?_codePointEscape_append c rest
  | itself hc =>
    simp only [List.mem_cons, List.not_mem_nil, or_false, not_or] at hc
    obtain ⟨hbackslash, hquote, -⟩ := hc
    have hread : unescape? (c :: rest) = if c = '\\' ∨ c = '\"' then none else some (c, rest) := by
      rw [unescape?]
      · rintro t hc -
        exact hbackslash hc
      · rintro d t hc -
        exact hbackslash hc
    exact hread.trans (if_neg (not_or.mpr ⟨hbackslash, hquote⟩))

/-- No writing begins with the quote that ends a text. -/
theorem Writes.exists_eq_cons (h : Writes c w) : ∃ d t, w = d :: t ∧ d ≠ '\"' := by
  cases h with
  | @short letter _ => exact ⟨'\\', [letter], rfl, by decide⟩
  | codePoint => exact ⟨'\\', _, rfl, by decide⟩
  | itself hc => exact ⟨c, [], rfl, fun hquote => hc (by simp [hquote])⟩

theorem notMem_codePointEscape (c : Char) :
    '\n' ∉ codePointEscape c ∧ '\r' ∉ codePointEscape c := by
  have hdigits : '\n' ∉ Nat.toDigits 16 c.toNat ∧ '\r' ∉ Nat.toDigits 16 c.toNat := by
    constructor
    all_goals
      intro hmem
      obtain ⟨value, hvalue, heq⟩ := exists_digitChar_of_mem_toDigits hmem
      have hne := digitChar_ne value hvalue
      simp [← heq] at hne
  simp [codePointEscape, hdigits]

/-- No writing breaks the line. -/
theorem Writes.notMem (h : Writes c w) : '\n' ∉ w ∧ '\r' ∉ w := by
  cases h with
  | short hletter =>
    obtain ⟨-, hfeed, hreturn⟩ := ne_of_lookup_shortEscapes hletter
    simp [hfeed.symm, hreturn.symm]
  | codePoint => exact notMem_codePointEscape c
  | itself hc =>
    simp only [List.mem_cons, List.not_mem_nil, or_false, not_or] at hc
    simp [Ne.symm hc.2.2.1, Ne.symm hc.2.2.2]

/-! ## Reading all -/

/-- The text whose writing goes on up to a last quote. -/
def unquotedRest? (t : Text) : Option Text :=
  if t = ['\"'] then some []
  else
    match _h : unescape? t with
    | none => none
    | some (c, rest) => (unquotedRest? rest).map (c :: ·)
termination_by t.length
decreasing_by exact length_unescape?_lt _h

/-- The text that a quoted text writes. -/
def unquoted? : Text → Option Text
  | '\"' :: t => unquotedRest? t
  | _ => none

theorem unquotedRest?_flatMap_write (escaping : Escaping) (t : Text) :
    unquotedRest? (t.flatMap escaping.write ++ ['\"']) = some t := by
  induction t with
  | nil =>
    rw [unquotedRest?]
    rfl
  | cons c t ih =>
    have hread := (escaping.writes c).unescape?_append (t.flatMap escaping.write ++ ['\"'])
    rw [List.flatMap_cons, List.append_assoc, unquotedRest?]
    have hne : escaping.write c ++ (t.flatMap escaping.write ++ ['\"']) ≠ ['\"'] := by
      obtain ⟨d, others, hwrite, hquote⟩ := (escaping.writes c).exists_eq_cons
      rw [hwrite]
      exact fun hend => hquote (List.cons.inj hend).1
    rw [if_neg hne]
    split
    · rename_i hnone
      cases hread.symm.trans hnone
    · rename_i d rest hsome
      obtain ⟨rfl, rfl⟩ := Prod.mk.inj (Option.some.inj (hread.symm.trans hsome))
      rw [ih, Option.map_some]

/-- **A quoted text is read back**, whichever writings were chosen. -/
theorem unquoted?_quoted (escaping : Escaping) (t : Text) :
    unquoted? (quoted escaping t) = some t :=
  unquotedRest?_flatMap_write escaping t

/-- It stands on one line. -/
theorem notMem_quoted (escaping : Escaping) (t : Text) :
    '\n' ∉ quoted escaping t ∧ '\r' ∉ quoted escaping t := by
  have hcontent : '\n' ∉ t.flatMap escaping.write ∧ '\r' ∉ t.flatMap escaping.write := by
    simp only [List.mem_flatMap, not_exists, not_and]
    exact ⟨fun c _ => (escaping.writes c).notMem.1, fun c _ => (escaping.writes c).notMem.2⟩
  simp [quoted, hcontent]

end EditorMode.Text
