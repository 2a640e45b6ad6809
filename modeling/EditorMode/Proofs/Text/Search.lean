import EditorMode.Text.Search

/-! # Searching bytes finds characters

An ASCII character is a single byte, and that byte stands in the encoding of no other character:
all bytes of a longer encoding are at least 128.  The first such byte of a text is therefore the
first occurrence of the character.  The encoding of any other character begins with a byte that
stands only at the beginning of encodings, and no encoding is a beginning of another one, so that it
is found nowhere but where the character stands.

Both searches give what looking at one character after the other gives (`offsetOf?_eq_scanOffset?`),
and cutting at this offset is cutting before the first occurrence (`cutBefore?_eq_some_iff`,
`cutBefore?_eq_none_iff`). -/

namespace EditorMode.Text

/-! ## Bytes of a character -/

/-- The encoding of an ASCII character is its code. -/
theorem utf8EncodeChar_of_ascii {c : Char} (hc : c.toNat < 128) :
    String.utf8EncodeChar c = [c.toUInt8] := by
  have hle : c.val.toNat ≤ 0x7f := Nat.le_of_lt_succ hc
  rw [String.utf8EncodeChar]
  exact if_pos hle

/-- The bytes of any other character are at least 128. -/
theorem le_of_mem_utf8EncodeChar {d : Char} (hd : 128 ≤ d.toNat) {b : UInt8}
    (hb : b ∈ String.utf8EncodeChar d) : 128 ≤ b.toNat := by
  have hlt : ¬ d.val.toNat ≤ 0x7f := Nat.not_le.mpr hd
  have hmax : d.val.toNat < 0x110000 := by
    have := d.valid
    simp only [UInt32.isValidChar, Nat.isValidChar] at this
    omega
  simp only [String.utf8EncodeChar, hlt, if_false] at hb
  -- One case for each length of the encoding; every byte is a remainder plus at least 128.
  split at hb
  · simp only [List.mem_cons, List.not_mem_nil, or_false] at hb
    rcases hb with rfl | rfl
    all_goals
      rw [UInt8.toNat_ofNat']
      omega
  · split at hb
    · simp only [List.mem_cons, List.not_mem_nil, or_false] at hb
      rcases hb with rfl | rfl | rfl
      all_goals
        rw [UInt8.toNat_ofNat']
        omega
    · simp only [List.mem_cons, List.not_mem_nil, or_false] at hb
      rcases hb with rfl | rfl | rfl | rfl
      all_goals
        rw [UInt8.toNat_ofNat']
        omega

theorem toNat_toUInt8_of_ascii {c : Char} (hc : c.toNat < 128) : c.toUInt8.toNat = c.toNat := by
  have hval : c.val.toNat < 128 := hc
  show c.val.toNat % 256 = c.val.toNat
  omega

/-- **The byte of an ASCII character stands in no other encoding.** -/
theorem toUInt8_mem_utf8EncodeChar {c d : Char} (hc : c.toNat < 128) :
    c.toUInt8 ∈ String.utf8EncodeChar d ↔ d = c := by
  constructor
  · intro h
    by_cases hd : d.toNat < 128
    · rw [utf8EncodeChar_of_ascii hd, List.mem_singleton] at h
      apply Char.toNat_inj.mp
      rw [← toNat_toUInt8_of_ascii hd, ← toNat_toUInt8_of_ascii hc, h]
    · have hle := le_of_mem_utf8EncodeChar (Nat.not_lt.mp hd) h
      rw [toNat_toUInt8_of_ascii hc] at hle
      exact absurd hc (Nat.not_lt.mpr hle)
  · rintro rfl
    rw [utf8EncodeChar_of_ascii hc]
    exact List.mem_singleton_self _

/-- The first byte of a character begins a character wherever it stands, and none of the others
does. -/
theorem exists_utf8EncodeChar_eq_cons (c : Char) :
    ∃ first others, String.utf8EncodeChar c = first :: others ∧ others.length + 1 = c.utf8Size ∧
      first.IsUTF8FirstByte ∧ ∀ b ∈ others, ¬ b.IsUTF8FirstByte := by
  have hne : String.utf8EncodeChar c ≠ [] := String.utf8EncodeChar_ne_nil
  obtain ⟨first, others, hcons⟩ := List.exists_cons_of_ne_nil hne
  have hlength : others.length + 1 = c.utf8Size := by
    rw [← String.length_utf8EncodeChar, hcons, List.length_cons]
  -- only the byte at place zero begins a character
  have hplace : ∀ i (hi : i < (first :: others).length),
      (first :: others)[i].IsUTF8FirstByte ↔ i = 0 := by
    rw [← hcons]
    exact fun i hi => UInt8.isUTF8FirstByte_getElem_utf8EncodeChar
  refine ⟨first, others, hcons, hlength, (hplace 0 (Nat.succ_pos _)).mpr rfl, fun b hb => ?_⟩
  obtain ⟨i, hi, rfl⟩ := List.getElem_of_mem hb
  intro hfirst
  exact absurd ((hplace (i + 1) (Nat.succ_lt_succ hi)).mp hfirst) (Nat.succ_ne_zero i)

/-- No encoding is a beginning of another, whatever stands behind that. -/
theorem utf8EncodeChar_prefix_append {c d : Char} {bytes : List UInt8} :
    String.utf8EncodeChar c <+: String.utf8EncodeChar d ++ bytes ↔ d = c := by
  constructor
  · rintro ⟨rest, h⟩
    have hdecode := congrArg (fun l : List UInt8 => l.toByteArray.utf8DecodeChar? 0) h
    simp only [List.toByteArray_append, ByteArray.utf8DecodeChar?_utf8EncodeChar_append] at hdecode
    exact (Option.some.inj hdecode).symm
  · rintro rfl
    exact List.prefix_append _ _

/-! ## Searching for a character -/

/-- Byte offset of the first `c`, looked for at one character after the other. -/
def scanOffset? (c : Char) : Text → Option Nat
  | [] => none
  | d :: t => if d = c then some 0 else (scanOffset? c t).map (· + d.utf8Size)

/-- It finds the first occurrence behind what takes the bytes before it. -/
theorem scanOffset?_append {c : Char} {a : Text} (h : c ∉ a) (b : Text) :
    scanOffset? c (a ++ c :: b) = some (byteLength a) := by
  induction a with
  | nil => exact if_pos rfl
  | cons d a ih =>
    obtain ⟨hd, ha⟩ := not_or.mp (mt List.mem_cons.mpr h)
    rw [List.cons_append, scanOffset?, if_neg (Ne.symm hd), ih ha, Option.map_some, byteLength_cons,
      Nat.add_comm]

/-- It finds nothing exactly if the character does not occur. -/
theorem scanOffset?_eq_none_iff {c : Char} {t : Text} : scanOffset? c t = none ↔ c ∉ t := by
  constructor
  · intro hnone hc
    obtain ⟨a, b, rfl, ha⟩ := List.eq_append_cons_of_mem hc
    rw [scanOffset?_append ha] at hnone
    cases hnone
  · intro hc
    induction t with
    | nil => rfl
    | cons d t ih =>
      obtain ⟨hd, ht⟩ := not_or.mp (mt List.mem_cons.mpr hc)
      rw [scanOffset?, if_neg (Ne.symm hd), ih ht, Option.map_none]

/-- **The search for the byte of an ASCII character finds the character.** -/
theorem byteOffset?_toUInt8 {c : Char} (hc : c.toNat < 128) (t : Text) :
    byteOffset? c.toUInt8 t = scanOffset? c t := by
  induction t with
  | nil => rfl
  | cons d t ih =>
    rw [byteOffset?, scanOffset?]
    by_cases hd : d = c
    · subst hd
      rw [utf8EncodeChar_of_ascii hc, if_pos rfl]
      simp [List.idxOf?_cons]
    · have hidx : (String.utf8EncodeChar d).idxOf? c.toUInt8 = none := by
        rw [List.idxOf?_eq_none_iff, toUInt8_mem_utf8EncodeChar hc]
        exact hd
      rw [hidx, if_neg hd, ih]

/-- The search for a slice passes over bytes that begin no character. -/
theorem sliceOffset?_append {first : UInt8} {others inside : List UInt8} (bytes : List UInt8)
    (hfirst : first.IsUTF8FirstByte) (hinside : ∀ b ∈ inside, ¬ b.IsUTF8FirstByte) :
    sliceOffset? (first :: others) (inside ++ bytes) =
      (sliceOffset? (first :: others) bytes).map (· + inside.length) := by
  induction inside with
  | nil => simp
  | cons b inside ih =>
    have hb : ¬ b.IsUTF8FirstByte := hinside b List.mem_cons_self
    have hne : first ≠ b := fun he => hb (he ▸ hfirst)
    have hnot : (first :: others).isPrefixOf (b :: (inside ++ bytes)) = false := by
      simp [List.isPrefixOf, hne]
    rw [List.cons_append, sliceOffset?, hnot, if_neg Bool.false_ne_true,
      ih fun d hd => hinside d (List.mem_cons_of_mem b hd), Option.map_map]
    rfl

/-- **The search for the encoding of a character finds the character.** -/
theorem sliceOffset?_encode (c : Char) (t : Text) :
    sliceOffset? (String.utf8EncodeChar c) (encode t) = scanOffset? c t := by
  induction t with
  | nil =>
    rw [encode_nil, sliceOffset?, scanOffset?, if_neg]
    simp [String.utf8EncodeChar_ne_nil]
  | cons d t ih =>
    obtain ⟨first, others, hc, -, hfirst, -⟩ := exists_utf8EncodeChar_eq_cons c
    obtain ⟨start, inside, hd, hlength, -, hinside⟩ := exists_utf8EncodeChar_eq_cons d
    have hhere : (first :: others).isPrefixOf (start :: (inside ++ encode t)) = true ↔ d = c := by
      rw [List.isPrefixOf_iff_prefix, ← List.cons_append, ← hc, ← hd]
      exact utf8EncodeChar_prefix_append
    rw [hc] at ih ⊢
    rw [encode_cons, hd, List.cons_append, sliceOffset?, scanOffset?]
    by_cases hdc : d = c
    · rw [if_pos (hhere.mpr hdc), if_pos hdc]
    · rw [if_neg (mt hhere.mp hdc), if_neg hdc, sliceOffset?_append _ hfirst hinside, ih,
        Option.map_map, ← hlength]
      rfl

/-- **Searching the bytes is looking at one character after the other.** -/
theorem offsetOf?_eq_scanOffset? (c : Char) (t : Text) : offsetOf? c t = scanOffset? c t := by
  rw [offsetOf?]
  split
  · rename_i hc
    exact byteOffset?_toUInt8 hc t
  · exact sliceOffset?_encode c t

/-! ## Cutting before a character -/

section Cut

variable {c : Char} {t a b : Text}

/-- The offset that is found divides the text before the first occurrence. -/
theorem cutBefore?_append (h : c ∉ a) (b : Text) :
    cutBefore? c (a ++ c :: b) = some (a, c :: b) := by
  rw [cutBefore?, offsetOf?_eq_scanOffset?, scanOffset?_append h]
  exact cutAt?_byteLength a (c :: b)

theorem cutBefore?_of_notMem (h : c ∉ t) : cutBefore? c t = none := by
  rw [cutBefore?, offsetOf?_eq_scanOffset?, scanOffset?_eq_none_iff.mpr h]
  rfl

/-- Nothing is cut exactly if the character does not occur. -/
theorem cutBefore?_eq_none_iff : cutBefore? c t = none ↔ c ∉ t := by
  refine ⟨fun hnone hc => ?_, cutBefore?_of_notMem⟩
  obtain ⟨a, b, rfl, ha⟩ := List.eq_append_cons_of_mem hc
  rw [cutBefore?_append ha] at hnone
  cases hnone

/-- **A text is cut right before the first occurrence of the character.** -/
theorem cutBefore?_eq_some_iff :
    cutBefore? c t = some (a, b) ↔ t = a ++ b ∧ c ∉ a ∧ b.head? = some c := by
  constructor
  · intro h
    by_cases hc : c ∈ t
    · obtain ⟨before, behind, rfl, hbefore⟩ := List.eq_append_cons_of_mem hc
      rw [cutBefore?_append hbefore] at h
      obtain ⟨rfl, rfl⟩ := Prod.mk.inj (Option.some.inj h)
      exact ⟨rfl, hbefore, rfl⟩
    · rw [cutBefore?_of_notMem hc] at h
      cases h
  · rintro ⟨rfl, ha, hb⟩
    obtain ⟨behind, rfl⟩ := List.head?_eq_some_iff.mp hb
    exact cutBefore?_append ha behind

end Cut

end EditorMode.Text
