import EditorMode.Text.Basic

/-! # Searching the bytes of a text

A character is looked for in the **UTF-8 bytes** of a text, and found at a byte offset.  An ASCII
character is one byte, which no other character contains, so the search compares single bytes;
any other character is found where its whole encoding stands. -/

namespace EditorMode.Text

/-- The UTF-8 bytes of a text. -/
def encode (t : Text) : List UInt8 :=
  t.flatMap String.utf8EncodeChar

@[simp] theorem encode_nil : encode [] = [] := rfl

@[simp] theorem encode_cons (c : Char) (t : Text) :
    encode (c :: t) = String.utf8EncodeChar c ++ encode t := by
  simp [encode]

@[simp] theorem length_encode (t : Text) : (encode t).length = byteLength t := by
  induction t with
  | nil => rfl
  | cons c t ih => simp [ih]

/-- Offset of the first byte equal to `b`, looking at one character's bytes at a time. -/
def byteOffset? (b : UInt8) : Text → Option Nat
  | [] => none
  | c :: t =>
    match (String.utf8EncodeChar c).idxOf? b with
    | some i => some i
    | none => (byteOffset? b t).map (· + c.utf8Size)

/-- The byte search finds the first occurrence of the byte in the encoded text. -/
theorem byteOffset?_eq_idxOf? (b : UInt8) (t : Text) :
    byteOffset? b t = (encode t).idxOf? b := by
  induction t with
  | nil => rfl
  | cons c t ih =>
    simp only [byteOffset?, encode_cons, List.idxOf?, List.findIdx?_append] at ih ⊢
    split
    · rename_i i hi
      simp [hi]
    · rename_i hi
      simp [hi, ih]

/-- Offset of the first place where all of `needle` stands. -/
def sliceOffset? (needle : List UInt8) : List UInt8 → Option Nat
  | [] => if needle.isEmpty then some 0 else none
  | b :: bytes =>
    if needle.isPrefixOf (b :: bytes) then some 0 else (sliceOffset? needle bytes).map (· + 1)

/-- Byte offset of the first occurrence of `c` in a text. -/
def offsetOf? (c : Char) (t : Text) : Option Nat :=
  if c.toNat < 128 then byteOffset? c.toUInt8 t
  else sliceOffset? (String.utf8EncodeChar c) (encode t)

theorem byteOffset?_lt {b : UInt8} {t : Text} {n : Nat} (h : byteOffset? b t = some n) :
    n < byteLength t := by
  rw [byteOffset?_eq_idxOf?] at h
  obtain ⟨hn, -⟩ := List.findIdx?_eq_some_iff_getElem.mp h
  simpa using hn

theorem sliceOffset?_lt {needle bytes : List UInt8} {n : Nat} (hne : needle ≠ [])
    (h : sliceOffset? needle bytes = some n) : n < bytes.length := by
  induction bytes generalizing n with
  | nil => simp [sliceOffset?, hne] at h
  | cons b bytes ih =>
    unfold sliceOffset? at h
    split at h
    · simp at h
      simp [← h]
    · obtain ⟨m, hm, rfl⟩ := Option.map_eq_some_iff.mp h
      have := ih hm
      simp
      omega

/-- A character is found before the end of the text. -/
theorem offsetOf?_lt {c : Char} {t : Text} {n : Nat} (h : offsetOf? c t = some n) :
    n < byteLength t := by
  unfold offsetOf? at h
  split at h
  · exact byteOffset?_lt h
  · have hne : String.utf8EncodeChar c ≠ [] := by
      intro hnil
      have hlen := String.length_utf8EncodeChar c
      have := c.utf8Size_pos
      simp [hnil] at hlen
      omega
    simpa using sliceOffset?_lt hne h

/-- The parts of a text before the first `c` and from it on. -/
def cutBefore? (c : Char) (t : Text) : Option (Text × Text) :=
  (offsetOf? c t).bind fun offset => cutAt? offset t

/-- Cutting before a character loses nothing, and leaves the character in the second part. -/
theorem cutBefore?_eq_some {c : Char} {t a b : Text} (h : cutBefore? c t = some (a, b)) :
    a ++ b = t ∧ b ≠ [] := by
  obtain ⟨n, hn, hcut⟩ := Option.bind_eq_some_iff.mp h
  obtain ⟨hab, hlen⟩ := cutAt?_eq_some hcut
  refine ⟨hab, ?_⟩
  rintro rfl
  have hlt := offsetOf?_lt hn
  rw [← hab] at hlt
  simp only [List.append_nil, hlen] at hlt
  omega

end EditorMode.Text
