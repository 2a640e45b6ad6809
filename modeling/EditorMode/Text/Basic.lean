/-! # Text and byte offsets

A **text** is a list of characters.  Hosts address it by **byte offset**: the number of bytes that
the characters before a position take in UTF-8.  An offset that falls between two characters, or at
either end, is a **boundary**, and `cutAt?` divides the text exactly at the boundaries. -/

namespace EditorMode

/-- A text, as the list of its characters. -/
abbrev Text := List Char

namespace Text

/-- Number of bytes that a text takes in UTF-8. -/
def byteLength : Text → Nat
  | [] => 0
  | c :: t => c.utf8Size + byteLength t

@[simp] theorem byteLength_nil : byteLength [] = 0 := rfl

@[simp] theorem byteLength_cons (c : Char) (t : Text) :
    byteLength (c :: t) = c.utf8Size + byteLength t := rfl

@[simp] theorem byteLength_append (a b : Text) :
    byteLength (a ++ b) = byteLength a + byteLength b := by
  induction a with
  | nil => simp
  | cons c a ih => simp [ih, Nat.add_assoc]

/-- Only the empty text takes no bytes. -/
@[simp] theorem byteLength_eq_zero {t : Text} : byteLength t = 0 ↔ t = [] := by
  cases t with
  | nil => simp
  | cons c t =>
    have := c.utf8Size_pos
    simp
    omega

/-- The parts of a text before and after a byte offset; none if the offset splits a character or
lies past the end. -/
def cutAt? : Nat → Text → Option (Text × Text)
  | 0, t => some ([], t)
  | _ + 1, [] => none
  | n + 1, c :: t =>
    if c.utf8Size ≤ n + 1 then
      (cutAt? (n + 1 - c.utf8Size) t).map fun parts => (c :: parts.1, parts.2)
    else
      none

@[simp] theorem cutAt?_zero (t : Text) : cutAt? 0 t = some ([], t) := by
  cases t <;> rfl

/-- Every division into two parts is found at the byte length of the first. -/
theorem cutAt?_byteLength (a b : Text) : cutAt? (byteLength a) (a ++ b) = some (a, b) := by
  induction a with
  | nil => simp
  | cons c a ih =>
    have hc := c.utf8Size_pos
    obtain ⟨n, hn⟩ : ∃ n, c.utf8Size + byteLength a = n + 1 :=
      ⟨c.utf8Size + byteLength a - 1, by omega⟩
    have hle : c.utf8Size ≤ n + 1 := by omega
    have hsub : n + 1 - c.utf8Size = byteLength a := by omega
    simp [hn, cutAt?, hle, hsub, ih]

/-- A cut loses nothing, and its first part takes as many bytes as the offset says. -/
theorem cutAt?_eq_some {n : Nat} {t a b : Text} (h : cutAt? n t = some (a, b)) :
    a ++ b = t ∧ byteLength a = n := by
  induction t generalizing n a with
  | nil =>
    cases n with
    | zero => simp_all
    | succ n => simp [cutAt?] at h
  | cons c t ih =>
    cases n with
    | zero =>
      obtain ⟨rfl, rfl⟩ : [] = a ∧ c :: t = b := by simpa using h
      simp
    | succ n =>
      unfold cutAt? at h
      split at h
      · obtain ⟨⟨a', b'⟩, h', he⟩ := Option.map_eq_some_iff.mp h
        obtain ⟨rfl, rfl⟩ : c :: a' = a ∧ b' = b := by simpa using he
        obtain ⟨hab, hlen⟩ := ih h'
        simp only [List.cons_append, hab, byteLength_cons, hlen, true_and]
        omega
      · simp at h

/-- The text between two byte offsets; none unless both are boundaries and in order. -/
def slice? (start stop : Nat) (t : Text) : Option Text := do
  let (_, after) ← cutAt? start t
  if start ≤ stop then
    let (between, _) ← cutAt? (stop - start) after
    some between
  else
    none

/-- The middle one of three parts is the slice between its own ends. -/
theorem slice?_append (a b c : Text) :
    slice? (byteLength a) (byteLength a + byteLength b) (a ++ (b ++ c)) = some b := by
  simp [slice?, cutAt?_byteLength]

end Text
end EditorMode
