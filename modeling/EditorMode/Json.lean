import EditorMode.Text.Decimal

/-! # Symbols of JSON

A configuration is written in JSON, but it has use only for objects, arrays, strings, natural
numbers and `null`.  This module divides a JSON text into the **symbols** of that part of the
format; a text with anything else in it has no symbols.  What the symbols must say to each other is
left to whoever reads them: no reader accepts two values next to each other, so it does no harm
that symbols need nothing between them. -/

namespace EditorMode.Json

/-- The smallest pieces of a JSON text that have a meaning. -/
inductive Symbol where
  | objectStart
  | objectEnd
  | arrayStart
  | arrayEnd
  | colon
  | comma
  | null
  | number (value : Nat)
  | string (content : Text)
  deriving DecidableEq, Repr

/-- The four characters that may stand between symbols. -/
def isBlank (c : Char) : Bool := [' ', '\t', '\n', '\r'].contains c

/-! ## Strings -/

/-- The value of a hexadecimal digit of either case. -/
def hexValue? (c : Char) : Option Nat :=
  if c.isDigit then some (c.toNat - '0'.toNat)
  else if 'a' ≤ c ∧ c ≤ 'f' then some (c.toNat - 'a'.toNat + 10)
  else if 'A' ≤ c ∧ c ≤ 'F' then some (c.toNat - 'A'.toNat + 10)
  else none

/-- The value of four hexadecimal digits, and what follows them. -/
def hexQuad? : Text → Option (Nat × Text)
  | a :: b :: c :: d :: t => do
    let a ← hexValue? a
    let b ← hexValue? b
    let c ← hexValue? c
    let d ← hexValue? d
    return (((a * 16 + b) * 16 + c) * 16 + d, t)
  | _ => none

/-- The character that one or two escaped UTF-16 units write, the first `\u` having been read.  A
high surrogate needs a low one right behind it, and a low one stands nowhere else. -/
def unicodeEscape? (t : Text) : Option (Char × Text) := do
  let (unit, t) ← hexQuad? t
  if unit < 0xD800 ∨ 0xE000 ≤ unit then
    return (Char.ofNat unit, t)
  else if unit < 0xDC00 then
    match t with
    | '\\' :: 'u' :: t =>
      let (low, t) ← hexQuad? t
      if 0xDC00 ≤ low ∧ low < 0xE000 then
        return (Char.ofNat (0x10000 + (unit - 0xD800) * 0x400 + (low - 0xDC00)), t)
      else
        none
    | _ => none
  else
    none

/-- The character that a single letter behind a backslash stands for. -/
def shortEscape? : Char → Option Char
  | '\"' => some '\"'
  | '\\' => some '\\'
  | '/' => some '/'
  | 'b' => some '\x08'
  | 'f' => some '\x0C'
  | 'n' => some '\n'
  | 'r' => some '\r'
  | 't' => some '\t'
  | _ => none

/-- The first character that the content of a string stands for, and what follows it.  Controls
have to be escaped. -/
def contentChar? : Text → Option (Char × Text)
  | [] => none
  | '\\' :: 'u' :: t => unicodeEscape? t
  | '\\' :: c :: t => (shortEscape? c).map (·, t)
  | c :: t => if c = '\\' ∨ c.toNat < 0x20 then none else some (c, t)

theorem length_hexQuad?_lt {t rest : Text} {n : Nat} (h : hexQuad? t = some (n, rest)) :
    rest.length < t.length := by
  unfold hexQuad? at h
  split at h
  · simp only [Option.bind_eq_bind, Option.bind_eq_some_iff, Option.pure_def, Option.some.injEq,
      Prod.mk.injEq] at h
    obtain ⟨-, -, -, -, -, -, -, -, -, rfl⟩ := h
    simp
    omega
  · simp at h

theorem length_unicodeEscape?_lt {t rest : Text} {c : Char}
    (h : unicodeEscape? t = some (c, rest)) : rest.length < t.length := by
  simp only [unicodeEscape?, Option.bind_eq_bind, Option.bind_eq_some_iff] at h
  obtain ⟨⟨unit, t'⟩, hquad, h⟩ := h
  have hlt := length_hexQuad?_lt hquad
  dsimp only at h
  split at h
  · simp only [Option.pure_def, Option.some.injEq, Prod.mk.injEq] at h
    rw [← h.2]
    exact hlt
  · split at h
    · split at h
      · obtain ⟨⟨low, t''⟩, hlow, h⟩ := Option.bind_eq_some_iff.mp h
        have hlt' := length_hexQuad?_lt hlow
        dsimp only at h
        split at h
        · simp only [Option.pure_def, Option.some.injEq, Prod.mk.injEq] at h
          simp only [List.length_cons] at hlt
          rw [← h.2]
          omega
        · simp at h
      · simp at h
    · simp at h

theorem length_contentChar?_lt {t rest : Text} {c : Char} (h : contentChar? t = some (c, rest)) :
    rest.length < t.length := by
  unfold contentChar? at h
  split at h
  · simp at h
  · have := length_unicodeEscape?_lt h
    simp
    omega
  · obtain ⟨d, -, he⟩ := Option.map_eq_some_iff.mp h
    obtain ⟨-, rfl⟩ := Prod.mk.inj he
    simp only [List.length_cons]
    omega
  · split at h
    · simp at h
    · obtain ⟨-, rfl⟩ := Prod.mk.inj (Option.some.inj h)
      simp

/-- The content of a string, whose opening quote has been read, and what follows its closing
quote. -/
def content? (t : Text) : Option (Text × Text) :=
  if t.head? = some '\"' then some ([], t.drop 1)
  else
    match _h : contentChar? t with
    | none => none
    | some (c, rest) => (content? rest).map fun (content, after) => (c :: content, after)
termination_by t.length
decreasing_by exact length_contentChar?_lt _h

theorem length_content?_le {t content rest : Text} (h : content? t = some (content, rest)) :
    rest.length ≤ t.length := by
  fun_induction content? t generalizing content rest with
  | case1 t hquote =>
    obtain ⟨-, rfl⟩ := Prod.mk.inj (Option.some.inj h)
    simp
  | case2 t hquote hnone => simp at h
  | case3 t hquote c after hsome ih =>
    obtain ⟨⟨tail, after'⟩, htail, he⟩ := Option.map_eq_some_iff.mp h
    obtain ⟨-, rfl⟩ := Prod.mk.inj he
    have := ih htail
    have := length_contentChar?_lt hsome
    omega

/-! ## All symbols -/

/-- The symbol that begins with the character `c`, and what follows it in the text behind `c`.  A
number has no leading zeros. -/
def symbol? (c : Char) (t : Text) : Option (Symbol × Text) :=
  if c.isDigit then
    let digits := t.takeWhile Char.isDigit
    if c = '0' ∧ digits ≠ [] then none
    else some (.number (Text.natOfDigits (c :: digits)), t.dropWhile Char.isDigit)
  else
    match c, t with
    | '{', t => some (.objectStart, t)
    | '}', t => some (.objectEnd, t)
    | '[', t => some (.arrayStart, t)
    | ']', t => some (.arrayEnd, t)
    | ':', t => some (.colon, t)
    | ',', t => some (.comma, t)
    | 'n', 'u' :: 'l' :: 'l' :: t => some (.null, t)
    | '\"', t => (content? t).map fun (content, rest) => (.string content, rest)
    | _, _ => none

theorem length_symbol?_le {c : Char} {t rest : Text} {symbol : Symbol}
    (h : symbol? c t = some (symbol, rest)) : rest.length ≤ t.length := by
  unfold symbol? at h
  split at h
  · dsimp only at h
    split at h
    · simp at h
    · obtain ⟨-, rfl⟩ := Prod.mk.inj (Option.some.inj h)
      exact (List.dropWhile_sublist _).length_le
  · split at h
    · obtain ⟨-, rfl⟩ := Prod.mk.inj (Option.some.inj h)
      exact Nat.le_refl _
    · obtain ⟨-, rfl⟩ := Prod.mk.inj (Option.some.inj h)
      exact Nat.le_refl _
    · obtain ⟨-, rfl⟩ := Prod.mk.inj (Option.some.inj h)
      exact Nat.le_refl _
    · obtain ⟨-, rfl⟩ := Prod.mk.inj (Option.some.inj h)
      exact Nat.le_refl _
    · obtain ⟨-, rfl⟩ := Prod.mk.inj (Option.some.inj h)
      exact Nat.le_refl _
    · obtain ⟨-, rfl⟩ := Prod.mk.inj (Option.some.inj h)
      exact Nat.le_refl _
    · obtain ⟨-, rfl⟩ := Prod.mk.inj (Option.some.inj h)
      simp
      omega
    · obtain ⟨⟨content, after⟩, hcontent, he⟩ := Option.map_eq_some_iff.mp h
      obtain ⟨-, rfl⟩ := Prod.mk.inj he
      exact length_content?_le hcontent
    · simp at h

/-- The symbols of a text; none if it has something else in it. -/
def symbols? : Text → Option (List Symbol)
  | [] => some []
  | c :: t =>
    if isBlank c then symbols? t
    else
      match _h : symbol? c t with
      | none => none
      | some (symbol, rest) => (symbols? rest).map (symbol :: ·)
termination_by t => t.length
decreasing_by
  · simp
  · have := length_symbol?_le _h
    simp
    omega

end EditorMode.Json
