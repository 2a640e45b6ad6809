import EditorMode.Proofs.Json.Spelling

/-! # Values of JSON

What a JSON text may spell is one value: an array or an object of values, or a single piece.  A
value ends where its brackets do, so that the keys of an object can be found by counting brackets
(`keysAt_object`), and an object has one list of keys however its pieces are divided into members.
The numbers in a value are kept apart (`IsValue.numbersEnd_append`). -/

namespace EditorMode.Json

/-- Some parts between two brackets, with a comma between any two of them. -/
def enclosed {α : Type} (first comma last : α) (parts : List (List α)) : List α :=
  first :: ([comma].intercalate parts ++ [last])

/-- An array of values. -/
def array (values : List (List Piece)) : List Piece :=
  enclosed (some .arrayStart) (some .comma) (some .arrayEnd) values

/-- The pieces of a member of an object. -/
def member (key : Text) (value : List Piece) : List Piece :=
  some (.string key) :: some .colon :: value

/-- An object of keys with their values. -/
def object (members : List (Text × List Piece)) : List Piece :=
  enclosed (some .objectStart) (some .comma) (some .objectEnd)
    (members.map fun m => member m.1 m.2)

/-- The values of JSON. -/
inductive IsValue : List Piece → Prop
  | other : IsValue [none]
  | null : IsValue [some .null]
  | number (n : Nat) : IsValue [some (.number n)]
  | string (content : Text) : IsValue [some (.string content)]
  | array {values : List (List Piece)} : (∀ v ∈ values, IsValue v) → IsValue (array values)
  | object {members : List (Text × List Piece)} : (∀ m ∈ members, IsValue m.2) →
      IsValue (object members)

/-! ## Lists with commas -/

section Enclosed

variable {α β : Type} {first comma last : α}

/-- Behind a part that is not the last one, a comma stands before the others. -/
theorem intercalate_cons_cons_append (part next : List α) (parts : List (List α)) (rest : List α) :
    [comma].intercalate (part :: next :: parts) ++ rest =
      part ++ comma :: ([comma].intercalate (next :: parts) ++ rest) := by
  rw [List.intercalate_cons_cons, List.append_assoc, List.append_assoc, List.singleton_append]

theorem map_intercalate (f : α → β) (comma : α) (parts : List (List α)) :
    ([comma].intercalate parts).map f = [f comma].intercalate (parts.map (·.map f)) := by
  induction parts with
  | nil => rfl
  | cons part parts ih =>
    cases parts with
    | nil => simp
    | cons next parts => simpa [List.intercalate_cons_cons] using ih

theorem map_enclosed (f : α → β) (parts : List (List α)) :
    (enclosed first comma last parts).map f =
      enclosed (f first) (f comma) (f last) (parts.map (·.map f)) := by
  simp [enclosed, map_intercalate]

end Enclosed

/-! ## Numbers -/

/-- A comma and a closing bracket may stand behind a value. -/
theorem beginsWithEnd_cons {piece : Piece} {pieces : List Piece} :
    BeginsWithEnd (piece :: pieces) ↔ piece ∈ [some .comma, some .objectEnd, some .arrayEnd] := by
  simp [BeginsWithEnd]

theorem numbersEnd_intercalate_append {parts : List (List Piece)} {rest : List Piece}
    (hparts : ∀ part ∈ parts, ∀ rest, BeginsWithEnd rest → NumbersEnd rest →
      NumbersEnd (part ++ rest))
    (hbegin : BeginsWithEnd rest) (hrest : NumbersEnd rest) :
    NumbersEnd ([some .comma].intercalate parts ++ rest) := by
  induction parts with
  | nil => exact hrest
  | cons part parts ih =>
    cases parts with
    | nil => simpa using hparts part (by simp) rest hbegin hrest
    | cons next parts =>
      have hothers := ih fun p hp => hparts p (List.mem_cons_of_mem part hp)
      rw [intercalate_cons_cons_append]
      exact hparts part List.mem_cons_self _ (by simp [beginsWithEnd_cons]) ⟨by simp, hothers⟩

/-- **The numbers in a value are kept apart.** -/
theorem IsValue.numbersEnd_append {value : List Piece} (h : IsValue value) {rest : List Piece}
    (hbegin : BeginsWithEnd rest) (hrest : NumbersEnd rest) : NumbersEnd (value ++ rest) := by
  induction h generalizing rest with
  | other => exact ⟨by simp, hrest⟩
  | null => exact ⟨by simp, hrest⟩
  | number n => exact ⟨fun _ _ => hbegin, hrest⟩
  | string content => exact ⟨by simp, hrest⟩
  | @array values _ ih =>
    rw [Json.array, enclosed, List.cons_append, List.append_assoc]
    refine ⟨by simp, ?_⟩
    exact numbersEnd_intercalate_append (fun v hv _ => ih v hv) (by simp [beginsWithEnd_cons])
      ⟨by simp, hrest⟩
  | @object members _ ih =>
    rw [Json.object, enclosed, List.cons_append, List.append_assoc]
    refine ⟨by simp, ?_⟩
    refine numbersEnd_intercalate_append ?_ (by simp [beginsWithEnd_cons]) ⟨by simp, hrest⟩
    intro part hpart rest' hbegin' hrest'
    obtain ⟨m, hm, rfl⟩ := List.mem_map.mp hpart
    exact ⟨by simp, by simp, ih m hm hbegin' hrest'⟩

theorem IsValue.numbersEnd {value : List Piece} (h : IsValue value) : NumbersEnd value := by
  have hend : NumbersEnd (value ++ []) := h.numbersEnd_append nofun trivial
  rwa [List.append_nil] at hend

/-! ## Keys -/

/-- The keys of the members at one depth, in the pieces behind a place of some depth. -/
def keysAt (depth : Nat) : List Piece → List Text
  | [] => []
  | some (.string key) :: some .colon :: rest =>
    if depth = 1 then key :: keysAt depth rest else keysAt depth rest
  | some .objectStart :: rest => keysAt (depth + 1) rest
  | some .arrayStart :: rest => keysAt (depth + 1) rest
  | some .objectEnd :: rest => keysAt (depth - 1) rest
  | some .arrayEnd :: rest => keysAt (depth - 1) rest
  | _ :: rest => keysAt depth rest

theorem keysAt_string {depth : Nat} (content : Text) {rest : List Piece} (h : BeginsWithEnd rest) :
    keysAt depth (some (.string content) :: rest) = keysAt depth rest := by
  cases rest with
  | nil => rfl
  | cons next rest =>
    have hnext := beginsWithEnd_cons.mp h
    simp only [List.mem_cons, List.not_mem_nil, or_false] at hnext
    rcases hnext with rfl | rfl | rfl
    all_goals rfl

theorem keysAt_member {depth : Nat} (key : Text) (value rest : List Piece) :
    keysAt depth (member key value ++ rest) =
      (if depth = 1 then [key] else []) ++ keysAt depth (value ++ rest) := by
  rw [member, List.cons_append, List.cons_append, keysAt]
  split <;> rfl

/-- The keys of a list with commas are those of its parts, in their order. -/
theorem keysAt_intercalate_append {α : Type} {depth : Nat} {items : List α}
    {part : α → List Piece} {keys : α → List Text} {rest : List Piece}
    (hparts : ∀ item ∈ items, ∀ rest, BeginsWithEnd rest →
      keysAt depth (part item ++ rest) = keys item ++ keysAt depth rest)
    (hbegin : BeginsWithEnd rest) :
    keysAt depth ([some .comma].intercalate (items.map part) ++ rest) =
      items.flatMap keys ++ keysAt depth rest := by
  induction items with
  | nil => rfl
  | cons item items ih =>
    cases items with
    | nil => simpa using hparts item (by simp) rest hbegin
    | cons next items =>
      have hothers := ih fun other hmem => hparts other (List.mem_cons_of_mem item hmem)
      have hcomma (pieces : List Piece) :
          keysAt depth (some .comma :: pieces) = keysAt depth pieces := rfl
      rw [List.map_cons] at hothers
      rw [List.map_cons, List.map_cons, intercalate_cons_cons_append,
        hparts item List.mem_cons_self _ (by simp [beginsWithEnd_cons]), hcomma, hothers]
      simp

theorem keysAt_array_append {depth : Nat} {values : List (List Piece)} {rest : List Piece}
    (h : ∀ v ∈ values, ∀ rest, BeginsWithEnd rest →
      keysAt (depth + 1) (v ++ rest) = keysAt (depth + 1) rest) :
    keysAt depth (array values ++ rest) = keysAt depth rest := by
  have hopen (pieces : List Piece) :
      keysAt depth (some .arrayStart :: pieces) = keysAt (depth + 1) pieces := rfl
  have hclose : keysAt (depth + 1) (some .arrayEnd :: rest) = keysAt depth rest := rfl
  have hend : BeginsWithEnd (some .arrayEnd :: rest) := beginsWithEnd_cons.mpr (by simp)
  have hvalues : keysAt (depth + 1) ([some .comma].intercalate (values.map id) ++
      some .arrayEnd :: rest) = values.flatMap (fun _ => []) ++ keysAt (depth + 1) _ :=
    keysAt_intercalate_append h hend
  rw [List.map_id, hclose, List.flatMap_eq_nil_iff.mpr fun _ _ => rfl] at hvalues
  rw [array, enclosed, List.cons_append, List.append_assoc, hopen, List.singleton_append, hvalues,
    List.nil_append]

/-- The keys of an object are keys at the depth inside it. -/
theorem keysAt_object_append {depth : Nat} {members : List (Text × List Piece)} {rest : List Piece}
    (h : ∀ m ∈ members, ∀ rest, BeginsWithEnd rest →
      keysAt (depth + 1) (m.2 ++ rest) = keysAt (depth + 1) rest) :
    keysAt depth (object members ++ rest) =
      (if depth = 0 then members.map Prod.fst else []) ++ keysAt depth rest := by
  have hopen (pieces : List Piece) :
      keysAt depth (some .objectStart :: pieces) = keysAt (depth + 1) pieces := rfl
  have hclose : keysAt (depth + 1) (some .objectEnd :: rest) = keysAt depth rest := rfl
  have hend : BeginsWithEnd (some .objectEnd :: rest) := beginsWithEnd_cons.mpr (by simp)
  have hmembers : ∀ m ∈ members, ∀ rest, BeginsWithEnd rest →
      keysAt (depth + 1) (member m.1 m.2 ++ rest) =
        (if depth = 0 then [m.1] else []) ++ keysAt (depth + 1) rest := by
    intro m hm rest hbegin
    rw [keysAt_member, h m hm rest hbegin]
    simp
  rw [object, enclosed, List.cons_append, List.append_assoc, hopen, List.singleton_append,
    keysAt_intercalate_append hmembers hend, hclose]
  split <;> simp [List.map_eq_flatMap]

/-- **No key in a value is a key of what stands around it.** -/
theorem IsValue.keysAt_append {value : List Piece} (h : IsValue value) {depth : Nat}
    {rest : List Piece} (hdepth : 0 < depth) (hbegin : BeginsWithEnd rest) :
    keysAt depth (value ++ rest) = keysAt depth rest := by
  -- The values in a value are one level deeper, so the depth is general.
  induction h generalizing depth rest with
  | other => rfl
  | null => rfl
  | number n => rfl
  | string content => exact keysAt_string content hbegin
  | array _ ih => exact keysAt_array_append fun v hv _ => ih v hv (Nat.succ_pos depth)
  | object _ ih =>
    rw [keysAt_object_append fun m hm _ => ih m hm (Nat.succ_pos depth), if_neg (by omega)]
    rfl

/-- **An object has the keys of its members.** -/
theorem keysAt_object {members : List (Text × List Piece)} (h : ∀ m ∈ members, IsValue m.2) :
    keysAt 0 (object members) = members.map Prod.fst := by
  have hkeys : keysAt 0 (object members ++ []) = members.map Prod.fst ++ keysAt 0 [] :=
    keysAt_object_append fun m hm _ => (h m hm).keysAt_append Nat.zero_lt_one
  simpa [keysAt] using hkeys

end EditorMode.Json
