import EditorMode.Text.Basic

/-! # Sets of words

A finite set of words, kept as its **ascending list**: words are compared by the code points of
their characters, a word before its extensions.  Since each set has one such list, two sets are
equal exactly if they have the same members. -/

namespace EditorMode

/-- A word that follows no earlier word follows or equals it. -/
theorem Text.lt_of_not_lt_of_ne {v w : Text} (hlt : ¬ v < w) (hne : v ≠ w) : w < v := by
  rcases Decidable.em (w < v) with h | h
  · exact h
  · exact absurd (List.le_antisymm (List.not_lt.mp h) (List.not_lt.mp hlt)) hne

/-- A finite set of words. -/
structure WordSet where
  /-- The members in ascending order. -/
  words : List Text
  ascending : words.Pairwise (· < ·)
  deriving DecidableEq

namespace WordSet

instance : Membership Text WordSet := ⟨fun s w => w ∈ s.words⟩

instance (w : Text) (s : WordSet) : Decidable (w ∈ s) :=
  inferInstanceAs (Decidable (w ∈ s.words))

theorem mem_def {w : Text} {s : WordSet} : w ∈ s ↔ w ∈ s.words := Iff.rfl

/-- Sets with the same members are equal. -/
theorem eq_of_mem_iff {s t : WordSet} (h : ∀ w, w ∈ s ↔ w ∈ t) : s = t := by
  have hnodup (u : WordSet) : u.words.Nodup := u.ascending.imp fun {v w} hlt => by
    rintro rfl
    exact List.lt_irrefl v hlt
  have hperm : s.words.Perm t.words := (List.perm_ext_iff_of_nodup (hnodup s) (hnodup t)).mpr h
  have hwords : s.words = t.words := hperm.eq_of_pairwise
    (fun v w _ _ hvw hwv => absurd (List.lt_trans hvw hwv) (List.lt_irrefl v)) s.ascending
    t.ascending
  cases s
  cases t
  cases hwords
  rfl

/-- The set without members. -/
def empty : WordSet := ⟨[], .nil⟩

instance : EmptyCollection WordSet := ⟨empty⟩

instance : Inhabited WordSet := ⟨empty⟩

@[simp] theorem not_mem_empty (w : Text) : w ∉ (∅ : WordSet) := List.not_mem_nil

/-- An ascending list with one more word at its place. -/
def insertWord (w : Text) : List Text → List Text
  | [] => [w]
  | v :: vs => if w < v then w :: v :: vs else if w = v then v :: vs else v :: insertWord w vs

theorem mem_insertWord {u w : Text} {ws : List Text} :
    u ∈ insertWord w ws ↔ u = w ∨ u ∈ ws := by
  induction ws with
  | nil => simp [insertWord]
  | cons v vs ih =>
    unfold insertWord
    split
    · simp
    · split
      · simp_all
      · simp only [List.mem_cons, ih]
        rw [or_left_comm]

theorem ascending_insertWord {w : Text} {ws : List Text} (h : ws.Pairwise (· < ·)) :
    (insertWord w ws).Pairwise (· < ·) := by
  induction ws with
  | nil => simp [insertWord]
  | cons v vs ih =>
    obtain ⟨hv, hvs⟩ := List.pairwise_cons.mp h
    unfold insertWord
    split
    · rename_i hlt
      refine List.pairwise_cons.mpr ⟨fun u hu => ?_, h⟩
      rcases List.mem_cons.mp hu with rfl | hu
      · exact hlt
      · exact List.lt_trans hlt (hv u hu)
    · split
      · exact h
      · rename_i hlt hne
        refine List.pairwise_cons.mpr ⟨fun u hu => ?_, ih hvs⟩
        rcases mem_insertWord.mp hu with rfl | hu
        · exact Text.lt_of_not_lt_of_ne hlt hne
        · exact hv u hu

/-- A set with one more member. -/
def insert (w : Text) (s : WordSet) : WordSet :=
  ⟨insertWord w s.words, ascending_insertWord s.ascending⟩

@[simp] theorem mem_insert {u w : Text} {s : WordSet} : u ∈ s.insert w ↔ u = w ∨ u ∈ s :=
  mem_insertWord

/-- The set of the words in a list. -/
def ofList (ws : List Text) : WordSet := ws.foldr insert ∅

@[simp] theorem mem_ofList {u : Text} {ws : List Text} : u ∈ ofList ws ↔ u ∈ ws := by
  induction ws with
  | nil => simp [ofList]
  | cons w ws ih =>
    have hcons : ofList (w :: ws) = (ofList ws).insert w := rfl
    simp [hcons, ih]

/-! ## Going through a set -/

/-- An **enumeration** of sets of words: an order in which the members of a set are met.  Of the
order nothing is known but that it meets every member once. -/
structure Enumeration where
  words : WordSet → List Text
  perm : ∀ s, (words s).Perm s.words

namespace Enumeration

@[simp] theorem mem_words {order : Enumeration} {s : WordSet} {w : Text} :
    w ∈ order.words s ↔ w ∈ s :=
  (order.perm s).mem_iff

/-- The enumeration in ascending order. -/
def ascending : Enumeration := ⟨WordSet.words, fun _ => .rfl⟩

/-- The enumeration that meets one word before all others if it is there at all. -/
def beginningWith (w : Text) : Enumeration where
  words s := if w ∈ s then w :: s.words.erase w else s.words
  perm s := by
    split
    · exact (List.perm_cons_erase (mem_def.mp ‹_›)).symm
    · exact .rfl

theorem words_beginningWith {w : Text} {s : WordSet} (h : w ∈ s) :
    (beginningWith w).words s = w :: s.words.erase w :=
  if_pos h

end Enumeration
end WordSet
end EditorMode
