import Mathlib.Data.Finset.Card
import EditorMode.SharedStack

/-! # Who refers to a node

The operations on a store of nodes are sound only as long as the nodes are counted right: a node is
changed where it stands, or freed, if its count says that nothing else refers to it.  `Owned` is the
invariant that makes it so.  It lists the references that are held outside the store, each with the
stack that is found there, and says that the count of every node is the number of its references,
those from outside and those from other nodes.

A reference can be taken (`Owned.retain`), it can go into a new node (`Owned.alloc`), or come back
from a node that is freed (`Owned.exists_free`), and it can be given up (`Owned.release`).  Each of
these keeps the stacks of all other references, whatever nodes they share. -/

namespace EditorMode

/-! ## A node and what is under it -/

namespace Node

/-- The reference that a node has to what is under it, and the stack with the node on top. -/
inductive StandsOn (n : Node) : List (Nat × ContextStack) → ContextStack → Prop where
  | root (h : n.parent = none) : StandsOn n [] (.root n.context)
  | push {p : Nat} {below : ContextStack} (h : n.parent = some p) :
      StandsOn n [(p, below)] (.push n.context below)

namespace StandsOn

variable {n : Node} {under : List (Nat × ContextStack)} {v : ContextStack}

theorem count_eq (h : n.StandsOn under v) (a : Nat) :
    (under.map Prod.fst).count a = if n.parent = some a then 1 else 0 := by
  cases h with
  | root h => simp [h]
  | push h => simp [h, List.count_singleton]

theorem parent_eq (h : n.StandsOn under v) (r : Nat × ContextStack) (hr : r ∈ under) :
    n.parent = some r.1 := by
  cases h with
  | root h => cases hr
  | push h =>
    obtain rfl := List.mem_singleton.mp hr
    exact h

/-- A copy with its own count stands on the same. -/
theorem withOwners (h : n.StandsOn under v) (owners : Nat) :
    StandsOn { n with owners } under v := by
  cases h with
  | root h => exact .root h
  | push h => exact .push h

end StandsOn
end Node

namespace NodeStore

variable {s t : NodeStore} {a b p : Nat} {n : Node} {v w : ContextStack}

/-! ## What is found at an address -/

/-- The nodes from an address down to a root have the contexts of the stack. -/
inductive Represents (s : NodeStore) : Nat → ContextStack → Prop where
  | root {a : Nat} {n : Node} (h : s.node? a = some n) (hparent : n.parent = none) :
      Represents s a (.root n.context)
  | push {a p : Nat} {n : Node} {below : ContextStack} (h : s.node? a = some n)
      (hparent : n.parent = some p) (hbelow : Represents s p below) :
      Represents s a (.push n.context below)

namespace Represents

theorem exists_node (h : s.Represents a v) : ∃ n, s.node? a = some n ∧ n.context = v.top := by
  cases h with
  | root h _ => exact ⟨_, h, rfl⟩
  | push h _ _ => exact ⟨_, h, rfl⟩

theorem lt_next (h : s.Represents a v) : a < s.next := by
  obtain ⟨n, hn, -⟩ := h.exists_node
  exact NodeStore.lt_next hn

/-- Only one stack is found at an address. -/
theorem unique (h : s.Represents a v) (h' : s.Represents a w) : v = w := by
  induction h generalizing w with
  | root h hparent =>
    cases h' with
    | root h' _ =>
      obtain rfl := Option.some.inj (h.symm.trans h')
      rfl
    | push h' hparent' _ =>
      obtain rfl := Option.some.inj (h.symm.trans h')
      cases hparent.symm.trans hparent'
  | push h hparent _ ih =>
    cases h' with
    | root h' hparent' =>
      obtain rfl := Option.some.inj (h.symm.trans h')
      cases hparent.symm.trans hparent'
    | push h' hparent' hbelow' =>
      obtain rfl := Option.some.inj (h.symm.trans h')
      obtain rfl := Option.some.inj (hparent.symm.trans hparent')
      rw [ih hbelow']

/-- Its contexts are those that are listed. -/
theorem contexts_eq (h : s.Represents a v) : s.contexts a = v.toList := by
  induction h with
  | root h hparent =>
    rw [contexts_of_node h, hparent]
    rfl
  | push h hparent _ ih =>
    rw [contexts_of_node h, hparent]
    dsimp only
    rw [ih]
    rfl

/-- **Stacks of the same depth are equal if the comparison finds no difference.**  It may stop at a
node of both, since what is under it is the same, and at the end of either, since the other one ends
there as well. -/
theorem sameContexts_iff (h : s.Represents a v) (h' : s.Represents b w)
    (hdepth : v.depth = w.depth) : s.sameContexts a b ↔ v = w := by
  induction h generalizing b w with
  | @root a m h hparent =>
    by_cases heq : a = b
    · subst heq
      exact iff_of_true (s.sameContexts_self a) ((Represents.root h hparent).unique h')
    cases h' with
    | @root _ n h' hparent' =>
      rw [sameContexts_of_nodes heq h h', hparent]
      by_cases hcontext : m.context = n.context
      · simp [hcontext]
      · simp [hcontext]
    | @push _ _ _ below' _ _ _ =>
      exact absurd (Nat.succ.inj hdepth).symm (Nat.ne_of_gt below'.depth_pos)
  | @push a p m below h hparent hbelow ih =>
    by_cases heq : a = b
    · subst heq
      exact iff_of_true (s.sameContexts_self a) ((Represents.push h hparent hbelow).unique h')
    cases h' with
    | root _ _ => exact absurd (Nat.succ.inj hdepth) (Nat.ne_of_gt below.depth_pos)
    | @push _ q n below' h' hparent' hbelow' =>
      rw [sameContexts_of_nodes heq h h', hparent, hparent']
      by_cases hcontext : m.context = n.context
      · simpa [hcontext] using ih hbelow' (Nat.succ.inj hdepth)
      · simp [hcontext]

/-- What is found at an address stays, if the nodes that lead down from there do. -/
theorem keep {Q : Nat → Prop} (hkeep : ∀ b n, Q b → s.node? b = some n →
      ∃ m, t.node? b = some m ∧ m.context = n.context ∧ m.parent = n.parent)
    (hdown : ∀ b n p, Q b → s.node? b = some n → n.parent = some p → Q p)
    (ha : Q a) (h : s.Represents a v) : t.Represents a v := by
  induction h with
  | root h hparent =>
    obtain ⟨m, hm, hcontext, hsame⟩ := hkeep _ _ ha h
    rw [← hcontext]
    exact .root hm (hsame.trans hparent)
  | push h hparent _ ih =>
    obtain ⟨m, hm, hcontext, hsame⟩ := hkeep _ _ ha h
    rw [← hcontext]
    exact .push hm (hsame.trans hparent) (ih (hdown _ _ _ ha h hparent))

/-- The counts have no part in what is found. -/
theorem modify (h : s.Represents a v) (b : Nat) {f : Node → Node} (hf)
    (hcontext : ∀ n, (f n).context = n.context) : (s.modify b f hf).Represents a v := by
  refine h.keep (Q := fun _ => True) (fun c n _ hn => ?_) (fun _ _ _ _ _ _ => trivial) trivial
  rw [node?_modify, hn]
  split
  · exact ⟨f n, rfl, hcontext n, hf n⟩
  · exact ⟨n, rfl, rfl, rfl⟩

/-- A new node is put on no other one. -/
theorem alloc (h : s.Represents a v) (n : Node) (hn) : (s.alloc n hn).Represents a v := by
  refine h.keep (Q := fun _ => True) (fun c m _ hm => ?_) (fun _ _ _ _ _ _ => trivial) trivial
  rw [node?_alloc, if_neg (Nat.ne_of_lt (NodeStore.lt_next hm))]
  exact ⟨m, hm, rfl, rfl⟩

end Represents

/-! ## Counting references -/

/-- The nodes that refer to an address. -/
def referrers (s : NodeStore) (a : Nat) : Finset Nat :=
  (Finset.range s.next).filter fun b => (s.node? b).bind (·.parent) = some a

theorem mem_referrers :
    b ∈ s.referrers a ↔ ∃ n, s.node? b = some n ∧ n.parent = some a := by
  rw [referrers, Finset.mem_filter, Finset.mem_range, Option.bind_eq_some_iff]
  exact ⟨And.right, fun h => ⟨lt_next h.choose_spec.1, h⟩⟩

theorem referrers_modify (s : NodeStore) (b : Nat) (f) (hf) (a : Nat) :
    (s.modify b f hf).referrers a = s.referrers a := by
  ext c
  simp only [mem_referrers, node?_modify]
  by_cases hc : c = b
  · simp [hc, hf]
  · simp [hc]

theorem referrers_free (s : NodeStore) (b a : Nat) :
    (s.free b).referrers a = (s.referrers a).erase b := by
  ext c
  simp only [Finset.mem_erase, mem_referrers, node?_free]
  by_cases hc : c = b
  · simp [hc]
  · simp [hc]

/-- At the next address there is no node yet. -/
theorem node?_next (s : NodeStore) : s.node? s.next = none := by
  cases hn : s.node? s.next with
  | none => rfl
  | some n => exact absurd (lt_next hn) (Nat.lt_irrefl _)

theorem next_notMem_referrers (s : NodeStore) (a : Nat) : s.next ∉ s.referrers a := by
  intro h
  obtain ⟨n, hn, -⟩ := mem_referrers.mp h
  exact absurd (lt_next hn) (Nat.lt_irrefl _)

/-- No node refers to it either. -/
theorem referrers_next (s : NodeStore) : s.referrers s.next = ∅ := by
  rw [Finset.eq_empty_iff_forall_notMem]
  intro b h
  obtain ⟨n, hn, hparent⟩ := mem_referrers.mp h
  exact absurd (lt_of_parent hn hparent) (Nat.not_lt_of_lt (lt_next hn))

theorem referrers_alloc (s : NodeStore) (n : Node) (h) (a : Nat) :
    (s.alloc n h).referrers a =
      if n.parent = some a then insert s.next (s.referrers a) else s.referrers a := by
  have hnone : s.node? s.next = none := s.node?_next
  ext c
  by_cases hc : c = s.next
  · subst hc
    split
    · simp [mem_referrers, node?_alloc, *]
    · simp [mem_referrers, node?_alloc, *]
  · split
    · simp [mem_referrers, node?_alloc, hc]
    · simp [mem_referrers, node?_alloc, hc]

/-- What is found elsewhere does not depend on a node that no other one refers to. -/
theorem Represents.of_unreferred (hnone : s.referrers a = ∅)
    (hsame : ∀ b, b ≠ a → t.node? b = s.node? b) (hb : b ≠ a) (h : s.Represents b w) :
    t.Represents b w := by
  refine h.keep (Q := fun b => b ≠ a) (fun c n hc hn => ?_) (fun c n p _ hn hparent => ?_) hb
  · exact ⟨n, (hsame c hc).trans hn, rfl, rfl⟩
  · rintro rfl
    have hmem : c ∈ s.referrers p := mem_referrers.mpr ⟨n, hn, hparent⟩
    rw [hnone] at hmem
    exact absurd hmem (Finset.notMem_empty c)

/-- How often an address is referred to: from outside, where each reference comes with a stack, and
from other nodes. -/
def references (s : NodeStore) (roots : List (Nat × ContextStack)) (a : Nat) : Nat :=
  (roots.map Prod.fst).count a + (s.referrers a).card

theorem references_cons_self (s : NodeStore) (a : Nat) (v : ContextStack) (roots) :
    s.references ((a, v) :: roots) a = s.references roots a + 1 := by
  rw [references, references, List.map_cons, List.count_cons_self]
  omega

theorem references_cons_of_ne (s : NodeStore) (hb : b ≠ a) (v : ContextStack) (roots) :
    s.references ((a, v) :: roots) b = s.references roots b := by
  rw [references, references, List.map_cons, List.count_cons_of_ne (Ne.symm hb)]

/-- What a node stands on is referred to by its own reference and by the others. -/
theorem references_under {under : List (Nat × ContextStack)} (hstands : n.StandsOn under v)
    (s : NodeStore) (roots) (b : Nat) :
    s.references (under ++ roots) b =
      s.references roots b + if n.parent = some b then 1 else 0 := by
  have hunder := hstands.count_eq b
  rw [references, references, List.map_append, List.count_append, hunder]
  omega

theorem references_modify (s : NodeStore) (a : Nat) (f) (hf) (roots) (b : Nat) :
    (s.modify a f hf).references roots b = s.references roots b := by
  rw [references, references, referrers_modify]

/-- A new node adds its reference to the one under it, -/
theorem references_alloc (s : NodeStore) (n : Node) (h) (roots) (b : Nat) :
    (s.alloc n h).references roots b =
      s.references roots b + if n.parent = some b then 1 else 0 := by
  rw [references, references, referrers_alloc]
  by_cases hparent : n.parent = some b
  · rw [if_pos hparent, if_pos hparent,
      Finset.card_insert_of_notMem (s.next_notMem_referrers b), Nat.add_assoc]
  · rw [if_neg hparent, if_neg hparent, Nat.add_zero]

/-- and a node that is freed takes it away. -/
theorem references_free (hn : s.node? a = some n) (roots) (b : Nat) :
    s.references roots b =
      (s.free a).references roots b + if n.parent = some b then 1 else 0 := by
  rw [references, references, referrers_free]
  by_cases hparent : n.parent = some b
  · have hmem : a ∈ s.referrers b := mem_referrers.mpr ⟨n, hn, hparent⟩
    rw [if_pos hparent, Nat.add_assoc, Finset.card_erase_add_one hmem]
  · have hmem : a ∉ s.referrers b := by
      intro hmem
      obtain ⟨m, hm, hp⟩ := mem_referrers.mp hmem
      obtain rfl := Option.some.inj (hn.symm.trans hm)
      exact hparent hp
    rw [if_neg hparent, Finset.erase_eq_of_notMem hmem, Nat.add_zero]

/-! ## The invariant -/

/-- **The references from outside are held for good.**  Each finds its stack, and all nodes count
their references. -/
structure Owned (s : NodeStore) (roots : List (Nat × ContextStack)) : Prop where
  represents : ∀ r ∈ roots, s.Represents r.1 r.2
  owners_eq : ∀ a n, s.node? a = some n → n.owners = s.references roots a

theorem Represents.exists_standsOn (h : s.Represents a v) (hn : s.node? a = some n) :
    ∃ under, n.StandsOn under v ∧ ∀ r ∈ under, s.Represents r.1 r.2 := by
  cases h with
  | root h hparent =>
    obtain rfl := Option.some.inj (h.symm.trans hn)
    exact ⟨[], .root hparent, List.forall_mem_nil _⟩
  | @push _ p _ below h hparent hbelow =>
    obtain rfl := Option.some.inj (h.symm.trans hn)
    exact ⟨[(p, below)], .push hparent, by simpa using hbelow⟩

theorem represents_of_standsOn {under : List (Nat × ContextStack)} (h : n.StandsOn under v)
    (hn : s.node? a = some n) (hunder : ∀ r ∈ under, s.Represents r.1 r.2) : s.Represents a v := by
  cases h with
  | root hparent => exact .root hn hparent
  | push hparent => exact .push hn hparent (hunder _ List.mem_cons_self)

/-- Copying a node leaves the node alone, -/
theorem node?_allocCopy (hn : s.node? a = some n) (hlt) :
    (s.allocCopy n hlt).node? a = some n := by
  rw [allocCopy, node?_alloc, next_retainParent, if_neg (Nat.ne_of_lt (lt_next hn)), retainParent]
  split
  · exact hn
  · rename_i p hparent
    have hne : a ≠ p := Nat.ne_of_gt (lt_of_parent hn hparent)
    rw [retain, node?_modify, if_neg hne]
    exact hn

/-- and the copy counts for itself. -/
theorem node?_allocCopy_next (s : NodeStore) (n : Node) (hlt) :
    (s.allocCopy n hlt).node? s.next = some { n with owners := 1 } := by
  rw [allocCopy, node?_alloc, next_retainParent, if_pos rfl]

namespace Owned

variable {roots roots' under : List (Nat × ContextStack)}

theorem empty : Owned NodeStore.empty [] where
  represents := List.forall_mem_nil _
  owners_eq := by
    intro a n hn
    exact absurd (lt_next hn) (Nat.not_lt_zero a)

/-- The references have no order. -/
theorem perm (h : s.Owned roots) (hperm : roots.Perm roots') : s.Owned roots' where
  represents := fun r hr => h.represents r (hperm.mem_iff.mpr hr)
  owners_eq := by
    intro a n hn
    rw [h.owners_eq a n hn, references, references, (hperm.map Prod.fst).count_eq]

/-- Every reference is counted. -/
theorem owners_cons (h : s.Owned ((a, v) :: roots)) (hn : s.node? a = some n) :
    n.owners = s.references roots a + 1 := by
  rw [h.owners_eq a n hn, references_cons_self]

/-- The counts of the other nodes do not depend on it. -/
theorem owners_of_ne (h : s.Owned ((a, v) :: roots)) (hb : b ≠ a) (hn : s.node? b = some n) :
    n.owners = s.references roots b := by
  rw [h.owners_eq b n hn, references_cons_of_ne s hb]

theorem representsTop (h : s.Owned ((a, v) :: roots)) : s.Represents a v :=
  h.represents (a, v) List.mem_cons_self

/-- A node that is changed where it stands. -/
theorem of_modify {f : Node → Node} {hf}
    (hfound : ∀ r ∈ roots, (s.modify a f hf).Represents r.1 r.2)
    (hself : ∀ n, s.node? a = some n → (f n).owners = s.references roots a)
    (hothers : ∀ b n, b ≠ a → s.node? b = some n → n.owners = s.references roots b) :
    (s.modify a f hf).Owned roots where
  represents := hfound
  owners_eq := by
    intro b m hm
    rw [node?_modify] at hm
    rw [references_modify]
    by_cases hb : b = a
    · subst hb
      rw [if_pos rfl] at hm
      obtain ⟨n, hn, rfl⟩ := Option.map_eq_some_iff.mp hm
      exact hself n hn
    · rw [if_neg hb] at hm
      exact hothers b m hb hm

/-! ### Taking a reference and giving it up -/

/-- One more reference to a node. -/
theorem retain (h : s.Owned roots) (ha : s.Represents a v) :
    (s.retain a).Owned ((a, v) :: roots) := by
  apply of_modify
  · intro r hr
    rcases List.mem_cons.mp hr with rfl | hr
    · exact ha.modify a _ fun _ => rfl
    · exact (h.represents r hr).modify a _ fun _ => rfl
  · intro n hn
    rw [references_cons_self, ← h.owners_eq a n hn]
  · intro b n hb hn
    rw [references_cons_of_ne s hb]
    exact h.owners_eq b n hn

/-- A reference that is given up while there are others. -/
theorem letGo (h : s.Owned ((a, v) :: roots)) : (s.letGo a).Owned roots := by
  apply of_modify
  · intro r hr
    exact (h.represents r (List.mem_cons_of_mem _ hr)).modify a _ fun _ => rfl
  · intro n hn
    rw [h.owners_cons hn, Nat.add_sub_cancel]
  · intro b n hb hn
    exact h.owners_of_ne hb hn

/-- A new address is referred to from nowhere. -/
theorem references_next (h : s.Owned roots) : s.references roots s.next = 0 := by
  have hroots : (roots.map Prod.fst).count s.next = 0 := by
    rw [List.count_eq_zero, List.mem_map]
    rintro ⟨r, hr, heq⟩
    have := (h.represents r hr).lt_next
    omega
  rw [references, hroots, referrers_next, Finset.card_empty]

/-- A reference that goes into a new node. -/
theorem alloc (h : s.Owned (under ++ roots)) (hstands : n.StandsOn under v)
    (howners : n.owners = 1) (hn) : (s.alloc n hn).Owned ((s.next, v) :: roots) where
  represents := by
    have hnew : (s.alloc n hn).node? s.next = some n := by
      rw [node?_alloc, if_pos rfl]
    intro r hr
    rcases List.mem_cons.mp hr with rfl | hr
    · refine represents_of_standsOn hstands hnew fun r hr => ?_
      exact (h.represents r (List.mem_append_left roots hr)).alloc n hn
    · exact (h.represents r (List.mem_append_right under hr)).alloc n hn
  owners_eq := by
    intro b m hm
    rw [node?_alloc] at hm
    by_cases hb : b = s.next
    · subst hb
      rw [if_pos rfl] at hm
      obtain rfl := Option.some.inj hm
      have hnothing := h.references_next
      rw [references_under hstands, ← references_alloc s n hn] at hnothing
      rw [references_cons_self, hnothing, howners]
    · rw [if_neg hb] at hm
      rw [references_cons_of_ne _ hb, references_alloc, ← references_under hstands]
      exact h.owners_eq b m hm

/-! ### The last reference -/

/-- What only one reference leads to, is referred to from nowhere else. -/
theorem unreferred (h : s.Owned ((a, v) :: roots)) (hn : s.node? a = some n)
    (howners : n.owners = 1) : s.referrers a = ∅ ∧ ∀ r ∈ roots, r.1 ≠ a := by
  have hnone := h.owners_cons hn
  rw [howners, references] at hnone
  constructor
  · apply Finset.card_eq_zero.mp
    omega
  · rintro r hr rfl
    have hcount : 0 < (roots.map Prod.fst).count r.1 :=
      List.count_pos_iff.mpr (List.mem_map_of_mem hr)
    omega

/-- A node that is freed gives back its reference to the node under it. -/
theorem exists_free (h : s.Owned ((a, v) :: roots)) (hn : s.node? a = some n)
    (howners : n.owners = 1) :
    ∃ under, n.StandsOn under v ∧ (s.free a).Owned (under ++ roots) := by
  obtain ⟨hnone, hroots⟩ := h.unreferred hn howners
  obtain ⟨under, hstands, hunder⟩ := h.representsTop.exists_standsOn hn
  have hsame : ∀ b, b ≠ a → (s.free a).node? b = s.node? b := by
    intro b hb
    rw [node?_free, if_neg hb]
  refine ⟨under, hstands, fun r hr => ?_, fun b m hm => ?_⟩
  · rcases List.mem_append.mp hr with hr | hr
    · have hlt : r.1 < a := lt_of_parent hn (hstands.parent_eq r hr)
      exact (hunder r hr).of_unreferred hnone hsame (Nat.ne_of_lt hlt)
    · exact (h.represents r (List.mem_cons_of_mem _ hr)).of_unreferred hnone hsame (hroots r hr)
  · have hb : b ≠ a := by
      rintro rfl
      rw [node?_free, if_pos rfl] at hm
      cases hm
    rw [hsame b hb] at hm
    rw [references_under hstands, ← references_free hn]
    exact h.owners_of_ne hb hm

/-- **A reference that is given up.**  By induction on the stack that it leads to, since a node that
is freed gives up the node under it. -/
theorem release (h : s.Owned ((a, v) :: roots)) : (s.release a).Owned roots := by
  induction v generalizing s a with
  | root c =>
    obtain ⟨n, hn, -⟩ := h.representsTop.exists_node
    rw [release_of_node hn]
    split
    · rename_i howners
      obtain ⟨under, hstands, hfree⟩ := h.exists_free hn howners
      cases hstands with
      | root hparent =>
        rw [hparent]
        exact hfree
    · exact h.letGo
  | push c below ih =>
    obtain ⟨n, hn, -⟩ := h.representsTop.exists_node
    rw [release_of_node hn]
    split
    · rename_i howners
      obtain ⟨under, hstands, hfree⟩ := h.exists_free hn howners
      cases hstands with
      | push hparent =>
        rw [hparent]
        exact ih hfree
    · exact h.letGo

/-- **A context that is changed where it stands**, with no other reference to it. -/
theorem setContext (h : s.Owned ((a, v) :: roots)) (hn : s.node? a = some n)
    (howners : n.owners = 1) (f : Context → Context) :
    (s.setContext a f).Owned ((a, v.updateTop f) :: roots) := by
  obtain ⟨hnone, hroots⟩ := h.unreferred hn howners
  have hsame : ∀ b, b ≠ a → (s.setContext a f).node? b = s.node? b := by
    intro b hb
    rw [NodeStore.setContext, node?_modify, if_neg hb]
  have hchanged : (s.setContext a f).node? a = some { n with context := f n.context } := by
    rw [NodeStore.setContext, node?_modify, if_pos rfl, hn]
    rfl
  obtain ⟨under, hstands, hunder⟩ := h.representsTop.exists_standsOn hn
  apply of_modify
  · intro r hr
    rcases List.mem_cons.mp hr with rfl | hr
    · cases hstands with
      | root hparent => exact .root hchanged hparent
      | @push p below hparent =>
        have hlt : p < a := lt_of_parent hn hparent
        have hbelow : s.Represents p below := hunder (p, below) List.mem_cons_self
        exact .push hchanged hparent (hbelow.of_unreferred hnone hsame (Nat.ne_of_lt hlt))
    · exact (h.represents r (List.mem_cons_of_mem _ hr)).of_unreferred hnone hsame (hroots r hr)
  · intro m hm
    rw [references_cons_self, ← h.owners_cons hm]
  · intro b m hb hm
    rw [references_cons_of_ne s hb]
    exact h.owners_of_ne hb hm

/-! ### New nodes -/

/-- A node that is put on another one takes a reference of its own. -/
theorem allocOn (h : s.Owned ((a, v) :: roots)) (c : Context) (hlt) :
    (s.allocOn c a hlt).Owned ((s.next, v.push c) :: (a, v) :: roots) := by
  have hretained : (s.retain a).Owned ([(a, v)] ++ (a, v) :: roots) := h.retain h.representsTop
  rw [← next_retain s a]
  exact hretained.alloc (.push rfl) rfl _

/-- A copy of a node refers to what the node stands on. -/
theorem allocCopy (h : s.Owned ((a, v) :: roots)) (hn : s.node? a = some n) (hlt) :
    (s.allocCopy n hlt).Owned ((s.next, v) :: (a, v) :: roots) := by
  obtain ⟨under, hstands, hunder⟩ := h.representsTop.exists_standsOn hn
  have hretained : (s.retainParent n).Owned (under ++ (a, v) :: roots) := by
    cases hstands with
    | root hparent =>
      rw [retainParent, hparent]
      exact h
    | @push p below hparent =>
      rw [retainParent, hparent]
      exact h.retain (hunder (p, below) List.mem_cons_self)
  rw [← next_retainParent s n]
  exact hretained.alloc (hstands.withOwners 1) rfl _

/-- **A node is made the only reference's own**, and what is found there stays. -/
theorem makeUnique (h : s.Owned ((a, v) :: roots)) :
    ∃ n, (s.makeUnique a).2.node? (s.makeUnique a).1 = some n ∧ n.owners = 1 ∧
      (s.makeUnique a).2.Owned (((s.makeUnique a).1, v) :: roots) := by
  obtain ⟨n, hn, -⟩ := h.representsTop.exists_node
  rw [NodeStore.makeUnique]
  split
  · rename_i hnone
    cases hn.symm.trans hnone
  · rename_i m hm
    obtain rfl := Option.some.inj (hn.symm.trans hm)
    split
    · rename_i howners
      exact ⟨n, hn, howners, h⟩
    · rename_i howners
      have hcopied := h.allocCopy hn (parent_lt_next hn)
      refine ⟨{ n with owners := 1 }, ?_, rfl, (hcopied.perm (.swap _ _ _)).release⟩
      -- the node has other owners, so that it is not freed
      rw [release_of_node (node?_allocCopy hn _), if_neg howners, NodeStore.letGo, node?_modify,
        if_neg (Nat.ne_of_gt (lt_next hn)), node?_allocCopy_next]

end Owned
end NodeStore
end EditorMode
