import Mathlib.Data.List.Forall2
import EditorMode.Proofs.Ownership

/-! # Shared stacks are lists

Stacks that share nodes are as good as lists of their own.  Each operation does to one stack what
the list operation does, and to the others nothing (`SharedStack.Implements`), because the counts of
the nodes are right all along (`NodeStore.Owned`).  So the family that any operations build is a
family of lists (`SharedStacks.run_refines_lists`), and with it the counters of depth are exact.
The comparison of two stacks depends on them: it gives up at different depths, and takes two chains
for equal as soon as they meet or one of them ends. -/

namespace EditorMode

open NodeStore

/-! ## One stack -/

namespace SharedStack

variable {s : NodeStore} {h k : SharedStack} {v w : ContextStack}
  {roots : List (Nat × ContextStack)}

/-- The operation does to the contexts of a stack what the function does, and leaves alone whatever
else is referred to. -/
def Implements (g : SharedStack → NodeStore → SharedStack × NodeStore)
    (f : ContextStack → ContextStack) : Prop :=
  ∀ ⦃s : NodeStore⦄ ⦃h : SharedStack⦄ ⦃v : ContextStack⦄ ⦃roots : List (Nat × ContextStack)⦄,
    s.Owned ((h.top, v) :: roots) → h.depth = v.depth →
      (g h s).2.Owned (((g h s).1.top, f v) :: roots) ∧ (g h s).1.depth = (f v).depth

theorem implements_push (c : Context) : Implements (push c) (·.push c) := by
  intro s h v roots howned hdepth
  obtain ⟨n, hn, -⟩ := howned.representsTop.exists_node
  rw [push]
  split
  · rename_i hnone
    cases hn.symm.trans hnone
  · exact ⟨((howned.allocOn c _).perm (.swap _ _ _)).release, congrArg (· + 1) hdepth⟩

theorem pop_of_root {c : Context} (hs : s.Represents h.top (.root c)) :
    h.pop s = (none, h, s) := by
  cases hs with
  | root hn hparent =>
    rw [pop, hn]
    dsimp only
    rw [hparent]

theorem exists_pop_of_push {c : Context} {below : ContextStack}
    (hs : s.Represents h.top (below.push c)) :
    ∃ p, s.Represents p below ∧
      h.pop s = (some c, ⟨p, h.depth - 1⟩, (s.retain p).release h.top) := by
  cases hs with
  | @push _ p n _ hn hparent hbelow =>
    refine ⟨p, hbelow, ?_⟩
    rw [pop, hn]
    dsimp only
    rw [hparent]

theorem implements_pop :
    Implements (fun h s => (h.pop s).2) fun v => (v.pop?.map Prod.snd).getD v := by
  intro s h v roots howned hdepth
  dsimp only
  cases v with
  | root c =>
    rw [pop_of_root howned.representsTop]
    exact ⟨howned, hdepth⟩
  | push c below =>
    obtain ⟨p, hbelow, hpop⟩ := exists_pop_of_push howned.representsTop
    rw [hpop]
    refine ⟨((howned.retain hbelow).perm (.swap _ _ _)).release, ?_⟩
    show h.depth - 1 = below.depth
    rw [hdepth]
    rfl

theorem depth_updateTop (f : Context → Context) (v : ContextStack) :
    (v.updateTop f).depth = v.depth := by
  cases v <;> rfl

theorem implements_updateTop (f : Context → Context) :
    Implements (updateTop f) (ContextStack.updateTop f) := by
  intro s h v roots howned hdepth
  obtain ⟨n, hn, howners, hunique⟩ := howned.makeUnique
  exact ⟨hunique.setContext hn howners f, hdepth.trans (depth_updateTop f v).symm⟩

/-- The stack that holds a root only is on a new node, to which nothing refers but the stack. -/
theorem owned_ofBase (howned : s.Owned roots) (baseColumn : Nat) :
    (ofBase baseColumn s).2.Owned
      (((ofBase baseColumn s).1.top, .ofBase baseColumn) :: roots) := by
  have hnothing : s.Owned ([] ++ roots) := howned
  have hroot : ∀ p, (⟨.root baseColumn, none, 1⟩ : Node).parent = some p → p < s.next := by
    intro p hparent
    cases hparent
  exact hnothing.alloc (.root rfl) rfl hroot

/-! ### What a stack shows -/

/-- A stack shows the contexts of a list, innermost first.  With only one context left it cannot be
popped, and otherwise it loses the first one. -/
structure Shows (s : NodeStore) (h : SharedStack) (contexts : List Context) : Prop where
  contexts_eq : h.contexts s = contexts
  depth_eq : h.depth = contexts.length
  depth_pos : 1 ≤ h.depth
  top?_eq : h.top? s = contexts[0]?
  parent?_eq : h.parent? s = contexts[1]?
  pop_root : contexts.length = 1 → h.pop s = (none, h, s)
  pop_tail : contexts.length ≠ 1 → ∃ below s', h.pop s = (contexts.head?, below, s') ∧
    below.contexts s' = contexts.tail

theorem top?_eq (hs : s.Represents h.top v) : h.top? s = some v.top := by
  obtain ⟨n, hn, hcontext⟩ := hs.exists_node
  rw [top?, hn, Option.map_some, hcontext]

theorem parent?_eq (hs : s.Represents h.top v) : h.parent? s = v.parent? := by
  cases hs with
  | root hn hparent =>
    rw [parent?, hn]
    simp [hparent, ContextStack.parent?]
  | push hn hparent hbelow =>
    obtain ⟨m, hm, hcontext⟩ := hbelow.exists_node
    rw [parent?, hn]
    simp [hparent, hm, hcontext, ContextStack.parent?]

/-- **A stack shows what is found at its top**, as long as its counter is right. -/
theorem shows (howned : s.Owned ((h.top, v) :: roots)) (hdepth : h.depth = v.depth) :
    Shows s h v.toList where
  contexts_eq := howned.representsTop.contexts_eq
  depth_eq := hdepth.trans v.length_toList.symm
  depth_pos := hdepth ▸ v.depth_pos
  top?_eq := by
    rw [top?_eq howned.representsTop, ← v.head?_toList, List.head?_eq_getElem?]
  parent?_eq := by
    rw [parent?_eq howned.representsTop, v.getElem?_one_toList]
  pop_root := by
    intro hlength
    rw [v.length_toList] at hlength
    cases v with
    | root c => exact pop_of_root howned.representsTop
    | push c below => exact absurd (Nat.succ.inj hlength) (Nat.ne_of_gt below.depth_pos)
  pop_tail := by
    intro hlength
    cases v with
    | root c => exact absurd rfl hlength
    | push c below =>
      obtain ⟨hpopped, -⟩ := implements_pop howned hdepth
      obtain ⟨p, -, hpop⟩ := exists_pop_of_push howned.representsTop
      dsimp only at hpopped
      rw [hpop] at hpopped
      exact ⟨_, _, hpop, hpopped.representsTop.contexts_eq⟩

/-- **Two stacks compare equal exactly if they have the same contexts.** -/
theorem same_iff (hh : s.Represents h.top v) (hk : s.Represents k.top w)
    (hdepth : h.depth = v.depth) (hdepth' : k.depth = w.depth) :
    h.same k s ↔ v.toList = w.toList := by
  rw [same, Bool.and_eq_true, beq_iff_eq, ContextStack.toList_inj, hdepth, hdepth']
  constructor
  · rintro ⟨heq, hsame⟩
    exact (hh.sameContexts_iff hk heq).mp hsame
  · rintro rfl
    exact ⟨rfl, (hh.sameContexts_iff hk rfl).mpr rfl⟩

end SharedStack

/-! ## Families -/

/-- The operations on stacks that are values of a type. -/
structure StackModel (α : Type) where
  ofBase : Nat → α
  push : Context → α → α
  pop : α → α
  updateTop : (Context → Context) → α → α

namespace StackModel

/-- Stacks as lists, innermost context first. -/
def lists : StackModel (List Context) where
  ofBase baseColumn := [.root baseColumn]
  push := List.cons
  pop contexts := if contexts.length = 1 then contexts else contexts.tail
  updateTop := List.modifyHead

/-- Stacks as the values that states hold. -/
def values : StackModel ContextStack where
  ofBase := .ofBase
  push c v := v.push c
  pop v := (v.pop?.map Prod.snd).getD v
  updateTop := .updateTop

variable {α β : Type}

/-- A family of such stacks after one operation. -/
def apply (model : StackModel α) (family : List α) : StackOp → List α
  | .ofBase baseColumn => family ++ [model.ofBase baseColumn]
  | .clone i => family ++ family[i]?.toList
  | .drop i => family.eraseIdx i
  | .push i c => family.modify i (model.push c)
  | .pop i => family.modify i model.pop
  | .updateTop i f => family.modify i (model.updateTop f)

/-- The family that some operations build. -/
def run (model : StackModel α) (ops : List StackOp) : List α := ops.foldl model.apply []

/-- The function turns stacks of the first model into stacks of the second one, and commutes with
what is done to them. -/
structure View (model : StackModel α) (model' : StackModel β) (f : α → β) : Prop where
  ofBase : ∀ baseColumn, f (model.ofBase baseColumn) = model'.ofBase baseColumn
  push : ∀ c v, f (model.push c v) = model'.push c (f v)
  pop : ∀ v, f (model.pop v) = model'.pop (f v)
  updateTop : ∀ g v, f (model.updateTop g v) = model'.updateTop g (f v)

theorem map_modify {f : α → β} {g : α → α} {g' : β → β} (h : ∀ v, f (g v) = g' (f v))
    (family : List α) (i : Nat) : (family.modify i g).map f = (family.map f).modify i g' := by
  apply List.ext_getElem?
  intro j
  rw [List.getElem?_map, List.getElem?_modify, List.getElem?_modify, List.getElem?_map]
  cases family[j]? with
  | none => rfl
  | some v =>
    by_cases hj : i = j
    · simp [hj, h]
    · simp [hj]

variable {model : StackModel α} {model' : StackModel β} {f : α → β}

theorem View.apply (h : View model model' f) (family : List α) (op : StackOp) :
    (model.apply family op).map f = model'.apply (family.map f) op := by
  cases op with
  | ofBase baseColumn => simp [StackModel.apply, h.ofBase]
  | clone i => cases hv : family[i]? <;> simp [StackModel.apply, hv]
  | drop i => simp [StackModel.apply, List.eraseIdx_map]
  | push i c => exact map_modify (h.push c) family i
  | pop i => exact map_modify h.pop family i
  | updateTop i g => exact map_modify (h.updateTop g) family i

theorem View.run (h : View model model' f) (ops : List StackOp) :
    (model.run ops).map f = model'.run ops :=
  (List.foldl_hom (List.map f) fun family op => (h.apply family op).symm).symm

/-- The operations on values are those on lists. -/
theorem view_toList : View values lists ContextStack.toList where
  ofBase _ := rfl
  push _ _ := rfl
  pop v := by
    cases v with
    | root c => rfl
    | push c below =>
      have hlength : (below.push c).toList.length ≠ 1 := by
        have := below.depth_pos
        rw [ContextStack.length_toList, ContextStack.depth]
        omega
      exact (if_neg hlength).symm
  updateTop := ContextStack.toList_updateTop

end StackModel

namespace SharedStacks

/-- The reference that a stack has into the store. -/
def reference (r : SharedStack × ContextStack) : Nat × ContextStack := (r.1.top, r.2)

/-- The family consists of these stacks, each with what it stands for. -/
structure Refines (family : SharedStacks) (pairs : List (SharedStack × ContextStack)) : Prop where
  members_eq : family.members = pairs.map Prod.fst
  owned : family.store.Owned (pairs.map reference)
  depth_eq : ∀ r ∈ pairs, r.1.depth = r.2.depth

namespace Refines

variable {family : SharedStacks} {pairs : List (SharedStack × ContextStack)} {h k : SharedStack}
  {v w : ContextStack} {i : Nat}

theorem empty : Refines .empty [] := ⟨rfl, .empty, List.forall_mem_nil _⟩

theorem getElem?_members (hr : Refines family pairs) (i : Nat) :
    family.members[i]? = pairs[i]?.map Prod.fst := by
  rw [hr.members_eq, List.getElem?_map]

/-- Any stack of the family may stand in front. -/
theorem owned_cons (hr : Refines family pairs) (hi : pairs[i]? = some (h, v)) :
    family.store.Owned ((h.top, v) :: (pairs.eraseIdx i).map reference) := by
  obtain ⟨hlt, hget⟩ := List.getElem?_eq_some_iff.mp hi
  have hperm := List.getElem_cons_eraseIdx_perm hlt
  rw [hget] at hperm
  exact hr.owned.perm (hperm.map reference).symm

theorem depth_getElem (hr : Refines family pairs) (hi : pairs[i]? = some (h, v)) :
    h.depth = v.depth :=
  hr.depth_eq (h, v) (List.mem_of_getElem? hi)

/-- One more stack. -/
theorem add (hr : Refines family pairs) {store : NodeStore}
    (howned : store.Owned ((k.top, w) :: pairs.map reference)) (hdepth : k.depth = w.depth) :
    Refines ⟨store, family.members ++ [k]⟩ (pairs ++ [(k, w)]) where
  members_eq := by simp [hr.members_eq]
  owned := by
    rw [List.map_append]
    exact howned.perm (List.perm_append_singleton _ _).symm
  depth_eq := by
    intro r hmem
    rcases List.mem_append.mp hmem with hmem | hmem
    · exact hr.depth_eq r hmem
    · obtain rfl := List.mem_singleton.mp hmem
      exact hdepth

/-- One stack less. -/
theorem remove (hr : Refines family pairs) (hi : pairs[i]? = some (h, v)) :
    Refines ⟨h.drop family.store, family.members.eraseIdx i⟩ (pairs.eraseIdx i) where
  members_eq := by rw [hr.members_eq, List.eraseIdx_map]
  owned := (hr.owned_cons hi).release
  depth_eq := fun r hmem => hr.depth_eq r (List.mem_of_mem_eraseIdx hmem)

/-- **One stack changed**, and the others as they were. -/
theorem onStack (hr : Refines family pairs) (i : Nat)
    {g : SharedStack → NodeStore → SharedStack × NodeStore} {f : ContextStack → ContextStack}
    (hg : SharedStack.Implements g f) :
    ∃ pairs', Refines (family.onStack i g) pairs' ∧
      pairs'.map Prod.snd = (pairs.map Prod.snd).modify i f := by
  rw [SharedStacks.onStack, hr.getElem?_members]
  cases hi : pairs[i]? with
  | none =>
    refine ⟨pairs, hr, ?_⟩
    rw [List.modify_eq_set_getElem?, List.getElem?_map, hi]
    rfl
  | some r =>
    obtain ⟨h, v⟩ := r
    obtain ⟨hlt, -⟩ := List.getElem?_eq_some_iff.mp hi
    obtain ⟨howned, hdepth⟩ := hg (hr.owned_cons hi) (hr.depth_getElem hi)
    refine ⟨pairs.set i ((g h family.store).1, f v), ⟨?_, ?_, ?_⟩, ?_⟩
    · rw [List.map_set, ← hr.members_eq]
      rfl
    · have hperm := List.set_perm_cons_eraseIdx hlt ((g h family.store).1, f v)
      exact howned.perm (hperm.map reference).symm
    · intro r hmem
      rcases List.mem_or_eq_of_mem_set hmem with hmem | rfl
      · exact hr.depth_eq r hmem
      · exact hdepth
    · rw [List.map_set, List.modify_eq_set_getElem?, List.getElem?_map, hi]
      rfl

/-- **One operation.** -/
theorem apply (hr : Refines family pairs) (op : StackOp) :
    ∃ pairs', Refines (family.apply op) pairs' ∧
      pairs'.map Prod.snd = StackModel.values.apply (pairs.map Prod.snd) op := by
  cases op with
  | ofBase baseColumn =>
    exact ⟨_, hr.add (SharedStack.owned_ofBase hr.owned baseColumn) rfl, List.map_append⟩
  | clone i =>
    rw [SharedStacks.apply, StackModel.apply, hr.getElem?_members, List.getElem?_map]
    cases hi : pairs[i]? with
    | none => exact ⟨pairs, hr, (List.append_nil _).symm⟩
    | some r =>
      obtain ⟨h, v⟩ := r
      have howned := hr.owned.retain (hr.owned_cons hi).representsTop
      exact ⟨_, hr.add howned (hr.depth_getElem hi), List.map_append⟩
  | drop i =>
    rw [SharedStacks.apply, StackModel.apply, hr.getElem?_members]
    cases hi : pairs[i]? with
    | none =>
      have hle : (pairs.map Prod.snd).length ≤ i := by
        rw [List.length_map]
        exact List.getElem?_eq_none_iff.mp hi
      exact ⟨pairs, hr, (List.eraseIdx_of_length_le hle).symm⟩
    | some r => exact ⟨_, hr.remove hi, (List.eraseIdx_map _ _ _).symm⟩
  | push i c => exact hr.onStack i (SharedStack.implements_push c)
  | pop i => exact hr.onStack i SharedStack.implements_pop
  | updateTop i f => exact hr.onStack i (SharedStack.implements_updateTop f)

/-- **Any operations**, by induction on them. -/
theorem foldl (hr : Refines family pairs) (ops : List StackOp) :
    ∃ pairs', Refines (ops.foldl SharedStacks.apply family) pairs' ∧
      pairs'.map Prod.snd = ops.foldl StackModel.values.apply (pairs.map Prod.snd) := by
  induction ops generalizing family pairs with
  | nil => exact ⟨pairs, hr, rfl⟩
  | cons op ops ih =>
    obtain ⟨pairs', hr', hvalues⟩ := hr.apply op
    rw [List.foldl_cons, List.foldl_cons, ← hvalues]
    exact ih hr'

theorem shows (hr : Refines family pairs) (r : SharedStack × ContextStack) (hmem : r ∈ pairs) :
    SharedStack.Shows family.store r.1 r.2.toList := by
  obtain ⟨i, hi⟩ := List.mem_iff_getElem?.mp hmem
  exact SharedStack.shows (hr.owned_cons hi) (hr.depth_eq r hmem)

theorem same_iff (hr : Refines family pairs) (r q : SharedStack × ContextStack) (hmem : r ∈ pairs)
    (hmem' : q ∈ pairs) : r.1.same q.1 family.store ↔ r.2.toList = q.2.toList := by
  have hfound : ∀ r ∈ pairs, family.store.Represents r.1.top r.2 := fun r hmem =>
    hr.owned.represents (reference r) (List.mem_map_of_mem hmem)
  exact SharedStack.same_iff (hfound r hmem) (hfound q hmem') (hr.depth_eq r hmem)
    (hr.depth_eq q hmem')

end Refines

/-- The family that some operations build is that of the values they build. -/
theorem exists_refines_run (ops : List StackOp) :
    ∃ pairs, Refines (run ops) pairs ∧ pairs.map Prod.snd = StackModel.values.run ops :=
  Refines.empty.foldl ops

/-- **Stacks that share their nodes are lists.**  Whatever is done to a family of stacks, in any
order and to any of them, each stack shows the list that has had done to it what the stack has, and
two stacks compare equal exactly if their lists are equal. -/
theorem run_refines_lists (ops : List StackOp) :
    List.Forall₂ (SharedStack.Shows (run ops).store) (run ops).members (StackModel.lists.run ops) ∧
      List.Forall₂
        (fun h contexts =>
          List.Forall₂ (fun k contexts' => h.same k (run ops).store ↔ contexts = contexts')
            (run ops).members (StackModel.lists.run ops))
        (run ops).members (StackModel.lists.run ops) := by
  obtain ⟨pairs, hr, hvalues⟩ := exists_refines_run ops
  have hlists : StackModel.lists.run ops = pairs.map fun r => r.2.toList := by
    rw [← StackModel.view_toList.run, ← hvalues, List.map_map]
    rfl
  rw [hr.members_eq, hlists]
  simp only [List.forall₂_map_left_iff, List.forall₂_map_right_iff, List.forall₂_same]
  refine ⟨hr.shows, ?_⟩
  intro r hmem q hmem'
  exact hr.same_iff r q hmem hmem'

/-- A context that is changed on a copy stays as it is on the other stack, and goes from there. -/
example :
    let family := run [.ofBase 0, .push 0 ⟨.paren, 0, 3, .undecided⟩, .clone 0,
      .updateTop 1 fun c => { c with alignment := .aligned }, .pop 0]
    family.members.map (·.contexts family.store) =
      [[.root 0], [⟨.paren, 0, 3, .aligned⟩, .root 0]] := by
  decide +kernel

end SharedStacks
end EditorMode
