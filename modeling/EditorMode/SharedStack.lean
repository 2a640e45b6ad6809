import EditorMode.ContextStack

/-! # Stacks that share their nodes

A host keeps the state behind every line, and the stacks of most of them have most of their contexts
in common.  Contexts therefore stand in **nodes**, which stacks share.  A stack is the address of
its top node, with a counter of the contexts that are reached from there.  To copy a stack is to
refer to its top node once more; a push puts a new node on the old top, and a pop goes on to the
node under it.

Every node counts its **owners**: the stacks and nodes that refer to it.  The last owner that lets
go of a node frees it, and with it all nodes under it that nothing else refers to.  The count also
tells whether the innermost context may be changed where it stands; a node with other owners is
copied first.

What such a stack stands for is a `ContextStack`.  That the stacks of a family do not disturb one
another, however many nodes they share, is the subject of `EditorMode.Proofs.SharedStack`. -/

namespace EditorMode

/-- A context, together with what is under it. -/
structure Node where
  context : Context
  /-- The address of the node under it; none for a root. -/
  parent : Option Nat
  /-- Number of the stacks and nodes that refer to it. -/
  owners : Nat
  deriving DecidableEq, Repr

/-- The nodes of all stacks by address.  Addresses are handed out in ascending order and only once,
so that a node stands on older ones. -/
structure NodeStore where
  /-- The cells that have been handed out; those of freed nodes are empty. -/
  cells : Array (Option Node)
  parent_lt : ∀ {a p : Nat} {n : Node},
    cells[a]? = some (some n) → n.parent = some p → p < a

namespace NodeStore

/-- The store without nodes. -/
def empty : NodeStore := ⟨#[], by simp⟩

instance : Inhabited NodeStore := ⟨empty⟩

/-- The address that is handed out next. -/
def next (s : NodeStore) : Nat := s.cells.size

/-- The node at an address. -/
def node? (s : NodeStore) (a : Nat) : Option Node := s.cells[a]?.join

theorem node?_eq_some {s : NodeStore} {a : Nat} {n : Node} :
    s.node? a = some n ↔ s.cells[a]? = some (some n) :=
  Option.join_eq_some_iff

/-- A node is younger than the one under it. -/
theorem lt_of_parent {s : NodeStore} {a p : Nat} {n : Node} (h : s.node? a = some n)
    (hparent : n.parent = some p) : p < a :=
  s.parent_lt (node?_eq_some.mp h) hparent

theorem lt_next {s : NodeStore} {a : Nat} {n : Node} (h : s.node? a = some n) : a < s.next :=
  (Array.getElem?_eq_some_iff.mp (node?_eq_some.mp h)).1

theorem parent_lt_next {s : NodeStore} {a : Nat} {n : Node} (h : s.node? a = some n) (p : Nat)
    (hparent : n.parent = some p) : p < s.next :=
  Nat.lt_trans (lt_of_parent h hparent) (lt_next h)

/-! ## Single nodes -/

/-- The store with one more node, at the next address. -/
def alloc (s : NodeStore) (n : Node) (h : ∀ p, n.parent = some p → p < s.next) : NodeStore where
  cells := s.cells.push (some n)
  parent_lt := by
    intro a p m hm hparent
    rw [Array.getElem?_push] at hm
    split at hm
    · rename_i ha
      obtain rfl := Option.some.inj (Option.some.inj hm)
      exact ha ▸ h p hparent
    · exact s.parent_lt hm hparent

/-- The store with the node at an address changed, which stays where it stands. -/
def modify (s : NodeStore) (a : Nat) (f : Node → Node) (hf : ∀ n, (f n).parent = n.parent) :
    NodeStore where
  cells := s.cells.modify a (Option.map f)
  parent_lt := by
    intro b p m hm hparent
    rw [Array.getElem?_modify] at hm
    split at hm
    · obtain ⟨cell, hcell, hmap⟩ := Option.map_eq_some_iff.mp hm
      obtain ⟨n, rfl, rfl⟩ := Option.map_eq_some_iff.mp hmap
      exact s.parent_lt hcell (hf n ▸ hparent)
    · exact s.parent_lt hm hparent

/-- The store without the node at an address. -/
def free (s : NodeStore) (a : Nat) : NodeStore where
  cells := s.cells.setIfInBounds a none
  parent_lt := by
    intro b p m hm hparent
    rw [Array.getElem?_setIfInBounds] at hm
    split at hm
    · split at hm <;> simp at hm
    · exact s.parent_lt hm hparent

@[simp] theorem next_modify (s : NodeStore) (a : Nat) (f) (hf) :
    (s.modify a f hf).next = s.next := by
  simp [next, modify]

theorem node?_alloc (s : NodeStore) (n : Node) (h) (b : Nat) :
    (s.alloc n h).node? b = if b = s.next then some n else s.node? b := by
  rw [node?, alloc, next, Array.getElem?_push]
  split
  · rfl
  · rfl

theorem node?_modify (s : NodeStore) (a : Nat) (f) (hf) (b : Nat) :
    (s.modify a f hf).node? b = if b = a then (s.node? b).map f else s.node? b := by
  rw [node?, modify, Array.getElem?_modify]
  by_cases hb : b = a
  · subst hb
    rw [if_pos rfl, if_pos rfl, node?]
    cases s.cells[b]? with
    | none => rfl
    | some cell => rfl
  · rw [if_neg (Ne.symm hb), if_neg hb, node?]

theorem node?_free (s : NodeStore) (a b : Nat) :
    (s.free a).node? b = if b = a then none else s.node? b := by
  rw [node?, free, Array.getElem?_setIfInBounds]
  by_cases hb : b = a
  · subst hb
    rw [if_pos rfl, if_pos rfl]
    split
    · rfl
    · rfl
  · rw [if_neg (Ne.symm hb), if_neg hb, node?]

/-! ## References -/

/-- One more owner refers to a node. -/
def retain (s : NodeStore) (a : Nat) : NodeStore :=
  s.modify a (fun n => { n with owners := n.owners + 1 }) fun _ => rfl

/-- One of several owners lets go of a node. -/
def letGo (s : NodeStore) (a : Nat) : NodeStore :=
  s.modify a (fun n => { n with owners := n.owners - 1 }) fun _ => rfl

/-- An owner lets go of a node.  If it is the last one, the node is freed and lets go of the node
under it. -/
def release (s : NodeStore) (a : Nat) : NodeStore :=
  match _h : s.node? a with
  | none => s
  | some n =>
    if n.owners = 1 then
      match _hparent : n.parent with
      | none => s.free a
      | some p => release (s.free a) p
    else s.letGo a
termination_by a
decreasing_by exact lt_of_parent _h _hparent

theorem release_of_node {s : NodeStore} {a : Nat} {n : Node} (h : s.node? a = some n) :
    s.release a =
      if n.owners = 1 then
        match n.parent with
        | none => s.free a
        | some p => (s.free a).release p
      else s.letGo a := by
  rw [release]
  split
  · rename_i hnone
    cases h.symm.trans hnone
  · rename_i m hm
    obtain rfl := Option.some.inj (h.symm.trans hm)
    split
    · split
      · rename_i hparent
        rw [hparent]
      · rename_i p hparent
        rw [hparent]
    · rfl

/-- The context at an address, changed. -/
def setContext (s : NodeStore) (a : Nat) (f : Context → Context) : NodeStore :=
  s.modify a (fun n => { n with context := f n.context }) fun _ => rfl

@[simp] theorem next_retain (s : NodeStore) (a : Nat) : (s.retain a).next = s.next :=
  next_modify s a _ _

/-- The store with a new node, at the next address, on the node at another one. -/
def allocOn (s : NodeStore) (c : Context) (a : Nat) (h : a < s.next) : NodeStore :=
  (s.retain a).alloc ⟨c, some a, 1⟩ fun _ hparent => by
    rw [next_retain, ← Option.some.inj hparent]
    exact h

/-- One more node refers to what is under a node. -/
def retainParent (s : NodeStore) (n : Node) : NodeStore :=
  match n.parent with
  | none => s
  | some p => s.retain p

@[simp] theorem next_retainParent (s : NodeStore) (n : Node) :
    (s.retainParent n).next = s.next := by
  rw [retainParent]
  split
  · rfl
  · exact next_retain s _

/-- The store with a copy of a node at the next address. -/
def allocCopy (s : NodeStore) (n : Node) (h : ∀ p, n.parent = some p → p < s.next) : NodeStore :=
  (s.retainParent n).alloc { n with owners := 1 } (by rwa [next_retainParent])

/-- An address of the same node, to which nothing else refers.  A node with other owners is left to
them, and a copy is made. -/
def makeUnique (s : NodeStore) (a : Nat) : Nat × NodeStore :=
  match h : s.node? a with
  | none => (a, s)
  | some n =>
    if n.owners = 1 then (a, s)
    else (s.next, (s.allocCopy n (parent_lt_next h)).release a)

/-! ## Chains -/

/-- The contexts from a node down to its root. -/
def contexts (s : NodeStore) (a : Nat) : List Context :=
  match _h : s.node? a with
  | none => []
  | some n =>
    match _hparent : n.parent with
    | none => [n.context]
    | some p => n.context :: contexts s p
termination_by a
decreasing_by exact lt_of_parent _h _hparent

theorem contexts_of_node {s : NodeStore} {a : Nat} {n : Node} (h : s.node? a = some n) :
    s.contexts a =
      n.context :: match n.parent with
        | none => []
        | some p => s.contexts p := by
  rw [contexts]
  split
  · rename_i hnone
    cases h.symm.trans hnone
  · rename_i m hm
    obtain rfl := Option.some.inj (h.symm.trans hm)
    split
    · rename_i hparent
      rw [hparent]
    · rename_i p hparent
      rw [hparent]

/-- Whether two chains have the same contexts, as far as both go.  They are compared node by node,
and no further than to a node of both. -/
def sameContexts (s : NodeStore) (a b : Nat) : Bool :=
  if a = b then true
  else
    match _h : s.node? a, s.node? b with
    | some m, some n =>
      if m.context ≠ n.context then false
      else
        match _hparent : m.parent, n.parent with
        | some p, some q => sameContexts s p q
        | _, _ => true
    | _, _ => true
termination_by a
decreasing_by exact lt_of_parent _h _hparent

theorem sameContexts_self (s : NodeStore) (a : Nat) : s.sameContexts a a := by
  rw [sameContexts, if_pos rfl]

theorem sameContexts_of_nodes {s : NodeStore} {a b : Nat} {m n : Node} (hne : a ≠ b)
    (ha : s.node? a = some m) (hb : s.node? b = some n) :
    s.sameContexts a b =
      if m.context ≠ n.context then false
      else
        match m.parent, n.parent with
        | some p, some q => s.sameContexts p q
        | _, _ => true := by
  rw [sameContexts, if_neg hne]
  split
  · rename_i m' n' hm hn
    obtain rfl := Option.some.inj (ha.symm.trans hm)
    obtain rfl := Option.some.inj (hb.symm.trans hn)
    split
    · rfl
    · split
      · rename_i p q hp hq
        rw [hp, hq]
      · rename_i hnot
        split
        · rename_i p q hp hq
          exact absurd hq (hnot p q hp)
        · rfl
  · rename_i hnot
    exact absurd hb (hnot m n ha)

end NodeStore

/-! ## Stacks -/

/-- A stack: its top node, and how many contexts are reached from there. -/
structure SharedStack where
  top : Nat
  depth : Nat
  deriving Repr

namespace SharedStack

/-- The stack of a document rooted at a column. -/
def ofBase (baseColumn : Nat) (s : NodeStore) : SharedStack × NodeStore :=
  (⟨s.next, 1⟩, s.alloc ⟨.root baseColumn, none, 1⟩ nofun)

/-- Another stack with the same contexts. -/
def clone (h : SharedStack) (s : NodeStore) : SharedStack × NodeStore :=
  (h, s.retain h.top)

/-- The stack is not needed any more. -/
def drop (h : SharedStack) (s : NodeStore) : NodeStore := s.release h.top

/-- The innermost context. -/
def top? (h : SharedStack) (s : NodeStore) : Option Context := (s.node? h.top).map (·.context)

/-- The context that encloses the innermost one. -/
def parent? (h : SharedStack) (s : NodeStore) : Option Context := do
  let n ← s.node? h.top
  let p ← n.parent
  let below ← s.node? p
  return below.context

/-- The contexts, innermost first. -/
def contexts (h : SharedStack) (s : NodeStore) : List Context := s.contexts h.top

/-- All contexts on one line, innermost first, for a log. -/
def listing (h : SharedStack) (s : NodeStore) : String :=
  "[" ++ ", ".intercalate ((h.contexts s).map ContextStack.contextListing) ++ "]"

/-- Puts a context on the stack.  The new node refers to the old top, which the stack lets go of. -/
def push (c : Context) (h : SharedStack) (s : NodeStore) : SharedStack × NodeStore :=
  match htop : s.node? h.top with
  | none => (h, s)
  | some _ =>
    (⟨s.next, h.depth + 1⟩,
      (s.allocOn c h.top (NodeStore.lt_next htop)).release h.top)

/-- Takes the innermost context off the stack, unless it is the root. -/
def pop (h : SharedStack) (s : NodeStore) : Option Context × SharedStack × NodeStore :=
  match s.node? h.top with
  | none => (none, h, s)
  | some n =>
    match n.parent with
    | none => (none, h, s)
    | some p => (some n.context, ⟨p, h.depth - 1⟩, (s.retain p).release h.top)

/-- Changes the innermost context. -/
def updateTop (f : Context → Context) (h : SharedStack) (s : NodeStore) :
    SharedStack × NodeStore :=
  let (top, s) := s.makeUnique h.top
  ({ h with top }, s.setContext top f)

/-- Whether two stacks have the same contexts.  Stacks of different depth have not. -/
def same (h k : SharedStack) (s : NodeStore) : Bool :=
  h.depth == k.depth && s.sameContexts h.top k.top

end SharedStack

/-! ## Families of stacks -/

/-- What can be done to a family of stacks, which are numbered from zero on. -/
inductive StackOp where
  /-- Adds a stack that holds only a root. -/
  | ofBase (baseColumn : Nat)
  /-- Adds a copy of a stack. -/
  | clone (i : Nat)
  /-- Removes a stack. -/
  | drop (i : Nat)
  | push (i : Nat) (c : Context)
  | pop (i : Nat)
  | updateTop (i : Nat) (f : Context → Context)

/-- Stacks with nodes in one store. -/
structure SharedStacks where
  store : NodeStore
  members : List SharedStack

namespace SharedStacks

/-- No stacks. -/
def empty : SharedStacks := ⟨.empty, []⟩

instance : Inhabited SharedStacks := ⟨empty⟩

/-- Does something to one of the stacks, if there is one of this number. -/
def onStack (i : Nat) (g : SharedStack → NodeStore → SharedStack × NodeStore)
    (family : SharedStacks) : SharedStacks :=
  match family.members[i]? with
  | none => family
  | some h =>
    let (h, store) := g h family.store
    ⟨store, family.members.set i h⟩

/-- The family after one operation. -/
def apply (family : SharedStacks) : StackOp → SharedStacks
  | .ofBase baseColumn =>
    let (h, store) := SharedStack.ofBase baseColumn family.store
    ⟨store, family.members ++ [h]⟩
  | .clone i =>
    match family.members[i]? with
    | none => family
    | some h =>
      let (copy, store) := h.clone family.store
      ⟨store, family.members ++ [copy]⟩
  | .drop i =>
    match family.members[i]? with
    | none => family
    | some h => ⟨h.drop family.store, family.members.eraseIdx i⟩
  | .push i c => family.onStack i (SharedStack.push c)
  | .pop i => family.onStack i fun h s => (h.pop s).2
  | .updateTop i f => family.onStack i (SharedStack.updateTop f)

/-- The family that some operations build. -/
def run (ops : List StackOp) : SharedStacks := ops.foldl apply empty

end SharedStacks
end EditorMode
