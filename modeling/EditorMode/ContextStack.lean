import EditorMode.Context
import EditorMode.Text.Basic

/-! # The stack of open contexts

The open contexts form a stack, innermost first, over a **root** that is never removed.  A stack is
a value: one that a host keeps for some line is not disturbed by what is pushed or popped later.
`toList` is its view, and every operation is an operation on that list. -/

namespace EditorMode

/-- The open contexts, from the innermost to the root. -/
inductive ContextStack where
  | root (context : Context)
  | push (context : Context) (below : ContextStack)
  deriving DecidableEq, Repr

namespace ContextStack

/-- The contexts, innermost first. -/
def toList : ContextStack → List Context
  | root c => [c]
  | push c below => c :: toList below

/-- The stack of a document rooted at a column. -/
def ofBase (baseColumn : Nat) : ContextStack := root (Context.root baseColumn)

/-- Number of contexts, the root included. -/
def depth : ContextStack → Nat
  | root _ => 1
  | push _ below => depth below + 1

/-- The innermost context. -/
def top : ContextStack → Context
  | root c => c
  | push c _ => c

/-- The context that encloses the innermost one. -/
def parent? : ContextStack → Option Context
  | root _ => none
  | push _ below => some below.top

/-- The innermost context and the stack without it; none if only the root is left. -/
def pop? : ContextStack → Option (Context × ContextStack)
  | root _ => none
  | push c below => some (c, below)

/-- The stack with its innermost context changed. -/
def updateTop (f : Context → Context) : ContextStack → ContextStack
  | root c => root (f c)
  | push c below => push (f c) below

/-- The stack without the statements on its top. -/
def dropStatements : ContextStack → ContextStack
  | root c => root c
  | push c below => if c.kind = .statement then dropStatements below else push c below

/-- Decides the innermost context's alignment, if nothing has decided it before. -/
def decideAlignment (a : Context.Alignment) (s : ContextStack) : ContextStack :=
  if s.top.alignment = .undecided then s.updateTop fun c => { c with alignment := a } else s

/-! ## The view -/

@[simp] theorem toList_root (c : Context) : (root c).toList = [c] := rfl

@[simp] theorem toList_push (c : Context) (s : ContextStack) : (s.push c).toList = c :: s.toList :=
  rfl

theorem toList_ne_nil (s : ContextStack) : s.toList ≠ [] := by
  cases s <;> simp

/-- The depth is the number of contexts. -/
theorem length_toList (s : ContextStack) : s.toList.length = s.depth := by
  induction s with
  | root c => rfl
  | push c below ih => simp [depth, ih]

theorem depth_pos (s : ContextStack) : 0 < s.depth := by
  cases s <;> simp [depth]

theorem head?_toList (s : ContextStack) : s.toList.head? = some s.top := by
  cases s <;> rfl

theorem getElem?_one_toList (s : ContextStack) : s.toList[1]? = s.parent? := by
  cases s with
  | root c => rfl
  | push c below => cases below <;> rfl

/-- A stack is determined by the list of its contexts. -/
theorem toList_inj {s t : ContextStack} : s.toList = t.toList ↔ s = t := by
  refine ⟨fun h => ?_, fun h => h ▸ rfl⟩
  induction s generalizing t with
  | root c =>
    cases t with
    | root d => simp_all
    | push d below => exact absurd (List.cons.inj h).2.symm below.toList_ne_nil
  | push c below ih =>
    cases t with
    | root d => exact absurd (List.cons.inj h).2 below.toList_ne_nil
    | push d below' =>
      obtain ⟨hc, hbelow⟩ := List.cons.inj h
      rw [hc, ih hbelow]

theorem toList_updateTop (f : Context → Context) (s : ContextStack) :
    (s.updateTop f).toList = s.toList.modifyHead f := by
  cases s <;> rfl

/-- Popping takes the first context off the list, unless it is the only one. -/
theorem pop?_eq_some {s t : ContextStack} {c : Context} :
    s.pop? = some (c, t) ↔ s.toList = c :: t.toList := by
  cases s with
  | root d =>
    have := t.toList_ne_nil
    simp [pop?, this.symm]
  | push d below => simp [pop?, toList_inj]

/-- No statement is left on top, unless it is the root. -/
theorem kind_top_dropStatements (s : ContextStack) :
    s.dropStatements.top.kind ≠ .statement ∨ s.dropStatements.parent? = none := by
  induction s with
  | root c => exact .inr rfl
  | push c below ih =>
    by_cases h : c.kind = .statement
    · simpa [dropStatements, h] using ih
    · exact .inl (by simp [dropStatements, h, top])

/-- Dropping statements only takes contexts off the top, and all of them are statements. -/
theorem toList_dropStatements (s : ContextStack) :
    ∃ dropped, s.toList = dropped ++ s.dropStatements.toList ∧
      ∀ c ∈ dropped, c.kind = .statement := by
  induction s with
  | root c => exact ⟨[], rfl, by simp⟩
  | push c below ih =>
    by_cases h : c.kind = .statement
    · obtain ⟨dropped, hlist, hall⟩ := ih
      refine ⟨c :: dropped, ?_, ?_⟩
      · simp [dropStatements, h, hlist]
      · simpa [h] using hall
    · exact ⟨[], by simp [dropStatements, h], by simp⟩

/-- Deciding an alignment changes nothing else. -/
theorem tail_toList_decideAlignment (a : Context.Alignment) (s : ContextStack) :
    (s.decideAlignment a).toList.tail = s.toList.tail := by
  unfold decideAlignment
  split
  · cases s <;> rfl
  · rfl

theorem kind_top_decideAlignment (a : Context.Alignment) (s : ContextStack) :
    (s.decideAlignment a).top.kind = s.top.kind := by
  unfold decideAlignment
  split
  · cases s <;> rfl
  · rfl

/-- What has been decided once stays. -/
theorem alignment_top_decideAlignment (a : Context.Alignment) (s : ContextStack) :
    (s.decideAlignment a).top.alignment =
      if s.top.alignment = .undecided then a else s.top.alignment := by
  unfold decideAlignment
  split
  · cases s <;> rfl
  · rfl

theorem decided_top_decideAlignment {a : Context.Alignment} (ha : a ≠ .undecided)
    (s : ContextStack) : (s.decideAlignment a).top.alignment ≠ .undecided := by
  rw [alignment_top_decideAlignment]
  split
  · exact ha
  · assumption

/-! ## Listing -/

/-- The spelling of a kind in a listing. -/
def kindLabel : Context.Kind → String
  | .top => "Top"
  | .statement => "Statement"
  | .paren => "Paren"
  | .bracket => "Bracket"
  | .brace => "Brace"

/-- The spelling of an alignment in a listing. -/
def alignmentLabel : Context.Alignment → String
  | .undecided => "None"
  | .hanging => "Some(false)"
  | .aligned => "Some(true)"

/-- One context of a listing. -/
def contextListing (c : Context) : String :=
  "Context \x7b base_indent: " ++ toString c.baseIndent ++ ", column: " ++ toString c.column ++
    ", kind: " ++ kindLabel c.kind ++ ", align: " ++ alignmentLabel c.alignment ++ " \x7d"

/-- All contexts on one line, innermost first, for a log. -/
def listing (s : ContextStack) : String :=
  "[" ++ ", ".intercalate (s.toList.map contextListing) ++ "]"

end ContextStack
end EditorMode
