import Mathlib.Data.List.Forall2
import EditorMode.Proofs.Margin

/-! # The base column moves nothing but the root

A document is rooted at a base column, which only its own lines are to be placed by.  The column is
kept in the root of the stack, where contexts take over base indents from one another and closing a
bracket writes its base indent back into the state.  That the column never spreads from there is due
to the root's kind: a context takes over the base indent of a statement only, and the root, which is
none, is never closed.

So reading commutes with moving the root (`State.withBase`), from the operations on the stack to the
run over a document, and the runs from two base columns differ in nothing but the root
(`Document.readLines_start_alike`). -/

namespace EditorMode

/-! ## Stacks -/

namespace ContextStack

/-- The stack with its root at another column. -/
def withBase (baseColumn : Nat) : ContextStack → ContextStack
  | root c => root { c with baseIndent := baseColumn }
  | push c below => push c (withBase baseColumn below)

variable {baseColumn base : Nat} {s : ContextStack} {first : Option Char}

@[simp] theorem withBase_root (base : Nat) (c : Context) :
    (root c).withBase base = root { c with baseIndent := base } := rfl

@[simp] theorem withBase_push (base : Nat) (c : Context) (s : ContextStack) :
    (s.push c).withBase base = (s.withBase base).push c := rfl

@[simp] theorem kind_top_withBase (base : Nat) (s : ContextStack) :
    (s.withBase base).top.kind = s.top.kind := by
  cases s <;> rfl

@[simp] theorem alignment_top_withBase (base : Nat) (s : ContextStack) :
    (s.withBase base).top.alignment = s.top.alignment := by
  cases s <;> rfl

@[simp] theorem depth_withBase (base : Nat) (s : ContextStack) :
    (s.withBase base).depth = s.depth := by
  induction s with
  | root c => rfl
  | push c below ih => rw [withBase_push, depth, depth, ih]

theorem rootDecides_withBase :
    (s.withBase base).RootDecides first ↔ s.RootDecides first := by
  rw [RootDecides, RootDecides, depth_withBase, kind_top_withBase]

@[simp] theorem withBase_decideAlignment (base : Nat) (a : Context.Alignment) (s : ContextStack) :
    (s.withBase base).decideAlignment a = (s.decideAlignment a).withBase base := by
  cases s with
  | root c =>
    rw [decideAlignment, decideAlignment]
    show (if c.alignment = .undecided then _ else _) =
      (if c.alignment = .undecided then _ else _ : ContextStack).withBase base
    split
    · rfl
    · rfl
  | push c below => rw [withBase, decideAlignment_push, decideAlignment_push, withBase]

@[simp] theorem withBase_dropStatements (base : Nat) (s : ContextStack) :
    (s.withBase base).dropStatements = s.dropStatements.withBase base := by
  induction s with
  | root c => rfl
  | push c below ih =>
    show (if c.kind = .statement then _ else _) =
      (if c.kind = .statement then _ else _ : ContextStack).withBase base
    split
    · exact ih
    · rfl

/-- Only the root is moved. -/
theorem exists_toList_withBase (h : Nested baseColumn s) (base : Nat) :
    ∃ inner, s.toList = inner ++ [.root baseColumn] ∧
      (s.withBase base).toList = inner ++ [.root base] := by
  induction h with
  | root => exact ⟨[], rfl, rfl⟩
  | @push c stack h hc ih =>
    obtain ⟨inner, hs, hs'⟩ := ih
    refine ⟨c :: inner, ?_, ?_⟩
    · rw [toList_push, hs, List.cons_append]
    · rw [withBase_push, toList_push, hs', List.cons_append]

theorem withBase_self (h : Nested base s) : s.withBase base = s := by
  induction h with
  | root => rfl
  | push h hc ih => rw [withBase_push, ih]

/-- A statement on top is not the root. -/
theorem baseIndent_top_withBase (h : Nested baseColumn s) (hstatement : s.top.kind = .statement) :
    (s.withBase base).top.baseIndent = s.top.baseIndent := by
  cases h with
  | root => cases hstatement
  | push h hc => rfl

/-- Where the root does not decide, the context that does is not moved. -/
theorem deciding_withBase (h : ¬ s.RootDecides first) :
    (s.withBase base).deciding first = s.deciding first := by
  cases s with
  | root c => exact absurd (.inl rfl) h
  | push c below =>
    rw [withBase_push]
    by_cases hpast : c.kind = .statement ∧ first = some '}'
    · obtain ⟨hstatement, rfl⟩ := hpast
      rw [deciding_closingBrace hstatement, deciding_closingBrace hstatement]
      cases below with
      | root d => exact absurd (.inr ⟨rfl, hstatement, rfl⟩) h
      | push d outer => rfl
    · have htop : (below.push c).deciding first = c := deciding_eq_top hpast
      rw [htop]
      exact deciding_eq_top hpast

end ContextStack

/-- The stack stays one of a document. -/
theorem Nested.withBase {baseColumn : Nat} {s : ContextStack} (h : Nested baseColumn s)
    (base : Nat) : Nested base (s.withBase base) := by
  induction h with
  | root => exact .root
  | @push c stack h hc ih =>
    refine .push ih ⟨hc.kind_ne_top, ?_, ?_, ?_⟩
    · rw [ContextStack.kind_top_withBase]
      exact hc.kind_below
    · rw [ContextStack.kind_top_withBase]
      intro hstatement
      rw [ContextStack.baseIndent_top_withBase h hstatement, hc.baseIndent_eq hstatement]
    · rw [ContextStack.alignment_top_withBase]
      exact hc.decided

/-! ## States -/

namespace State

/-- The state with the document rooted at another column. -/
def withBase (base : Nat) (st : State) : State := { st with stack := st.stack.withBase base }

variable {config : Config} {baseColumn base : Nat} {s : Cursor} {st : State}

@[simp] theorem stack_withBase (base : Nat) (st : State) :
    (st.withBase base).stack = st.stack.withBase base := rfl

theorem withBase_self (h : Nested base st.stack) : st.withBase base = st := by
  rw [withBase, ContextStack.withBase_self h]

theorem withBase_decideAlignment (base : Nat) (a : Context.Alignment) (st : State) :
    (st.withBase base).decideAlignment a = (st.decideAlignment a).withBase base := by
  simp [decideAlignment, withBase]

theorem withBase_dropStatements (base : Nat) (st : State) :
    (st.withBase base).dropStatements = st.dropStatements.withBase base := by
  simp [dropStatements, withBase]

/-- Only a bracket restores its base indent, and the root is none. -/
theorem withBase_pop (base : Nat) (st : State) : (st.withBase base).pop = st.pop.withBase base := by
  cases hs : st.stack with
  | root c => simp [pop, pop?, ContextStack.pop?, withBase, hs]
  | push c below =>
    have hs' : (st.withBase base).stack = (below.withBase base).push c := by
      rw [stack_withBase, hs, ContextStack.withBase_push]
    rw [pop_of_push hs, pop_of_push hs']
    rfl

theorem withBase_popKind (base : Nat) (kind : Context.Kind) (st : State) :
    (st.withBase base).popKind kind = (st.popKind kind).withBase base := by
  rw [popKind, popKind, stack_withBase, ContextStack.kind_top_withBase]
  split
  · exact withBase_pop base st
  · rfl

/-- A context takes over the base indent of a statement, which the root is not. -/
theorem withBase_push (base column : Nat) (kind : Context.Kind) (h : Nested baseColumn st.stack) :
    (st.withBase base).push column kind = (st.push column kind).withBase base := by
  simp only [push, withBase, ContextStack.withBase_push, ContextStack.kind_top_withBase]
  by_cases hstatement : st.stack.top.kind = .statement
  · rw [if_pos hstatement, if_pos hstatement, ContextStack.baseIndent_top_withBase h hstatement]
  · rw [if_neg hstatement, if_neg hstatement]

/-- **A significant token does the same wherever the root is.** -/
theorem withBase_follow (base column : Nat) (mark : Option Char) (h : Nested baseColumn st.stack) :
    (st.withBase base).follow column mark = (st.follow column mark).withBase base := by
  have hdecided := withBase_decideAlignment base .aligned st
  have hnested : Nested baseColumn (st.decideAlignment .aligned).stack :=
    h.decideAlignment .aligned
  have hkind : ((st.decideAlignment .aligned).withBase base).stack.top.kind =
      (st.decideAlignment .aligned).stack.top.kind := by
    rw [stack_withBase, ContextStack.kind_top_withBase]
  cases mark with
  | none =>
    unfold follow
    dsimp only
    rw [hdecided, hkind]
    split
    · exact withBase_push base column .statement hnested
    · exact withBase_push base column .statement hnested
    · rfl
  | some c =>
    by_cases hc : c = '}'
    · subst hc
      rw [follow_closingBrace, follow_closingBrace, hdecided, withBase_dropStatements,
        withBase_popKind, withBase_dropStatements]
    · rw [follow_some_of_ne hc, follow_some_of_ne hc, hdecided, hkind]
      split
      · exact withBase_popKind base .statement _
      · split
        · exact withBase_push base column _ hnested
        · split
          · exact withBase_pop base _
          · rfl

theorem withBase_afterReading (base column : Nat) (r : Reading) (h : Nested baseColumn st.stack) :
    (st.withBase base).afterReading column r = (st.afterReading column r).withBase base := by
  have hfollow : (({ st with pending := r.pending } : State).withBase base).follow column r.mark =
      (({ st with pending := r.pending } : State).follow column r.mark).withBase base :=
    withBase_follow base column r.mark h
  rw [afterReading, afterReading]
  dsimp only
  split
  · exact congrArg (fun st : State => { st with atLineStart := false }) hfollow
  · rfl

/-! ## Reading -/

theorem withBase_enterLine (base : Nat) (s : Cursor) (st : State) :
    (st.withBase base).enterLine s = withBase base <$> st.enterLine s := by
  rw [enterLine, enterLine, withBase_decideAlignment]
  split
  · cases s.indentation <;> rfl
  · rfl

/-- **One token.** -/
theorem withBase_token (base : Nat) (h : Nested baseColumn st.stack) :
    (st.withBase base).token config s =
      (fun r => (r.1, r.2.1, r.2.2.withBase base)) <$> st.token config s := by
  rw [token, token, withBase_enterLine]
  cases hentered : st.enterLine s with
  | error fault => rfl
  | ok entered =>
    simp only [Functor.map, Except.map, bind, Except.bind]
    split
    · cases s.indentation <;> rfl
    · rw [withBase_afterReading base _ _ (nested_enterLine h hentered)]
      rfl

/-- **The run over the rest of a line**, by the length of what is left. -/
theorem withBase_tokenizeRest (base : Nat) (h : Nested baseColumn st.stack) :
    (st.withBase base).tokenizeRest config s =
      (fun r => (r.1, r.2.withBase base)) <$> st.tokenizeRest config s := by
  induction hn : s.rest.length using Nat.strongRecOn generalizing s st with
  | _ n ih =>
    by_cases hnil : s.rest = []
    · rw [tokenizeRest_of_nil hnil, tokenizeRest_of_nil hnil]
      rfl
    · rw [tokenizeRest_of_ne_nil hnil, tokenizeRest_of_ne_nil hnil]
      cases hs : s.startToken with
      | error fault => rfl
      | ok started =>
        simp only [bind, Except.bind]
        rw [withBase_token base h]
        cases ht : st.token config started with
        | error fault => rfl
        | ok result =>
          obtain ⟨c, next, st'⟩ := result
          have hrest : started.rest = s.rest := Cursor.rest_startToken hs
          have hlt : next.rest.length < n := by
            rw [← hn, ← hrest]
            exact length_rest_token_lt (hrest ▸ hnil) ht
          have htail := ih _ hlt (nested_token h ht) rfl
          simp only [Functor.map, Except.map] at htail ⊢
          rw [htail]
          cases st'.tokenizeRest config next <;> rfl

theorem withBase_tokenizeLine (base : Nat) (line : Text) (h : Nested baseColumn st.stack) :
    (st.withBase base).tokenizeLine config line =
      (fun r => (r.1, r.2.withBase base)) <$> st.tokenizeLine config line := by
  by_cases hnil : line = []
  · subst hnil
    simp only [tokenizeLine, List.isEmpty_nil, if_true]
    rw [withBase_token base h]
    cases st.token config (Cursor.ofLine [] config.tabSize) <;> rfl
  · rw [tokenizeLine_of_ne_nil hnil, tokenizeLine_of_ne_nil hnil]
    exact withBase_tokenizeRest base h

/-- Reading a line leaves the stack of a document. -/
theorem nested_tokenizeLine {line : Text} {tokens : List Token} {final : State}
    (h : Nested baseColumn st.stack) (hline : st.tokenizeLine config line = .ok (tokens, final)) :
    Nested baseColumn final.stack := by
  have hkept : KeptByTokens (fun _ => True) fun st => Nested baseColumn st.stack :=
    fun _ _ _ _ _ _ _ _ hnested ht => nested_token hnested ht
  exact hkept.tokenizeLine hline (fun _ _ => trivial) h

/-! ## Suggested columns -/

/-- **A suggestion is the base column where the root decides**, and elsewhere does not depend on
it. -/
theorem indent_withBase (config : Config) (base : Nat) (textAfter : Text)
    (h : Nested baseColumn st.stack) :
    (st.withBase base).indent config textAfter =
      if config.indentStyle = .contextual ∧ st.pending = none ∧
          st.stack.RootDecides (Text.firstVisible? textAfter) then .ok (some base)
      else st.indent config textAfter := by
  have hsame : (st.withBase base).pending = st.pending := rfl
  cases hpending : st.pending with
  | some k =>
    rw [if_neg (fun hall => Option.some_ne_none k hall.2.1), indent, indent, hsame, hpending]
  | none =>
    rw [indent, indent, hsame, hpending]
    cases hstyle : config.indentStyle with
    | preserve =>
      rw [if_neg (by rintro ⟨hcontextual, -⟩; cases hcontextual)]
      rfl
    | contextual =>
      dsimp only
      rw [stack_withBase]
      by_cases hroot : st.stack.RootDecides (Text.firstVisible? textAfter)
      · obtain ⟨hdeciding, -⟩ :=
          (ContextStack.rootDecides_withBase.mpr hroot).deciding_eq (h.withBase base) 0
        rw [hdeciding, if_pos ⟨rfl, rfl, hroot⟩]
        rfl
      · rw [ContextStack.deciding_withBase hroot, if_neg (fun hall => hroot hall.2.2)]

end State

/-! ## Documents -/

/-- Two states of documents rooted at the two columns, in which nothing but the roots differs. -/
structure State.SameButRoot (base base' : Nat) (st st' : State) : Prop where
  pending : st'.pending = st.pending
  stack : ∃ inner, st.stack.toList = inner ++ [.root base] ∧
    st'.stack.toList = inner ++ [.root base']
  indented : st'.indented = st.indented
  atLineStart : st'.atLineStart = st.atLineStart

theorem State.sameButRoot_withBase {baseColumn : Nat} {st : State} (h : Nested baseColumn st.stack)
    (base : Nat) : SameButRoot baseColumn base st (st.withBase base) where
  pending := rfl
  stack := ContextStack.exists_toList_withBase h base
  indented := rfl
  atLineStart := rfl

namespace Document

/-- The line with the document rooted at another column. -/
def Line.withBase (base : Nat) (line : Line) : Line :=
  { line with state := line.state.withBase base }

variable {config : Config} {baseColumn : Nat} {st : State}

/-- **The run over lines.** -/
theorem withBase_readLines (base : Nat) (texts : List Text) (h : Nested baseColumn st.stack) :
    readLines config (st.withBase base) texts =
      List.map (Line.withBase base) <$> readLines config st texts := by
  induction texts generalizing st with
  | nil => rfl
  | cons text texts ih =>
    rw [readLines, readLines, State.withBase_tokenizeLine base text h]
    cases hline : st.tokenizeLine config text with
    | error fault => rfl
    | ok result =>
      obtain ⟨tokens, state⟩ := result
      have htail := ih (State.nested_tokenizeLine h hline)
      simp only [Functor.map, Except.map, bind, Except.bind] at htail ⊢
      rw [htail]
      cases readLines config state texts <;> rfl

/-- All states behind lines are those of a document. -/
theorem nested_readLines {texts : List Text} {lines : List Line} (h : Nested baseColumn st.stack)
    (hlines : readLines config st texts = .ok lines) :
    ∀ line ∈ lines, Nested baseColumn line.state.stack := by
  induction texts generalizing st lines with
  | nil =>
    obtain rfl := Except.ok.inj hlines
    exact List.forall_mem_nil _
  | cons text texts ih =>
    obtain ⟨tokens, state, others, hline, hothers, rfl⟩ := readLines_cons_eq_ok_iff.mp hlines
    have hstate := State.nested_tokenizeLine h hline
    exact List.forall_mem_cons.mpr ⟨hstate, ih hstate hothers⟩

/-- **The base column only moves the root.**  From two base columns the same lines end in the same
faults, if they end in any.  Otherwise they have the same tokens, and behind every line the states
differ in the roots only, which are those of the two base columns.  The columns that are suggested
for a new line there are the two base columns if the root decides, and the same otherwise; preserved
indentations are always the same. -/
theorem readLines_start_alike (config : Config) (base base' : Nat) (texts : List Text) :
    (∀ fault, readLines config (.start base) texts = .error fault ↔
      readLines config (.start base') texts = .error fault) ∧
    ∀ lines lines', readLines config (.start base) texts = .ok lines →
      readLines config (.start base') texts = .ok lines' →
      List.Forall₂ (fun line line' => line'.text = line.text ∧ line'.tokens = line.tokens ∧
        State.SameButRoot base base' line.state line'.state ∧
        ∀ textAfter,
          if config.indentStyle = .contextual ∧ line.state.pending = none ∧
              line.state.stack.RootDecides (Text.firstVisible? textAfter) then
            line.state.indent config textAfter = .ok (some base) ∧
              line'.state.indent config textAfter = .ok (some base')
          else line'.state.indent config textAfter = line.state.indent config textAfter)
        lines lines' := by
  have hstart : Nested base (State.start base).stack := .root
  have hrun : readLines config (.start base') texts =
      List.map (Line.withBase base') <$> readLines config (.start base) texts :=
    withBase_readLines base' texts hstart
  refine ⟨fun fault => ?_, fun lines lines' h h' => ?_⟩
  · rw [hrun]
    cases readLines config (.start base) texts <;> simp [Functor.map, Except.map]
  · rw [hrun, h] at h'
    obtain rfl := Except.ok.inj h'
    rw [List.forall₂_map_right_iff, List.forall₂_same]
    intro line hmem
    have hnested : Nested base line.state.stack := nested_readLines hstart h line hmem
    refine ⟨rfl, rfl, State.sameButRoot_withBase hnested base', fun textAfter => ?_⟩
    have hbase := State.indent_withBase config base textAfter hnested
    have hbase' := State.indent_withBase config base' textAfter hnested
    split
    · rename_i hroot
      rw [if_pos hroot] at hbase hbase'
      rw [State.withBase_self hnested] at hbase
      exact ⟨hbase, hbase'⟩
    · rename_i hroot
      rw [if_neg hroot] at hbase'
      exact hbase'

/-- Behind the first two lines braces and a call are open, and behind the last one only the root is
left. -/
theorem readLines_start_alike_nested :
    let config : Config := {}
    let texts : List Text := ["f \x7b".toList, "g(".toList, "); \x7d".toList]
    ∃ lines lines', readLines config (.start 2) texts = .ok lines ∧
      readLines config (.start 7) texts = .ok lines' ∧
      List.Forall₂ (fun line line' => line'.text = line.text ∧ line'.tokens = line.tokens ∧
        State.SameButRoot 2 7 line.state line'.state ∧
        ∀ textAfter,
          if config.indentStyle = .contextual ∧ line.state.pending = none ∧
              line.state.stack.RootDecides (Text.firstVisible? textAfter) then
            line.state.indent config textAfter = .ok (some 2) ∧
              line'.state.indent config textAfter = .ok (some 7)
          else line'.state.indent config textAfter = line.state.indent config textAfter)
        lines lines' := by
  intro config texts
  have hok : (readLines config (.start 2) texts).isOk ∧
      (readLines config (.start 7) texts).isOk := by
    decide +kernel
  obtain ⟨lines, h⟩ := (onlyOverflows_readLines config (.start 2) texts).exists_eq_ok
    (Fault.ne_overflow_of_isOk hok.1)
  obtain ⟨lines', h'⟩ := (onlyOverflows_readLines config (.start 7) texts).exists_eq_ok
    (Fault.ne_overflow_of_isOk hok.2)
  exact ⟨lines, lines', h, h', (readLines_start_alike config 2 7 texts).2 lines lines' h h'⟩

end Document
end EditorMode
