import Mathlib.Data.List.TakeWhile
import EditorMode.Proofs.BraceMatching
import EditorMode.Proofs.ClosingIndent

/-! # The indentation that a line leaves behind

In the preserve style a new line takes over what the line before it left as the current indentation.
That is written in several places: at the beginning of a line, at the end of an empty one, and
whenever a bracket is closed, which one token can do more than once.

A significant token opens one context, or it **closes** some: it takes the innermost ones off the
stack, one after another (`follow_opens_or_closes`).  This holds on every stack, and not only on
those that a document can have.  `ClosedAlong` lists what the tokens of a line have closed, in the
order in which they have done it.  Every bracket among these contexts restores its base indent, so
the last one decides (`Context.restored_eq`).

Before it closes a context, a token may decide its alignment, so this list is determined up to
alignments only.  The main result, `indented_behind_line`, is about every such list, and all of them
restore the same indentation (`ClosedAlong.restored_eq`). -/

namespace EditorMode

/-! ## Restoring -/

/-- The current indentation after contexts have been closed in order, if it was `indented`
before. -/
def Context.restored (indented : Nat) (closed : List Context) : Nat :=
  closed.foldl (fun indented c => if c.kind.isBracket then c.baseIndent else indented) indented

theorem Context.restored_append (indented : Nat) (a b : List Context) :
    restored indented (a ++ b) = restored (restored indented a) b :=
  List.foldl_append

/-- **The bracket closed last decides.** -/
theorem Context.restored_eq (indented : Nat) (closed : List Context) :
    restored indented closed =
      match (closed.filter fun c => c.kind.isBracket).getLast? with
      | some bracket => bracket.baseIndent
      | none => indented := by
  induction closed generalizing indented with
  | nil => rfl
  | cons c closed ih =>
    have hfirst : restored indented (c :: closed) =
        restored (if c.kind.isBracket then c.baseIndent else indented) closed := rfl
    rw [hfirst, ih]
    by_cases hc : c.kind.isBracket
    · rw [if_pos hc, List.filter_cons, if_pos hc, List.getLast?_cons]
      cases (closed.filter fun c => c.kind.isBracket).getLast? with
      | none => rfl
      | some bracket => rfl
    · rw [if_neg hc, List.filter_cons, if_neg hc]

/-- It makes no difference whether an alignment has been decided. -/
theorem ContextStack.restored_take_decideAlignment (a : Context.Alignment) (s : ContextStack)
    (indented n : Nat) :
    Context.restored indented ((s.decideAlignment a).toList.take n) =
      Context.restored indented (s.toList.take n) := by
  rw [decideAlignment]
  split
  · cases n with
    | zero => rfl
    | succ n =>
      cases s with
      | root c => rfl
      | push c below => rfl
  · rfl

namespace State

/-! ## Closing -/

/-- Closing the innermost context again and again leads from one state to another, and closes these
contexts in this order. -/
inductive Closing : State → List Context → State → Prop where
  | done {st : State} : Closing st [] st
  | close {st below last : State} {c : Context} {closed : List Context}
      (h : st.pop? = some (c, below)) (others : Closing below closed last) :
      Closing st (c :: closed) last

section Closing

variable {st middle last : State} {a b closed : List Context}

theorem Closing.trans (h : Closing st a middle) (h' : Closing middle b last) :
    Closing st (a ++ b) last := by
  induction h with
  | done => exact h'
  | close hpop others ih => exact .close hpop (ih h')

theorem exists_pop?_eq {c : Context} {below : State} (h : st.pop? = some (c, below)) :
    st.stack = below.stack.push c ∧
      below.indented = (if c.kind.isBracket then c.baseIndent else st.indented) := by
  obtain ⟨⟨d, stack⟩, hstack, heq⟩ := Option.map_eq_some_iff.mp h
  obtain ⟨rfl, rfl⟩ := Prod.mk.inj heq
  refine ⟨?_, rfl⟩
  exact ContextStack.toList_inj.mp (ContextStack.pop?_eq_some.mp hstack)

/-- What is closed stood on the stack, innermost first. -/
theorem Closing.toList (h : Closing st closed last) :
    st.stack.toList = closed ++ last.stack.toList := by
  induction h with
  | done => rfl
  | close hpop others ih =>
    rw [(exists_pop?_eq hpop).1, ContextStack.toList_push, ih, List.cons_append]

/-- Closing brackets restores their base indents. -/
theorem Closing.indented (h : Closing st closed last) :
    last.indented = Context.restored st.indented closed := by
  induction h with
  | done => rfl
  | close hpop others ih =>
    rw [ih, (exists_pop?_eq hpop).2]
    rfl

theorem exists_closing_pop (st : State) : ∃ closed, Closing st closed st.pop := by
  rw [pop]
  cases hpop : st.pop? with
  | none => exact ⟨[], .done⟩
  | some popped => exact ⟨[popped.1], .close hpop .done⟩

theorem exists_closing_popKind (kind : Context.Kind) (st : State) :
    ∃ closed, Closing st closed (st.popKind kind) := by
  rw [popKind]
  split
  · exact st.exists_closing_pop
  · exact ⟨[], .done⟩

/-- Ending the statements on top is closing them, by induction on the stack. -/
theorem exists_closing_dropStatements (st : State) :
    ∃ closed, Closing st closed st.dropStatements := by
  obtain ⟨pending, stack, indented, atLineStart⟩ := st
  induction stack with
  | root c => exact ⟨[], .done⟩
  | push c below ih =>
    rw [dropStatements, ContextStack.dropStatements]
    split
    · rename_i hstatement
      have hbracket : ¬ c.kind.isBracket := by
        rw [hstatement]
        decide
      obtain ⟨closed, hclosed⟩ := ih
      refine ⟨c :: closed, .close ?_ hclosed⟩
      simp only [pop?, ContextStack.pop?, Option.map_some, if_neg hbracket]
    · exact ⟨[], .done⟩

/-- **A significant token opens one context or closes some.** -/
theorem follow_opens_or_closes (column : Nat) (mark : Option Char) (st : State) :
    (∃ kind, st.follow column mark = (st.decideAlignment .aligned).push column kind) ∨
      ∃ closed, Closing (st.decideAlignment .aligned) closed (st.follow column mark) := by
  unfold follow
  dsimp only
  generalize st.decideAlignment .aligned = decided
  split
  · -- a token that is not punctuation
    split
    · exact .inl ⟨_, rfl⟩
    · exact .inl ⟨_, rfl⟩
    · exact .inr ⟨[], .done⟩
  · -- a closing brace, which closes in three stages
    obtain ⟨a, ha⟩ := decided.exists_closing_dropStatements
    obtain ⟨b, hb⟩ := decided.dropStatements.exists_closing_popKind .brace
    obtain ⟨c, hc⟩ := (decided.dropStatements.popKind .brace).exists_closing_dropStatements
    exact .inr ⟨_, (ha.trans hb).trans hc⟩
  · split
    · -- a separator
      exact .inr (decided.exists_closing_popKind .statement)
    · split
      · -- an opening bracket
        exact .inl ⟨_, rfl⟩
      · -- another closing bracket, of the innermost context or not
        split
        · exact .inr decided.exists_closing_pop
        · exact .inr ⟨[], .done⟩

end Closing

end State

/-! ## What tokens close -/

/-- Between two stacks a token has closed these contexts, in this order: none if it has opened one.
Before that an alignment may have been decided. -/
inductive ContextStack.Closed (before after : ContextStack) : List Context → Prop where
  | opening {a : Context.Alignment} {c : Context}
      (h : after = (before.decideAlignment a).push c) : Closed before after []
  | closing {a : Context.Alignment} {prior last : State} {closed : List Context}
      (hprior : prior.stack = before.decideAlignment a) (h : State.Closing prior closed last)
      (hafter : after = last.stack) : Closed before after closed

namespace ContextStack.Closed

variable {before entered after : ContextStack} {closed : List Context}

theorem refl (s : ContextStack) : s.Closed s [] := by
  let st : State := { State.start 0 with stack := s }
  have hnothing : State.Closing st [] st := .done
  exact .closing s.decideAlignment_undecided.symm hnothing rfl

/-- To enter a line is no more than to decide an alignment. -/
theorem of_enterLine (h : entered.Closed after closed)
    (hentered : entered = before ∨ entered = before.decideAlignment .hanging) :
    before.Closed after closed := by
  have hdecided (a : Context.Alignment) :
      ∃ b, entered.decideAlignment a = before.decideAlignment b := by
    rcases hentered with rfl | rfl
    · exact ⟨a, rfl⟩
    · have hkeeps := decided_top_decideAlignment (a := .hanging) (by decide) before
      exact ⟨.hanging, decideAlignment_of_decided a hkeeps⟩
  cases h with
  | @opening a c h =>
    obtain ⟨b, hb⟩ := hdecided a
    exact .opening (hb ▸ h)
  | @closing a prior last closed hprior h hafter =>
    obtain ⟨b, hb⟩ := hdecided a
    exact .closing (hprior.trans hb) h hafter

/-- What a token has closed are the contexts by which the stack was deeper. -/
theorem restored_eq (h : before.Closed after closed) (indented : Nat) :
    Context.restored indented closed =
      Context.restored indented (before.toList.take (before.depth - after.depth)) := by
  cases h with
  | @opening a c h =>
    have hle : before.depth - after.depth = 0 := by
      rw [h, ← depth_decideAlignment a]
      exact Nat.sub_eq_zero_of_le (Nat.le_succ _)
    rw [hle, List.take_zero]
  | @closing a prior last _ hprior h hafter =>
    have hlist := h.toList
    have hlength := congrArg List.length hlist
    rw [List.length_append, length_toList, length_toList, hprior,
      depth_decideAlignment] at hlength
    rw [← restored_take_decideAlignment a, ← hprior, hlist, hlength, hafter, Nat.add_sub_cancel,
      List.take_left]

end ContextStack.Closed

namespace State

/-- The tokens of these steps have closed these contexts, in this order. -/
inductive ClosedAlong : State → List Step → List Context → Prop where
  | nil {st : State} : ClosedAlong st [] []
  | cons {st : State} {step : Step} {steps : List Step} {closed others : List Context}
      (h : st.stack.Closed step.state.stack closed)
      (hothers : ClosedAlong step.state steps others) :
      ClosedAlong st (step :: steps) (closed ++ others)

section Token

variable {config : Config} {st st' final : State} {closed closed' : List Context}

/-- Two accounts of what has been closed restore the same indentation. -/
theorem ClosedAlong.restored_eq {steps : List Step} (h : st.ClosedAlong steps closed)
    (h' : st.ClosedAlong steps closed') (indented : Nat) :
    Context.restored indented closed = Context.restored indented closed' := by
  induction h generalizing closed' indented with
  | nil =>
    cases h'
    rfl
  | cons h hothers ih =>
    cases h' with
    | cons h' hothers' =>
      rw [Context.restored_append, Context.restored_append, h.restored_eq, h'.restored_eq,
        ih hothers']

/-- **What a significant token does to the indentation**: it restores that of the brackets that it
closes. -/
theorem exists_closed_follow (column : Nat) (mark : Option Char) (st : State) :
    ∃ closed, st.stack.Closed (st.follow column mark).stack closed ∧
      (st.follow column mark).indented = Context.restored st.indented closed := by
  rcases st.follow_opens_or_closes column mark with ⟨kind, hopens⟩ | ⟨closed, hcloses⟩
  · refine ⟨[], .opening (by rw [hopens]; rfl), ?_⟩
    rw [hopens]
    rfl
  · exact ⟨closed, .closing rfl hcloses rfl, hcloses.indented⟩

/-- **What a token does to the indentation**, once its line has been entered; and it has been the
first significant one of its line unless another one has been read. -/
theorem indented_of_token {s next : Cursor} {c : Category} (hne : s.rest ≠ [])
    (h : st.token config s = .ok (c, next, st')) :
    ∃ entered closed, st.enterLine s = .ok entered ∧ st.stack.Closed st'.stack closed ∧
      st'.indented = Context.restored entered.indented closed ∧
      st'.atLineStart = (entered.atLineStart && !c.isSignificant) := by
  obtain ⟨entered, hentered, rfl, -, rfl⟩ := reading_of_token hne h
  have hdecided := stack_enterLine hentered
  generalize s.read config.extraAtoms st.pending = reading
  rw [afterReading]
  dsimp only
  split
  · rename_i hc
    obtain ⟨closed, hclosed, hindented⟩ := exists_closed_follow s.column reading.mark
      { entered with pending := reading.pending }
    refine ⟨entered, closed, hentered, hclosed.of_enterLine hdecided, hindented, ?_⟩
    rw [hc, Bool.not_true, Bool.and_false]
  · rename_i hc
    refine ⟨entered, [], hentered, (ContextStack.Closed.refl _).of_enterLine hdecided, rfl, ?_⟩
    rw [eq_false_of_ne_true hc, Bool.not_false, Bool.and_true]

/-- What a token finds when its line has been entered: at the beginning of the line the line's own
indentation, and nothing significant before it; elsewhere what the token before it has left. -/
structure Entering (config : Config) (st : State) (before rest : Text) (indented : Nat)
    (atLineStart : Bool) : Prop where
  begins : before = [] →
    Column.count (Text.leadingBlank rest) config.tabSize = .ok indented ∧ atLineStart = true
  inside : before ≠ [] → indented = st.indented ∧ atLineStart = st.atLineStart

/-- The same of a step at a place of the line. -/
theorem indented_of_tokenize {before rest : Text} {step : Step} (hne : rest ≠ [])
    (h : st.tokenize config (before ++ rest) (Text.byteLength before) = .ok step) :
    ∃ indented atLineStart closed, Entering config st before rest indented atLineStart ∧
      st.stack.Closed step.state.stack closed ∧
      step.state.indented = Context.restored indented closed ∧
      step.state.atLineStart = (atLineStart && !step.category.isSignificant) := by
  obtain ⟨s, next, hstands, hline, htab, hlexeme, rfl, ht, -⟩ :=
    exists_cursor_of_tokenize_append before h
  obtain ⟨entered, closed, hentered, hclosed, hindented, hatLineStart⟩ := indented_of_token hne ht
  refine ⟨entered.indented, entered.atLineStart, closed, ?_, hclosed, hindented, hatLineStart⟩
  have hstart : s.atLineStart ↔ before = [] := by
    rw [Cursor.atLineStart, beq_iff_eq, hstands.pos_eq, hlexeme, List.append_nil,
      Text.byteLength_eq_zero]
  rcases eq_of_enterLine hentered with ⟨hinside, rfl⟩ | ⟨hbegins, indented, hmeasured, rfl⟩
  · exact ⟨fun hnil => absurd (hstart.mpr hnil) hinside, fun _ => ⟨rfl, rfl⟩⟩
  · have hnil := hstart.mp hbegins
    refine ⟨fun _ => ⟨?_, rfl⟩, fun hbehind => absurd hnil hbehind⟩
    rw [Cursor.indentation, hline, hnil, List.nil_append, htab] at hmeasured
    exact hmeasured

/-! ## What lines leave behind -/

/-- **The run through a line that is not empty**, by induction on the steps.  Behind the first of
them, each one finds what the one before has left. -/
theorem indented_of_stepFrom {before rest : Text} {steps : List Step} (hline : before ++ rest ≠ [])
    (h : st.stepFrom config (before ++ rest) (Text.byteLength before) = .ok (steps, final)) :
    ∃ indented atLineStart closed, Entering config st before rest indented atLineStart ∧
      st.ClosedAlong steps closed ∧ final.indented = Context.restored indented closed ∧
      final.atLineStart = (atLineStart && steps.all fun step => !step.category.isSignificant) := by
  induction steps generalizing before rest st with
  | nil =>
    obtain ⟨hle, rfl⟩ := stepFrom_eq_ok_nil h
    have hbefore : before ≠ [] := by
      rintro rfl
      exact hline (Text.byteLength_eq_zero.mp (Nat.le_zero.mp hle))
    have hinside : Entering config final before rest final.indented final.atLineStart :=
      ⟨fun hnil => absurd hnil hbefore, fun _ => ⟨rfl, rfl⟩⟩
    exact ⟨_, _, [], hinside, .nil, rfl, (Bool.and_true _).symm⟩
  | cons step steps ih =>
    obtain ⟨hlt, hfirst, hothers⟩ := stepFrom_eq_ok_cons h
    have hne : rest ≠ [] := by
      rintro rfl
      rw [List.append_nil] at hlt
      exact absurd hlt (Nat.lt_irrefl _)
    obtain ⟨indented, atLineStart, closed, hentering, hclosed, hindented, hatLineStart⟩ :=
      indented_of_tokenize hne hfirst
    obtain ⟨left, rfl, htext, hstop⟩ := exists_left_of_tokenize hne hfirst
    have hbehind : before ++ step.text ≠ [] := List.append_ne_nil_of_right_ne_nil before htext
    rw [hstop, ← List.append_assoc] at hothers
    obtain ⟨_, _, others, hinside, hothersClosed, hfinal, hfinalStart⟩ :=
      ih (List.append_ne_nil_of_left_ne_nil hbehind left) hothers
    obtain ⟨rfl, rfl⟩ := hinside.inside hbehind
    refine ⟨indented, atLineStart, closed ++ others, hentering, .cons hclosed hothersClosed, ?_, ?_⟩
    · rw [hfinal, hindented, Context.restored_append]
    · rw [hfinalStart, hatLineStart, List.all_cons, Bool.and_assoc]

/-- **The run over a line.** -/
theorem indented_of_stepThrough {line : Text} {steps : List Step}
    (h : st.stepThrough config line = .ok (steps, final)) :
    ∃ indented closed, Column.count (Text.leadingBlank line) config.tabSize = .ok indented ∧
      st.ClosedAlong steps closed ∧ final.indented = Context.restored indented closed ∧
      final.atLineStart = steps.all fun step => !step.category.isSignificant := by
  by_cases hnil : line = []
  · subst hnil
    obtain ⟨rfl, c, next, ht⟩ := steps_eq_nil_of_stepThrough_nil h
    obtain ⟨entered, indented, hentered, hfinal⟩ := entering_of_token rfl ht
    refine ⟨final.indented, [], indentation_of_token_nil rfl ht, .nil, rfl, ?_⟩
    rcases eq_of_enterLine hentered with ⟨hinside, -⟩ | ⟨-, indented, -, rfl⟩
    · exact absurd rfl hinside
    · rw [hfinal]
      rfl
  · rw [stepThrough_of_ne_nil hnil] at h
    have hline : [] ++ line ≠ [] := hnil
    have hfrom : st.stepFrom config ([] ++ line) (Text.byteLength []) = .ok (steps, final) := h
    obtain ⟨indented, atLineStart, closed, hentering, hclosed, hindented, hatLineStart⟩ :=
      indented_of_stepFrom hline hfrom
    obtain ⟨hcount, rfl⟩ := hentering.begins rfl
    refine ⟨indented, closed, hcount, hclosed, hindented, ?_⟩
    rw [hatLineStart, Bool.true_and]

/-! ## The main result -/

/-- The indentation behind a line on which these contexts have been closed: that of the last bracket
among them, or the line's own if there is none. -/
def IndentBehind (config : Config) (line : Text) (closed : List Context) (indented : Nat) : Prop :=
  match (closed.filter fun c => c.kind.isBracket).getLast? with
  | some bracket => indented = bracket.baseIndent
  | none => Column.count (Text.leadingBlank line) config.tabSize = .ok indented

/-- What the steps through a line leave behind. -/
structure LeavesBehind (config : Config) (line : Text) (st : State) (steps : List Step)
    (final : State) : Prop where
  closes : ∃ closed, st.ClosedAlong steps closed
  /-- Whatever has been closed, in whichever alignment, leaves the same indentation. -/
  indented : ∀ closed, st.ClosedAlong steps closed →
    IndentBehind config line closed final.indented
  atLineStart : final.atLineStart ↔
    ∀ t ∈ Step.tokensFrom 0 steps, t.category = .unstyled ∨ t.category = .comment

theorem indentBehind_restored {line : Text} {indented : Nat}
    (h : Column.count (Text.leadingBlank line) config.tabSize = .ok indented)
    (closed : List Context) :
    IndentBehind config line closed (Context.restored indented closed) := by
  rw [IndentBehind, Context.restored_eq]
  cases (closed.filter fun c => c.kind.isBracket).getLast? with
  | some bracket => rfl
  | none => exact h

theorem leavesBehind_of_stepThrough {line : Text} {steps : List Step}
    (h : st.stepThrough config line = .ok (steps, final)) :
    LeavesBehind config line st steps final := by
  obtain ⟨indented, closed, hcount, hclosed, hindented, hatLineStart⟩ := indented_of_stepThrough h
  refine ⟨⟨closed, hclosed⟩, fun closed' hclosed' => ?_, ?_⟩
  · rw [hindented, hclosed.restored_eq hclosed']
    exact indentBehind_restored hcount closed'
  · have hinsignificant (c : Category) : !c.isSignificant ↔ c = .unstyled ∨ c = .comment := by
      cases c <;> decide
    have htokens (p : Category → Prop) :
        (∀ t ∈ Step.tokensFrom 0 steps, p t.category) ↔ ∀ step ∈ steps, p step.category := by
      have hcategories : (Step.tokensFrom 0 steps).map Token.category = steps.map Step.category :=
        Step.map_tokensFrom (fun _ _ => rfl) 0 steps
      rw [← List.forall_mem_map, hcategories, List.forall_mem_map]
    rw [hatLineStart, List.all_eq_true, htokens fun c => c = .unstyled ∨ c = .comment]
    simp only [hinsignificant]

/-- **What a line leaves behind.**  Take any configuration, and any state and line that are read
without an overflow.

* The current indentation behind the line is the base indent of the bracket closed last on it.  If
  none has been closed, it is the width of the line's leading blanks; those are all of a blank line.
* The state behind the line is at the beginning of a line exactly if all tokens of the line are
  white space and comments.
* In the preserve style, the suggestion below a line of a document is this indentation, and there is
  none if the line leaves something unfinished. -/
theorem indented_behind_line (config : Config) :
    (∀ st line tokens final, st.tokenizeLine config line = .ok (tokens, final) →
      ∃ steps, st.stepThrough config line = .ok (steps, final) ∧
        tokens = Step.tokensFrom 0 steps ∧ LeavesBehind config line st steps final) ∧
    (∀ line : Text, line.isAllBlank → line.leadingBlank = line) ∧
    (config.indentStyle = .preserve → ∀ text doc, Document.highlight config text = .ok doc →
      ∀ i line, doc.lines[i]? = some line →
        ∃ before steps, doc.stateBefore? i = some before ∧
          before.stepThrough config line.text = .ok (steps, line.state) ∧
          line.tokens = Step.tokensFrom 0 steps ∧
          LeavesBehind config line.text before steps line.state ∧
          ∀ textAfter, doc.indentAfter config i textAfter =
            .ok (if line.state.pending.isSome then none else some line.state.indented)) := by
  have hline : ∀ st line tokens final, st.tokenizeLine config line = .ok (tokens, final) →
      ∃ steps, st.stepThrough config line = .ok (steps, final) ∧
        tokens = Step.tokensFrom 0 steps ∧ LeavesBehind config line st steps final := by
    intro st line tokens final h
    obtain ⟨steps, hsteps, htokens⟩ := exists_stepThrough_of_tokenizeLine h
    exact ⟨steps, hsteps, htokens, leavesBehind_of_stepThrough hsteps⟩
  refine ⟨hline, fun line hblank => ?_, ?_⟩
  · exact List.takeWhile_eq_self_iff.mpr (List.all_eq_true.mp hblank)
  · intro hstyle text doc hdoc i line hi
    have hlt : i < doc.lines.length := (List.getElem?_eq_some_iff.mp hi).1
    obtain ⟨before, hbefore⟩ := Option.isSome_iff_exists.mp
      (Document.isSome_stateBefore?.mpr (Nat.le_of_lt hlt))
    obtain ⟨lines, hlines, hdocument⟩ := Fault.bind_eq_ok.mp hdoc
    obtain rfl := Fault.pure_eq_ok.mp hdocument
    have hread := Document.tokenizeLine_of_readLines hlines hbefore hi
    obtain ⟨steps, hsteps, htokens, hleaves⟩ := hline before line.text line.tokens line.state hread
    refine ⟨before, steps, hbefore, hsteps, htokens, hleaves, fun textAfter => ?_⟩
    have hafter : Document.indentAfter config i textAfter ⟨State.start 0, lines⟩ =
        line.state.indent config textAfter := by
      rw [Document.indentAfter, hi]
    rw [hafter, indent, hstyle]
    cases line.state.pending with
    | none => rfl
    | some k => rfl

/-- Line 2 closes a parenthesis of line 1 and then a bracket of line 0: behind it stands the
indentation of line 0, and not its own. -/
theorem indented_behind_line_closing :
    let config : Config := { indentStyle := .preserve }
    let text : Text := "  a [\n      b (\n   c ) ] d".toList
    ∃ doc line before steps closed bracket, Document.highlight config text = .ok doc ∧
      doc.lines[2]? = some line ∧ doc.stateBefore? 2 = some before ∧
      before.stepThrough config line.text = .ok (steps, line.state) ∧
      before.ClosedAlong steps closed ∧
      (closed.filter fun c => c.kind.isBracket).getLast? = some bracket ∧ bracket.baseIndent = 2 ∧
      doc.indentAfter config 2 ['x'] = .ok (some 2) := by
  intro config text
  obtain ⟨doc, hdoc, hline⟩ := Fault.exists_eq_ok_of_any
    (x := Document.highlight config text)
    (p := fun doc => doc.lines[2]?.any fun line => line.text = "   c ) ] d".toList ∧
      line.state.pending = none ∧ line.state.indented = 2)
    (by decide +kernel)
  simp only [Option.any_eq_true, decide_eq_true_eq] at hline
  obtain ⟨line, hline, htext, hpending, hindented⟩ := hline
  obtain ⟨-, -, hpreserve⟩ := indented_behind_line config
  obtain ⟨before, steps, hbefore, hsteps, -, hleaves, hafter⟩ :=
    hpreserve rfl text doc hdoc 2 line hline
  obtain ⟨closed, hclosed⟩ := hleaves.closes
  have hbehind := hleaves.indented closed hclosed
  rw [IndentBehind, hindented, htext] at hbehind
  have hindent := hafter ['x']
  rw [hpending, hindented] at hindent
  cases hbracket : (closed.filter fun c => c.kind.isBracket).getLast? with
  | some bracket =>
    rw [hbracket] at hbehind
    exact ⟨doc, line, before, steps, closed, bracket, hdoc, hline, hbefore, hsteps, hclosed,
      hbracket, hbehind.symm, hindent⟩
  | none =>
    -- the line's own indentation is another one
    rw [hbracket] at hbehind
    have hown : (Column.count (Text.leadingBlank "   c ) ] d".toList) config.tabSize).toOption =
        some 3 := by decide +kernel
    rw [hbehind] at hown
    cases hown

end Token

end State
end EditorMode
