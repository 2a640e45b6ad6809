import EditorMode.Proofs.Effect

/-! # A bracket is closed by its own closer

An opening bracket puts its context on the stack, and from then on the contexts under it are out of
reach: whatever is read, on the same line or on later ones, nested or malformed, works on what
stands above them.  The context itself goes only with a closer of its own kind, and then the current
indentation is again what the bracket was opened with.

The frame of the bracket is the list of contexts from it to the root.  It is a suffix of the stack
(`ContextStack.HasFrame`), but for the bracket's own alignment, which the token or the line that
follows decides.  `Effect.keeps_frame_or_closes` is the step: a token keeps the frame, or it closes
the bracket.  The main result, `closed_by_own_closer`, follows it along any sequence of tokens. -/

namespace EditorMode

/-! ## Frames -/

namespace ContextStack

/-- The stack stands on `outer` with the context `opened` on it, whose alignment may have been
decided since it was opened. -/
def HasFrame (s : ContextStack) (opened : Context) (outer : ContextStack) : Prop :=
  ∃ a, (outer.push { opened with alignment := a }).toList <:+ s.toList

variable {opened : Context} {outer s t : ContextStack}

theorem hasFrame_push (opened : Context) (outer : ContextStack) :
    (outer.push opened).HasFrame opened outer :=
  ⟨opened.alignment, List.suffix_refl _⟩

/-- A stack with the frame is deeper than what is under it. -/
theorem HasFrame.depth_lt (h : s.HasFrame opened outer) : outer.depth < s.depth := by
  obtain ⟨a, hsuffix⟩ := h
  have hlength := hsuffix.length_le
  rw [length_toList, length_toList] at hlength
  exact hlength

/-- What is put on the stack leaves the frame alone. -/
theorem HasFrame.push (h : s.HasFrame opened outer) (c : Context) :
    (s.push c).HasFrame opened outer := by
  obtain ⟨a, hsuffix⟩ := h
  exact ⟨a, hsuffix.trans (List.suffix_cons c s.toList)⟩

/-- An alignment is decided above the frame, or it is that of the bracket itself. -/
theorem HasFrame.decideAlignment (h : s.HasFrame opened outer) (a : Context.Alignment) :
    (s.decideAlignment a).HasFrame opened outer := by
  obtain ⟨b, hsuffix⟩ := h
  rw [ContextStack.decideAlignment]
  split
  · cases s with
    | root c =>
      have hlength := hsuffix.length_le
      have hpos := List.length_pos_iff.mpr outer.toList_ne_nil
      simp only [toList_push, toList_root, List.length_cons, List.length_nil] at hlength
      omega
    | push c below =>
      rw [toList_push] at hsuffix
      rcases List.suffix_cons_iff.mp hsuffix with heq | hbelow
      · obtain ⟨rfl, hbelow⟩ := List.cons.inj heq
        obtain rfl := toList_inj.mp hbelow
        exact ⟨a, List.suffix_refl _⟩
      · exact ⟨b, hbelow.trans (List.suffix_cons _ _)⟩
  · exact ⟨b, hsuffix⟩

/-- Ended statements stand above a frame that does not begin with one. -/
theorem suffix_of_ended {ended others outer : List Context} {c : Context}
    (h : c :: outer <:+ ended ++ others) (hended : ∀ ctx ∈ ended, ctx.kind = .statement)
    (hc : c.kind ≠ .statement) : c :: outer <:+ others := by
  induction ended with
  | nil => exact h
  | cons first ended ih =>
    obtain ⟨hfirst, hrest⟩ := List.forall_mem_cons.mp hended
    rcases List.suffix_cons_iff.mp h with heq | hsuffix
    · obtain ⟨rfl, -⟩ := List.cons.inj heq
      exact absurd hfirst hc
    · exact ih hsuffix hrest

/-- Dropping statements keeps every frame, since a bracket is not a statement. -/
theorem HasFrame.dropStatements (h : s.HasFrame opened outer) (hbracket : opened.kind.isBracket) :
    s.dropStatements.HasFrame opened outer := by
  obtain ⟨a, hsuffix⟩ := h
  obtain ⟨dropped, hlist, hdropped⟩ := s.toList_dropStatements
  rw [hlist] at hsuffix
  exact ⟨a, suffix_of_ended hsuffix hdropped (Context.Kind.ne_of_isBracket hbracket).2⟩

end ContextStack

/-- Of a document's stack, dropping statements takes one off or none. -/
theorem Nested.toList_dropStatements {baseColumn : Nat} {s : ContextStack}
    (h : Nested baseColumn s) :
    s.dropStatements.toList = if s.top.kind = .statement then s.toList.tail else s.toList := by
  split
  · rename_i hstatement
    cases h with
    | root => cases hstatement
    | @push c below h hc =>
      have hkind : c.kind = .statement := hstatement
      rw [ContextStack.dropStatements, if_pos hkind,
        ContextStack.dropStatements_of_ne (hc.kind_below_ne hkind)]
      rfl
  · rename_i hstatement
    rw [ContextStack.dropStatements_of_ne hstatement]

/-- What is left when a bracket has been closed: the contexts under it, without the statement that
braces belong to. -/
def ContextStack.afterClosing (kind : Context.Kind) (outer : ContextStack) : List Context :=
  if kind = .brace ∧ outer.top.kind = .statement then outer.toList.tail else outer.toList

theorem ContextStack.length_afterClosing_le (kind : Context.Kind) (outer : ContextStack) :
    (outer.afterClosing kind).length ≤ outer.toList.length := by
  rw [afterClosing]
  split
  · rw [List.length_tail]
    omega
  · exact Nat.le_refl _

namespace State

variable {baseColumn column : Nat} {st st' : State} {opened : Context} {outer : ContextStack}

/-- **One step on a frame.**  A significant token keeps the frame of a bracket, or it is the
bracket's closer. -/
theorem Effect.keeps_frame_or_closes {mark : Option Char} (h : Effect column mark st st')
    (hnested : Nested baseColumn st.stack) (hbracket : opened.kind.isBracket)
    (hframe : st.stack.HasFrame opened outer) :
    st'.stack.HasFrame opened outer ∨
      ∃ c, mark = some c ∧ opened.kind.closer? = some c ∧ st'.indented = opened.baseIndent ∧
        st'.stack.toList = outer.afterClosing opened.kind := by
  have hkind : opened.kind ≠ .statement := (Context.Kind.ne_of_isBracket hbracket).2
  cases h with
  | opens hmark hstatement hstack hindented =>
    left
    rw [hstack]
    exact hframe.push _
  | ends hlist hended hmark hopen hindented =>
    left
    obtain ⟨a, hsuffix⟩ := hframe
    rw [hlist] at hsuffix
    exact ⟨a, ContextStack.suffix_of_ended hsuffix hended hkind⟩
  | @closes c ended bracket below hmark hcloser hdeciding hlist hended hstack hindented =>
    obtain ⟨a, hsuffix⟩ := hframe
    rw [hlist] at hsuffix
    have habove := ContextStack.suffix_of_ended hsuffix hended hkind
    rcases List.suffix_cons_iff.mp habove with heq | hbelow
    · -- the bracket of the frame is the one that is closed
      right
      obtain ⟨rfl, houter⟩ := List.cons.inj heq
      obtain rfl := ContextStack.toList_inj.mp houter
      have hbelow : Nested baseColumn outer := by
        apply hnested.closesTo (n := (ended ++ [{ opened with alignment := a }]).length)
        exact ⟨_, by rw [hlist, List.append_assoc]; rfl, Nat.le_refl _⟩
      refine ⟨c, hmark, hcloser, hindented, ?_⟩
      have hstack' : st'.stack = if opened.kind = .brace then outer.dropStatements else outer :=
        hstack
      rw [hstack', ContextStack.afterClosing]
      by_cases hbrace : opened.kind = .brace
      · simp only [hbrace, if_true, true_and, hbelow.toList_dropStatements]
      · simp only [hbrace, if_false, false_and]
    · -- it is a bracket inside
      left
      have hframe : below.HasFrame opened outer := ⟨a, hbelow⟩
      rw [hstack]
      split
      · exact hframe.dropStatements hbracket
      · exact hframe

/-! ## Tokens -/

theorem hasFrame_enterLine {s : Cursor} {entered : State} (hframe : st.stack.HasFrame opened outer)
    (h : st.enterLine s = .ok entered) : entered.stack.HasFrame opened outer := by
  rcases stack_enterLine h with hstack | hstack
  · rw [hstack]
    exact hframe
  · rw [hstack]
    exact hframe.decideAlignment .hanging

/-- **A token keeps the frame of a bracket, or it is the bracket's closer.**  So is any reading at a
place of a line, also at its end. -/
theorem keeps_frame_or_closes_of_tokenize {config : Config} {line : Text} {offset : Nat}
    {step : Step} (hnested : Nested baseColumn st.stack) (hbracket : opened.kind.isBracket)
    (hframe : st.stack.HasFrame opened outer) (h : st.tokenize config line offset = .ok step) :
    step.state.stack.HasFrame opened outer ∨
      (step.category = .punctuation ∧ (∃ c, opened.kind.closer? = some c ∧ step.text = [c]) ∧
        step.state.indented = opened.baseIndent ∧
        step.state.stack.toList = outer.afterClosing opened.kind) := by
  obtain ⟨before, s, next, -, -, hlexeme, -, ht, htext⟩ := exists_cursor_of_tokenize h
  by_cases hnil : s.rest = []
  · left
    obtain ⟨entered, indented, hentered, hstate⟩ := entering_of_token hnil ht
    rw [hstate]
    show entered.stack.HasFrame opened outer
    exact hasFrame_enterLine hframe hentered
  · obtain ⟨entered, hentered, heffect | ⟨-, hstack, -⟩⟩ := effect_token hnil hlexeme hnested ht
    · have hdecided : (entered.decideAlignment .aligned).stack.HasFrame opened outer :=
        (hasFrame_enterLine hframe hentered).decideAlignment .aligned
      have hnested' : Nested baseColumn (entered.decideAlignment .aligned).stack :=
        (nested_enterLine hnested hentered).decideAlignment .aligned
      rcases heffect.2.keeps_frame_or_closes hnested' hbracket hdecided with
        hkept | ⟨c, hmark, hcloser, hindented, hstack⟩
      · exact .inl hkept
      · obtain ⟨hcategory, hword⟩ :=
          (lexeme_of_token hnil hlexeme ht).mark?_eq_some_iff.mp hmark
        exact .inr ⟨hcategory, ⟨c, hcloser, htext.trans hword⟩, hindented, hstack⟩
    · left
      rw [hstack]
      exact hasFrame_enterLine hframe hentered

/-! ## Runs -/

/-- **Tokens that are read one after another**, each in the state that the one before has left
behind.  They may be those of consecutive lines; where a host reads them and with which
configurations makes no difference.  Reading at the end of a line counts as a token without text. -/
inductive Trace : State → List Step → Prop where
  | nil {st : State} : Trace st []
  | cons (config : Config) (line : Text) (offset : Nat) {st : State} {step : Step}
      {steps : List Step} (first : st.tokenize config line offset = .ok step)
      (others : Trace step.state steps) : Trace st (step :: steps)

/-- The run over a frame: as long as the depth stays above the contexts under a bracket, its frame
is kept; and the first token behind which it does not is the bracket's closer. -/
theorem Trace.keeps_frame_or_closes {before after : List Step} {step : Step}
    (hreach : Reachable baseColumn st) (hbracket : opened.kind.isBracket)
    (hframe : st.stack.HasFrame opened outer) (h : Trace st (before ++ step :: after))
    (habove : ∀ earlier ∈ before, outer.depth < earlier.state.stack.depth) :
    step.state.stack.HasFrame opened outer ∨
      (step.category = .punctuation ∧ (∃ c, opened.kind.closer? = some c ∧ step.text = [c]) ∧
        step.state.indented = opened.baseIndent ∧
        step.state.stack.toList = outer.afterClosing opened.kind) := by
  induction before generalizing st with
  | nil =>
    cases h with
    | cons config line offset first others =>
      exact keeps_frame_or_closes_of_tokenize hreach.sound.nested hbracket hframe first
  | cons earlier before ih =>
    obtain ⟨hearlier, habove⟩ := List.forall_mem_cons.mp habove
    cases h with
    | cons config line offset first others =>
      rcases keeps_frame_or_closes_of_tokenize hreach.sound.nested hbracket hframe first with
        hkept | ⟨-, -, -, hstack⟩
      · exact ih (hreach.tokenize first) hkept others habove
      · -- the bracket would be closed, and the depth not above what is under it
        have hdepth : earlier.state.stack.depth ≤ outer.depth := by
          rw [← ContextStack.length_toList, ← ContextStack.length_toList, hstack]
          exact ContextStack.length_afterClosing_le opened.kind outer
        omega

/-! ## Opening -/

/-- At the beginning of a line that begins with an opening bracket, the current indentation becomes
zero; elsewhere it stays. -/
theorem indented_of_opener {config : Config} {s next : Cursor} {before : Text} {entered : State}
    {o : Char} {kind : Context.Kind} {c : Category} (hkind : Context.Kind.ofOpener? o = some kind)
    (hstands : s.StandsAfter before) (hlexeme : s.lexeme = []) (hne : s.rest ≠ [])
    (ht : st.token config s = .ok (c, next, st')) (hword : next.lexeme = [o])
    (hentered : st.enterLine s = .ok entered) :
    entered.indented = if s.start = 0 then 0 else st.indented := by
  obtain ⟨read, -, hrest, hmoved⟩ := movesOnTo_of_token hne ht
  have hread : next.lexeme = s.lexeme ++ read := congrArg Cursor.lexeme hmoved
  rw [hlexeme, List.nil_append, hword] at hread
  have hstart : s.start = 0 ↔ before = [] := by
    rw [hstands.start_eq, Text.byteLength_eq_zero]
  simp only [hstart]
  rcases eq_of_enterLine_of_standsAfter hstands hlexeme hentered with
    ⟨rfl, -, hindented⟩ | ⟨hinside, rfl⟩
  · -- the bracket is the first character of its line, which has no blanks before it
    have hline : Text.leadingBlank s.line = [] := by
      rw [hstands.line_eq, hlexeme, hrest, ← hread]
      exact List.takeWhile_cons_of_neg (Context.Kind.not_isBlank_of_ofOpener? hkind).1
    rw [Cursor.indentation, hline] at hindented
    exact (Except.ok.inj hindented).symm
  · rw [if_neg hinside]

/-- An opening bracket puts its context on the stack.  The base indent is that of the statement in
which it stands, or else the current indentation; and this is what it was before the token or, at
the beginning of a line, the line's own, which is zero. -/
theorem opened_of_tokenize {config : Config} {line : Text} {offset : Nat} {opening : Step}
    {o : Char} {kind : Context.Kind} (hnested : Nested baseColumn st.stack)
    (h : st.tokenize config line offset = .ok opening)
    (hkind : Context.Kind.ofOpener? o = some kind) (hcategory : opening.category = .punctuation)
    (htext : opening.text = [o]) :
    ∃ (opened : Context) (outer : ContextStack),
      opening.state.stack = outer.push opened ∧ outer.depth = st.stack.depth ∧
      opened.kind = kind ∧
      opened.baseIndent = (if st.stack.top.kind = .statement then st.stack.top.baseIndent
        else opening.state.indented) ∧
      opening.state.indented = if offset = 0 then 0 else st.indented := by
  obtain ⟨before, s, next, hstands, rfl, hlexeme, hstart, ht, hword⟩ :=
    exists_cursor_of_tokenize h
  rw [htext] at hword
  have hne : s.rest ≠ [] := by
    intro hnil
    rw [cursor_of_token_nil hnil ht, hlexeme] at hword
    cases hword
  obtain ⟨entered, hentered, heffect⟩ := effect_token hne hlexeme hnested ht
  have htop : entered.stack.top.kind = st.stack.top.kind ∧
      entered.stack.top.baseIndent = st.stack.top.baseIndent ∧
      entered.stack.depth = st.stack.depth := by
    rcases stack_enterLine hentered with hstack | hstack
    · rw [hstack]
      exact ⟨rfl, rfl, rfl⟩
    · rw [hstack]
      exact ⟨ContextStack.kind_top_decideAlignment _ _,
        ContextStack.baseIndent_top_decideAlignment _ _, ContextStack.depth_decideAlignment _ _⟩
  have hindented : entered.indented = if offset = 0 then 0 else st.indented := by
    have hoffset : s.start = 0 ↔ offset = 0 := by
      have hlt := hstands.pos_lt_iff.mpr hne
      rw [hstart]
      omega
    rw [indented_of_opener hkind hstands hlexeme hne ht hword.symm hentered]
    simp only [hoffset]
  rw [hcategory] at heffect
  rcases heffect with ⟨-, heffect⟩ | ⟨hinsignificant, -⟩
  · rw [← hword] at heffect
    cases heffect with
    | @opens kind' hopens hstatement hstack hsame =>
      obtain rfl : kind = kind' := Option.some.inj (hkind.symm.trans hopens)
      refine ⟨_, entered.stack.decideAlignment .aligned, hstack, ?_, rfl, ?_, ?_⟩
      · rw [ContextStack.depth_decideAlignment]
        exact htop.2.2
      · show (if (entered.stack.decideAlignment .aligned).top.kind = .statement then
            (entered.stack.decideAlignment .aligned).top.baseIndent else entered.indented) = _
        rw [ContextStack.kind_top_decideAlignment, ContextStack.baseIndent_top_decideAlignment,
          htop.1, htop.2.1, hsame]
        rfl
      · rw [hsame]
        exact hindented
    | closes hmark hcloser =>
      obtain rfl := Option.some.inj hmark
      exact absurd hcloser ((Context.Kind.not_isBlank_of_ofOpener? hkind).2 _)
    | ends hlist hended hmark =>
      obtain ⟨rfl, -⟩ := hmark kind hkind
      have hbracket := Context.Kind.isBracket_iff_exists_opener.mpr ⟨o, hkind⟩
      cases hbracket
  · exact absurd rfl hinsignificant

/-! ## The discipline -/

/-- **A bracket is closed by its own closer, and by nothing else.**  Let an opening bracket be read
in a state that can be reached, with `d` contexts open.

* It puts its context on these `d` contexts.  The base indent that it is opened with is that of the
  innermost of them if that is a statement, and the current indentation otherwise: the one before
  the token or, if the token begins its line, the line's own.
* Whatever is read next, on however many lines: as long as the depth stays above `d`, the `d`
  contexts stay as they are behind the opening bracket, with its context directly on them.
* The first token behind which the depth is `d` or less is a closing bracket of the same kind.  The
  current indentation is then the base indent that the bracket was opened with, and the contexts are
  the `d` ones, without the innermost of them if that is a statement and the brackets are braces. -/
theorem closed_by_own_closer (h : Reachable baseColumn st) {config : Config} {line : Text}
    {offset : Nat} {opening : Step} (hopening : st.tokenize config line offset = .ok opening)
    {o : Char} {kind : Context.Kind} (hkind : Context.Kind.ofOpener? o = some kind)
    (hcategory : opening.category = .punctuation) (htext : opening.text = [o]) :
    ∃ (opened : Context) (outer : ContextStack),
      opening.state.stack = outer.push opened ∧ outer.depth = st.stack.depth ∧
      opened.kind = kind ∧
      opened.baseIndent = (if st.stack.top.kind = .statement then st.stack.top.baseIndent
        else opening.state.indented) ∧
      (opening.state.indented = if offset = 0 then 0 else st.indented) ∧
      ∀ before step after, Trace opening.state (before ++ step :: after) →
        (∀ earlier ∈ before, st.stack.depth < earlier.state.stack.depth) →
        (st.stack.depth < step.state.stack.depth →
          ∃ a, (outer.push { opened with alignment := a }).toList <:+ step.state.stack.toList) ∧
        (step.state.stack.depth ≤ st.stack.depth →
          step.category = .punctuation ∧ (∃ c, kind.closer? = some c ∧ step.text = [c]) ∧
          step.state.indented = opened.baseIndent ∧
          step.state.stack.toList =
            if kind = .brace ∧ outer.top.kind = .statement then outer.toList.tail
            else outer.toList) := by
  obtain ⟨opened, outer, hstack, hdepth, rfl, hbase, hindented⟩ :=
    opened_of_tokenize h.sound.nested hopening hkind hcategory htext
  refine ⟨opened, outer, hstack, hdepth, rfl, hbase, hindented, ?_⟩
  intro before step after htrace habove
  have hbracket : opened.kind.isBracket :=
    Context.Kind.isBracket_iff_exists_opener.mpr ⟨o, hkind⟩
  have hframe : opening.state.stack.HasFrame opened outer := by
    rw [hstack]
    exact ContextStack.hasFrame_push opened outer
  rw [← hdepth] at habove ⊢
  rcases htrace.keeps_frame_or_closes (h.tokenize hopening) hbracket hframe habove with
    hkept | ⟨hcategory, hcloser, hrestored, hleft⟩
  · refine ⟨fun _ => hkept, fun hle => ?_⟩
    have hlt := hkept.depth_lt
    omega
  · refine ⟨fun hlt => ?_, fun _ => ⟨hcategory, hcloser, hrestored, hleft⟩⟩
    -- a closed bracket leaves no more than the contexts that were under it
    have hle : step.state.stack.depth ≤ outer.depth := by
      rw [← ContextStack.length_toList, ← ContextStack.length_toList, hleft]
      exact ContextStack.length_afterClosing_le opened.kind outer
    omega

/-- Braces in a statement.  In them, a bracket is closed that is not open, a line is empty, and a
string with a brace in it goes on over the end of its line.  The brace that closes them ends the
string's statement and the one around the braces, which is left out of the contexts. -/
theorem closed_by_own_closer_braces :
    let st : State :=
      { pending := none
        stack := .push ⟨.statement, 2, 2, .undecided⟩ (.ofBase 1)
        indented := 2
        atLineStart := false }
    let outer : ContextStack := .push ⟨.statement, 2, 2, .aligned⟩ (.ofBase 1)
    let braces : ContextStack := outer.push ⟨.brace, 2, 3, .hanging⟩
    let opening : Step :=
      ⟨.punctuation, ['\x7b'], 4, ⟨none, outer.push ⟨.brace, 2, 3, .undecided⟩, 2, false⟩⟩
    let inside : List Step :=
      [⟨.punctuation, [']'], 1, ⟨none, braces, 0, false⟩⟩,
       ⟨.unstyled, [], 0, ⟨none, braces, 0, true⟩⟩,
       ⟨.string, ['\"', '\x7d'], 3,
        ⟨some (.string '\"'), braces.push ⟨.statement, 0, 8, .undecided⟩, 0, false⟩⟩,
       ⟨.string, ['\x7d', '\"'], 2,
        ⟨none, braces.push ⟨.statement, 0, 8, .hanging⟩, 0, false⟩⟩]
    let closing : Step := ⟨.punctuation, ['\x7d'], 2, ⟨none, .ofBase 1, 2, false⟩⟩
    Reachable 1 st ∧ st.tokenize {} "  f\x7b".toList 3 = .ok opening ∧
      Trace opening.state (inside ++ [closing]) ∧
      ∃ (opened : Context) (under : ContextStack), opening.state.stack = under.push opened ∧
        (∀ step ∈ inside,
          ∃ a, (under.push { opened with alignment := a }).toList <:+ step.state.stack.toList) ∧
        closing.state.indented = opened.baseIndent ∧
        closing.state.stack.toList = under.toList.tail := by
  intro st outer braces opening inside closing
  have hline : ((start 1).tokenizeLine {} "  f".toList).toOption =
      some ([⟨.unstyled, 0, [' ', ' ']⟩, ⟨.atom, 2, ['f']⟩], st) := by decide +kernel
  have hreach : Reachable 1 st := .tokenizeLine .start (Fault.eq_ok_of_toOption hline)
  have hopening : st.tokenize {} "  f\x7b".toList 3 = .ok opening :=
    Fault.eq_ok_of_toOption (by decide +kernel)
  have htrace : Trace opening.state (inside ++ [closing]) :=
    .cons {} "]".toList 0 (Fault.eq_ok_of_toOption (by decide +kernel))
    (.cons {} [] 0 (Fault.eq_ok_of_toOption (by decide +kernel))
    (.cons { tabSize := 8 } "\t\"\x7d".toList 1 (Fault.eq_ok_of_toOption (by decide +kernel))
    (.cons {} "\x7d\"".toList 0 (Fault.eq_ok_of_toOption (by decide +kernel))
    (.cons {} ";\x7d".toList 1 (Fault.eq_ok_of_toOption (by decide +kernel)) .nil))))
  have hkind : Context.Kind.ofOpener? '\x7b' = some .brace := rfl
  obtain ⟨opened, under, hstack, -, -, -, -, hrun⟩ :=
    closed_by_own_closer hreach hopening hkind rfl rfl
  obtain ⟨rfl, rfl⟩ : outer = under ∧ ⟨.brace, 2, 3, .undecided⟩ = opened := by
    simpa [opening, and_comm] using hstack
  have habove : ∀ step ∈ inside, st.stack.depth < step.state.stack.depth := by decide
  refine ⟨hreach, hopening, htrace, _, _, hstack, ?_, ?_⟩
  · intro step hstep
    obtain ⟨before, after, hinside⟩ := List.append_of_mem hstep
    have hsplit : Trace opening.state (before ++ step :: (after ++ [closing])) := by
      rw [← List.cons_append, ← List.append_assoc, ← hinside]
      exact htrace
    refine (hrun _ _ _ hsplit fun earlier hearlier => ?_).1 (habove step hstep)
    apply habove
    rw [hinside]
    exact List.mem_append_left _ hearlier
  · obtain ⟨-, -, hindented, hleft⟩ := (hrun inside closing [] htrace habove).2 (by decide)
    exact ⟨hindented, hleft⟩

end State
end EditorMode
