import EditorMode.Proofs.Effect
import EditorMode.Proofs.Transparency

/-! # A closing bracket is placed by the bracket that it closes

Two rules know which bracket a closer belongs to.  The suggested column of a new line looks ahead:
it takes the innermost context, and behind a statement that a `}` would end the one under it
(`ContextStack.deciding`).  Reading the line then closes contexts in loops.  On a well-formed stack
both find the same bracket, since there is never a second statement under the first
(`State.Effect` carries this agreement).

The main result, `indent_agrees_with_closing`, compares them from outside: the suggestion for a text
that begins with a closer, and the contexts that are gone when the closer has been read as the first
visible token of the next line. -/

namespace EditorMode

/-! ## Suggestions by one context -/

namespace Context

variable {ctx : Context} {c : Char}

/-- Where a token followed the opening bracket, the closing one stands below it; elsewhere it stands
at the base indent. -/
theorem innerColumn_of_closer (config : Config) (h : ctx.kind.closer? = some c) :
    ctx.innerColumn config (some c) =
      .ok (if ctx.alignment = .aligned then ctx.column else ctx.baseIndent) := by
  obtain ⟨kind, baseIndent, column, alignment⟩ := ctx
  cases kind with
  | top | statement => cases h
  | paren | bracket | brace =>
    obtain rfl := Option.some.inj h
    cases alignment <;> rfl

/-- A closer that is not the context's own is placed in it like any other text. -/
theorem innerColumn_of_other_closer (config : Config) (hc : c ∈ [')', ']', '}'])
    (h : ctx.kind.closer? ≠ some c) :
    ctx.innerColumn config (some c) = ctx.innerColumn config (some 'x') := by
  obtain ⟨kind, baseIndent, column, alignment⟩ := ctx
  simp only [List.mem_cons, List.not_mem_nil, or_false] at hc
  rcases hc with rfl | rfl | rfl <;> cases kind <;> first | rfl | exact absurd rfl h

end Context

/-- Closers open no bracket, are punctuation and not blank. -/
theorem Word.closer_facts {c : Char} (hc : c ∈ [')', ']', '}']) :
    Context.Kind.ofOpener? c = none ∧ ¬ Text.isBlank c ∧
      c ∈ ['[', ']', '{', '}', '(', ')', ',', ';', ':', '.'] := by
  simp only [List.mem_cons, List.not_mem_nil, or_false] at hc
  rcases hc with rfl | rfl | rfl <;> decide

/-- A text with a visible character is its leading blanks, the character and what follows. -/
theorem Text.eq_append_of_firstVisible? {t : Text} {c : Char} (h : firstVisible? t = some c) :
    ∃ others, t = leadingBlank t ++ c :: others := by
  obtain ⟨others, htrim⟩ := List.head?_eq_some_iff.mp h
  refine ⟨others, ?_⟩
  rw [← htrim, leadingBlank_append_trimStart]

theorem Text.maximalRun_leadingBlank {t others : Text} {c : Char} (hblank : ¬ isBlank c) :
    MaximalRun isBlank (leadingBlank t) (c :: others) where
  all := fun d hd => List.all_eq_true.mp List.all_takeWhile d hd
  ends := by
    intro d hd
    obtain rfl := Option.some.inj hd
    exact hblank

namespace State

variable {baseColumn : Nat} {config : Config} {st : State} {c : Char}

/-! ## The closer of the next line -/

/-- A token at a place where the grammar has a lexeme is that lexeme. -/
theorem step_eq_of_lexeme (before : Text) {w left : Text} {category : Category}
    {after : Option Construct} {step : Step}
    (hw : Lexeme config.extraAtoms st.pending w left category after)
    (h : st.tokenize config (before ++ (w ++ left)) (Text.byteLength before) = .ok step) :
    step.category = category ∧ step.text = w ∧ step.state.pending = after := by
  have hne : w ++ left ≠ [] := fun hnil => hw.ne_nil (List.append_eq_nil_iff.mp hnil).1
  obtain ⟨left', hrest, hread⟩ :=
    lexeme_of_tokenize (Text.cutAt?_byteLength before (w ++ left)) hne h
  obtain ⟨rfl, -, rfl, rfl⟩ := hw.unique hread hrest
  exact ⟨rfl, rfl, rfl⟩

/-- The blanks at the beginning of a line do no more than enter it. -/
theorem stack_of_leading_blank {w rest : Text} {step : Step} (hnested : Nested baseColumn st.stack)
    (hne : w ++ rest ≠ []) (hcategory : step.category = .unstyled)
    (h : st.tokenize config (w ++ rest) 0 = .ok step) :
    step.state.stack = st.stack.decideAlignment .hanging := by
  obtain ⟨s, next, hstands, -, -, hlexeme, hrest, ht, -⟩ :=
    exists_cursor_of_tokenize_append [] h
  obtain ⟨entered, hentered, ⟨hsignificant, -⟩ | ⟨-, hstack, -⟩⟩ :=
    effect_token (hrest ▸ hne) hlexeme hnested ht
  · rw [hcategory] at hsignificant
    cases hsignificant
  · rcases eq_of_enterLine_of_standsAfter hstands hlexeme hentered with ⟨-, heq, -⟩ | ⟨hinside, -⟩
    · rw [hstack, heq]
    · exact absurd rfl hinside

/-- A closer acts on the stack as the line finds it. -/
theorem effect_of_closer (before : Text) {others : Text} {step : Step}
    (hnested : Nested baseColumn st.stack) (hcategory : step.category = .punctuation)
    (htext : step.text = [c])
    (hdecided : before ≠ [] → st.stack.decideAlignment .hanging = st.stack)
    (h : st.tokenize config (before ++ c :: others) (Text.byteLength before) = .ok step) :
    ∃ column entered, entered.stack = st.stack.decideAlignment .hanging ∧
      Effect column (some c) entered step.state := by
  obtain ⟨s, next, hstands, -, -, hlexeme, hrest, ht, hword⟩ :=
    exists_cursor_of_tokenize_append before h
  have hne : s.rest ≠ [] := by
    rw [hrest]
    exact List.cons_ne_nil _ _
  obtain ⟨entered, hentered, heffect⟩ := effect_token hne hlexeme hnested ht
  have hstack : entered.stack = st.stack.decideAlignment .hanging := by
    rcases eq_of_enterLine_of_standsAfter hstands hlexeme hentered with ⟨-, heq, -⟩ | ⟨hinside, rfl⟩
    · exact heq
    · exact (hdecided hinside).symm
  rw [hcategory] at heffect
  rcases heffect with ⟨-, heffect⟩ | ⟨hinsignificant, -⟩
  · rw [← hword, htext] at heffect
    refine ⟨s.column, entered.decideAlignment .aligned, ?_, heffect⟩
    -- the line has decided the innermost alignment before
    show entered.stack.decideAlignment .aligned = st.stack.decideAlignment .hanging
    rw [hstack]
    exact ContextStack.decideAlignment_of_decided .aligned
      (ContextStack.decided_top_decideAlignment (by decide) st.stack)
  · exact absurd rfl hinsignificant

/-- **The first visible token of a line that begins with a closer** is this closer, with nothing but
blanks before it. -/
theorem exists_closer_of_stepThrough {text : Text} {steps : List Step} {final : State}
    (hnested : Nested baseColumn st.stack) (hpending : st.pending = none)
    (hc : c ∈ [')', ']', '}']) (hfirst : Text.firstVisible? text = some c)
    (hs : st.stepThrough config text = .ok (steps, final)) :
    ∃ before step after, steps = before ++ step :: after ∧
      (∀ blank ∈ before, blank.category = .unstyled ∧
        blank.state.stack = st.stack.decideAlignment .hanging) ∧
      step.category = .punctuation ∧ step.text = [c] ∧
      ∃ column entered, entered.stack = st.stack.decideAlignment .hanging ∧
        Effect column (some c) entered step.state := by
  obtain ⟨-, hblank, hpunctuation⟩ := Word.closer_facts hc
  obtain ⟨others, htext⟩ := Text.eq_append_of_firstVisible? hfirst
  generalize hw : Text.leadingBlank text = w at htext
  have hrun : Text.MaximalRun Alphabet.blanks.contains w (c :: others) := by
    rw [← hw, ← Alphabet.isBlank_eq]
    exact Text.maximalRun_leadingBlank hblank
  have hcloser : Lexeme config.extraAtoms none [c] others .punctuation none :=
    .punctuation hpunctuation
  subst htext
  rw [stepThrough_of_ne_nil (by simp)] at hs
  cases steps with
  | nil =>
    have hlt := Text.byteLength_lt_append w (List.cons_ne_nil c others)
    have hle := (stepFrom_eq_ok_nil hs).1
    omega
  | cons first steps =>
    obtain ⟨hlt, hfirstStep, hs⟩ := stepFrom_eq_ok_cons hs
    by_cases hnil : w = []
    · -- the closer is the first character of the line
      subst hnil
      rw [← hpending] at hcloser
      obtain ⟨hcategory, hword, -⟩ := step_eq_of_lexeme [] hcloser hfirstStep
      exact ⟨[], first, steps, rfl, by simp, hcategory, hword,
        effect_of_closer [] hnested hcategory hword (absurd rfl) hfirstStep⟩
    · -- the blanks before it are a token of their own
      have hblanks : Lexeme config.extraAtoms st.pending w (c :: others) .unstyled none := by
        rw [hpending]
        exact .blank hnil hrun
      obtain ⟨hcategory, hword, hafter⟩ := step_eq_of_lexeme [] hblanks hfirstStep
      have hstack := stack_of_leading_blank hnested (by simp) hcategory hfirstStep
      have hstop : first.stop = Text.byteLength w := by
        rw [(stop_of_tokenize hlt hfirstStep).1, hword, Nat.zero_add]
      cases steps with
      | nil =>
        have hlt' := Text.byteLength_lt_append w (List.cons_ne_nil c others)
        have hle := (stepFrom_eq_ok_nil hs).1
        omega
      | cons step steps =>
        obtain ⟨-, hstep, -⟩ := stepFrom_eq_ok_cons hs
        rw [hstop] at hstep
        rw [← hafter] at hcloser
        obtain ⟨hcategory', hword', -⟩ := step_eq_of_lexeme w hcloser hstep
        have hnested' : Nested baseColumn first.state.stack := by
          rw [hstack]
          exact hnested.decideAlignment .hanging
        obtain ⟨column, entered, hentered, heffect⟩ := effect_of_closer w hnested'
          hcategory' hword' (fun _ => by rw [hstack, st.stack.decideAlignment_hanging_hanging])
          hstep
        rw [hstack, st.stack.decideAlignment_hanging_hanging] at hentered
        refine ⟨[first], step, steps, rfl, ?_, hcategory', hword', column, entered, hentered,
          heffect⟩
        simpa using ⟨hcategory, hstack⟩

/-! ## Agreement -/

theorem exists_stepThrough_of_tokenizeLine {line : Text} {tokens : List Token} {final : State}
    (h : st.tokenizeLine config line = .ok (tokens, final)) :
    ∃ steps, st.stepThrough config line = .ok (steps, final) ∧
      tokens = Step.tokensFrom 0 steps := by
  obtain ⟨⟨steps, last⟩, hs, heq⟩ := Fault.exists_eq_ok_of_map_eq
    ((id_map _).trans (tokensFrom_stepThrough config line st).symm) h
  obtain ⟨rfl, rfl⟩ := Prod.mk.inj heq
  exact ⟨steps, hs, rfl⟩

/-- A suggestion by the contexts does not depend on whether the line below has been entered. -/
theorem indent_eq_of_contextual (hpending : st.pending = none)
    (hstyle : config.indentStyle = .contextual) {entered : State}
    (hentered : entered.stack = st.stack.decideAlignment .hanging) (text : Text) :
    st.indent config text =
      some <$> (entered.stack.deciding (Text.firstVisible? text)).innerColumn config
        (Text.firstVisible? text) := by
  rw [indent, hpending, hstyle, hentered, ContextStack.innerColumn_deciding_hanging]

/-- Where no bracket is closed, a closer is placed like other text, unless a `}` ends a statement of
the document. -/
theorem indent_of_unmatched_closer (hnested : Nested baseColumn st.stack)
    (hpending : st.pending = none) (hstyle : config.indentStyle = .contextual)
    (hc : c ∈ [')', ']', '}']) {text : Text} (hfirst : Text.firstVisible? text = some c)
    {entered : State} (hentered : entered.stack = st.stack.decideAlignment .hanging)
    (hopen : (entered.stack.deciding (some c)).kind.closer? ≠ some c) :
    if c = '}' ∧ st.stack.top.kind = .statement then
      st.stack.parent? = some (Context.root baseColumn) ∧
        st.indent config text = .ok (some baseColumn)
    else st.indent config text = st.indent config ['x'] := by
  rw [indent_eq_of_contextual hpending hstyle hentered,
    indent_eq_of_contextual hpending hstyle hentered, hfirst]
  have hx : Text.firstVisible? ['x'] = some 'x' := rfl
  have htop : entered.stack.top.kind = st.stack.top.kind := by
    rw [hentered, ContextStack.kind_top_decideAlignment]
  split
  · rename_i hbrace
    obtain ⟨rfl, hstatement⟩ := hbrace
    generalize hs : st.stack = stack at hnested hentered hstatement
    cases hnested with
    | root => cases hstatement
    | @push ctx below h hctx =>
      have hkind : ctx.kind = .statement := hstatement
      have hdeciding : entered.stack.deciding (some '}') = below.top := by
        rw [hentered, ContextStack.decideAlignment_push]
        exact ContextStack.deciding_closingBrace hkind
      rw [hdeciding] at hopen ⊢
      rcases hctx.kind_below hkind with hroot | hbelow
      · cases h with
        | root => exact ⟨rfl, rfl⟩
        | push h hd => exact absurd hroot hd.kind_ne_top
      · rw [hbelow] at hopen
        exact absurd rfl hopen
  · rename_i hbrace
    have hdeciding : entered.stack.deciding (some c) = entered.stack.top := by
      apply ContextStack.deciding_eq_top
      rintro ⟨hstatement, heq⟩
      exact hbrace ⟨Option.some.inj heq, htop ▸ hstatement⟩
    have hother : entered.stack.deciding (some 'x') = entered.stack.top := by
      apply ContextStack.deciding_eq_top
      rintro ⟨-, heq⟩
      cases heq
    rw [hdeciding] at hopen
    rw [hx, hdeciding, hother, Context.innerColumn_of_other_closer config hc hopen]

/-- **Indenting and closing agree.**  Take a state that can be reached with nothing pending, and a
text whose first visible character is a closing bracket, and read the text as the next line.  Its
first visible token is the closer; let `closed` be the contexts that were open when the line was
entered and are not open behind the closer.

* If one of them is a bracket, it is the only one and the closer is its own.  Then the suggested
  column for the text is the bracket's column if a token followed it on its line, and its base
  indent otherwise.
* If none of them is a bracket, the suggested column is the same as for any other text; only below a
  statement of the document, a `}` is placed at the document's base column. -/
theorem indent_agrees_with_closing (h : Reachable baseColumn st) (hpending : st.pending = none)
    (hstyle : config.indentStyle = .contextual) (hc : c ∈ [')', ']', '}']) {text : Text}
    (hfirst : Text.firstVisible? text = some c)
    (hover : st.tokenizeLine config text ≠ .error .columnOverflow) :
    ∃ before step after final closed,
      st.stepThrough config text = .ok (before ++ step :: after, final) ∧
      st.tokenizeLine config text =
        .ok (Step.tokensFrom 0 (before ++ step :: after), final) ∧
      (∀ blank ∈ before, blank.category = .unstyled ∧
        blank.state.stack = st.stack.decideAlignment .hanging) ∧
      step.category = .punctuation ∧ step.text = [c] ∧
      (st.stack.decideAlignment .hanging).toList = closed ++ step.state.stack.toList ∧
      ((∃ bracket, closed.filter (·.kind.isBracket) = [bracket] ∧
          bracket.kind.closer? = some c ∧
          st.indent config text = .ok (some
            (if bracket.alignment = .aligned then bracket.column else bracket.baseIndent))) ∨
        (closed.filter (·.kind.isBracket) = [] ∧
          if c = '}' ∧ st.stack.top.kind = .statement then
            st.stack.parent? = some (Context.root baseColumn) ∧
              st.indent config text = .ok (some baseColumn)
          else st.indent config text = st.indent config ['x'])) := by
  have hnested : Nested baseColumn st.stack := h.sound.nested
  obtain ⟨⟨tokens, final⟩, htokens⟩ :=
    (st.onlyOverflows_tokenizeLine config text).exists_eq_ok hover
  obtain ⟨steps, hs, rfl⟩ := exists_stepThrough_of_tokenizeLine htokens
  obtain ⟨before, step, after, rfl, hblanks, hcategory, htext, column, entered, hentered,
    heffect⟩ := exists_closer_of_stepThrough hnested hpending hc hfirst hs
  have hstatements {ended : List Context} (hended : ∀ ctx ∈ ended, ctx.kind = .statement) :
      ended.filter (·.kind.isBracket) = [] := by
    rw [List.filter_eq_nil_iff]
    intro ctx hctx
    rw [hended ctx hctx]
    decide
  cases heffect with
  | opens hmark => cases (Word.closer_facts hc).1.symm.trans hmark
  | @closes d ended bracket outer hmark hcloser hdeciding hlist hended hstack hindented =>
    obtain rfl := Option.some.inj hmark
    have hbracket := Context.Kind.isBracket_of_closer? hcloser
    -- behind the bracket, at most the statement that it belongs to is closed too
    obtain ⟨dropped, houter, hdropped⟩ : ∃ dropped,
        outer.toList = dropped ++ step.state.stack.toList ∧
          ∀ ctx ∈ dropped, ctx.kind = .statement := by
      rw [hstack]
      split
      · exact outer.toList_dropStatements
      · exact ⟨[], rfl, by simp⟩
    refine ⟨before, step, after, final, ended ++ bracket :: dropped, hs, htokens, hblanks,
      hcategory, htext, ?_, .inl ⟨bracket, ?_, hcloser, ?_⟩⟩
    · rw [← hentered, hlist, houter, List.append_assoc, List.cons_append]
    · rw [List.filter_append, List.filter_cons, if_pos hbracket, hstatements hended,
        hstatements hdropped]
      rfl
    · rw [indent_eq_of_contextual hpending hstyle hentered, hfirst, hdeciding,
        Context.innerColumn_of_closer config hcloser]
      rfl
  | @ends ended hlist hended hmark hopen hindented =>
    refine ⟨before, step, after, final, ended, hs, htokens, hblanks, hcategory, htext, ?_,
      .inr ⟨hstatements hended, ?_⟩⟩
    · rw [← hentered, hlist]
    · exact indent_of_unmatched_closer hnested hpending hstyle hc hfirst hentered (hopen c rfl)

/-- A statement in braces in a statement.  The brace that closes them stands below the one that
opened them, where the first statement in them began on its line; both statements are closed with
them. -/
theorem indent_agrees_with_closing_braces :
    let brace : Context := ⟨.brace, 2, 4, .aligned⟩
    let st : State :=
      { pending := none
        stack := .push ⟨.statement, 2, 6, .undecided⟩ (.push brace
          (.push ⟨.statement, 2, 2, .aligned⟩ (.ofBase 3)))
        indented := 2
        atLineStart := false }
    let text : Text := "\t\x7d;".toList
    Reachable 3 st ∧ ∃ before step after final closed,
      st.stepThrough {} text = .ok (before ++ step :: after, final) ∧ step.text = ['}'] ∧
      (st.stack.decideAlignment .hanging).toList = closed ++ step.state.stack.toList ∧
      closed.filter (·.kind.isBracket) = [brace] ∧ st.indent {} text = .ok (some 4) := by
  intro brace st text
  have hline : ((start 3).tokenizeLine {} "  f \x7b g".toList).toOption =
      some ([⟨.unstyled, 0, [' ', ' ']⟩, ⟨.atom, 2, ['f']⟩, ⟨.unstyled, 3, [' ']⟩,
        ⟨.punctuation, 4, ['\x7b']⟩, ⟨.unstyled, 5, [' ']⟩, ⟨.atom, 6, ['g']⟩], st) := by
    decide +kernel
  have hreach : Reachable 3 st := .tokenizeLine .start (Fault.eq_ok_of_toOption hline)
  have hstyle : ({} : Config).indentStyle = .contextual := rfl
  have hfirst : Text.firstVisible? text = some '}' := by decide
  obtain ⟨before, step, after, final, closed, hsteps, -, -, -, htext, hclosed, hindent⟩ :=
    indent_agrees_with_closing hreach rfl hstyle (by decide) hfirst
      (Fault.ne_overflow_of_isOk (by decide +kernel))
  refine ⟨hreach, before, step, after, final, closed, hsteps, htext, hclosed, ?_⟩
  rcases hindent with ⟨bracket, hbracket, hcloser, hindent⟩ | ⟨-, hindent⟩
  · -- only one context of the stack has the closer
    have hkept : bracket ∈ closed.filter (·.kind.isBracket) := by
      rw [hbracket]
      exact List.mem_singleton_self bracket
    have hmem : bracket ∈ (st.stack.decideAlignment .hanging).toList := by
      rw [hclosed]
      exact List.mem_append_left _ (List.mem_filter.mp hkept).1
    have hall : ∀ c ∈ (st.stack.decideAlignment .hanging).toList,
        c.kind.closer? = some '}' → c = brace := by decide
    obtain rfl := hall bracket hmem hcloser
    exact ⟨hbracket, hindent⟩
  · rw [if_pos ⟨rfl, rfl⟩] at hindent
    cases hindent.1

end State
end EditorMode
