import EditorMode.Proofs.Overflow
import EditorMode.Proofs.Run

/-! # Going through a line in steps

A host that keeps no cursor goes through a line by byte offsets: it reads the token at offset zero,
then the one at the offset where that step stopped, and so on until the offset reaches the length of
the line.  Every step opens the line anew and counts the column of the whole text before its token,
where reading the line at once carries the column from token to token.

The main result, `stepThrough_eq_tokenizeLine`, says that nothing else differs: the steps have the
categories, the places and the last state of the tokens of the line, and overflow exactly if reading
the line at once does. -/

namespace EditorMode

namespace Step

/-- The tokens that consecutive steps read, the first of them from an offset on. -/
def tokensFrom (offset : Nat) : List Step → List Token
  | [] => []
  | step :: steps => ⟨step.category, offset, step.text⟩ :: tokensFrom step.stop steps

/-- What a token does not owe to its place, it has from its step. -/
theorem map_tokensFrom {α : Type} {f : Token → α} {g : Step → α}
    (h : ∀ (step : Step) (offset : Nat), f ⟨step.category, offset, step.text⟩ = g step)
    (offset : Nat) (steps : List Step) : (tokensFrom offset steps).map f = steps.map g := by
  induction steps generalizing offset with
  | nil => rfl
  | cons step steps ih => rw [tokensFrom, List.map_cons, List.map_cons, h, ih]

/-- What a host sees of consecutive steps: categories and places. -/
def spansFrom (offset : Nat) : List Step → List (Category × Nat × Nat)
  | [] => []
  | step :: steps => (step.category, offset, step.stop) :: spansFrom step.stop steps

/-- Each step stops behind the text that it has read, and the next one begins there. -/
def Contiguous (offset : Nat) : List Step → Prop
  | [] => True
  | step :: steps => step.stop = offset + Text.byteLength step.text ∧ Contiguous step.stop steps

/-- Steps that are contiguous take the places of their tokens. -/
theorem Contiguous.spansFrom_eq {offset : Nat} {steps : List Step} (h : Contiguous offset steps) :
    spansFrom offset steps = (tokensFrom offset steps).map Token.span := by
  induction steps generalizing offset with
  | nil => rfl
  | cons step steps ih =>
    obtain ⟨hstop, hsteps⟩ := h
    have hspan : Token.span ⟨step.category, offset, step.text⟩ =
        (step.category, offset, step.stop) := by
      rw [hstop]
      rfl
    rw [spansFrom, tokensFrom, List.map_cons, hspan, ih hsteps]

end Step

namespace State

/-! ## Steps -/

/-- A step from an offset before the end of the line is a token, read at a cursor there. -/
theorem exists_token_of_tokenize {config : Config} {line : Text} {offset : Nat} {st : State}
    {step : Step} (hlt : offset < Text.byteLength line)
    (h : st.tokenize config line offset = .ok step) :
    ∃ s next, s.rest ≠ [] ∧ s.lexeme = [] ∧ s.start = offset ∧
      st.token config s = .ok (step.category, next, step.state) ∧
      step.text = next.lexeme ∧ step.stop = next.pos := by
  obtain ⟨s, hs, h⟩ := Fault.bind_eq_ok.mp h
  obtain ⟨⟨c, next, st'⟩, ht, h⟩ := Fault.bind_eq_ok.mp h
  obtain rfl := Fault.pure_eq_ok.mp h
  obtain ⟨before, hstands, hline, hlexeme, hstart⟩ := Cursor.exists_standsAfter_of_ofOffset hs
  have hoffset : s.start = offset := by
    rw [hstart]
    omega
  have hne : s.rest ≠ [] := by
    apply hstands.pos_lt_iff.mp
    rw [Cursor.pos, hlexeme, hoffset, hline]
    exact hlt
  exact ⟨s, next, hne, hlexeme, hoffset, ht, rfl, rfl⟩

/-- It stops behind the text that it has read, which is not empty. -/
theorem stop_of_tokenize {config : Config} {line : Text} {offset : Nat} {st : State} {step : Step}
    (hlt : offset < Text.byteLength line) (h : st.tokenize config line offset = .ok step) :
    step.stop = offset + Text.byteLength step.text ∧ step.text ≠ [] := by
  obtain ⟨s, next, hne, hlexeme, hoffset, ht, htext, hstop⟩ := exists_token_of_tokenize hlt h
  obtain ⟨read, hread, -, hnext⟩ := movesOnTo_of_token hne ht
  have hnextLexeme : next.lexeme = read := by
    rw [hnext, hlexeme]
    rfl
  have hnextStart : next.start = offset := by
    rw [hnext, hoffset]
  refine ⟨?_, ?_⟩
  · rw [hstop, htext, Cursor.pos, hnextStart]
  · rw [htext, hnextLexeme]
    exact hread

theorem lt_stop_of_tokenize {config : Config} {line : Text} {offset : Nat} {st : State}
    {step : Step} (hlt : offset < Text.byteLength line)
    (h : st.tokenize config line offset = .ok step) : offset < step.stop := by
  obtain ⟨hstop, htext⟩ := stop_of_tokenize hlt h
  have hlength : Text.byteLength step.text ≠ 0 := fun h => htext (Text.byteLength_eq_zero.mp h)
  omega

/-- The steps through the rest of a line, from an offset on, and the state behind the last. -/
def stepFrom (config : Config) (line : Text) (offset : Nat) (st : State) :
    Except Fault (List Step × State) :=
  if _hlt : offset < Text.byteLength line then
    match _ht : st.tokenize config line offset with
    | .error fault => .error fault
    | .ok step =>
      match stepFrom config line step.stop step.state with
      | .error fault => .error fault
      | .ok (steps, final) => .ok (step :: steps, final)
  else
    .ok ([], st)
termination_by Text.byteLength line - offset
decreasing_by
  have := lt_stop_of_tokenize _hlt _ht
  omega

/-- The steps through a line and the state behind the last.  An empty line is one step, which reads
no token. -/
def stepThrough (config : Config) (line : Text) (st : State) :
    Except Fault (List Step × State) :=
  if line.isEmpty then do
    let step ← st.tokenize config line 0
    return ([], step.state)
  else
    st.stepFrom config line 0

theorem stepFrom_of_le {config : Config} {line : Text} {offset : Nat} {st : State}
    (h : Text.byteLength line ≤ offset) : st.stepFrom config line offset = .ok ([], st) := by
  rw [stepFrom, dif_neg (Nat.not_lt.mpr h)]

/-- Stepping from an offset is one step and stepping from where it stops. -/
theorem stepFrom_of_lt {config : Config} {line : Text} {offset : Nat} {st : State}
    (h : offset < Text.byteLength line) :
    st.stepFrom config line offset = (do
      let step ← st.tokenize config line offset
      let (steps, final) ← step.state.stepFrom config line step.stop
      return (step :: steps, final)) := by
  rw [stepFrom, dif_pos h]
  cases st.tokenize config line offset with
  | error fault => rfl
  | ok step =>
    simp only [bind, Except.bind]
    cases step.state.stepFrom config line step.stop with
    | error fault => rfl
    | ok tail => rfl

/-- Only from the end of the line on there are no steps. -/
theorem stepFrom_eq_ok_nil {config : Config} {line : Text} {offset : Nat} {st final : State}
    (h : st.stepFrom config line offset = .ok ([], final)) :
    Text.byteLength line ≤ offset ∧ final = st := by
  by_cases hlt : offset < Text.byteLength line
  · rw [stepFrom_of_lt hlt] at h
    obtain ⟨first, -, h⟩ := Fault.bind_eq_ok.mp h
    obtain ⟨⟨others, last⟩, -, h⟩ := Fault.bind_eq_ok.mp h
    cases Fault.pure_eq_ok.mp h
  · rw [stepFrom_of_le (Nat.not_lt.mp hlt)] at h
    exact ⟨Nat.not_lt.mp hlt, (Prod.mk.inj (Except.ok.inj h)).2.symm⟩

/-- The other steps are the steps from where the first one stops. -/
theorem stepFrom_eq_ok_cons {config : Config} {line : Text} {offset : Nat} {st final : State}
    {step : Step} {steps : List Step}
    (h : st.stepFrom config line offset = .ok (step :: steps, final)) :
    offset < Text.byteLength line ∧ st.tokenize config line offset = .ok step ∧
      step.state.stepFrom config line step.stop = .ok (steps, final) := by
  by_cases hlt : offset < Text.byteLength line
  · rw [stepFrom_of_lt hlt] at h
    obtain ⟨first, hfirst, h⟩ := Fault.bind_eq_ok.mp h
    obtain ⟨⟨others, last⟩, hothers, h⟩ := Fault.bind_eq_ok.mp h
    obtain ⟨hcons, rfl⟩ := Prod.mk.inj (Fault.pure_eq_ok.mp h)
    obtain ⟨rfl, rfl⟩ := List.cons.inj hcons
    exact ⟨hlt, hfirst, hothers⟩
  · rw [stepFrom_of_le (Nat.not_lt.mp hlt)] at h
    cases h

theorem contiguous_of_stepFrom {config : Config} {line : Text} {offset : Nat} {st final : State}
    {steps : List Step} (h : st.stepFrom config line offset = .ok (steps, final)) :
    Step.Contiguous offset steps := by
  induction steps generalizing offset st with
  | nil => trivial
  | cons step steps ih =>
    obtain ⟨hlt, hstep, hsteps⟩ := stepFrom_eq_ok_cons h
    exact ⟨(stop_of_tokenize hlt hstep).1, ih hsteps⟩

/-! ## Steps and the run over the line -/

/-- A step at the reading position of a cursor is the token that the cursor reads next. -/
theorem tokenize_pos {config : Config} {before : Text} {s : Cursor} {st : State}
    (h : s.StandsAfter before) (htab : s.tabSize = Column.tabSize config.tabSize) :
    st.tokenize config s.line s.pos = (do
      let started ← s.startToken
      let (category, next, state) ← st.token config started
      return { category, text := next.lexeme, stop := next.pos, state }) := by
  rw [tokenize, h.ofOffset_pos htab]

/-- **Stepping on from a cursor reads what the cursor has left to read.** -/
theorem stepFrom_pos {config : Config} {before : Text} {s : Cursor} {st : State}
    (h : s.StandsAfter before) (htab : s.tabSize = Column.tabSize config.tabSize) :
    (fun r => (Step.tokensFrom s.pos r.1, r.2)) <$> st.stepFrom config s.line s.pos =
      st.tokenizeRest config s := by
  -- both loops take the same token and go on behind it, at the same cursor
  induction hn : s.rest.length using Nat.strongRecOn generalizing before s st with
  | _ n ih =>
    by_cases hnil : s.rest = []
    · have hend : Text.byteLength s.line ≤ s.pos :=
        Nat.not_lt.mp fun hlt => h.pos_lt_iff.mp hlt hnil
      rw [stepFrom_of_le hend, tokenizeRest_of_nil hnil]
      rfl
    · rw [stepFrom_of_lt (h.pos_lt_iff.mpr hnil), tokenizeRest_of_ne_nil hnil,
        tokenize_pos h htab]
      cases hs : s.startToken with
      | error fault => rfl
      | ok started =>
        simp only [bind, Except.bind]
        cases ht : st.token config started with
        | error fault => rfl
        | ok result =>
          obtain ⟨c, next, st'⟩ := result
          obtain ⟨hnext, hlexeme, hrest, hline, hnextTab⟩ := exists_piece_of_token h hnil hs ht
          have hlt : next.rest.length < n := by
            have := List.length_pos_iff.mpr hlexeme
            rw [← hn, hrest, List.length_append]
            omega
          have htail : (fun r => (Step.tokensFrom next.pos r.1, r.2)) <$>
              st'.stepFrom config next.line next.pos = st'.tokenizeRest config next :=
            ih _ hlt hnext (hnextTab.trans htab) rfl
          rw [hline] at htail
          dsimp only [pure, Except.pure]
          rw [← htail, pos_startToken hs]
          cases st'.stepFrom config s.line next.pos with
          | error fault => rfl
          | ok tail => rfl

theorem stepThrough_of_ne_nil {config : Config} {line : Text} {st : State} (h : line ≠ []) :
    st.stepThrough config line = st.stepFrom config line 0 := by
  cases line with
  | nil => exact absurd rfl h
  | cons c line => rfl

/-- The step through an empty line opens the line at its beginning, as reading it does. -/
theorem stepThrough_nil {config : Config} {st : State} :
    st.stepThrough config [] = (do
      let (_, _, st') ← st.token config (Cursor.ofLine [] config.tabSize)
      return ([], st')) := by
  show (do
    let step ← st.tokenize config [] 0
    return ([], step.state)) = _
  rw [tokenize, Cursor.ofOffset_zero]
  simp only [bind, Except.bind]
  cases st.token config (Cursor.ofLine [] config.tabSize) with
  | error fault => rfl
  | ok result => rfl

/-- An empty line has no steps. -/
theorem steps_eq_nil_of_stepThrough_nil {config : Config} {st final : State} {steps : List Step}
    (h : st.stepThrough config [] = .ok (steps, final)) :
    steps = [] ∧ ∃ c next,
      st.token config (Cursor.ofLine [] config.tabSize) = .ok (c, next, final) := by
  rw [stepThrough_nil] at h
  obtain ⟨⟨c, next, st'⟩, ht, h⟩ := Fault.bind_eq_ok.mp h
  obtain ⟨rfl, rfl⟩ := Prod.mk.inj (Fault.pure_eq_ok.mp h)
  exact ⟨rfl, c, next, ht⟩

/-- The steps through a line read its tokens. -/
theorem tokensFrom_stepThrough (config : Config) (line : Text) (st : State) :
    (fun r => (Step.tokensFrom 0 r.1, r.2)) <$> st.stepThrough config line =
      st.tokenizeLine config line := by
  by_cases hnil : line = []
  · subst hnil
    rw [stepThrough_nil, tokenizeLine]
    simp only [bind, Except.bind, List.isEmpty_nil, if_true]
    cases st.token config (Cursor.ofLine [] config.tabSize) with
    | error fault => rfl
    | ok result => rfl
  · rw [tokenizeLine_of_ne_nil hnil, stepThrough_of_ne_nil hnil]
    exact stepFrom_pos (Cursor.standsAfter_ofLine line config.tabSize) rfl

theorem contiguous_of_stepThrough {config : Config} {line : Text} {st final : State}
    {steps : List Step} (h : st.stepThrough config line = .ok (steps, final)) :
    Step.Contiguous 0 steps := by
  by_cases hnil : line = []
  · subst hnil
    obtain ⟨rfl, -⟩ := steps_eq_nil_of_stepThrough_nil h
    trivial
  · rw [stepThrough_of_ne_nil hnil] at h
    exact contiguous_of_stepFrom h

/-- **Stepping through a line is reading it at once.**  The steps have the categories, the starts
and the stops of the line's tokens, and leave the same state behind; both end in an overflow
together, and in no other fault. -/
theorem stepThrough_eq_tokenizeLine (config : Config) (line : Text) (st : State) :
    (fun r => (Step.spansFrom 0 r.1, r.2)) <$> st.stepThrough config line =
        (fun r => (r.1.map Token.span, r.2)) <$> st.tokenizeLine config line ∧
      (st.stepThrough config line = .error .columnOverflow ↔
        st.tokenizeLine config line = .error .columnOverflow) ∧
      Fault.OnlyOverflows (st.stepThrough config line) := by
  have honly := st.onlyOverflows_tokenizeLine config line
  rw [← tokensFrom_stepThrough] at honly ⊢
  cases h : st.stepThrough config line with
  | error fault =>
    rw [h] at honly
    obtain rfl := honly fault rfl
    refine ⟨rfl, ⟨fun _ => rfl, fun _ => rfl⟩, ?_⟩
    intro other hother
    exact (Except.error.inj hother).symm
  | ok result =>
    obtain ⟨steps, final⟩ := result
    refine ⟨?_, by simp [Functor.map, Except.map], Fault.onlyOverflows_ok _⟩
    show Except.ok (Step.spansFrom 0 steps, final) =
      Except.ok ((Step.tokensFrom 0 steps).map Token.span, final)
    rw [(contiguous_of_stepThrough h).spansFrom_eq]

/-! ## Documents -/

/-- The steps through lines in order, each line from the state behind the one before, and the state
behind each line. -/
def stepLines (config : Config) (st : State) : List Text → Except Fault (List (List Step × State))
  | [] => .ok []
  | text :: texts => do
    let (steps, state) ← st.stepThrough config text
    let lines ← stepLines config state texts
    return (steps, state) :: lines

/-- Stepping through a line and the ones behind it. -/
theorem stepLines_cons_eq_ok {config : Config} {st : State} {text : Text} {texts : List Text}
    {stepped : List (List Step × State)} (h : st.stepLines config (text :: texts) = .ok stepped) :
    ∃ steps state others, st.stepThrough config text = .ok (steps, state) ∧
      state.stepLines config texts = .ok others ∧ stepped = (steps, state) :: others := by
  obtain ⟨⟨steps, state⟩, hline, h⟩ := Fault.bind_eq_ok.mp h
  obtain ⟨others, hothers, h⟩ := Fault.bind_eq_ok.mp h
  exact ⟨steps, state, others, hline, hothers, (Fault.pure_eq_ok.mp h).symm⟩

/-- Stepping through the lines of a document reads their tokens, with the same states behind the
lines. -/
theorem tokensFrom_stepLines (config : Config) (texts : List Text) (st : State) :
    (List.map fun r => (Step.tokensFrom 0 r.1, r.2)) <$> st.stepLines config texts =
      (List.map fun line => (line.tokens, line.state)) <$> Document.readLines config st texts := by
  induction texts generalizing st with
  | nil => rfl
  | cons text texts ih =>
    rw [stepLines, Document.readLines, ← tokensFrom_stepThrough]
    cases st.stepThrough config text with
    | error fault => rfl
    | ok result =>
      obtain ⟨steps, state⟩ := result
      have htail := ih state
      simp only [bind, Except.bind, Functor.map, Except.map] at htail ⊢
      cases hsteps : state.stepLines config texts with
      | error fault =>
        cases hlines : Document.readLines config state texts with
        | error fault' =>
          rw [hsteps, hlines] at htail
          exact htail
        | ok lines =>
          rw [hsteps, hlines] at htail
          cases htail
      | ok tail =>
        cases hlines : Document.readLines config state texts with
        | error fault =>
          rw [hsteps, hlines] at htail
          cases htail
        | ok lines =>
          rw [hsteps, hlines] at htail
          have hmap := Except.ok.inj htail
          show Except.ok ((Step.tokensFrom 0 steps, state) :: tail.map _) =
            Except.ok ((Step.tokensFrom 0 steps, state) :: lines.map _)
          rw [hmap]

/-- Lines that have been stepped through can be read, -/
theorem exists_readLines_of_stepLines {config : Config} {texts : List Text} {st : State}
    {stepped : List (List Step × State)} (h : st.stepLines config texts = .ok stepped) :
    ∃ lines, Document.readLines config st texts = .ok lines ∧
      stepped.map (fun r => (Step.tokensFrom 0 r.1, r.2)) =
        lines.map fun line => (line.tokens, line.state) :=
  Fault.exists_eq_ok_of_map_eq (tokensFrom_stepLines config texts st) h

/-- and lines that have been read can be stepped through. -/
theorem exists_stepLines_of_readLines {config : Config} {texts : List Text} {st : State}
    {lines : List Document.Line} (h : Document.readLines config st texts = .ok lines) :
    ∃ stepped, st.stepLines config texts = .ok stepped ∧
      lines.map (fun line => (line.tokens, line.state)) =
        stepped.map fun r => (Step.tokensFrom 0 r.1, r.2) :=
  Fault.exists_eq_ok_of_map_eq (tokensFrom_stepLines config texts st).symm h

end State
end EditorMode
