import EditorMode.Proofs.BracketDiscipline
import EditorMode.Proofs.Provenance

/-! # What becomes of a bracket in a document

The tokens of a document are read one after another, with nothing in between but the beginnings of
empty lines.  A property of what has been read and of the state behind it therefore holds at the end
of the document if every token keeps it and the beginning of an empty line does: `KeptAlong` says
so, and the run over steps, lines and documents is gone through once (`KeptAlong.stepLines`).

The property that is followed here is the **fate** of the context that an opening bracket puts on
the stack.  It stays there, with all that is under it, until one token takes it off, which is the
bracket's own closer; or it stays to the end (`fate_of_stepLines`). -/

namespace EditorMode
namespace State

/-! ## Runs over documents -/

/-- The property of a history of tokens, and of the state behind the last, is kept by whatever is
read next. -/
structure KeptAlong (config : Config) (P : List Occurrence → State → Prop) : Prop where
  token : ∀ {history : List Occurrence} {st : State} {n : Nat} {before rest : Text} {step : Step},
    P history st → rest ≠ [] →
    st.tokenize config (before ++ rest) (Text.byteLength before) = .ok step →
    P (history ++ [⟨n, before, step⟩]) step.state
  /-- An empty line has no token, but changes the state. -/
  emptyLine : ∀ {history : List Occurrence} {st : State} {step : Step},
    P history st → st.tokenize config [] 0 = .ok step → P history step.state

section KeptAlong

variable {P : List Occurrence → State → Prop} {history : List Occurrence} {config : Config}
  {st final : State}

/-- **The run over what is left of a line**, by induction on its steps. -/
theorem KeptAlong.stepFrom (hkept : KeptAlong config P) {n : Nat} {before rest : Text}
    {steps : List Step} (h : P history st)
    (hs : st.stepFrom config (before ++ rest) (Text.byteLength before) = .ok (steps, final)) :
    P (history ++ Occurrence.ofSteps n before steps) final := by
  induction steps generalizing before rest history st with
  | nil =>
    obtain ⟨-, rfl⟩ := stepFrom_eq_ok_nil hs
    rw [Occurrence.ofSteps, List.append_nil]
    exact h
  | cons step steps ih =>
    obtain ⟨hlt, hfirst, hothers⟩ := stepFrom_eq_ok_cons hs
    have hne : rest ≠ [] := by
      rintro rfl
      rw [List.append_nil] at hlt
      exact absurd hlt (Nat.lt_irrefl _)
    have hstep : P (history ++ [⟨n, before, step⟩]) step.state := hkept.token h hne hfirst
    obtain ⟨left, rfl, -, hstop⟩ := exists_left_of_tokenize hne hfirst
    rw [hstop, ← List.append_assoc] at hothers
    have hfinal := ih hstep hothers
    rw [List.append_assoc] at hfinal
    exact hfinal

/-- **The run over a line.** -/
theorem KeptAlong.stepThrough (hkept : KeptAlong config P) {n : Nat} {text : Text}
    {steps : List Step} (h : P history st)
    (hs : st.stepThrough config text = .ok (steps, final)) :
    P (history ++ Occurrence.ofSteps n [] steps) final := by
  by_cases hnil : text = []
  · subst hnil
    obtain ⟨step, hstep, hs⟩ := Fault.bind_eq_ok.mp hs
    obtain ⟨rfl, rfl⟩ := Prod.mk.inj (Fault.pure_eq_ok.mp hs)
    rw [Occurrence.ofSteps, List.append_nil]
    exact hkept.emptyLine h hstep
  · rw [stepThrough_of_ne_nil hnil] at hs
    have hline : st.stepFrom config ([] ++ text) (Text.byteLength []) = .ok (steps, final) := hs
    exact hkept.stepFrom h hline

/-- **The run over a document**, by induction on its lines. -/
theorem KeptAlong.stepLines (hkept : KeptAlong config P) {n : Nat} {texts : List Text}
    {stepped : List (List Step × State)} (h : P history st)
    (hs : st.stepLines config texts = .ok stepped) :
    ∃ last, P (history ++ Occurrence.ofLines n stepped) last := by
  induction texts generalizing n history st stepped with
  | nil =>
    obtain rfl := Except.ok.inj hs
    refine ⟨st, ?_⟩
    rw [Occurrence.ofLines, List.append_nil]
    exact h
  | cons text texts ih =>
    obtain ⟨steps, state, tail, hline, htail, rfl⟩ := stepLines_cons_eq_ok hs
    obtain ⟨last, hlast⟩ := ih (n := n + 1) (hkept.stepThrough (n := n) h hline) htail
    rw [List.append_assoc] at hlast
    exact ⟨last, hlast⟩

end KeptAlong
end State

/-! ## The fate of a bracket -/

/-- **The token takes a bracket's context off the stack.**  The context has been put on `outer`, and
the tokens `inside` have been read since, none of which has touched it or what is under it.  The
token is its closer, and leaves what was under it, less the statement that braces belong to. -/
structure Occurrence.Closes (closing : Occurrence) (opened : Context) (outer : ContextStack)
    (inside : List Occurrence) : Prop where
  kept : ∀ t ∈ inside, t.step.state.stack.HasFrame opened outer
  category : closing.step.category = .punctuation
  closer : ∃ c, opened.kind.closer? = some c ∧ closing.step.text = [c]
  left : closing.step.state.stack.toList = outer.afterClosing opened.kind

/-- What has become of a bracket's context when the tokens `later` have been read behind it: it is
still open on the stack, or one of them has closed it. -/
inductive Context.Fate (opened : Context) (outer : ContextStack) (later : List Occurrence)
    (stack : ContextStack) : Prop where
  | isOpen (kept : ∀ t ∈ later, t.step.state.stack.HasFrame opened outer)
      (hframe : stack.HasFrame opened outer) : Fate opened outer later stack
  | closed {inside rest : List Occurrence} {closing : Occurrence}
      (hlater : later = inside ++ closing :: rest) (h : closing.Closes opened outer inside) :
      Fate opened outer later stack

/-- The token opens a bracket of a kind. -/
def Occurrence.Opens (kind : Context.Kind) (t : Occurrence) : Prop :=
  t.step.category = .punctuation ∧
    ∃ c, Context.Kind.ofOpener? c = some kind ∧ t.step.text = [c]

theorem Occurrence.Opens.isBracket {kind : Context.Kind} {t : Occurrence} (h : t.Opens kind) :
    kind.isBracket := by
  obtain ⟨-, c, hc, -⟩ := h
  exact Context.Kind.isBracket_iff_exists_opener.mpr ⟨c, hc⟩

namespace State

variable {config : Config} {baseColumn : Nat} {st : State} {opened : Context}
  {outer : ContextStack} {later : List Occurrence}

/-- At the end of a line there is nothing to read. -/
theorem text_of_tokenize_nil {step : Step} (h : st.tokenize config [] 0 = .ok step) :
    step.text = [] := by
  have hline : st.tokenize config ([] ++ []) (Text.byteLength []) = .ok step := h
  obtain ⟨s, next, -, -, -, hlexeme, hrest, ht, htext⟩ := exists_cursor_of_tokenize_append [] hline
  rw [htext, cursor_of_token_nil hrest ht, hlexeme]

/-- A token closes a bracket or leaves it open, unless it has been closed before. -/
theorem fate_token {n : Nat} {before line : Text} {offset : Nat} {step : Step}
    (hnested : Nested baseColumn st.stack) (hbracket : opened.kind.isBracket)
    (hfate : opened.Fate outer later st.stack) (h : st.tokenize config line offset = .ok step) :
    opened.Fate outer (later ++ [⟨n, before, step⟩]) step.state.stack := by
  cases hfate with
  | isOpen kept hframe =>
    rcases keeps_frame_or_closes_of_tokenize hnested hbracket hframe h with
      hkept | ⟨hcategory, hcloser, -, hleft⟩
    · refine .isOpen (List.forall_mem_append.mpr ⟨kept, ?_⟩) hkept
      simpa using hkept
    · exact .closed rfl ⟨kept, hcategory, hcloser, hleft⟩
  | @closed inside rest closing hlater hcloses =>
    have hsplit : later ++ [⟨n, before, step⟩] =
        inside ++ closing :: (rest ++ [⟨n, before, step⟩]) := by
      rw [hlater, List.append_assoc]
      rfl
    exact .closed hsplit hcloses

/-- The beginning of an empty line closes nothing. -/
theorem fate_emptyLine {step : Step} (hnested : Nested baseColumn st.stack)
    (hbracket : opened.kind.isBracket) (hfate : opened.Fate outer later st.stack)
    (h : st.tokenize config [] 0 = .ok step) : opened.Fate outer later step.state.stack := by
  cases hfate with
  | isOpen kept hframe =>
    rcases keeps_frame_or_closes_of_tokenize hnested hbracket hframe h with
      hkept | ⟨-, ⟨c, -, htext⟩, -⟩
    · exact .isOpen kept hkept
    · cases (text_of_tokenize_nil h).symm.trans htext
  | closed hlater hcloses => exact .closed hlater hcloses

/-- The invariant of a run: the state is reachable, and every bracket that has been opened has its
fate. -/
structure FollowsBrackets (baseColumn : Nat) (history : List Occurrence) (st : State) : Prop where
  reachable : Reachable baseColumn st
  fate : ∀ before opening later kind, history = before ++ opening :: later → opening.Opens kind →
    ∃ (opened : Context) (outer : ContextStack), opening.step.state.stack = outer.push opened ∧
      opened.kind = kind ∧ opened.Fate outer later st.stack

/-- **One step of the run.** -/
theorem keptAlong_followsBrackets (config : Config) (baseColumn : Nat) :
    KeptAlong config (FollowsBrackets baseColumn) where
  token := by
    intro history st n before rest step h hne hstep
    refine ⟨h.reachable.tokenize hstep, ?_⟩
    intro first opening later kind hsplit hopens
    rcases List.eq_nil_or_concat later with rfl | ⟨later, t, rfl⟩
    · -- the token itself opens the bracket
      obtain ⟨-, hlast⟩ := List.append_inj' hsplit rfl
      obtain rfl := List.singleton_inj.mp hlast
      obtain ⟨hcategory, c, hc, htext⟩ := hopens
      obtain ⟨opened, outer, hstack, -, hopened, -⟩ :=
        opened_of_tokenize h.reachable.sound.nested hstep hc hcategory htext
      refine ⟨opened, outer, hstack, hopened, .isOpen nofun ?_⟩
      rw [hstack]
      exact ContextStack.hasFrame_push opened outer
    · -- it follows the bracket
      rw [List.concat_eq_append, ← List.cons_append, ← List.append_assoc] at hsplit
      obtain ⟨hhistory, hlast⟩ := List.append_inj' hsplit rfl
      obtain rfl := List.singleton_inj.mp hlast
      obtain ⟨opened, outer, hstack, hopened, hfate⟩ :=
        h.fate first opening later kind hhistory hopens
      refine ⟨opened, outer, hstack, hopened, ?_⟩
      rw [List.concat_eq_append]
      exact fate_token h.reachable.sound.nested (hopened ▸ hopens.isBracket) hfate hstep
  emptyLine := by
    intro history st step h hstep
    refine ⟨h.reachable.tokenize hstep, ?_⟩
    intro first opening later kind hsplit hopens
    obtain ⟨opened, outer, hstack, hopened, hfate⟩ := h.fate first opening later kind hsplit hopens
    exact ⟨opened, outer, hstack, hopened,
      fate_emptyLine h.reachable.sound.nested (hopened ▸ hopens.isBracket) hfate hstep⟩

/-- **Every bracket of a document stays open until its closer.**  Of the tokens that follow an
opening bracket, either all leave its context and what is under it alone, or all up to the one that
closes it. -/
theorem fate_of_stepLines {texts : List Text} {stepped : List (List Step × State)}
    (hs : (start baseColumn).stepLines config texts = .ok stepped) {before later : List Occurrence}
    {opening : Occurrence} {kind : Context.Kind}
    (hsplit : Occurrence.ofLines 0 stepped = before ++ opening :: later)
    (hopens : opening.Opens kind) :
    ∃ (opened : Context) (outer : ContextStack), opening.step.state.stack = outer.push opened ∧
      opened.kind = kind ∧
      ((∀ t ∈ later, t.step.state.stack.HasFrame opened outer) ∨
        ∃ inside closing rest, later = inside ++ closing :: rest ∧
          closing.Closes opened outer inside) := by
  have hstart : FollowsBrackets baseColumn [] (start baseColumn) := by
    refine ⟨.start, fun first opening later kind hnil => ?_⟩
    cases first <;> cases hnil
  obtain ⟨last, hlast⟩ :=
    (keptAlong_followsBrackets config baseColumn).stepLines (n := 0) hstart hs
  obtain ⟨opened, outer, hstack, hopened, hfate⟩ :=
    hlast.fate before opening later kind hsplit hopens
  refine ⟨opened, outer, hstack, hopened, ?_⟩
  cases hfate with
  | isOpen kept hframe => exact .inl kept
  | closed hlater hcloses => exact .inr ⟨_, _, _, hlater, hcloses⟩

end State
end EditorMode
