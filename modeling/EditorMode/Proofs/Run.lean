import EditorMode.Proofs.Position

/-! # The run over a line

The tokens of a line are found one after another, each from the cursor and the state that the one
before left.  `ReadsRest` is this run as a derivation with one rule for the end of the line and one
for a token, so that facts about all tokens of a line are proved by induction on it.  It holds
exactly of the results of `State.tokenizeRest` (`tokenizeRest_eq_ok_iff`). -/

namespace EditorMode

/-! ## Where a token starts -/

namespace Cursor

theorem lexeme_startToken {s t : Cursor} (h : s.startToken = .ok t) : t.lexeme = [] := by
  obtain ⟨column, -, rfl⟩ := startToken_eq_ok_iff.mp h
  rfl

theorem tabSize_startToken {s t : Cursor} (h : s.startToken = .ok t) : t.tabSize = s.tabSize := by
  obtain ⟨column, -, rfl⟩ := startToken_eq_ok_iff.mp h
  rfl

end Cursor

namespace State

/-- Where a token starts, a line is entered as it is at the reading position. -/
theorem enterLine_startToken {s t : Cursor} (hs : s.startToken = .ok t) (st : State) :
    st.enterLine t = st.enterLine s := by
  obtain ⟨column, -, rfl⟩ := Cursor.startToken_eq_ok_iff.mp hs
  rfl

/-- Behind the beginning of a line, the line is not entered again. -/
theorem enterLine_of_lexeme {s : Cursor} (h : s.lexeme ≠ []) (st : State) :
    st.enterLine s = .ok st := by
  have hpos : ¬ s.atLineStart := by
    rw [Cursor.atLineStart, beq_iff_eq, Cursor.pos]
    intro hzero
    exact h (Text.byteLength_eq_zero.mp (by omega))
  rw [enterLine, if_neg hpos]
  rfl

/-- At their beginnings, lines with the same indentation are entered alike. -/
theorem enterLine_congr {s t : Cursor} (hs : s.atLineStart) (ht : t.atLineStart)
    (h : s.indentation = t.indentation) (st : State) : st.enterLine s = st.enterLine t := by
  rw [enterLine, enterLine, if_pos hs, if_pos ht, h]

/-! ## The run -/

/-- From the cursor and the state, the rest of the line is read as the tokens, and leaves the last
state behind. -/
inductive ReadsRest (config : Config) : Cursor → State → List Token → State → Prop where
  | done {s : Cursor} {st : State} (hnil : s.rest = []) : ReadsRest config s st [] st
  | token {s started next : Cursor} {st st' final : State} {c : Category} {tokens : List Token}
      (hne : s.rest ≠ []) (hs : s.startToken = .ok started)
      (ht : st.token config started = .ok (c, next, st'))
      (tail : ReadsRest config next st' tokens final) :
      ReadsRest config s st (⟨c, s.pos, next.lexeme⟩ :: tokens) final

theorem pos_startToken {s started : Cursor} (h : s.startToken = .ok started) :
    started.pos = s.pos := by
  obtain ⟨column, -, rfl⟩ := Cursor.startToken_eq_ok_iff.mp h
  rfl

theorem readsRest_of_tokenizeRest {config : Config} {s : Cursor} {st final : State}
    {tokens : List Token} (h : st.tokenizeRest config s = .ok (tokens, final)) :
    ReadsRest config s st tokens final := by
  -- by the length of what is left, since every token takes a part of it
  induction hn : s.rest.length using Nat.strongRecOn generalizing s st tokens with
  | _ n ih =>
    by_cases hnil : s.rest = []
    · rw [tokenizeRest_of_nil hnil] at h
      obtain ⟨rfl, rfl⟩ := Prod.mk.inj (Except.ok.inj h)
      exact .done hnil
    · rw [tokenizeRest_of_ne_nil hnil] at h
      obtain ⟨started, hs, h⟩ := Fault.bind_eq_ok.mp h
      obtain ⟨⟨c, next, st'⟩, ht, h⟩ := Fault.bind_eq_ok.mp h
      obtain ⟨⟨tail, last⟩, htail, h⟩ := Fault.bind_eq_ok.mp h
      obtain ⟨rfl, rfl⟩ := Prod.mk.inj (Fault.pure_eq_ok.mp h)
      have hrest : started.rest = s.rest := Cursor.rest_startToken hs
      have hlt : next.rest.length < n := by
        rw [← hn, ← hrest]
        exact length_rest_token_lt (hrest ▸ hnil) ht
      rw [pos_startToken hs]
      exact .token hnil hs ht (ih _ hlt htail rfl)

/-- **The derivations are the runs of the function.** -/
theorem tokenizeRest_eq_ok_iff {config : Config} {s : Cursor} {st final : State}
    {tokens : List Token} :
    st.tokenizeRest config s = .ok (tokens, final) ↔ ReadsRest config s st tokens final := by
  refine ⟨readsRest_of_tokenizeRest, fun h => ?_⟩
  induction h with
  | done hnil => exact tokenizeRest_of_nil hnil
  | token hne hs ht tail ih =>
    rw [tokenizeRest_of_ne_nil hne, hs]
    simp only [bind, Except.bind, ht, ih, pos_startToken hs]
    rfl

/-- A line that is not empty is read from its beginning. -/
theorem tokenizeLine_of_ne_nil {config : Config} {line : Text} {st : State} (h : line ≠ []) :
    st.tokenizeLine config line =
      st.tokenizeRest config (Cursor.ofLine line config.tabSize) := by
  cases line with
  | nil => exact absurd rfl h
  | cons c line => rfl

/-- An empty line has no tokens. -/
theorem tokens_eq_nil_of_tokenizeLine_nil {config : Config} {st final : State}
    {tokens : List Token} (h : st.tokenizeLine config [] = .ok (tokens, final)) :
    tokens = [] ∧ ∃ c next,
      st.token config (Cursor.ofLine [] config.tabSize) = .ok (c, next, final) := by
  obtain ⟨⟨c, next, st'⟩, ht, h⟩ := Fault.bind_eq_ok.mp h
  obtain ⟨rfl, rfl⟩ := Prod.mk.inj (Fault.pure_eq_ok.mp h)
  exact ⟨rfl, c, next, ht⟩

/-- Entering a line changes nothing behind its beginning.  At its beginning, nothing can follow the
last opener on its own line any more, and the line is measured. -/
theorem eq_of_enterLine {s : Cursor} {st entered : State} (h : st.enterLine s = .ok entered) :
    (¬ s.atLineStart ∧ entered = st) ∨
      (s.atLineStart ∧ ∃ indented, s.indentation = .ok indented ∧
        entered = { st.decideAlignment .hanging with indented, atLineStart := true }) := by
  rw [enterLine] at h
  split at h
  · rename_i hstart
    obtain ⟨indented, hindented, h⟩ := Fault.bind_eq_ok.mp h
    exact .inr ⟨hstart, indented, hindented, (Fault.pure_eq_ok.mp h).symm⟩
  · rename_i hstart
    exact .inl ⟨hstart, (Fault.pure_eq_ok.mp h).symm⟩

/-- Reading a token before the end of the line is entering the line, reading at the cursor and going
on to the state behind. -/
theorem reading_of_token {config : Config} {s next : Cursor} {st st' : State} {c : Category}
    (hne : s.rest ≠ []) (h : st.token config s = .ok (c, next, st')) :
    ∃ entered, st.enterLine s = .ok entered ∧
      c = (s.read config.extraAtoms st.pending).category ∧
      next = (s.read config.extraAtoms st.pending).cursor ∧
      st' = entered.afterReading s.column (s.read config.extraAtoms st.pending) := by
  have hend : s.atLineEnd = false := by simp [Cursor.atLineEnd, hne]
  obtain ⟨entered, hentered, h⟩ := Fault.bind_eq_ok.mp h
  rw [hend, if_neg Bool.false_ne_true, pending_enterLine hentered] at h
  obtain ⟨rfl, rfl, rfl⟩ : _ ∧ _ ∧ _ := by simpa only [Fault.pure_eq_ok, Prod.mk.injEq] using h
  exact ⟨entered, hentered, rfl, rfl, rfl⟩

/-- At the end of a line nothing is read: the line is entered, and its indentation is noted. -/
theorem entering_of_token {config : Config} {s next : Cursor} {st st' : State} {c : Category}
    (hnil : s.rest = []) (h : st.token config s = .ok (c, next, st')) :
    ∃ entered indented, st.enterLine s = .ok entered ∧ st' = { entered with indented } := by
  have hend : s.atLineEnd = true := by rw [Cursor.atLineEnd, hnil]; rfl
  obtain ⟨entered, hentered, h⟩ := Fault.bind_eq_ok.mp h
  rw [hend, if_pos rfl] at h
  obtain ⟨indented, -, h⟩ := Fault.bind_eq_ok.mp h
  obtain ⟨-, -, rfl⟩ : _ ∧ _ ∧ _ := by simpa only [Fault.pure_eq_ok, Prod.mk.injEq] using h
  exact ⟨entered, indented, hentered, rfl⟩

/-- **One step of the run.**  A token is a piece of the line that is not empty; it stands right
behind what has been read before, and the cursor behind it has the rest of the line to read. -/
theorem exists_piece_of_token {config : Config} {before : Text} {s started next : Cursor}
    {st st' : State} {c : Category} (h : s.StandsAfter before) (hne : s.rest ≠ [])
    (hs : s.startToken = .ok started) (ht : st.token config started = .ok (c, next, st')) :
    next.StandsAfter (before ++ s.lexeme) ∧ next.lexeme ≠ [] ∧
      s.rest = next.lexeme ++ next.rest ∧ next.line = s.line ∧ next.tabSize = s.tabSize := by
  have hmoves : started.MovesOnTo next :=
    movesOnTo_of_token (Cursor.rest_startToken hs ▸ hne) ht
  have hnext : next.StandsAfter (before ++ s.lexeme) := (h.startToken hs).movesOnTo hmoves
  obtain ⟨read, hread, hrest, hmoved⟩ := hmoves
  obtain ⟨column, -, rfl⟩ := Cursor.startToken_eq_ok_iff.mp hs
  have hlexeme : next.lexeme = read := congrArg Cursor.lexeme hmoved
  refine ⟨hnext, hlexeme ▸ hread, ?_, ?_, ?_⟩
  · rw [hlexeme]
    exact hrest
  · rw [hmoved]
  · rw [hmoved]

/-! ## What tokens keep -/

/-- Every token in a category of `Q` that is read where it begins keeps the property `P`, and so
does the end of a line. -/
def KeptByTokens (Q : Category → Prop) (P : State → Prop) : Prop :=
  ∀ ⦃config : Config⦄ ⦃s next : Cursor⦄ ⦃c : Category⦄ ⦃st st' : State⦄,
    s.lexeme = [] → (s.rest ≠ [] → Q c) → P st → st.token config s = .ok (c, next, st') → P st'

section Kept

variable {Q : Category → Prop} {P : State → Prop} {config : Config} {st final : State}
  {tokens : List Token}

/-- What tokens keep, the tokens that are left of a line keep, -/
theorem KeptByTokens.readsRest (hkept : KeptByTokens Q P) {s : Cursor}
    (h : ReadsRest config s st tokens final) (htokens : ∀ t ∈ tokens, Q t.category) (hst : P st) :
    P final := by
  induction h with
  | done hnil => exact hst
  | token hne hs ht tail ih =>
    obtain ⟨hfirst, hothers⟩ := List.forall_mem_cons.mp htokens
    obtain ⟨column, -, rfl⟩ := Cursor.startToken_eq_ok_iff.mp hs
    exact ih hothers (hkept rfl (fun _ => hfirst) hst ht)

/-- and reading the whole line keeps it. -/
theorem KeptByTokens.tokenizeLine (hkept : KeptByTokens Q P) {line : Text}
    (h : st.tokenizeLine config line = .ok (tokens, final))
    (htokens : ∀ t ∈ tokens, Q t.category) (hst : P st) : P final := by
  by_cases hnil : line = []
  · subst hnil
    obtain ⟨-, c, next, ht⟩ := tokens_eq_nil_of_tokenizeLine_nil h
    exact hkept rfl (fun hne => absurd rfl hne) hst ht
  · rw [tokenizeLine_of_ne_nil hnil] at h
    exact hkept.readsRest (readsRest_of_tokenizeRest h) htokens hst

end Kept

end State
end EditorMode
