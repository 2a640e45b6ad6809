import EditorMode.Proofs.Lexeme
import EditorMode.Proofs.Overflow
import EditorMode.Proofs.Run

/-! # The tokens of a line are its lexemes

A line is a sequence of lexemes, each read with what the one before leaves pending.  `Segmentation`
is this grammar of lines; since a text begins with one lexeme only, a line has one segmentation
only (`Segmentation.unique`).

The main result, `tokenizeLine_eq_segmentation`, says that the tokens of a line are the pieces of
its segmentation, placed side by side, and that what is pending behind the line is what the grammar
leaves pending.  The contexts have no part in this: whichever are open, and whatever the columns
are, the tokens are the same. -/

namespace EditorMode

/-! ## Lines -/

/-- **The grammar of lines.**  The pieces are the lexemes of the text, in order, each with its
category; `final` is pending behind the last. -/
inductive Segmentation (extraAtoms : WordSet) :
    Option Construct → Text → List (Category × Text) → (final : Option Construct) → Prop where
  | done {pending : Option Construct} : Segmentation extraAtoms pending [] [] pending
  | lexeme {pending after final : Option Construct} {w rest : Text} {c : Category}
      {pieces : List (Category × Text)} (first : Lexeme extraAtoms pending w rest c after)
      (others : Segmentation extraAtoms after rest pieces final) :
      Segmentation extraAtoms pending (w ++ rest) ((c, w) :: pieces) final

namespace Segmentation

variable {extraAtoms : WordSet} {pending final final' : Option Construct} {t : Text}
  {pieces pieces' : List (Category × Text)}

/-- **A line has one segmentation only.** -/
theorem unique (h : Segmentation extraAtoms pending t pieces final)
    (h' : Segmentation extraAtoms pending t pieces' final') :
    pieces = pieces' ∧ final = final' := by
  induction h generalizing pieces' with
  | done =>
    generalize ht : ([] : Text) = t at h'
    cases h' with
    | done => exact ⟨rfl, rfl⟩
    | lexeme first' others' => exact absurd (List.append_eq_nil_iff.mp ht.symm).1 first'.ne_nil
  | @lexeme pending after final w rest c pieces first others ih =>
    generalize ht : w ++ rest = t at h'
    cases h' with
    | done => exact absurd (List.append_eq_nil_iff.mp ht).1 first.ne_nil
    | lexeme first' others' =>
      -- the first lexemes agree, hence what they leave to the others
      obtain ⟨rfl, rfl, rfl, rfl⟩ := first.unique first' ht
      obtain ⟨rfl, rfl⟩ := ih others'
      exact ⟨rfl, rfl⟩

end Segmentation

/-- The pieces as tokens, side by side from an offset on. -/
def Token.place (offset : Nat) : List (Category × Text) → List Token
  | [] => []
  | (c, w) :: pieces => ⟨c, offset, w⟩ :: place (offset + Text.byteLength w) pieces

theorem Cursor.lexeme_forward_ofLine (w rest : Text) (tabSize : Nat) :
    ((ofLine (w ++ rest) tabSize).forward w.length).lexeme = w := List.take_left

/-! ## Pending constructs -/

namespace State

theorem pending_pop (st : State) : st.pop.pending = st.pending := by
  unfold pop pop?
  cases st.stack with
  | root c => rfl
  | push c below => rfl

theorem pending_popKind (kind : Context.Kind) (st : State) :
    (st.popKind kind).pending = st.pending := by
  rw [popKind]
  split
  · exact pending_pop st
  · rfl

/-- What a token does to the contexts leaves alone what is pending. -/
theorem pending_follow (column : Nat) (mark : Option Char) (st : State) :
    (st.follow column mark).pending = st.pending := by
  unfold follow
  dsimp only
  split
  · split <;> rfl
  · exact pending_popKind .brace _
  · split
    · exact pending_popKind .statement _
    · split
      · rfl
      · split
        · exact pending_pop _
        · rfl

theorem pending_afterReading (column : Nat) (r : Reading) (st : State) :
    (st.afterReading column r).pending = r.pending := by
  rw [afterReading]
  split
  · exact pending_follow column r.mark { st with pending := r.pending }
  · rfl

/-! ## The run over a line -/

/-- **A token is a lexeme**: what stands at the cursor, with what is pending before and behind. -/
theorem lexeme_of_token {config : Config} {s next : Cursor} {st st' : State} {c : Category}
    (hne : s.rest ≠ []) (hlexeme : s.lexeme = []) (h : st.token config s = .ok (c, next, st')) :
    Lexeme config.extraAtoms st.pending next.lexeme next.rest c st'.pending := by
  obtain ⟨entered, -, rfl, rfl, rfl⟩ := reading_of_token hne h
  obtain ⟨w, rest, c, after, hw, hread, hbehind, hleft⟩ :=
    s.lexeme_read config.extraAtoms st.pending hne hlexeme
  rw [pending_afterReading, hread]
  show Lexeme config.extraAtoms st.pending (s.forward w.length).lexeme
    (s.forward w.length).rest c after
  rw [hbehind, hleft]
  exact hw

/-- **Reading a token** is entering the line, if the token is the first, and doing what the lexeme
in front of the cursor does at the cursor's column. -/
theorem token_eq_ok_iff {config : Config} {s next : Cursor} {st final : State} {c : Category}
    (hne : s.rest ≠ []) (hlexeme : s.lexeme = []) :
    st.token config s = .ok (c, next, final) ↔
      ∃ entered w rest after, st.enterLine s = .ok entered ∧ s.rest = w ++ rest ∧
        Lexeme config.extraAtoms st.pending w rest c after ∧ next = s.forward w.length ∧
        final = entered.afterReading s.column ⟨c, Lexeme.mark? c w, after, next⟩ := by
  constructor
  · intro h
    obtain ⟨entered, hentered, rfl, rfl, rfl⟩ := reading_of_token hne h
    obtain ⟨w, rest, c, after, hrest, hw⟩ := exists_lexeme config.extraAtoms st.pending hne
    rw [hw.read_eq hrest hlexeme]
    exact ⟨entered, w, rest, after, hentered, hrest, hw, rfl, rfl⟩
  · rintro ⟨entered, w, rest, after, hentered, hrest, hw, rfl, rfl⟩
    have hend : s.atLineEnd = false := by simp [Cursor.atLineEnd, hne]
    rw [token, hentered]
    simp only [bind, Except.bind, hend, Bool.false_eq_true, if_false,
      pending_enterLine hentered, hw.read_eq hrest hlexeme]
    rfl

/-- The tokens of a run are the lexemes of what is left of the line. -/
theorem ReadsRest.segmentation {config : Config} {s : Cursor} {st final : State}
    {tokens : List Token} (h : ReadsRest config s st tokens final) {before : Text}
    (hstands : s.StandsAfter before) :
    ∃ pieces, tokens = Token.place s.pos pieces ∧
      Segmentation config.extraAtoms st.pending s.rest pieces final.pending := by
  induction h generalizing before with
  | @done s st hnil =>
    refine ⟨[], rfl, ?_⟩
    rw [hnil]
    exact .done
  | @token s started next st st' final c tokens hne hs ht tail ih =>
    obtain ⟨hnext, -, hrest, -⟩ := exists_piece_of_token hstands hne hs ht
    obtain ⟨pieces, rfl, hpieces⟩ := ih hnext
    have hstarted : started.rest ≠ [] := Cursor.rest_startToken hs ▸ hne
    have hlexeme : started.lexeme = [] := by
      obtain ⟨column, -, rfl⟩ := Cursor.startToken_eq_ok_iff.mp hs
      rfl
    have hstop : next.pos = s.pos + Text.byteLength next.lexeme := by
      rw [hnext.pos_eq, Text.byteLength_append, ← hstands.pos_eq]
    refine ⟨(c, next.lexeme) :: pieces, ?_, ?_⟩
    · rw [Token.place, hstop]
    · rw [hrest]
      exact .lexeme (lexeme_of_token hstarted hlexeme ht) hpieces

/-- At the end of a line nothing is read, and what is pending stays so. -/
theorem pending_of_token_nil {config : Config} {s next : Cursor} {st st' : State} {c : Category}
    (hnil : s.rest = []) (h : st.token config s = .ok (c, next, st')) :
    st'.pending = st.pending := by
  obtain ⟨entered, indented, hentered, rfl⟩ := entering_of_token hnil h
  show entered.pending = st.pending
  exact pending_enterLine hentered

theorem segmentation_of_tokenizeLine {config : Config} {line : Text} {st final : State}
    {tokens : List Token} (h : st.tokenizeLine config line = .ok (tokens, final)) :
    ∃ pieces, tokens = Token.place 0 pieces ∧
      Segmentation config.extraAtoms st.pending line pieces final.pending := by
  by_cases hnil : line = []
  · subst hnil
    obtain ⟨rfl, c, next, ht⟩ := tokens_eq_nil_of_tokenizeLine_nil h
    refine ⟨[], rfl, ?_⟩
    rw [pending_of_token_nil rfl ht]
    exact .done
  · rw [tokenizeLine_of_ne_nil hnil] at h
    exact (readsRest_of_tokenizeRest h).segmentation
      (Cursor.standsAfter_ofLine line config.tabSize)

/-- **Reading a line that begins with a lexeme** is entering the line, reading the lexeme and then
what is left behind it. -/
theorem tokenizeLine_append_eq_ok_iff {config : Config} {st final : State} {tokens : List Token}
    {w rest : Text} {c : Category} {after : Option Construct}
    (hw : Lexeme config.extraAtoms st.pending w rest c after) :
    st.tokenizeLine config (w ++ rest) = .ok (tokens, final) ↔
      ∃ entered others,
        st.enterLine (Cursor.ofLine (w ++ rest) config.tabSize) = .ok entered ∧
        tokens = ⟨c, 0, w⟩ :: others ∧
        ReadsRest config ((Cursor.ofLine (w ++ rest) config.tabSize).forward w.length)
          (entered.afterReading 0 ⟨c, Lexeme.mark? c w, after,
            (Cursor.ofLine (w ++ rest) config.tabSize).forward w.length⟩) others final := by
  have hne : w ++ rest ≠ [] := List.append_ne_nil_of_left_ne_nil hw.ne_nil rest
  have hstart : (Cursor.ofLine (w ++ rest) config.tabSize).startToken =
      .ok (Cursor.ofLine (w ++ rest) config.tabSize) := rfl
  have hread := Cursor.lexeme_forward_ofLine w rest config.tabSize
  rw [tokenizeLine_of_ne_nil hne, tokenizeRest_eq_ok_iff]
  constructor
  · intro h
    cases h with
    | done hnil => exact absurd hnil hne
    | @token _ started next _ mid _ c' others _ hs ht tail =>
      obtain rfl := Except.ok.inj (hstart.symm.trans hs)
      obtain ⟨entered, w', rest', after', hentered, hrest, hw', rfl, rfl⟩ :=
        (token_eq_ok_iff hne rfl).mp ht
      obtain ⟨rfl, rfl, rfl, rfl⟩ := hw.unique hw' hrest
      rw [hread]
      exact ⟨entered, others, hentered, rfl, tail⟩
  · rintro ⟨entered, others, hentered, rfl, tail⟩
    have ht := (token_eq_ok_iff hne rfl).mpr
      ⟨entered, w, rest, after, hentered, rfl, hw, rfl, rfl⟩
    have hrun := ReadsRest.token hne hstart ht tail
    rw [hread] at hrun
    exact hrun

/-- **The tokens of a line are the pieces of its segmentation.**  Unless a column overflows, every
line is read in every state: its tokens are the lexemes of the grammar with their categories, side
by side from the first byte on, and the pending construct behind it is the grammar's.  No other
pieces and no other pending construct are a segmentation of the line. -/
theorem tokenizeLine_eq_segmentation (config : Config) (line : Text) (st : State)
    (hover : st.tokenizeLine config line ≠ .error .columnOverflow) :
    ∃ pieces final, st.tokenizeLine config line = .ok (Token.place 0 pieces, final) ∧
      Segmentation config.extraAtoms st.pending line pieces final.pending ∧
      ∀ pieces' pending, Segmentation config.extraAtoms st.pending line pieces' pending →
        pieces' = pieces ∧ pending = final.pending := by
  obtain ⟨⟨tokens, final⟩, hok⟩ := (st.onlyOverflows_tokenizeLine config line).exists_eq_ok hover
  obtain ⟨pieces, rfl, hpieces⟩ := segmentation_of_tokenizeLine hok
  exact ⟨pieces, final, hok, hpieces, fun pieces' pending h => h.unique hpieces⟩

/-- A string that an earlier line began, with an escaped quote in it, then a word that is configured
as an atom, and a comment that the star of its opener does not close. -/
theorem tokenizeLine_eq_segmentation_resumed :
    let config : Config := { extraAtoms := .ofList ["load".toList] }
    let st : State := ⟨some (.string '\"'), .ofBase 0, 0, false⟩
    let line : Text := ['\\', '\"', '\"', 'l', 'o', 'a', 'd', '/', '*', '/', 'é']
    ∃ pieces final, st.tokenizeLine config line = .ok (Token.place 0 pieces, final) ∧
      Segmentation config.extraAtoms st.pending line pieces final.pending ∧
      ∀ pieces' pending, Segmentation config.extraAtoms st.pending line pieces' pending →
        pieces' = pieces ∧ pending = final.pending := by
  intro config st line
  exact tokenizeLine_eq_segmentation config line st (Fault.ne_overflow_of_isOk (by decide +kernel))

end State
end EditorMode
