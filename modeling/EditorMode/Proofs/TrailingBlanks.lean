import EditorMode.Proofs.InStep
import EditorMode.Proofs.Transparency

/-! # Blanks and comments at the end of a line

What is appended to a line can change the tokens before it: a slash may become a comment, a number
or a word may go on, and a comment at the end of the line takes in whatever follows.  A **silent**
text is one of white space and comments (`Text.Silent`).  If it begins with a blank, it is cut off
from the line by this blank, unless the line ends in a blank or a comment itself
(`Lexeme.before_silent`).  Either way, what differs are tokens that act on no context.

So two runs over the line, with and without the silent text, are in step up to the end of the line,
and from there on only what is pending changes (`State.ReadsRest.eq_of_silent`). -/

namespace EditorMode

/-! ## Silent texts -/

/-- A text of nothing but white space and comments, which leaves nothing pending. -/
def Text.Silent (extraAtoms : WordSet) (pending : Option Construct) (t : Text) : Prop :=
  ∃ pieces, Segmentation extraAtoms pending t pieces none ∧
    ∀ piece ∈ pieces, ¬ piece.1.isSignificant

namespace Text.Silent

variable {extraAtoms : WordSet} {pending after : Option Construct} {w rest : Text} {c : Category}

theorem nil : Silent extraAtoms none [] := ⟨[], .done, List.forall_mem_nil _⟩

theorem cons (hw : Lexeme extraAtoms pending w rest c after) (hc : ¬ c.isSignificant)
    (h : Silent extraAtoms after rest) : Silent extraAtoms pending (w ++ rest) := by
  obtain ⟨pieces, hpieces, hsilent⟩ := h
  exact ⟨(c, w) :: pieces, .lexeme hw hpieces, List.forall_mem_cons.mpr ⟨hc, hsilent⟩⟩

/-- Nothing is pending at the end. -/
theorem pending_eq (h : Silent extraAtoms pending []) : pending = none := by
  obtain ⟨pieces, hpieces, -⟩ := h
  generalize ht : ([] : Text) = t at hpieces
  cases hpieces with
  | done => rfl
  | lexeme first _ => exact absurd (List.append_eq_nil_iff.mp ht.symm).1 first.ne_nil

/-- The lexeme that a silent text begins with is not significant, and what follows is silent. -/
theorem of_lexeme (h : Silent extraAtoms pending (w ++ rest))
    (hw : Lexeme extraAtoms pending w rest c after) :
    ¬ c.isSignificant ∧ Silent extraAtoms after rest := by
  obtain ⟨pieces, hpieces, hsilent⟩ := h
  generalize ht : w ++ rest = t at hpieces
  cases hpieces with
  | done => exact absurd (List.append_eq_nil_iff.mp ht).1 hw.ne_nil
  | lexeme first others =>
    obtain ⟨rfl, rfl, rfl, rfl⟩ := hw.unique first ht
    obtain ⟨hc, hothers⟩ := List.forall_mem_cons.mp hsilent
    exact ⟨hc, _, others, hothers⟩

end Text.Silent

/-- Every piece is placed as a token of its category. -/
theorem Token.exists_mem_place {pieces : List (Category × Text)} {piece : Category × Text}
    (h : piece ∈ pieces) (offset : Nat) :
    ∃ t ∈ place offset pieces, t.category = piece.1 := by
  induction pieces generalizing offset with
  | nil => cases h
  | cons first pieces ih =>
    rcases List.mem_cons.mp h with rfl | h
    · exact ⟨_, List.mem_cons_self, rfl⟩
    · obtain ⟨t, ht, hc⟩ := ih h (offset + Text.byteLength first.2)
      exact ⟨t, List.mem_cons_of_mem _ ht, hc⟩

/-- A silent line is a silent text. -/
theorem Document.Silent.text {config : Config} {text : Text} (h : Silent config [text]) :
    Text.Silent config.extraAtoms none text := by
  obtain ⟨st, lines, hpending, hlines, hsilent, hend⟩ := h
  obtain ⟨tokens, state, others, hline, hothers, rfl⟩ := readLines_cons_eq_ok_iff.mp hlines
  obtain rfl := Except.ok.inj hothers
  obtain ⟨pieces, rfl, hpieces⟩ := State.segmentation_of_tokenizeLine hline
  have hlast : state.pending = none := hend
  rw [hpending, hlast] at hpieces
  refine ⟨pieces, hpieces, fun piece hpiece => ?_⟩
  obtain ⟨t, ht, hc⟩ := Token.exists_mem_place hpiece 0
  rw [← hc]
  rcases hsilent _ List.mem_cons_self t ht with hunstyled | hcomment
  · rw [hunstyled]
    decide
  · rw [hcomment]
    decide

/-! ## The run over a silent text -/

/-- **A silent text leaves everything as it is** but what is pending, once the line is entered. -/
theorem State.ReadsRest.eq_of_silent {config : Config} {s : Cursor} {st entered final : State}
    {tokens : List Token} (h : ReadsRest config s st tokens final)
    (hsilent : Text.Silent config.extraAtoms st.pending s.rest)
    (hentered : st.enterLine s = .ok entered) (hread : s.rest = [] → entered = st) :
    final = { entered with pending := none } := by
  induction h generalizing entered with
  | @done s st hnil =>
    rw [hnil] at hsilent
    rw [hread hnil, ← hsilent.pending_eq]
  | @token s started next st st' final c tokens hne hs ht tail ih =>
    have hrest := Cursor.rest_startToken hs
    obtain ⟨entered', w, rest, after, hentered', hsplit, hw, rfl, rfl⟩ :=
      (token_eq_ok_iff (hrest ▸ hne) (Cursor.lexeme_startToken hs)).mp ht
    rw [enterLine_startToken hs, hentered] at hentered'
    obtain rfl := Except.ok.inj hentered'
    rw [← hrest, hsplit] at hsilent
    obtain ⟨hc, hsilent⟩ := hsilent.of_lexeme hw
    obtain ⟨hlexeme, hleft⟩ :=
      Cursor.lexeme_rest_forward (Cursor.lexeme_startToken hs) hsplit
    have hafter : entered.afterReading started.column
          ⟨c, Lexeme.mark? c w, after, started.forward w.length⟩ =
        { entered with pending := after } := if_neg hc
    have hnext : (started.forward w.length).lexeme ≠ [] := by
      rw [hlexeme]
      exact hw.ne_nil
    rw [hafter, hleft] at ih
    have hfinal := ih hsilent (enterLine_of_lexeme hnext _) fun _ => rfl
    exact hfinal

/-! ## The seam -/

/-- A run that has ended before the end of the text has not come to what is appended. -/
theorem Text.MaximalRun.append {p : Char → Bool} {w rest : Text} (h : Text.MaximalRun p w rest)
    (hrest : rest ≠ []) (more : Text) : Text.MaximalRun p w (rest ++ more) where
  all := h.all
  ends := by
    obtain ⟨c, others, rfl⟩ := List.exists_cons_of_ne_nil hrest
    exact h.ends

/-- A run up to the end of the text ends before a character of another kind. -/
theorem Text.MaximalRun.before {p : Char → Bool} {w others : Text} {d : Char}
    (h : Text.MaximalRun p w []) (hd : ¬ p d) : Text.MaximalRun p w (d :: others) where
  all := h.all
  ends := by
    intro c hc
    obtain rfl := Option.some.inj hc
    exact hd

namespace Lexeme

variable {extraAtoms : WordSet} {pending after : Option Construct} {w rest more : Text}
  {c : Category}

/-- A lexeme before the end of the line is the same if something is appended to the line. -/
theorem append (h : Lexeme extraAtoms pending w rest c after) (hrest : rest ≠ []) (more : Text) :
    Lexeme extraAtoms pending w (rest ++ more) c after := by
  cases h with
  | resumed hne h =>
    cases h with
    | closed hw => exact .resumed hne (.closed hw)
    | unfinished => exact absurd rfl hrest
  | blank hne hrun => exact .blank hne (hrun.append hrest more)
  | string hquote h =>
    cases h with
    | closed hw => exact .string hquote (.closed hw)
    | unfinished => exact absurd rfl hrest
  | punctuation hc => exact .punctuation hc
  | number hdigit hrun => exact .number hdigit (hrun.append hrest more)
  | blockComment h =>
    cases h with
    | closed hw => exact .blockComment (.closed hw)
    | unfinished => exact absurd rfl hrest
  | lineComment => exact absurd rfl hrest
  | @word initial others rest c hblank hquote hpunctuation hdigit hslash hrun hcategory =>
    refine .word hblank hquote hpunctuation hdigit (fun heq => ?_) (hrun.append hrest more)
      hcategory
    obtain ⟨d, t, hsplit⟩ :=
      List.exists_cons_of_ne_nil (List.append_ne_nil_of_right_ne_nil others hrest)
    rw [← List.append_assoc, hsplit]
    rw [hsplit] at hslash
    exact hslash heq

/-- **The last lexeme of a line before a silent text** that begins with a blank.  It is the same, if
it is finished, or it is silent itself and goes on into the silent text. -/
theorem before_silent {d : Char} (h : Lexeme extraAtoms pending w [] c none)
    (hblank : Text.isBlank d) (hmore : Text.Silent extraAtoms none (d :: more)) :
    Lexeme extraAtoms pending w (d :: more) c none ∨
      (¬ c.isSignificant ∧ Text.Silent extraAtoms pending (w ++ d :: more)) := by
  cases h with
  | resumed hne h =>
    cases h with
    | closed hw => exact .inl (.resumed hne (.closed hw))
  | blank hne hrun =>
    -- the blanks before and behind the seam are one lexeme
    obtain ⟨v, left, hsplit, hv⟩ := Text.exists_maximalRun Alphabet.blanks.contains (d :: more)
    have hvne : v ≠ [] := by
      rintro rfl
      exact hv.ends d (congrArg List.head? hsplit).symm
        (List.contains_iff_mem.mpr (Alphabet.isBlank_iff.mp hblank))
    rw [hsplit] at hmore ⊢
    obtain ⟨hc, hleft⟩ := hmore.of_lexeme (.blank hvne hv)
    refine .inr ⟨hc, ?_⟩
    rw [← List.append_assoc]
    refine .cons (.blank (List.append_ne_nil_of_left_ne_nil hne v) ⟨?_, hv.ends⟩) hc hleft
    intro e he
    rcases List.mem_append.mp he with he | he
    · exact hrun.all e he
    · exact hv.all e he
  | string hquote h =>
    cases h with
    | closed hw => exact .inl (.string hquote (.closed hw))
  | punctuation hc => exact .inl (.punctuation hc)
  | number hdigit hrun =>
    exact .inl (.number hdigit (hrun.before fun hd =>
      Alphabet.not_mem_blanks.2 d (List.contains_iff_mem.mp hd) (Alphabet.isBlank_iff.mp hblank)))
  | blockComment h =>
    cases h with
    | closed hw => exact .inl (.blockComment (.closed hw))
  | @lineComment w =>
    -- the rest of the line is in the comment
    have hcomment : Lexeme extraAtoms none ('/' :: '/' :: (w ++ d :: more)) [] .comment none :=
      .lineComment
    have hsilent := Text.Silent.cons hcomment (by decide) .nil
    rw [List.append_nil] at hsilent
    exact .inr ⟨by decide, hsilent⟩
  | @word initial others _ c hblank' hquote hpunctuation hdigit hslash hrun hcategory =>
    refine .inl (.word hblank' hquote hpunctuation hdigit (fun heq => ?_)
      (hrun.before fun hd =>
        Alphabet.not_mem_blanks.1 d (List.contains_iff_mem.mp hd) (Alphabet.isBlank_iff.mp hblank))
      hcategory)
    cases others with
    | nil =>
      constructor
      · intro hhead
        obtain rfl := Option.some.inj hhead
        exact absurd hblank (by decide)
      · intro hhead
        obtain rfl := Option.some.inj hhead
        exact absurd hblank (by decide)
    | cons e others => exact hslash heq

end Lexeme

/-! ## Lines -/

/-- The blanks at the beginning of a line end before its first visible character. -/
theorem Text.leadingBlank_append_of_not_isAllBlank {t : Text} (h : ¬ isAllBlank t) (more : Text) :
    leadingBlank (t ++ more) = leadingBlank t := by
  rw [leadingBlank, leadingBlank, List.takeWhile_append, if_neg]
  intro hlength
  have hwhole : t.takeWhile isBlank = t := (List.takeWhile_prefix isBlank).eq_of_length hlength
  apply h
  rw [isAllBlank, ← hwhole]
  exact List.all_takeWhile

namespace Cursor

variable {config : Config} {more : Text} {s s' started next : Cursor} {st st' final' : State}
  {c : Category} {tokens' : List Token}

/-- A line with a visible character is entered alike if something is appended to it. -/
theorem inStep_ofLine_append {line : Text} (hline : ¬ Text.isAllBlank line) (more : Text)
    (tabSize : Nat) : InStep more (ofLine line tabSize) (ofLine (line ++ more) tabSize) where
  rest_eq := rfl
  tabSize_eq := rfl
  column_eq := rfl
  enterLine_eq st := by
    refine State.enterLine_congr rfl rfl ?_ st
    show Column.advance _ 0 (Text.leadingBlank (line ++ more)) =
      Column.advance _ 0 (Text.leadingBlank line)
    rw [Text.leadingBlank_append_of_not_isAllBlank hline]
    rfl

/-- If the lexeme is the same in the second run, the second run goes on in step behind it. -/
theorem InStep.exists_tail (hstep : InStep more s s') (hne : s.rest ≠ [])
    (hs : s.startToken = .ok started) (ht : st.token config started = .ok (c, next, st'))
    (hw : Lexeme config.extraAtoms st.pending next.lexeme (next.rest ++ more) c st'.pending)
    (h' : State.ReadsRest config s' st tokens' final') :
    ∃ next' others', InStep more next next' ∧ next'.lexeme ≠ [] ∧
      State.ReadsRest config next' st' others' final' := by
  obtain ⟨started', hs', hstarted, hcolumn⟩ := hstep.startToken hs
  have hrest : started.rest ≠ [] := Cursor.rest_startToken hs ▸ hne
  obtain ⟨next', ht', hnext, hlexeme, hsame⟩ := hstarted.token (lexeme_startToken hs)
    (lexeme_startToken hs') hcolumn hrest ht hw .same
  cases h' with
  | done hnil =>
    rw [hstep.rest_eq] at hnil
    exact absurd (List.append_eq_nil_iff.mp hnil).1 hne
  | token _ hs'' ht'' tail' =>
    obtain rfl := Except.ok.inj (hs'.symm.trans hs'')
    obtain ⟨-, rfl, rfl⟩ : _ ∧ _ ∧ _ := by
      simpa only [Prod.mk.injEq] using Except.ok.inj (ht'.symm.trans ht'')
    exact ⟨next', _, hnext, hsame ▸ hlexeme, tail'⟩

end Cursor

namespace State

variable {config : Config} {st final : State}

/-- **The run over the rest of a line before a silent text**, by induction on its tokens. -/
theorem eq_of_readsRest_append_silent {s s' : Cursor} {final' : State}
    {tokens tokens' : List Token} {d : Char} {more : Text}
    (hstep : Cursor.InStep (d :: more) s s') (hblank : Text.isBlank d)
    (hsilent : Text.Silent config.extraAtoms none (d :: more))
    (h : ReadsRest config s st tokens final) (hne : s.rest ≠ []) (hpending : final.pending = none)
    (h' : ReadsRest config s' st tokens' final') : final' = final := by
  induction h generalizing s' tokens' with
  | done hnil => exact absurd hnil hne
  | @token s started next st st' final c tokens hne' hs ht tail ih =>
    have hrest : started.rest ≠ [] := Cursor.rest_startToken hs ▸ hne
    have hw := lexeme_of_token hrest (Cursor.lexeme_startToken hs) ht
    by_cases hnil : next.rest = []
    · -- the last token of the line stands at the seam
      obtain rfl : final = st' := by
        cases tail with
        | done => rfl
        | token hleft => exact absurd hnil hleft
      rw [hnil, hpending] at hw
      rcases hw.before_silent hblank hsilent with hsame | ⟨hc, hgoes⟩
      · rw [← hpending, ← List.nil_append (d :: more), ← hnil] at hsame
        obtain ⟨next', others', hnext, hlexeme, tail'⟩ := hstep.exists_tail hne hs ht hsame h'
        have hrest' : Text.Silent config.extraAtoms final.pending next'.rest := by
          rw [hnext.rest_eq, hnil, hpending]
          exact hsilent
        rw [tail'.eq_of_silent hrest' (enterLine_of_lexeme hlexeme _) fun _ => rfl]
        exact congrArg (fun p => { final with pending := p }) hpending.symm
      · -- neither the token nor what has become of it acts on the contexts
        obtain ⟨hsplit, -⟩ := piece_of_token hrest (Cursor.lexeme_startToken hs) ht
        rw [Cursor.rest_startToken hs, hnil, List.append_nil] at hsplit
        obtain ⟨entered, hentered, -⟩ := reading_of_token hrest ht
        rw [enterLine_startToken hs] at hentered
        have hself : Text.Silent config.extraAtoms st.pending s.rest := by
          rw [hsplit, ← List.append_nil next.lexeme]
          exact .cons hw hc .nil
        have hfinal := (ReadsRest.token hne' hs ht tail).eq_of_silent hself hentered (absurd · hne')
        have hne'' : s'.rest ≠ [] := by
          rw [hstep.rest_eq]
          exact List.append_ne_nil_of_left_ne_nil hne' _
        rw [hfinal]
        refine h'.eq_of_silent ?_ ((hstep.enterLine_eq st).trans hentered) (absurd · hne'')
        rw [hstep.rest_eq, hsplit]
        exact hgoes
    · have hsame := hw.append hnil (d :: more)
      obtain ⟨next', others', hnext, -, tail'⟩ := hstep.exists_tail hne hs ht hsame h'
      exact ih hnext hnil hpending tail'

/-- **Trailing blanks and comments change nothing.**  Let a line with a visible character be read
from any state, with nothing pending behind it.  Append to it a text that begins with a blank and
that, as a line of its own, has only blanks and comments and leaves nothing pending.  Unless a
column overflows, the longer line has the same state behind it, in every part, so that whatever
follows is placed and read as before. -/
theorem tokenizeLine_append_silent {line appended : Text} {tokens : List Token}
    (hline : ¬ Text.isAllBlank line) (h : st.tokenizeLine config line = .ok (tokens, final))
    (hpending : final.pending = none) (hblank : ∃ d, appended.head? = some d ∧ Text.isBlank d)
    (hsilent : Document.Silent config [appended])
    (hover : st.tokenizeLine config (line ++ appended) ≠ .error .columnOverflow) :
    ∃ tokens', st.tokenizeLine config (line ++ appended) = .ok (tokens', final) := by
  obtain ⟨⟨tokens', final'⟩, h'⟩ := (st.onlyOverflows_tokenizeLine config _).exists_eq_ok hover
  obtain ⟨d, hhead, hd⟩ := hblank
  obtain ⟨more, rfl⟩ := List.head?_eq_some_iff.mp hhead
  have hne : line ≠ [] := by
    rintro rfl
    exact hline rfl
  have hstep := Cursor.inStep_ofLine_append hline (d :: more) config.tabSize
  have hrun := h
  rw [tokenizeLine_of_ne_nil hne] at hrun
  have hrun' := h'
  rw [tokenizeLine_of_ne_nil (List.append_ne_nil_of_left_ne_nil hne _)] at hrun'
  obtain rfl : final' = final := eq_of_readsRest_append_silent hstep hd hsilent.text
    (readsRest_of_tokenizeRest hrun) hne hpending (readsRest_of_tokenizeRest hrun')
  exact ⟨tokens', h'⟩

/-- The end of a string, a number and a slash that begins no comment; behind it a blank of three
bytes, a block comment and a line comment. -/
theorem tokenizeLine_append_silent_comments :
    let st : State := ⟨some (.string '\"'), .push ⟨.paren, 7, 3, .undecided⟩ (.ofBase 5), 9, false⟩
    let line : Text := "\tb\" (12, /".toList
    let appended : Text := "\u2003/* \x7b */// c".toList
    ∃ tokens tokens' final, st.tokenizeLine {} line = .ok (tokens, final) ∧
      final.pending = none ∧ Document.Silent {} [appended] ∧
      st.tokenizeLine {} (line ++ appended) = .ok (tokens', final) := by
  intro st line appended
  obtain ⟨⟨tokens, final⟩, h, hpending⟩ := Fault.exists_eq_ok_of_any
    (x := st.tokenizeLine {} line) (p := fun result => result.2.pending = none) (by decide +kernel)
  obtain ⟨lines, hlines, htokens, hend⟩ := Fault.exists_eq_ok_of_any
    (x := Document.readLines {} (.start 0) [appended])
    (p := fun lines =>
      (∀ line ∈ lines, ∀ t ∈ line.tokens, t.category = .unstyled ∨ t.category = .comment) ∧
      (Document.stateBehind (.start 0) lines).pending = none) (by decide +kernel)
  have hsilent : Document.Silent {} [appended] := ⟨.start 0, lines, rfl, hlines, htokens, hend⟩
  obtain ⟨tokens', h'⟩ := tokenizeLine_append_silent (by decide) h hpending
    ⟨'\u2003', rfl, by decide⟩ hsilent (Fault.ne_overflow_of_isOk (by decide +kernel))
  exact ⟨tokens, tokens', final, h, hpending, hsilent, h'⟩

end State
end EditorMode
