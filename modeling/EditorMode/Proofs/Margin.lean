import EditorMode.Proofs.Opening
import EditorMode.Proofs.Shift

/-! # A text with a wider margin

When every line of a text is moved to the right by the same number of spaces, its tokens change: a
line that begins with a visible character gets a token of blanks in front, leading blanks get
longer, an empty line is one no more, and inside an unfinished string or comment the spaces belong
to that.  The contexts do not see any of this but the columns, and these differ by the width of the
margin as long as it leads from one tab stop to another.

A line is divided into its **opening**, which is the blanks at its beginning or what is resumed
there, and what follows.  The margin belongs to the opening (`exists_opening`), and an opening does
nothing to the contexts (`State.afterReading_opening`).  What follows is the same text at another
column, so that token by token the contexts are shifted (`State.shifted_of_readsRest`).  The main
result, `readLines_withMargin`, has this for the states behind all lines, and for the columns that
are suggested for new ones. -/

namespace EditorMode

/-- The text behind `k` spaces. -/
def Text.withMargin (k : Nat) (t : Text) : Text := List.replicate k ' ' ++ t

/-! ## Columns -/

namespace Column

variable {tabSize column k c c' : Nat} {t : Text}

/-- A margin from one tab stop to another has no part in the width of a character. -/
theorem width_add (hk : tabSize ∣ k) (column : Nat) (ch : Char) :
    width tabSize (column + k) ch = width tabSize column ch := by
  obtain ⟨m, rfl⟩ := hk
  rw [width, width, Nat.add_mul_mod_self_left]

/-- **What is read further to the right ends further to the right.** -/
theorem advance_add (hk : tabSize ∣ k) (h : advance tabSize column t = .ok c)
    (h' : advance tabSize (column + k) t = .ok c') : c' = c + k := by
  induction t generalizing column with
  | nil =>
    obtain rfl := Except.ok.inj h
    exact (Except.ok.inj h').symm
  | cons ch t ih =>
    rw [advance_cons] at h h'
    obtain ⟨next, hnext, h⟩ := Fault.bind_eq_ok.mp h
    obtain ⟨next', hnext', h'⟩ := Fault.bind_eq_ok.mp h'
    rw [after, width_add hk] at hnext'
    obtain ⟨rfl, -⟩ := add_eq_ok.mp hnext
    obtain ⟨rfl, -⟩ := add_eq_ok.mp hnext'
    rw [Nat.add_right_comm] at h'
    exact ih h h'

theorem eq_of_advance_spaces (h : advance tabSize column (List.replicate k ' ') = .ok c) :
    c = column + k := by
  induction k generalizing column with
  | zero => exact (Except.ok.inj h).symm
  | succ k ih =>
    rw [List.replicate_succ, advance_cons] at h
    obtain ⟨next, hnext, h⟩ := Fault.bind_eq_ok.mp h
    obtain ⟨rfl, -⟩ := add_eq_ok.mp hnext
    rw [ih h]
    show column + 1 + k = column + (k + 1)
    omega

/-- So does what is read behind the margin. -/
theorem advance_withMargin (hk : tabSize ∣ k) (h : advance tabSize 0 t = .ok c)
    (h' : advance tabSize 0 (Text.withMargin k t) = .ok c') : c' = c + k := by
  rw [Text.withMargin, advance_append] at h'
  obtain ⟨margin, hmargin, h'⟩ := Fault.bind_eq_ok.mp h'
  obtain rfl := eq_of_advance_spaces hmargin
  exact advance_add hk h h'

end Column

/-! ## Openings behind a margin -/

namespace Text

variable {k : Nat} {t : Text}

theorem margin_ne_nil (hk : 0 < k) : List.replicate k ' ' ≠ [] := by
  intro hnil
  have hzero : k = 0 := by simpa using hnil
  omega

theorem isBlank_of_mem_margin {c : Char} (h : c ∈ List.replicate k ' ') : isBlank c := by
  obtain rfl := List.eq_of_mem_replicate h
  decide

theorem leadingBlank_withMargin (k : Nat) (t : Text) :
    leadingBlank (withMargin k t) = withMargin k (leadingBlank t) :=
  leadingBlank_append (fun _ => isBlank_of_mem_margin) t

end Text

namespace State

variable {config : Config} {baseColumn k : Nat} {st st' : State}

/-- **An opening does nothing to the contexts.**  Inside a string, a statement or a bracket is on
top, so that no statement begins. -/
theorem afterReading_opening {pending after : Option Construct} (column : Nat) (next : Cursor)
    (hdecided : st.stack.top.alignment ≠ .undecided)
    (hstring : ∀ quote, pending = some (.string quote) →
      st.stack.top.kind ≠ .top ∧ st.stack.top.kind ≠ .brace) :
    (st.afterReading column ⟨Construct.openingCategory pending, none, after, next⟩).stack =
        st.stack ∧
      (st.afterReading column ⟨Construct.openingCategory pending, none, after, next⟩).indented =
        st.indented := by
  cases pending with
  | none => exact ⟨rfl, rfl⟩
  | some construct =>
    cases construct with
    | blockComment => exact ⟨rfl, rfl⟩
    | string quote =>
      obtain ⟨htop, hbrace⟩ := hstring quote rfl
      have hfollow : ({ st with pending := after } : State).follow column none =
          { st with pending := after } := follow_none_eq_self hdecided htop hbrace
      constructor
      · show (({ st with pending := after } : State).follow column none).stack = st.stack
        rw [hfollow]
      · show (({ st with pending := after } : State).follow column none).indented = st.indented
        rw [hfollow]

end State

/-! ## Tokens -/

/-- The cursors have the same to read, and the next token of the second one begins `k` columns
further to the right. -/
structure Cursor.Shifted (k : Nat) (s s' : Cursor) : Prop where
  rest : s'.rest = s.rest
  tabSize : s'.tabSize = s.tabSize
  column : ∀ {c c' : Nat}, Column.advance s.tabSize s.column s.lexeme = .ok c →
    Column.advance s'.tabSize s'.column s'.lexeme = .ok c' → c' = c + k

namespace Cursor

/-- They stay so when these tokens start. -/
theorem Shifted.startToken {k : Nat} {s s' t t' : Cursor} (h : Shifted k s s')
    (hs : s.startToken = .ok t) (hs' : s'.startToken = .ok t') : Shifted k t t' := by
  obtain ⟨column, hcolumn, rfl⟩ := startToken_eq_ok_iff.mp hs
  obtain ⟨column', hcolumn', rfl⟩ := startToken_eq_ok_iff.mp hs'
  refine ⟨h.rest, h.tabSize, fun hc hc' => ?_⟩
  rw [← Except.ok.inj hc, ← Except.ok.inj hc']
  exact h.column hcolumn hcolumn'

/-- They are so behind the opening of a line, which the margin belongs to. -/
theorem shifted_forward_opening {k tabSize : Nat} (hk : Column.tabSize tabSize ∣ k)
    (w rest : Text) :
    Shifted k ((ofLine (w ++ rest) tabSize).forward w.length)
      ((ofLine (Text.withMargin k (w ++ rest)) tabSize).forward (Text.withMargin k w).length) := by
  have hsplit : Text.withMargin k (w ++ rest) = Text.withMargin k w ++ rest :=
    (List.append_assoc _ _ _).symm
  refine ⟨?_, rfl, fun hc hc' => ?_⟩
  · rw [hsplit]
    exact List.drop_left.trans List.drop_left.symm
  · rw [lexeme_forward_ofLine] at hc
    rw [hsplit, lexeme_forward_ofLine] at hc'
    exact Column.advance_withMargin hk hc hc'

end Cursor

namespace State

variable {config : Config} {baseColumn k : Nat} {st st' final final' : State}

/-- So there the states stay as they are. -/
theorem Shifted.entered (h : Shifted k st st') {s s' : Cursor} (hs : s.lexeme ≠ [])
    (hs' : s'.lexeme ≠ []) (e e' : State) (he : st.enterLine s = .ok e)
    (he' : st'.enterLine s' = .ok e') : Shifted k e e' := by
  rw [enterLine_of_lexeme hs] at he
  rw [enterLine_of_lexeme hs'] at he'
  obtain rfl := Except.ok.inj he
  obtain rfl := Except.ok.inj he'
  exact h

/-- **One step of both runs.**  The same token is read at shifted columns, and does the same to
shifted contexts. -/
theorem Shifted.token {s s' next next' : Cursor} {c c' : Category} (hk : s.tabSize ∣ k)
    (hcursor : Cursor.Shifted k s s') (hne : s.rest ≠ []) (hlexeme : s.lexeme = [])
    (hlexeme' : s'.lexeme = []) (hpending : st'.pending = st.pending)
    (hnested : Nested baseColumn st.stack)
    (hentered : ∀ e e', st.enterLine s = .ok e → st'.enterLine s' = .ok e' → Shifted k e e')
    (h : st.token config s = .ok (c, next, final))
    (h' : st'.token config s' = .ok (c', next', final')) :
    Cursor.Shifted k next next' ∧ next.tabSize = s.tabSize ∧ next.lexeme ≠ [] ∧
      next'.lexeme = next.lexeme ∧ final'.pending = final.pending ∧ Shifted k final final' := by
  obtain ⟨e, he, rfl, rfl, rfl⟩ := reading_of_token hne h
  obtain ⟨e', he', rfl, rfl, rfl⟩ := reading_of_token (hcursor.rest ▸ hne) h'
  obtain ⟨w, rest, c, after, hsplit, hw⟩ := exists_lexeme config.extraAtoms st.pending hne
  have hsplit' : s'.rest = w ++ rest := hcursor.rest.trans hsplit
  have hcolumn : s'.column = s.column + k := hcursor.column (by rw [hlexeme]; rfl)
    (by rw [hlexeme']; rfl)
  have hread := (Cursor.lexeme_rest_forward hlexeme hsplit).1
  have hread' := (Cursor.lexeme_rest_forward hlexeme' hsplit').1
  rw [hpending, hw.read_eq hsplit hlexeme, hw.read_eq hsplit' hlexeme', hcolumn]
  dsimp only
  rw [hread, hread', pending_afterReading, pending_afterReading]
  refine ⟨⟨?_, hcursor.tabSize, ?_⟩, rfl, hw.ne_nil, rfl, rfl,
    (hentered e e' he he').afterReading (nested_enterLine hnested he) _ _ _ _ _⟩
  · rw [Cursor.rest_forward, Cursor.rest_forward, hcursor.rest]
  · intro m m' hm hm'
    rw [hread] at hm
    rw [hread'] at hm'
    have hm'' : Column.advance s.tabSize (s.column + k) w = .ok m' := by
      rw [← hcursor.tabSize, ← hcolumn]
      exact hm'
    exact Column.advance_add hk hm hm''

theorem nested_token {s next : Cursor} {c : Category} (hnested : Nested baseColumn st.stack)
    (h : st.token config s = .ok (c, next, final)) : Nested baseColumn final.stack := by
  obtain ⟨decided, hdecided, -, hchange⟩ := exists_opensOrCloses_token hnested h
  exact hdecided.opensOrCloses hchange

/-- **The run over what follows an opening**, by induction on the tokens.  The line may have been
entered in one run and not in the other. -/
theorem shifted_of_readsRest {s s' : Cursor} {tokens tokens' : List Token} (hk : s.tabSize ∣ k)
    (hcursor : Cursor.Shifted k s s') (hpending : st'.pending = st.pending)
    (hnested : Nested baseColumn st.stack)
    (hentered : ∀ e e', st.enterLine s = .ok e → st'.enterLine s' = .ok e' → Shifted k e e')
    (hend : s.rest = [] → Shifted k st st') (h : ReadsRest config s st tokens final)
    (h' : ReadsRest config s' st' tokens' final') :
    final'.pending = final.pending ∧ Shifted k final final' := by
  induction h generalizing s' st' tokens' with
  | done hnil =>
    cases h' with
    | done hnil' => exact ⟨hpending, hend hnil⟩
    | token hne' => exact absurd (hcursor.rest.trans hnil) hne'
  | @token s started next st mid final c tokens hne hs ht tail ih =>
    cases h' with
    | done hnil' => exact absurd (hcursor.rest.symm.trans hnil') hne
    | @token _ started' next' _ mid' _ c' tokens' hne' hs' ht' tail' =>
      have hrest : started.rest ≠ [] := Cursor.rest_startToken hs ▸ hne
      have htab : started.tabSize ∣ k := Cursor.tabSize_startToken hs ▸ hk
      rw [← enterLine_startToken hs, ← enterLine_startToken hs'] at hentered
      obtain ⟨hnext, htab', hread, hread', hpending', hshifted⟩ := Shifted.token htab
        (hcursor.startToken hs hs') hrest (Cursor.lexeme_startToken hs)
        (Cursor.lexeme_startToken hs') hpending hnested hentered ht ht'
      exact ih (htab' ▸ htab) hnext hpending' (nested_token hnested ht)
        (hshifted.entered hread (hread' ▸ hread)) (fun _ => hshifted) tail'

/-! ## Lines -/

/-- Only contexts and indentation are compared. -/
theorem Shifted.congr {e e' : State} (h : Shifted k e e') (hstack : st.stack = e.stack)
    (hindented : st.indented = e.indented) (hstack' : st'.stack = e'.stack)
    (hindented' : st'.indented = e'.indented) : Shifted k st st' where
  stack := by rw [hstack', h.stack, hstack]
  indented := by rw [hindented', h.indented, hindented]

/-- At its beginning a line is entered. -/
theorem eq_of_enterLine_ofLine {text : Text} {tabSize : Nat} {e : State}
    (h : st.enterLine (Cursor.ofLine text tabSize) = .ok e) :
    e.stack = st.stack.decideAlignment .hanging ∧
      Column.advance (Column.tabSize tabSize) 0 (Text.leadingBlank text) = .ok e.indented := by
  rcases eq_of_enterLine_of_standsAfter (Cursor.standsAfter_ofLine text tabSize) rfl h with
    ⟨-, hstack, hindented⟩ | ⟨hinside, -⟩
  · exact ⟨hstack, hindented⟩
  · exact absurd rfl hinside

/-- Entering a line behind a margin, its indentation is the margin's width more. -/
theorem shifted_enterLine {text : Text} {e e' : State} (hk : Column.tabSize config.tabSize ∣ k)
    (hstack : st'.stack = st.stack.shift k)
    (he : st.enterLine (Cursor.ofLine text config.tabSize) = .ok e)
    (he' : st'.enterLine (Cursor.ofLine (Text.withMargin k text) config.tabSize) = .ok e') :
    Shifted k e e' := by
  obtain ⟨hentered, hindented⟩ := eq_of_enterLine_ofLine he
  obtain ⟨hentered', hindented'⟩ := eq_of_enterLine_ofLine he'
  refine ⟨?_, ?_⟩
  · rw [hentered, hentered', hstack, ContextStack.shift_decideAlignment]
  · rw [Text.leadingBlank_withMargin] at hindented'
    exact Column.advance_withMargin hk hindented hindented'

/-- **The run over a line behind its opening.**  The opening has entered the line and settled what
is pending, and nothing else. -/
theorem exists_readsRest_of_opening {text w rest : Text} {after : Option Construct}
    {tokens : List Token} (hsound : Sound baseColumn st) (htext : text = w ++ rest)
    (hw : Lexeme config.extraAtoms st.pending w rest (Construct.openingCategory st.pending) after)
    (h : st.tokenizeLine config text = .ok (tokens, final)) :
    ∃ e opened tokens', st.enterLine (Cursor.ofLine text config.tabSize) = .ok e ∧
      opened.pending = after ∧ opened.stack = e.stack ∧ opened.indented = e.indented ∧
      ReadsRest config ((Cursor.ofLine text config.tabSize).forward w.length) opened tokens'
        final := by
  subst htext
  obtain ⟨e, others, he, -, tail⟩ := (tokenizeLine_append_eq_ok_iff hw).mp h
  rw [Construct.mark?_openingCategory] at tail
  obtain ⟨hentered, -⟩ := eq_of_enterLine_ofLine he
  have hdecided : e.stack.top.alignment ≠ .undecided := by
    rw [hentered]
    exact ContextStack.decided_top_decideAlignment (by decide) st.stack
  have hstring : ∀ quote, st.pending = some (.string quote) →
      e.stack.top.kind ≠ .top ∧ e.stack.top.kind ≠ .brace := by
    rw [hentered, ContextStack.kind_top_decideAlignment]
    exact fun quote hquote => (hsound.pending_string quote hquote).2
  obtain ⟨hstack, hindented⟩ := afterReading_opening 0
    ((Cursor.ofLine (w ++ rest) config.tabSize).forward w.length) hdecided hstring
  exact ⟨e, _, others, he, pending_afterReading _ _ e, hstack, hindented, tail⟩

/-- An empty line is entered, and nothing else. -/
theorem exists_entered_of_tokenizeLine_nil {tokens : List Token}
    (h : st.tokenizeLine config [] = .ok (tokens, final)) :
    ∃ e, st.enterLine (Cursor.ofLine [] config.tabSize) = .ok e ∧ final.pending = st.pending ∧
      final.stack = e.stack ∧ final.indented = e.indented := by
  obtain ⟨-, c, next, ht⟩ := tokens_eq_nil_of_tokenizeLine_nil h
  have hindentation := indentation_of_token_nil rfl ht
  obtain ⟨e, indented, he, rfl⟩ := entering_of_token rfl ht
  have hpending := pending_enterLine he
  refine ⟨e, he, hpending, rfl, ?_⟩
  obtain ⟨-, hindented⟩ := eq_of_enterLine_ofLine he
  exact Except.ok.inj (hindentation.symm.trans hindented)

/-- **One line of both texts.** -/
theorem shifted_of_tokenizeLine {text : Text} {tokens tokens' : List Token} (hpos : 0 < k)
    (hk : Column.tabSize config.tabSize ∣ k) (hsound : Sound baseColumn st)
    (hsound' : Sound baseColumn st') (hpending : st'.pending = st.pending)
    (hstack : st'.stack = st.stack.shift k)
    (h : st.tokenizeLine config text = .ok (tokens, final))
    (h' : st'.tokenizeLine config (Text.withMargin k text) = .ok (tokens', final')) :
    final'.pending = final.pending ∧ Shifted k final final' := by
  have hquote : ∀ c ∈ List.replicate k ' ', Text.isBlank c ∧ st.pending ≠ some (.string c) := by
    intro c hc
    refine ⟨Text.isBlank_of_mem_margin hc, fun hspace => ?_⟩
    obtain rfl := List.eq_of_mem_replicate hc
    rcases (hsound.pending_string ' ' hspace).1 with hquote | hquote <;> cases hquote
  obtain ⟨w, rest, after, rfl, hblanks, hopening⟩ :=
    exists_opening config.extraAtoms st.pending text
  have hmargin : Lexeme config.extraAtoms st.pending (Text.withMargin k w) rest
      (Construct.openingCategory st.pending) after := hblanks _ (Text.margin_ne_nil hpos) hquote
  have hsplit : Text.withMargin k (w ++ rest) = Text.withMargin k w ++ rest :=
    (List.append_assoc _ _ _).symm
  rw [← hpending] at hmargin
  obtain ⟨e', opened', others', he', hafter', hstack', hindented', hrest'⟩ :=
    exists_readsRest_of_opening hsound' hsplit hmargin h'
  have hcursor := Cursor.shifted_forward_opening hk w rest
  have hread' : ((Cursor.ofLine (Text.withMargin k (w ++ rest)) config.tabSize).forward
      (Text.withMargin k w).length).lexeme ≠ [] := by
    rw [hsplit, Cursor.lexeme_forward_ofLine]
    exact List.append_ne_nil_of_left_ne_nil (Text.margin_ne_nil hpos) w
  rcases hopening with ⟨rfl, rfl⟩ | hw
  · by_cases hnil : rest = []
    · -- the line is empty, and behind the margin it is no more than its opening
      subst hnil
      obtain ⟨e, he, hafter, hstack₁, hindented⟩ := exists_entered_of_tokenizeLine_nil h
      have hshifted := shifted_enterLine hk hstack he he'
      cases hrest' with
      | done =>
        exact ⟨hafter'.trans hafter.symm, hshifted.congr hstack₁ hindented hstack' hindented'⟩
      | token hne => exact absurd hcursor.rest hne
    · -- the line begins with a visible character, which enters it
      have hline := (tokenizeLine_of_ne_nil hnil).symm.trans h
      refine shifted_of_readsRest hk hcursor hafter' hsound.nested ?_ (absurd · hnil)
        (readsRest_of_tokenizeRest hline) hrest'
      intro e e'' he he''
      rw [enterLine_of_lexeme hread'] at he''
      obtain rfl := Except.ok.inj he''
      exact (shifted_enterLine hk hstack he he').congr rfl rfl hstack' hindented'
  · -- the line has an opening of its own
    obtain ⟨e, opened, others, he, hafter, hstack₁, hindented, hrest⟩ :=
      exists_readsRest_of_opening hsound rfl hw h
    have hopened : Shifted k opened opened' :=
      (shifted_enterLine hk hstack he he').congr hstack₁ hindented hstack' hindented'
    have hread : ((Cursor.ofLine (w ++ rest) config.tabSize).forward w.length).lexeme ≠ [] := by
      rw [Cursor.lexeme_forward_ofLine]
      exact hw.ne_nil
    have hnested : Nested baseColumn opened.stack := by
      rw [hstack₁]
      exact nested_enterLine hsound.nested he
    exact shifted_of_readsRest hk hcursor (hafter'.trans hafter.symm) hnested
      (hopened.entered hread hread') (fun _ => hopened) hrest hrest'

/-- **The run over lines**, by induction on them. -/
theorem shifted_of_readLines {texts : List Text} {lines lines' : List Document.Line}
    (hpos : 0 < k) (hk : Column.tabSize config.tabSize ∣ k) (hreach : Reachable baseColumn st)
    (hreach' : Reachable baseColumn st') (hpending : st'.pending = st.pending)
    (hstack : st'.stack = st.stack.shift k)
    (h : Document.readLines config st texts = .ok lines)
    (h' : Document.readLines config st' (texts.map (Text.withMargin k)) = .ok lines') :
    ∀ (i : Nat) (line line' : Document.Line), lines[i]? = some line → lines'[i]? = some line' →
      Reachable baseColumn line.state ∧ line'.state.pending = line.state.pending ∧
        Shifted k line.state line'.state := by
  induction texts generalizing st st' lines lines' with
  | nil =>
    obtain rfl := Except.ok.inj h
    exact nofun
  | cons text texts ih =>
    obtain ⟨tokens, final, others, hline, hothers, rfl⟩ := Document.readLines_cons_eq_ok_iff.mp h
    obtain ⟨tokens', final', others', hline', hothers', rfl⟩ :=
      Document.readLines_cons_eq_ok_iff.mp h'
    obtain ⟨hfinal, hshifted⟩ := shifted_of_tokenizeLine hpos hk hreach.sound hreach'.sound
      hpending hstack hline hline'
    intro i line line' hi hi'
    cases i with
    | zero =>
      obtain rfl := Option.some.inj hi
      obtain rfl := Option.some.inj hi'
      exact ⟨hreach.tokenizeLine hline, hfinal, hshifted⟩
    | succ i =>
      exact ih (hreach.tokenizeLine hline) (hreach'.tokenizeLine hline') hfinal hshifted.stack
        hothers hothers' i line line' hi hi'

end State

/-- **A wider margin shifts the contexts.**  Let every line of a text be moved to the right by `k`
spaces, where `k` is a multiple of the tab size, and let neither text overflow.  Behind every line,
the same is pending in both texts, and the contexts have the same kinds and alignments; but all
their columns and base indents, those of the root excepted, are larger by `k`, and so is the current
indentation.

If there are suggestions for a new line, they are larger by `k` too.  Only where the contexts are
asked and the root decides, the suggestion is the same. -/
theorem Document.readLines_withMargin {config : Config} {baseColumn k : Nat} {texts : List Text}
    {lines lines' : List Document.Line} (hpos : 0 < k) (hk : Column.tabSize config.tabSize ∣ k)
    (h : readLines config (.start baseColumn) texts = .ok lines)
    (h' : readLines config (.start baseColumn) (texts.map (Text.withMargin k)) = .ok lines') :
    ∀ (i : Nat) (line line' : Document.Line), lines[i]? = some line → lines'[i]? = some line' →
      line'.state.pending = line.state.pending ∧
      line'.state.stack = line.state.stack.shift k ∧
      line'.state.indented = line.state.indented + k ∧
      ∀ (textAfter : Text) (suggested suggested' : Option Nat),
        line.state.indent config textAfter = .ok suggested →
        line'.state.indent config textAfter = .ok suggested' →
        suggested' = suggested.map fun n =>
          if config.indentStyle = .contextual ∧
              line.state.stack.RootDecides (Text.firstVisible? textAfter) then n
          else n + k := by
  intro i line line' hline hline'
  obtain ⟨hreach, hpending, hshifted⟩ :=
    State.shifted_of_readLines hpos hk .start .start rfl rfl h h' i line line' hline hline'
  exact ⟨hpending, hshifted.stack, hshifted.indented, fun textAfter suggested suggested' hs hs' =>
    hshifted.indent_eq hpending hreach.sound.nested hs hs'⟩

/-- A margin of one tab stop before lines that are empty, or that resume a string or a comment.  The
last but one line ends in a statement within braces, which decide for a closing brace, the last one
in a statement of the document, and there the root does. -/
theorem Document.readLines_withMargin_resumed :
    let config : Config := { tabSize := 4 }
    let texts : List Text := ["f(".toList, [], "\t\"a \\".toList, [], " b\" \x7b /* c".toList, [],
      "d*/\tg [".toList, "]".toList, "\x7d )".toList]
    0 < 4 ∧ Column.tabSize config.tabSize ∣ 4 ∧
    ∃ (lines lines' : List Line) (within within' last last' : Line),
      readLines config (.start 1) texts = .ok lines ∧
      readLines config (.start 1) (texts.map (Text.withMargin 4)) = .ok lines' ∧
      lines[7]? = some within ∧ lines'[7]? = some within' ∧
      within'.state.stack = within.state.stack.shift 4 ∧
      within.state.indent config ['\x7d'] = .ok (some 1) ∧
      within'.state.indent config ['\x7d'] = .ok (some 5) ∧
      lines[8]? = some last ∧ lines'[8]? = some last' ∧
      last'.state.stack = last.state.stack.shift 4 ∧
      last.state.indent config ['\x7d'] = .ok (some 1) ∧
      last'.state.indent config ['\x7d'] = .ok (some 1) := by
  intro config texts
  have hpos : 0 < 4 := by decide
  have hstop : Column.tabSize config.tabSize ∣ 4 := by decide
  obtain ⟨lines, h, hlines⟩ := Fault.exists_eq_ok_of_any
    (x := readLines config (.start 1) texts)
    (p := fun lines =>
      (lines[7]?.any fun line => (line.state.indent config ['\x7d']).toOption = some (some 1) ∧
        ¬ line.state.stack.RootDecides (some '\x7d')) ∧
      lines[8]?.any fun line => (line.state.indent config ['\x7d']).toOption = some (some 1) ∧
        line.state.stack.RootDecides (some '\x7d')) (by decide +kernel)
  obtain ⟨lines', h', hlines'⟩ := Fault.exists_eq_ok_of_any
    (x := readLines config (.start 1) (texts.map (Text.withMargin 4)))
    (p := fun lines =>
      (lines[7]?.any fun line => (line.state.indent config ['\x7d']).toOption.isSome) ∧
      lines[8]?.any fun line => (line.state.indent config ['\x7d']).toOption.isSome)
    (by decide +kernel)
  simp only [Option.any_eq_true, decide_eq_true_eq, Option.isSome_iff_exists] at hlines hlines'
  obtain ⟨⟨within, hwithin, hcolumn, hbrace⟩, last, hlast, hcolumnLast, hroot⟩ := hlines
  obtain ⟨⟨within', hwithin', s, hs⟩, last', hlast', sLast, hsLast⟩ := hlines'
  have hshifted := readLines_withMargin hpos hstop h h'
  obtain ⟨-, hstack, -, hsuggested⟩ := hshifted 7 within within' hwithin hwithin'
  obtain ⟨-, hstackLast, -, hsuggestedLast⟩ := hshifted 8 last last' hlast hlast'
  replace hcolumn := Fault.eq_ok_of_toOption hcolumn
  replace hcolumnLast := Fault.eq_ok_of_toOption hcolumnLast
  replace hs := Fault.eq_ok_of_toOption hs
  replace hsLast := Fault.eq_ok_of_toOption hsLast
  obtain rfl : s = some 5 := (hsuggested ['\x7d'] _ s hcolumn hs).trans
    (congrArg some (if_neg fun hboth => hbrace hboth.2))
  obtain rfl : sLast = some 1 := (hsuggestedLast ['\x7d'] _ sLast hcolumnLast hsLast).trans
    (congrArg some (if_pos ⟨rfl, hroot⟩))
  exact ⟨hpos, hstop, lines, lines', within, within', last, last', h, h', hwithin, hwithin',
    hstack, hcolumn, hs, hlast, hlast', hstackLast, hcolumnLast, hsLast⟩

end EditorMode
