import EditorMode.Fold
import EditorMode.Proofs.Overflow
import EditorMode.Proofs.Run

/-! # When reading can stop after an edit

A host keeps the state behind every line, so that after an edit it can read on from the edited line.
It may stop as soon as the state behind a line is one from which the next line is read as before.
Equality of the states is more than that takes: the first token of a line notes the line's own
indentation, begins the line anew, and decides the innermost alignment if nothing has done so.
States that differ in nothing else are **line-equivalent**, and every line is read from them alike
(`LineEquivalent.tokenizeLine_eq`), in its tokens, in the whole state behind it, and in its faults.

The main result, `highlight_edit`, says what this means for a document in which one line is
replaced. -/

namespace EditorMode

/-! ## Line-equivalent states -/

/-- Two states between which the next line cannot tell: the same is pending, and the same contexts
are open, where it makes no difference whether the innermost alignment is undecided or hanging. -/
structure State.LineEquivalent (st st' : State) : Prop where
  pending_eq : st.pending = st'.pending
  stack_eq : st.stack.decideAlignment .hanging = st'.stack.decideAlignment .hanging

namespace State.LineEquivalent

variable {config : Config} {st st' : State}

/-- The beginning of a line makes line-equivalent states equal. -/
theorem enterLine_eq {s : Cursor} (h : LineEquivalent st st') (hstart : s.atLineStart) :
    st.enterLine s = st'.enterLine s := by
  have hentered : ∀ indented : Nat,
      { st.decideAlignment .hanging with indented, atLineStart := true } =
        { st'.decideAlignment .hanging with indented, atLineStart := true } := by
    intro indented
    simp only [State.decideAlignment, h.pending_eq, h.stack_eq]
  rw [enterLine, enterLine, if_pos hstart, if_pos hstart]
  simp only [hentered]

theorem token_eq {s : Cursor} (h : LineEquivalent st st') (hstart : s.atLineStart) :
    st.token config s = st'.token config s := by
  rw [token, token, h.enterLine_eq hstart]

/-- **A line is read alike from line-equivalent states.** -/
theorem tokenizeLine_eq (h : LineEquivalent st st') (line : Text) :
    st.tokenizeLine config line = st'.tokenizeLine config line := by
  have hfirst : st.token config (Cursor.ofLine line config.tabSize) =
      st'.token config (Cursor.ofLine line config.tabSize) := h.token_eq rfl
  by_cases hnil : line = []
  · subst hnil
    simp only [tokenizeLine, List.isEmpty_nil, if_true, hfirst]
  · have hne : (Cursor.ofLine line config.tabSize).rest ≠ [] := hnil
    have hstarted : (Cursor.ofLine line config.tabSize).startToken =
        .ok (Cursor.ofLine line config.tabSize) := rfl
    rw [tokenizeLine_of_ne_nil hnil, tokenizeLine_of_ne_nil hnil, tokenizeRest_of_ne_nil hne,
      tokenizeRest_of_ne_nil hne, hstarted]
    simp only [bind, Except.bind, hfirst]

/-- And so are all the lines that follow. -/
theorem readLines_eq (h : LineEquivalent st st') (texts : List Text) :
    Document.readLines config st texts = Document.readLines config st' texts := by
  cases texts with
  | nil => rfl
  | cons text texts => rw [Document.readLines, Document.readLines, h.tokenizeLine_eq]

end State.LineEquivalent

/-! ## Texts made of lines -/

namespace Text

/-- The text of some lines, each ended by a line feed. -/
def ofLines (texts : List Text) : Text := texts.flatMap fun t => t ++ ['\n']

/-- Characters that end no line are put before the first line. -/
theorem lines_append {t u first : Text} {others : List Text} (hfeed : '\n' ∉ t) (hreturn : '\r' ∉ t)
    (hu : lines u = first :: others) : lines (t ++ u) = (t ++ first) :: others := by
  induction t with
  | nil => exact hu
  | cons c t ih =>
    rw [List.mem_cons, not_or] at hfeed hreturn
    have htail := ih hfeed.2 hreturn.2
    rw [List.cons_append, lines, htail]
    · rfl
    · intro others' hc
      exact absurd hc.symm hreturn.1
    · intro hc
      exact absurd hc.symm hfeed.1

theorem lines_append_lineFeed {t : Text} (hfeed : '\n' ∉ t) (hreturn : '\r' ∉ t) (others : Text) :
    lines (t ++ '\n' :: others) = t :: lines others := by
  rw [lines_append hfeed hreturn (lines_lineFeed others), List.append_nil]

/-- Lines without terminators in them are the lines of their text. -/
theorem lines_ofLines {texts : List Text} (h : ∀ t ∈ texts, '\n' ∉ t ∧ '\r' ∉ t) :
    lines (ofLines texts) = texts := by
  induction texts with
  | nil => rfl
  | cons t texts ih =>
    obtain ⟨⟨hfeed, hreturn⟩, htexts⟩ := List.forall_mem_cons.mp h
    have hcons : ofLines (t :: texts) = t ++ '\n' :: ofLines texts := by
      simp [ofLines]
    rw [hcons, lines_append_lineFeed hfeed hreturn, ih htexts]

end Text

/-! ## Lines read in two parts -/

namespace Document

variable {config : Config} {st : State}

/-- The state behind some lines that have been read from a state. -/
def stateBehind (st : State) : List Line → State
  | [] => st
  | line :: lines => stateBehind line.state lines

theorem stateBehind_append (st : State) (first others : List Line) :
    stateBehind st (first ++ others) = stateBehind (stateBehind st first) others := by
  induction first generalizing st with
  | nil => rfl
  | cons line first ih => exact ih line.state

/-- Reading lines is reading some of them, and the others from the state behind them. -/
theorem readLines_append_eq_ok_iff {texts texts' : List Text} {lines : List Line} :
    readLines config st (texts ++ texts') = .ok lines ↔
      ∃ first others, readLines config st texts = .ok first ∧
        readLines config (stateBehind st first) texts' = .ok others ∧ lines = first ++ others := by
  induction texts generalizing st lines with
  | nil =>
    constructor
    · intro h
      exact ⟨[], lines, rfl, h, rfl⟩
    · rintro ⟨first, others, hfirst, hothers, rfl⟩
      obtain rfl := Except.ok.inj hfirst
      exact hothers
  | cons text texts ih =>
    rw [List.cons_append]
    constructor
    · intro h
      obtain ⟨tokens, state, rest, hline, hrest, rfl⟩ := readLines_cons_eq_ok_iff.mp h
      obtain ⟨first, others, hfirst, hothers, rfl⟩ := ih.mp hrest
      exact ⟨⟨text, tokens, state⟩ :: first, others,
        readLines_cons_eq_ok_iff.mpr ⟨tokens, state, first, hline, hfirst, rfl⟩, hothers, rfl⟩
    · rintro ⟨first, others, hfirst, hothers, rfl⟩
      obtain ⟨tokens, state, rest, hline, hrest, rfl⟩ := readLines_cons_eq_ok_iff.mp hfirst
      exact readLines_cons_eq_ok_iff.mpr ⟨tokens, state, rest ++ others, hline,
        ih.mpr ⟨rest, others, hrest, hothers, rfl⟩, rfl⟩

/-- The same around a line in the middle. -/
theorem readLines_append_cons_eq_ok_iff {above below : List Text} {text : Text}
    {lines : List Line} :
    readLines config st (above ++ text :: below) = .ok lines ↔
      ∃ first tokens state others, readLines config st above = .ok first ∧
        (stateBehind st first).tokenizeLine config text = .ok (tokens, state) ∧
        readLines config state below = .ok others ∧
        lines = first ++ ⟨text, tokens, state⟩ :: others := by
  rw [readLines_append_eq_ok_iff]
  constructor
  · rintro ⟨first, rest, hfirst, hrest, rfl⟩
    obtain ⟨tokens, state, others, hline, hothers, rfl⟩ := readLines_cons_eq_ok_iff.mp hrest
    exact ⟨first, tokens, state, others, hfirst, hline, hothers, rfl⟩
  · rintro ⟨first, tokens, state, others, hfirst, hline, hothers, rfl⟩
    exact ⟨first, _, hfirst,
      readLines_cons_eq_ok_iff.mpr ⟨tokens, state, others, hline, hothers, rfl⟩, rfl⟩

/-- What tokens keep, reading lines of such tokens keeps. -/
theorem kept_stateBehind {Q : Category → Prop} {P : State → Prop}
    (hkept : State.KeptByTokens Q P) {texts : List Text} {lines : List Line}
    (h : readLines config st texts = .ok lines)
    (htokens : ∀ line ∈ lines, ∀ t ∈ line.tokens, Q t.category) (hst : P st) :
    P (stateBehind st lines) := by
  induction texts generalizing st lines with
  | nil =>
    obtain rfl := Except.ok.inj h
    exact hst
  | cons text texts ih =>
    obtain ⟨tokens, state, others, hline, hothers, rfl⟩ := readLines_cons_eq_ok_iff.mp h
    obtain ⟨hfirst, hrest⟩ := List.forall_mem_cons.mp htokens
    show P (stateBehind state others)
    exact ih hothers hrest (hkept.tokenizeLine hline hfirst hst)

theorem length_readLines {texts : List Text} {lines : List Line}
    (h : readLines config st texts = .ok lines) : lines.length = texts.length := by
  rw [← map_text_readLines h, List.length_map]

/-- The state before a line is the state behind the lines before it. -/
theorem stateBefore?_length (startState : State) (first others : List Line) :
    stateBefore? ⟨startState, first ++ others⟩ first.length =
      some (stateBehind startState first) := by
  induction first generalizing startState with
  | nil => rfl
  | cons line first ih =>
    cases first with
    | nil => rfl
    | cons next first => exact ih line.state

theorem highlight_ofLines_eq_ok_iff {texts : List Text} {doc : Document}
    (htexts : ∀ t ∈ texts, '\n' ∉ t ∧ '\r' ∉ t) :
    highlight config (Text.ofLines texts) = .ok doc ↔
      ∃ lines, readLines config (.start 0) texts = .ok lines ∧ doc = ⟨.start 0, lines⟩ := by
  rw [highlight, Text.lines_ofLines htexts]
  constructor
  · intro h
    obtain ⟨lines, hlines, h⟩ := Fault.bind_eq_ok.mp h
    exact ⟨lines, hlines, (Fault.pure_eq_ok.mp h).symm⟩
  · rintro ⟨lines, hlines, rfl⟩
    rw [hlines]
    rfl

theorem onlyOverflows_highlight (config : Config) (text : Text) :
    Fault.OnlyOverflows (highlight config text) :=
  (onlyOverflows_readLines config _ _).bind fun _ => Fault.onlyOverflows_ok _

/-- A fold is found from its line on. -/
theorem foldAt?_congr {doc doc' : Document} {j : Nat}
    (h : doc.lines.drop j = doc'.lines.drop j) : doc.foldAt? j = doc'.foldAt? j := by
  have hline : doc.lines[j]? = doc'.lines[j]? := by
    have := congrArg List.head? h
    simpa only [List.head?_drop] using this
  have hlater : doc.lines.drop (j + 1) = doc'.lines.drop (j + 1) := by
    rw [← List.drop_drop, ← List.drop_drop, h]
  rw [foldAt?, foldAt?, hline, hlater]

/-! ## Edits -/

section Edit

variable {above below : List Text} {replacement : Text} {first others : List Line}

/-- The lines above an edited line are read as they were, and it is read from the state behind
them. -/
theorem exists_reread_of_edit (hfirst : readLines config st above = .ok first) {lines : List Line}
    (h : readLines config st (above ++ replacement :: below) = .ok lines) :
    ∃ new others', new.text = replacement ∧
      (stateBehind st first).tokenizeLine config replacement = .ok (new.tokens, new.state) ∧
      lines = first ++ new :: others' := by
  obtain ⟨first', tokens, state, others', hfirst', hline, -, rfl⟩ :=
    readLines_append_cons_eq_ok_iff.mp h
  obtain rfl : first = first' := Except.ok.inj (hfirst.symm.trans hfirst')
  exact ⟨⟨replacement, tokens, state⟩, others', rfl, hline, rfl⟩

/-- The lines below an edited line are read as they were, if the state behind it is line-equivalent
to the one that they were read from. -/
theorem readLines_edit_of_lineEquivalent {tokens : List Token} {state final : State}
    (hfirst : readLines config st above = .ok first)
    (hothers : readLines config state below = .ok others)
    (hline : (stateBehind st first).tokenizeLine config replacement = .ok (tokens, final))
    (h : final.LineEquivalent state) :
    readLines config st (above ++ replacement :: below) =
      .ok (first ++ ⟨replacement, tokens, final⟩ :: others) := by
  have hbelow : readLines config final below = .ok others := (h.readLines_eq below).trans hothers
  exact readLines_append_cons_eq_ok_iff.mpr
    ⟨first, tokens, final, others, hfirst, hline, hbelow, rfl⟩

/-- Where only one line differs, every line below it is the same and has the same fold. -/
theorem eq_below (startState : State) (new old : Line) {j : Nat} (hj : first.length < j) :
    (first ++ new :: others)[j]? = (first ++ old :: others)[j]? ∧
      foldAt? j ⟨startState, first ++ new :: others⟩ =
        foldAt? j ⟨startState, first ++ old :: others⟩ := by
  have hdrop : (first ++ new :: others).drop j = (first ++ old :: others).drop j := by
    obtain ⟨k, hk⟩ : ∃ k, j - first.length = k + 1 := ⟨j - first.length - 1, by omega⟩
    simp only [List.drop_append, hk, List.drop_succ_cons]
  refine ⟨?_, foldAt?_congr hdrop⟩
  rw [← List.head?_drop, hdrop, List.head?_drop]

end Edit

/-- **A document after the replacement of a line.**

* A line is read alike, whatever it is, from two states that are line-equivalent: with the same
  tokens and the same state behind it, or with the same fault.
* Let a document be made of lines that a line feed ends.  After the replacement of line `i`, the
  lines before it are as they were, and it has the tokens and the state behind it that reading the
  replacement from the state before it gives; if that overflows, so does the document.  If the state
  behind it is line-equivalent to the one that was there, nothing overflows, and every later line
  has the tokens, the state behind it and the fold that it had. -/
theorem highlight_edit (config : Config) :
    (∀ (line : Text) (st st' : State), st.LineEquivalent st' →
      st.tokenizeLine config line = st'.tokenizeLine config line) ∧
    ∀ (texts : List Text) (i : Nat) (replacement : Text) (doc : Document),
      (∀ t ∈ texts, '\n' ∉ t ∧ '\r' ∉ t) → '\n' ∉ replacement ∧ '\r' ∉ replacement →
      i < texts.length → highlight config (Text.ofLines texts) = .ok doc →
      ∃ before old, doc.stateBefore? i = some before ∧ doc.lines[i]? = some old ∧
        (∀ edited, highlight config (Text.ofLines (texts.set i replacement)) = .ok edited →
          edited.lines.take i = doc.lines.take i ∧
          ∃ new, edited.lines[i]? = some new ∧ new.text = replacement ∧
            before.tokenizeLine config replacement = .ok (new.tokens, new.state)) ∧
        (before.tokenizeLine config replacement = .error .columnOverflow →
          highlight config (Text.ofLines (texts.set i replacement)) = .error .columnOverflow) ∧
        (∀ tokens final, before.tokenizeLine config replacement = .ok (tokens, final) →
          final.LineEquivalent old.state →
          ∃ edited, highlight config (Text.ofLines (texts.set i replacement)) = .ok edited ∧
            edited.lines.length = doc.lines.length ∧
            ∀ j, i < j → edited.lines[j]? = doc.lines[j]? ∧ edited.foldAt? j = doc.foldAt? j) := by
  refine ⟨fun line st st' h => h.tokenizeLine_eq line, ?_⟩
  intro texts i replacement doc htexts hreplacement hi hdoc
  obtain ⟨above, below, htext, hlength, hset⟩ :
      ∃ above below, texts = above ++ texts[i] :: below ∧ above.length = i ∧
        texts.set i replacement = above ++ replacement :: below := List.exists_of_set hi
  rw [htext] at htexts hdoc
  have hedited : ∀ t ∈ above ++ replacement :: below, '\n' ∉ t ∧ '\r' ∉ t := by
    simp only [List.forall_mem_append, List.forall_mem_cons] at htexts ⊢
    exact ⟨htexts.1, hreplacement, htexts.2.2⟩
  obtain ⟨lines, hlines, rfl⟩ := (highlight_ofLines_eq_ok_iff htexts).mp hdoc
  obtain ⟨first, tokens, state, others, hfirst, -, hothers, rfl⟩ :=
    readLines_append_cons_eq_ok_iff.mp hlines
  obtain rfl : first.length = i := (length_readLines hfirst).trans hlength
  rw [hset]
  refine ⟨_, ⟨texts[first.length], tokens, state⟩, stateBefore?_length _ first _, by simp, ?_, ?_,
    ?_⟩
  · intro edited h
    obtain ⟨lines', hlines', rfl⟩ := (highlight_ofLines_eq_ok_iff hedited).mp h
    obtain ⟨new, others', htext, hline, rfl⟩ := exists_reread_of_edit hfirst hlines'
    exact ⟨by simp, new, by simp, htext, hline⟩
  · intro hoverflow
    cases h : highlight config (Text.ofLines (above ++ replacement :: below)) with
    | error fault => rw [onlyOverflows_highlight config _ fault h]
    | ok edited =>
      obtain ⟨lines', hlines', -⟩ := (highlight_ofLines_eq_ok_iff hedited).mp h
      obtain ⟨new, others', -, hline, -⟩ := exists_reread_of_edit hfirst hlines'
      cases hoverflow.symm.trans hline
  · intro tokens' final hline hequivalent
    have hread := readLines_edit_of_lineEquivalent hfirst hothers hline hequivalent
    refine ⟨_, (highlight_ofLines_eq_ok_iff hedited).mpr ⟨_, hread, rfl⟩, by simp, ?_⟩
    intro j hj
    exact eq_below _ _ _ hj

/-- A comment below an open bracket is replaced by closing the bracket and opening another one, in
the same column and with the same base indent.  The states behind the line differ in all that the
next line does not look at. -/
theorem highlight_edit_reopened :
    let texts : List Text := [" (".toList, "// c".toList, "a) \x7b".toList, "\x7d".toList]
    let final : State := ⟨none, .push ⟨.paren, 1, 1, .undecided⟩ (.ofBase 0), 1, false⟩
    let old : State := ⟨none, .push ⟨.paren, 1, 1, .hanging⟩ (.ofBase 0), 0, true⟩
    final.LineEquivalent old ∧
    final.tokenizeLine {} "a) \x7b".toList = old.tokenizeLine {} "a) \x7b".toList ∧
    ∃ doc edited, highlight {} (Text.ofLines texts) = .ok doc ∧
      highlight {} (Text.ofLines (texts.set 1 ")(".toList)) = .ok edited ∧
      doc.lines[1]?.map (·.state) = some old ∧ edited.lines[1]?.map (·.state) = some final ∧
      edited.lines.take 1 = doc.lines.take 1 ∧
      ∀ j, 1 < j → edited.lines[j]? = doc.lines[j]? ∧ edited.foldAt? j = doc.foldAt? j := by
  intro texts final old
  obtain ⟨hlines, hedits⟩ := highlight_edit {}
  have hequivalent : final.LineEquivalent old := ⟨rfl, by decide⟩
  -- the states before and behind the line, as computed
  obtain ⟨doc, hdoc, hfinal, hold⟩ := Fault.exists_eq_ok_of_any
    (x := highlight {} (Text.ofLines texts))
    (p := fun doc => doc.stateBefore? 1 = some final ∧ doc.lines[1]?.map (·.state) = some old)
    (by decide +kernel)
  obtain ⟨before, line, hbefore, hline, hedited, -, hconverges⟩ :=
    hedits texts 1 ")(".toList doc (by decide) (by decide) (by decide) hdoc
  obtain rfl : final = before := Option.some.inj (hfinal.symm.trans hbefore)
  have hstate : line.state = old := by
    rw [hline] at hold
    exact Option.some.inj hold
  have hreread : final.tokenizeLine {} ")(".toList =
      .ok ([⟨.punctuation, 0, [')']⟩, ⟨.punctuation, 1, ['(']⟩], final) :=
    Fault.eq_ok_of_toOption (by decide +kernel)
  obtain ⟨edited, hok, -, hbelow⟩ := hconverges _ final hreread (hstate ▸ hequivalent)
  obtain ⟨habove, new, hnew, -, hreread'⟩ := hedited edited hok
  have hnewState : new.state = final := by
    rw [hreread] at hreread'
    exact (Prod.mk.inj (Except.ok.inj hreread')).2.symm
  refine ⟨hequivalent, hlines _ _ _ hequivalent, doc, edited, hdoc, hok, ?_, ?_, habove, hbelow⟩
  · exact hold
  · rw [hnew, Option.map_some, hnewState]

end Document
end EditorMode
