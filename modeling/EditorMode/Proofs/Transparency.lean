import EditorMode.Indent
import EditorMode.Proofs.Convergence
import EditorMode.Proofs.Independence

/-! # Blank lines and comments are transparent

White space and comments act on no context, but the lines on which they stand are lines: each of
them is measured, and decides the alignment of a bracket opened last on the line before.  Lines are
**silent** if nothing else stands on them and they leave nothing pending (`Document.Silent`).

What silent lines change is what line-equivalent states may differ in, so it is seen by no later
line (`LineEquivalent.readLines_eq`), nor by the column that an open context suggests for a line
right below (`LineEquivalent.indent_eq`).  The main result, `readLines_insert_silent`, puts silent
lines between any others.  That they stay silent there, whichever contexts are open around them, is
the independence of lexing. -/

namespace EditorMode

/-! ## Suggested columns -/

/-- A bracket whose alignment is undecided places lines as a hanging one. -/
theorem Context.innerColumn_hanging (config : Config) (first : Option Char) {ctx : Context}
    (h : ctx.alignment = .undecided) :
    { ctx with alignment := .hanging }.innerColumn config first = ctx.innerColumn config first := by
  obtain ⟨kind, baseIndent, column, alignment⟩ := ctx
  obtain rfl : alignment = .undecided := h
  cases kind <;> rfl

namespace ContextStack

/-- So it makes no difference to a suggestion whether the innermost alignment has been decided. -/
theorem innerColumn_deciding_hanging (config : Config) (first : Option Char) (s : ContextStack) :
    ((s.decideAlignment .hanging).deciding first).innerColumn config first =
      (s.deciding first).innerColumn config first := by
  rw [decideAlignment]
  split
  · rename_i hundecided
    have hcontext := s.top.innerColumn_hanging config first hundecided
    cases s with
    | root c =>
      have hroot (c : Context) : (root c).deciding first = c := ite_self c
      rw [updateTop, hroot, hroot]
      exact hcontext
    | push c below =>
      -- a closing brace skips a statement, and with it what was decided of its alignment
      have hpush (c : Context) : (push c below).deciding first =
        if c.kind = .statement ∧ first = some '}' then below.top else c := rfl
      rw [updateTop, hpush, hpush]
      dsimp only
      split
      · rfl
      · exact hcontext
  · rfl

/-- Deciding the alignment once more does nothing. -/
theorem decideAlignment_hanging_hanging (s : ContextStack) :
    (s.decideAlignment .hanging).decideAlignment .hanging = s.decideAlignment .hanging :=
  if_neg (decided_top_decideAlignment (by decide) s)

end ContextStack

namespace State

variable {config : Config} {st st' : State}

/-- **A column is suggested alike in line-equivalent states**, if a context decides it. -/
theorem LineEquivalent.indent_eq (h : st.LineEquivalent st')
    (hstyle : config.indentStyle = .contextual) (textAfter : Text) :
    st.indent config textAfter = st'.indent config textAfter := by
  have hdeciding : ∀ first : Option Char,
      (st.stack.deciding first).innerColumn config first =
        (st'.stack.deciding first).innerColumn config first := by
    intro first
    rw [← st.stack.innerColumn_deciding_hanging, h.stack_eq,
      st'.stack.innerColumn_deciding_hanging]
  simp only [indent, h.pending_eq, hstyle, hdeciding]

/-! ## Tokens that act on no context

A stack is compared as the next line finds it, **settled**: its innermost alignment counts as
decided. -/

/-- Entering a line decides nothing that entering the next one would not. -/
theorem settled_enterLine {s : Cursor} {entered : State} (h : st.enterLine s = .ok entered) :
    entered.stack.decideAlignment .hanging = st.stack.decideAlignment .hanging := by
  rcases eq_of_enterLine h with ⟨-, rfl⟩ | ⟨-, indented, -, rfl⟩
  · rfl
  · exact st.stack.decideAlignment_hanging_hanging

/-- A token that is not significant does no more to the contexts than entering its line, nor does
the end of a line. -/
theorem keptByTokens_settled (stack : ContextStack) :
    KeptByTokens (fun c => ¬ c.isSignificant)
      fun st => st.stack.decideAlignment .hanging = stack := by
  intro config s next c st st' _ hc hst h
  by_cases hne : s.rest = []
  · obtain ⟨entered, indented, hentered, rfl⟩ := entering_of_token hne h
    show entered.stack.decideAlignment .hanging = stack
    rw [settled_enterLine hentered, hst]
  · obtain ⟨entered, hentered, rfl, -, rfl⟩ := reading_of_token hne h
    rw [afterReading, if_neg (hc hne)]
    show entered.stack.decideAlignment .hanging = stack
    rw [settled_enterLine hentered, hst]

end State

/-! ## Silent lines -/

namespace Document

variable {config : Config} {st st' : State}

/-- Lines of nothing but white space and comments: read with nothing pending, they have no other
tokens, and leave nothing pending.  From which state makes no difference, since lexing is
independent of it. -/
def Silent (config : Config) (texts : List Text) : Prop :=
  ∃ st lines, st.pending = none ∧ readLines config st texts = .ok lines ∧
    (∀ line ∈ lines, ∀ t ∈ line.tokens, t.category = .unstyled ∨ t.category = .comment) ∧
    (stateBehind st lines).pending = none

/-- What is pending behind lines is pending behind the last of them. -/
theorem pending_stateBehind_eq {lines lines' : List Line} (hpending : st.pending = st'.pending)
    (h : lines.map Line.lexed = lines'.map Line.lexed) :
    (stateBehind st lines).pending = (stateBehind st' lines').pending := by
  induction lines generalizing st st' lines' with
  | nil =>
    obtain rfl := List.map_eq_nil_iff.mp h.symm
    exact hpending
  | cons line lines ih =>
    cases lines' with
    | nil => cases h
    | cons line' lines' =>
      obtain ⟨hline, hothers⟩ := List.cons.inj h
      show (stateBehind line.state lines).pending = (stateBehind line'.state lines').pending
      exact ih (Prod.mk.inj hline).2 hothers

/-- **Silent lines lead to a line-equivalent state**, from every state with nothing pending. -/
theorem Silent.lineEquivalent {texts : List Text} {lines : List Line} (h : Silent config texts)
    (hpending : st.pending = none) (hlines : readLines config st texts = .ok lines) :
    (stateBehind st lines).LineEquivalent st := by
  obtain ⟨st', lines', hpending', hlines', hsilent, hend⟩ := h
  have hsame : st.pending = st'.pending := hpending.trans hpending'.symm
  have hlexed : lines.map Line.lexed = lines'.map Line.lexed :=
    State.lexed_eq_of_readLines rfl hsame hlines hlines'
  have htokens : ∀ line ∈ lines, ∀ t ∈ line.tokens, ¬ t.category.isSignificant := by
    intro line hline t ht
    obtain ⟨line', hline', heq⟩ : ∃ line' ∈ lines', line'.lexed = line.lexed :=
      List.mem_map.mp (hlexed ▸ List.mem_map_of_mem hline)
    rw [← (Prod.mk.inj heq).1] at ht
    rcases hsilent line' hline' t ht with hc | hc
    · rw [hc]
      decide
    · rw [hc]
      decide
  have hsettled := State.keptByTokens_settled (st.stack.decideAlignment .hanging)
  refine ⟨?_, kept_stateBehind hsettled hlines htokens rfl⟩
  rw [pending_stateBehind_eq hsame hlexed, hend, hpending]

/-- **Silent lines can be put in anywhere.**  Let nothing be pending behind the lines before them.
Unless a column overflows, the lines after them have the tokens and the states behind them that they
have without the silent lines; and a context suggests the same column for a line right below them as
for a line in their place. -/
theorem readLines_insert_silent (config : Config) (baseColumn : Nat)
    (before silent after : List Text) (linesBefore : List Line)
    (hbefore : readLines config (.start baseColumn) before = .ok linesBefore)
    (hpending : (stateBehind (.start baseColumn) linesBefore).pending = none)
    (hsilent : Silent config silent)
    (hover : readLines config (.start baseColumn) (before ++ silent ++ after) ≠
      .error .columnOverflow) :
    ∃ linesSilent linesAfter,
      readLines config (.start baseColumn) (before ++ silent ++ after) =
        .ok (linesBefore ++ linesSilent ++ linesAfter) ∧
      readLines config (.start baseColumn) (before ++ after) = .ok (linesBefore ++ linesAfter) ∧
      linesSilent.map (·.text) = silent ∧ linesAfter.map (·.text) = after ∧
      (config.indentStyle = .contextual → ∀ textAfter,
        (stateBehind (.start baseColumn) (linesBefore ++ linesSilent)).indent config textAfter =
          (stateBehind (.start baseColumn) linesBefore).indent config textAfter) := by
  obtain ⟨lines, hlines⟩ := (onlyOverflows_readLines config _ _).exists_eq_ok hover
  obtain ⟨first, linesAfter, hfirst, hafter, rfl⟩ := readLines_append_eq_ok_iff.mp hlines
  obtain ⟨linesBefore', linesSilent, hbefore', hlinesSilent, rfl⟩ :=
    readLines_append_eq_ok_iff.mp hfirst
  obtain rfl : linesBefore = linesBefore' := Except.ok.inj (hbefore.symm.trans hbefore')
  have hequivalent := hsilent.lineEquivalent hpending hlinesSilent
  rw [stateBehind_append] at hafter
  have hwithout : readLines config (stateBehind (.start baseColumn) linesBefore) after =
      .ok linesAfter := (hequivalent.readLines_eq after).symm.trans hafter
  refine ⟨linesSilent, linesAfter, hlines, ?_, map_text_readLines hlinesSilent,
    map_text_readLines hafter, ?_⟩
  · exact readLines_append_eq_ok_iff.mpr ⟨linesBefore, linesAfter, hbefore, hwithout, rfl⟩
  · intro hstyle textAfter
    rw [stateBehind_append]
    exact hequivalent.indent_eq hstyle textAfter

/-- Behind a bracket at the end of its line: an empty line, a line comment, and a block comment that
holds a blank line.  They decide the bracket's alignment, as the next line does without them. -/
theorem readLines_insert_silent_comments :
    let silent : List Text :=
      ["".toList, "  // c".toList, "/* \x7b".toList, " ".toList, " */\t".toList]
    ∃ linesBefore linesSilent linesAfter,
      readLines {} (.start 3) (["f(".toList] ++ silent ++ ["a) b".toList, "\x7d".toList]) =
        .ok (linesBefore ++ linesSilent ++ linesAfter) ∧
      readLines {} (.start 3) (["f(".toList] ++ ["a) b".toList, "\x7d".toList]) =
        .ok (linesBefore ++ linesAfter) ∧
      linesSilent.map (·.text) = silent ∧
      linesAfter.map (·.text) = ["a) b".toList, "\x7d".toList] ∧
      ∀ textAfter,
        (stateBehind (.start 3) (linesBefore ++ linesSilent)).indent {} textAfter =
          (stateBehind (.start 3) linesBefore).indent {} textAfter := by
  intro silent
  obtain ⟨linesBefore, hbefore, hpending⟩ := Fault.exists_eq_ok_of_any
    (x := readLines {} (.start 3) ["f(".toList])
    (p := fun lines => (stateBehind (.start 3) lines).pending = none) (by decide +kernel)
  obtain ⟨lines, hlines, htokens, hend⟩ := Fault.exists_eq_ok_of_any
    (x := readLines {} (.start 0) silent)
    (p := fun lines =>
      (∀ line ∈ lines, ∀ t ∈ line.tokens, t.category = .unstyled ∨ t.category = .comment) ∧
      (stateBehind (.start 0) lines).pending = none) (by decide +kernel)
  have hsilent : Silent {} silent := ⟨.start 0, lines, rfl, hlines, htokens, hend⟩
  obtain ⟨linesSilent, linesAfter, hwith, hwithout, hsilentTexts, hafterTexts, hindent⟩ :=
    readLines_insert_silent {} 3 ["f(".toList] silent ["a) b".toList, "\x7d".toList] linesBefore
      hbefore hpending hsilent (Fault.ne_overflow_of_isOk (by decide +kernel))
  exact ⟨linesBefore, linesSilent, linesAfter, hwith, hwithout, hsilentTexts, hafterTexts,
    hindent rfl⟩

end Document
end EditorMode
