import EditorMode.Proofs.Effect

/-! # Columns stay in range

Columns are numbers of 32 bits, and every addition on them may overflow.  What a state records,
though, are widths of beginnings of lines: a line measures its own indentation, a token its own
column, and a context takes over a number that was recorded before.  None of them exceeds the tab
size times the length of its line, as no character is wider than a tab stop.

`State.Within P` says that all that a state records satisfies `P`.  A token keeps it
(`exists_tokenize_within`) if `P` holds of all widths in its line, and does not overflow if these
are in range; lines in order keep it if `P` holds of the widths in any of them.  From this the main
result, `highlight_in_range`, has the bound for a document and for the columns that are suggested
in it. -/

namespace EditorMode

/-! ## Counting -/

namespace Column

/-- No character is wider than a tab stop. -/
theorem width_le {tabSize : Nat} (h : 0 < tabSize) (column : Nat) (c : Char) :
    width tabSize column c ≤ tabSize := by
  unfold width
  split
  · exact Nat.sub_le _ _
  · exact h

theorem add_of_le {column width : Nat} (h : column + width ≤ largest) :
    add column width = .ok (column + width) :=
  if_pos h

/-- **Counting stays in range** if every character may take a whole tab stop. -/
theorem exists_advance_eq_ok {tabSize column : Nat} {t : Text} (htab : 0 < tabSize)
    (h : column + tabSize * t.length ≤ largest) :
    ∃ next, advance tabSize column t = .ok next ∧ next ≤ column + tabSize * t.length := by
  induction t generalizing column with
  | nil => exact ⟨column, rfl, Nat.le_add_right _ _⟩
  | cons c t ih =>
    have hwidth := width_le htab column c
    rw [List.length_cons, Nat.mul_succ] at h ⊢
    have hafter : after tabSize column c = .ok (column + width tabSize column c) :=
      add_of_le (by omega)
    have hbehind : column + width tabSize column c + tabSize * t.length ≤ largest := by omega
    obtain ⟨next, hnext, hle⟩ := ih hbehind
    refine ⟨next, ?_, by omega⟩
    rw [advance_cons, hafter]
    exact hnext

/-- So does counting a beginning of a line whose width is in range. -/
theorem exists_advance_of_length_le {tabSize n : Nat} {t : Text} (htab : 0 < tabSize)
    (hlength : t.length ≤ n) (h : tabSize * n ≤ largest) :
    ∃ column, advance tabSize 0 t = .ok column ∧ column ≤ tabSize * n := by
  have hle : tabSize * t.length ≤ tabSize * n := Nat.mul_le_mul_left tabSize hlength
  have hrange : 0 + tabSize * t.length ≤ largest := by omega
  obtain ⟨column, hcolumn, hbound⟩ := exists_advance_eq_ok htab hrange
  exact ⟨column, hcolumn, by omega⟩

end Column

/-! ## What a state records -/

/-- The columns and the base indents of all contexts satisfy `P`. -/
def ContextStack.Within (P : Nat → Prop) (s : ContextStack) : Prop :=
  ∀ c ∈ s.toList, P c.column ∧ P c.baseIndent

/-- All numbers that a state records satisfy `P`: the current indentation, and the columns and the
base indents of the open contexts. -/
structure State.Within (P : Nat → Prop) (st : State) : Prop where
  indented : P st.indented
  stack : st.stack.Within P

variable {P : Nat → Prop}

namespace ContextStack

variable {s t : ContextStack}

theorem Within.suffix (h : s.Within P) (hsuffix : t.toList <:+ s.toList) : t.Within P :=
  fun c hc => h c (hsuffix.subset hc)

theorem Within.decideAlignment (h : s.Within P) (a : Context.Alignment) :
    (s.decideAlignment a).Within P := by
  intro c hc
  obtain ⟨d, hd, heq⟩ := exists_mem_of_mem_decideAlignment hc
  rw [heq]
  exact h d hd

/-- The context by which a line is placed is one of the open ones. -/
theorem deciding_mem_toList (first : Option Char) (s : ContextStack) :
    s.deciding first ∈ s.toList := by
  rw [deciding]
  split
  · cases s with
    | root c => exact top_mem_toList _
    | push c below => exact List.mem_cons_of_mem c below.top_mem_toList
  · exact s.top_mem_toList

end ContextStack

namespace State

theorem Within.mono {Q : Nat → Prop} {st : State} (h : st.Within P) (hPQ : ∀ n, P n → Q n) :
    st.Within Q where
  indented := hPQ _ h.indented
  stack := fun c hc => ⟨hPQ _ (h.stack c hc).1, hPQ _ (h.stack c hc).2⟩

variable {baseColumn column : Nat} {mark : Option Char} {config : Config} {st st' : State}

theorem within_start (h : P 0) : (start 0).Within P where
  indented := h
  stack := by
    intro c hc
    obtain rfl := List.mem_singleton.mp hc
    exact ⟨h, h⟩

/-- **A significant token records its own column** and otherwise what was recorded before. -/
theorem Effect.within (heffect : Effect column mark st st') (hcolumn : P column)
    (h : st.Within P) : st'.Within P := by
  rcases heffect.opens_or_leaves with
    ⟨kind, -, hstack, hindented⟩ | ⟨hsuffix, hindented | ⟨bracket, hbracket, -, hindented⟩⟩
  · refine ⟨hindented ▸ h.indented, ?_⟩
    rw [hstack]
    intro c hc
    rcases List.mem_cons.mp hc with rfl | hc
    · refine ⟨hcolumn, ?_⟩
      show P (if st.stack.top.kind = .statement then st.stack.top.baseIndent else st.indented)
      split
      · exact (h.stack _ st.stack.top_mem_toList).2
      · exact h.indented
    · exact h.stack c hc
  · exact ⟨hindented ▸ h.indented, h.stack.suffix hsuffix⟩
  · exact ⟨hindented ▸ (h.stack bracket hbracket).2, h.stack.suffix hsuffix⟩

/-! ## Tokens -/

/-- A line in range is measured without overflow. -/
theorem exists_indentation_within {s : Cursor} (htab : 0 < s.tabSize)
    (hrange : s.tabSize * s.line.length ≤ Column.largest)
    (hP : ∀ n ≤ s.tabSize * s.line.length, P n) :
    ∃ indented, s.indentation = .ok indented ∧ P indented := by
  have hlength : (Text.leadingBlank s.line).length ≤ s.line.length :=
    (List.takeWhile_prefix Text.isBlank).length_le
  obtain ⟨indented, hindented, hle⟩ := Column.exists_advance_of_length_le htab hlength hrange
  exact ⟨indented, hindented, hP indented hle⟩

theorem exists_enterLine_within {s : Cursor} {indented : Nat} (h : st.Within P)
    (hindented : s.indentation = .ok indented) (hP : P indented) :
    ∃ entered, st.enterLine s = .ok entered ∧ entered.Within P := by
  rw [enterLine, hindented]
  split
  · exact ⟨_, rfl, hP, h.stack.decideAlignment .hanging⟩
  · exact ⟨st, rfl, h⟩

/-- **A token in range.**  In a line whose widths are in range and satisfy `P`, a token at a cursor
does not overflow, and the state keeps `P`. -/
theorem exists_token_within (config : Config) {s : Cursor} {before : Text}
    (hnested : Nested baseColumn st.stack) (h : st.Within P) (hstands : s.StandsAfter before)
    (hlexeme : s.lexeme = [])
    (htab : 0 < s.tabSize) (hrange : s.tabSize * s.line.length ≤ Column.largest)
    (hP : ∀ n ≤ s.tabSize * s.line.length, P n) :
    ∃ c next st', st.token config s = .ok (c, next, st') ∧ st'.Within P := by
  obtain ⟨indented, hindented, hPindented⟩ := exists_indentation_within htab hrange hP
  obtain ⟨entered, hentered, hwithin⟩ := exists_enterLine_within h hindented hPindented
  by_cases hnil : s.rest = []
  · have hend : s.atLineEnd = true := by rw [Cursor.atLineEnd, hnil]; rfl
    have ht : st.token config s = .ok (.unstyled, s, { entered with indented }) := by
      rw [token, hentered, hend, hindented]
      rfl
    exact ⟨_, _, _, ht, hPindented, hwithin.stack⟩
  · have hend : s.atLineEnd = false := by simp [Cursor.atLineEnd, hnil]
    have hlength : before.length ≤ s.line.length := by
      rw [hstands.line_eq, List.length_append]
      exact Nat.le_add_right _ _
    obtain ⟨column, hcolumn, hle⟩ := Column.exists_advance_of_length_le htab hlength hrange
    obtain rfl : s.column = column := Except.ok.inj (hstands.column_eq.symm.trans hcolumn)
    obtain ⟨⟨c, next, st'⟩, ht⟩ : ∃ result, st.token config s = .ok result := by
      rw [token, hentered, hend]
      exact ⟨_, rfl⟩
    refine ⟨c, next, st', ht, ?_⟩
    obtain ⟨entered', hentered', heffect⟩ := effect_token hnil hlexeme hnested ht
    obtain rfl : entered = entered' := Except.ok.inj (hentered.symm.trans hentered')
    rcases heffect with ⟨-, heffect⟩ | ⟨-, hstack, hsame⟩
    · have hdecided : (entered.decideAlignment .aligned).Within P :=
        ⟨hwithin.indented, hwithin.stack.decideAlignment .aligned⟩
      exact heffect.within (hP _ hle) hdecided
    · refine ⟨hsame ▸ hwithin.indented, ?_⟩
      rw [hstack]
      exact hwithin.stack

/-! ## Lines -/

/-- The same for a token at an offset that divides the line. -/
theorem exists_tokenize_within {line before rest : Text} (hline : line = before ++ rest)
    (hnested : Nested baseColumn st.stack) (h : st.Within P)
    (hrange : Column.tabSize config.tabSize * line.length ≤ Column.largest)
    (hP : ∀ n ≤ Column.tabSize config.tabSize * line.length, P n) :
    ∃ step, st.tokenize config line (Text.byteLength before) = .ok step ∧ step.state.Within P := by
  have htab := Column.tabSize_pos config.tabSize
  have hlength : before.length ≤ line.length := by
    rw [hline, List.length_append]
    exact Nat.le_add_right _ _
  obtain ⟨column, hcolumn, -⟩ := Column.exists_advance_of_length_le htab hlength hrange
  obtain ⟨s, hs, hstands, htabSize, hlexeme, rfl⟩ : ∃ s,
      Cursor.ofOffset line (Text.byteLength before) config.tabSize = .ok s ∧
        s.StandsAfter before ∧ s.tabSize = Column.tabSize config.tabSize ∧ s.lexeme = [] ∧
        s.line = line := by
    subst hline
    exact ⟨_, Cursor.ofOffset_byteLength hcolumn, ⟨rfl, rfl, hcolumn⟩, rfl, rfl, rfl⟩
  rw [← htabSize] at htab hrange hP
  obtain ⟨c, next, st', ht, hst'⟩ :=
    exists_token_within config hnested h hstands hlexeme htab hrange hP
  refine ⟨⟨c, next.lexeme, next.pos, st'⟩, ?_, hst'⟩
  rw [tokenize, hs]
  simp only [bind, Except.bind, ht]
  rfl

/-- **The rest of a line in range.** -/
theorem exists_stepFrom_within {line before rest : Text} (hline : line = before ++ rest)
    (hreach : Reachable baseColumn st) (h : st.Within P)
    (hrange : Column.tabSize config.tabSize * line.length ≤ Column.largest)
    (hP : ∀ n ≤ Column.tabSize config.tabSize * line.length, P n) :
    ∃ steps final, st.stepFrom config line (Text.byteLength before) = .ok (steps, final) ∧
      (∀ step ∈ steps, step.state.Within P) ∧ final.Within P := by
  -- by the length of the rest, of which every token takes a part
  induction hn : rest.length using Nat.strongRecOn generalizing before rest st with
  | _ n ih =>
    by_cases hnil : rest = []
    · have hend : Text.byteLength line = Text.byteLength before := by
        rw [hline, hnil, List.append_nil]
      exact ⟨[], st, stepFrom_of_le (Nat.le_of_eq hend), List.forall_mem_nil _, h⟩
    · obtain ⟨step, hstep, hstate⟩ :=
        exists_tokenize_within hline hreach.sound.nested h hrange hP
      obtain ⟨left, hrest, htext, hstop⟩ :=
        exists_left_of_tokenize hnil (hline ▸ hstep)
      have hlt : left.length < n := by
        have hpos := List.length_pos_iff.mpr htext
        rw [← hn, hrest, List.length_append]
        omega
      have hline' : line = (before ++ step.text) ++ left := by
        rw [hline, hrest, List.append_assoc]
      obtain ⟨steps, final, hsteps, hwithin, hfinal⟩ :=
        ih _ hlt hline' (hreach.tokenize hstep) hstate rfl
      refine ⟨step :: steps, final, ?_, List.forall_mem_cons.mpr ⟨hstate, hwithin⟩, hfinal⟩
      have hbefore := Text.byteLength_lt_append before hnil
      rw [← hline] at hbefore
      rw [stepFrom_of_lt hbefore, hstep]
      simp only [bind, Except.bind, hstop, hsteps]
      rfl

theorem exists_stepThrough_within {line : Text} (hreach : Reachable baseColumn st)
    (h : st.Within P)
    (hrange : Column.tabSize config.tabSize * line.length ≤ Column.largest)
    (hP : ∀ n ≤ Column.tabSize config.tabSize * line.length, P n) :
    ∃ steps final, st.stepThrough config line = .ok (steps, final) ∧
      (∀ step ∈ steps, step.state.Within P) ∧ final.Within P := by
  have hline : line = [] ++ line := rfl
  by_cases hnil : line = []
  · obtain ⟨step, hstep, hstate⟩ :=
      exists_tokenize_within hline hreach.sound.nested h hrange hP
    refine ⟨[], step.state, ?_, List.forall_mem_nil _, hstate⟩
    subst hnil
    show (do
      let step ← st.tokenize config [] 0
      return ([], step.state)) = _
    rw [show st.tokenize config [] 0 = .ok step from hstep]
    rfl
  · rw [stepThrough_of_ne_nil hnil]
    exact exists_stepFrom_within hline hreach h hrange hP

/-- **Lines in range.** -/
theorem exists_stepLines_within {texts : List Text} (hreach : Reachable baseColumn st)
    (h : st.Within P)
    (hrange : ∀ text ∈ texts, Column.tabSize config.tabSize * text.length ≤ Column.largest)
    (hP : ∀ text ∈ texts, ∀ n ≤ Column.tabSize config.tabSize * text.length, P n) :
    ∃ stepped, st.stepLines config texts = .ok stepped ∧
      ∀ visit ∈ stepped, (∀ step ∈ visit.1, step.state.Within P) ∧ visit.2.Within P := by
  induction texts generalizing st with
  | nil => exact ⟨[], rfl, List.forall_mem_nil _⟩
  | cons text texts ih =>
    obtain ⟨hfirst, hothers⟩ := List.forall_mem_cons.mp hrange
    obtain ⟨hPfirst, hPothers⟩ := List.forall_mem_cons.mp hP
    obtain ⟨steps, final, hsteps, hwithin, hfinal⟩ :=
      exists_stepThrough_within hreach h hfirst hPfirst
    obtain ⟨stepped, hstepped, hall⟩ := ih (hreach.stepThrough hsteps) hfinal hothers hPothers
    refine ⟨(steps, final) :: stepped, ?_, List.forall_mem_cons.mpr ⟨⟨hwithin, hfinal⟩, hall⟩⟩
    rw [stepLines, hsteps]
    simp only [bind, Except.bind, hstepped]
    rfl

/-- Lines in range, from the left margin: what is recorded is the width of a beginning of a line. -/
theorem exists_stepLines_start {texts : List Text}
    (hrange : ∀ text ∈ texts, Column.tabSize config.tabSize * text.length ≤ Column.largest) :
    ∃ stepped, (start 0).stepLines config texts = .ok stepped ∧
      ∀ visit ∈ stepped, ∀ st ∈ visit.2 :: visit.1.map (·.state),
        st.Within fun n => ∃ text ∈ texts, n ≤ Column.tabSize config.tabSize * text.length := by
  cases texts with
  | nil => exact ⟨[], rfl, List.forall_mem_nil _⟩
  | cons first others =>
    have hstart : (start 0).Within fun n => ∃ text ∈ first :: others,
        n ≤ Column.tabSize config.tabSize * text.length :=
      within_start ⟨first, List.mem_cons_self, Nat.zero_le _⟩
    obtain ⟨stepped, hstepped, hwithin⟩ := exists_stepLines_within .start hstart hrange
      fun text htext n hn => ⟨text, htext, hn⟩
    refine ⟨stepped, hstepped, fun visit hvisit => ?_⟩
    obtain ⟨hsteps, hfinal⟩ := hwithin visit hvisit
    exact List.forall_mem_cons.mpr ⟨hfinal, List.forall_mem_map.mpr hsteps⟩

end State

/-! ## Suggested columns -/

/-- A context suggests a column in range if one step further in than its own numbers is in range. -/
theorem Context.exists_innerColumn_eq_ok {config : Config} {ctx : Context} (first : Option Char)
    (hunit : 0 < config.indentUnit)
    (hcolumn : ctx.column + max config.indentUnit config.continuationUnit ≤ Column.largest)
    (hbase : ctx.baseIndent + max config.indentUnit config.continuationUnit ≤ Column.largest) :
    ∃ column, ctx.innerColumn config first = .ok column := by
  have hbehind : ctx.column + 1 ≤ Column.largest := by omega
  have hindent : ctx.baseIndent + config.indentUnit ≤ Column.largest := by omega
  have hcontinue : ctx.baseIndent + config.continuationUnit ≤ Column.largest := by omega
  rw [innerColumn]
  split
  · exact ⟨_, rfl⟩
  · split
    · exact ⟨_, rfl⟩
    · exact ⟨_, Column.add_of_le hcontinue⟩
  · dsimp only
    split
    · split
      · exact ⟨_, rfl⟩
      · exact ⟨_, Column.add_of_le hbehind⟩
    · split
      · exact ⟨_, rfl⟩
      · split
        · exact ⟨_, Column.add_of_le hcontinue⟩
        · exact ⟨_, Column.add_of_le hindent⟩

theorem State.exists_indent_eq_ok {config : Config} {st : State} (textAfter : Text)
    (hunit : 0 < config.indentUnit)
    (h : st.Within fun n =>
      n + max config.indentUnit config.continuationUnit ≤ Column.largest) :
    ∃ column, st.indent config textAfter = .ok column := by
  rw [indent]
  split
  · exact ⟨_, rfl⟩
  · split
    · exact ⟨_, rfl⟩
    · obtain ⟨hcolumn, hbase⟩ :=
        h.stack _ (st.stack.deciding_mem_toList (Text.firstVisible? textAfter))
      obtain ⟨column, hcolumn⟩ :=
        Context.exists_innerColumn_eq_ok (Text.firstVisible? textAfter) hunit hcolumn hbase
      dsimp only
      rw [hcolumn]
      exact ⟨some column, rfl⟩

namespace Document

/-- **No column of a document overflows** if the tab size times the length of a line never does.

* The tab size, by which columns are divided, is the configured one and positive.
* The text is highlighted, and behind every token and every line, the current indentation, the
  columns and the base indents of all contexts are at most the tab size times the length of some
  line.  At the start all of them are zero.
* If this is so far in range that the larger one of the indent steps can be added, a column is
  suggested for every text below any line, in either style, without overflow. -/
theorem highlight_in_range {config : Config} {order : WordSet.Enumeration}
    (hcheck : config.check order = .ok config) {text : Text}
    (hrange : ∀ line ∈ Text.lines text, config.tabSize * line.length ≤ Column.largest) :
    Column.tabSize config.tabSize = config.tabSize ∧ 0 < config.tabSize ∧
      ∃ stepped doc, (State.start 0).stepLines config (Text.lines text) = .ok stepped ∧
        highlight config text = .ok doc ∧ doc.startState = State.start 0 ∧
        stepped.map (fun visit => (Step.tokensFrom 0 visit.1, visit.2)) =
          doc.lines.map (fun line => (line.tokens, line.state)) ∧
        doc.startState.Within (· = 0) ∧
        (∀ visit ∈ stepped, ∀ st ∈ visit.2 :: visit.1.map (·.state),
          st.Within fun n => ∃ line ∈ Text.lines text, n ≤ config.tabSize * line.length) ∧
        ((∀ line ∈ Text.lines text, config.tabSize * line.length +
            max config.indentUnit config.continuationUnit ≤ Column.largest) →
          ∀ style i textAfter, ∃ column,
            doc.indentAfter { config with indentStyle := style } i textAfter = .ok column) := by
  obtain ⟨hunit, htab, -⟩ := Config.fault?_eq_none.mp (Config.check_eq_ok.mp hcheck).2
  have htabSize : Column.tabSize config.tabSize = config.tabSize := by
    rw [Column.tabSize]
    omega
  refine ⟨htabSize, htab, ?_⟩
  rw [← htabSize] at hrange
  obtain ⟨stepped, hstepped, hwithin⟩ := State.exists_stepLines_start hrange
  obtain ⟨lines, hlines, hsame⟩ := State.exists_readLines_of_stepLines hstepped
  rw [htabSize] at hwithin
  refine ⟨stepped, ⟨State.start 0, lines⟩, hstepped, ?_, rfl, hsame, State.within_start rfl,
    hwithin, ?_⟩
  · rw [highlight, hlines]
    rfl
  · intro hunits style i textAfter
    rw [indentAfter]
    split
    · rename_i line hline
      -- the state behind a line is the one behind the steps through it
      obtain ⟨visit, hvisit, hstate⟩ : ∃ visit ∈ stepped, visit.2 = line.state := by
        have hmem : line.state ∈ lines.map (·.state) :=
          List.mem_map_of_mem (List.mem_of_getElem? hline)
        have hstates : stepped.map Prod.snd = lines.map (·.state) := by
          have hsecond := congrArg (List.map Prod.snd) hsame
          rw [List.map_map, List.map_map] at hsecond
          exact hsecond
        rw [← hstates] at hmem
        exact List.mem_map.mp hmem
      have hbehind := hwithin visit hvisit visit.2 List.mem_cons_self
      rw [hstate] at hbehind
      refine State.exists_indent_eq_ok textAfter hunit (hbehind.mono ?_)
      rintro n ⟨widest, hwidest, hn⟩
      have hstep := hunits widest hwidest
      show n + max config.indentUnit config.continuationUnit ≤ Column.largest
      omega
    · exact ⟨none, rfl⟩

/-- Tab stops so far apart that three of them and one indent step reach exactly to the largest
column, and a line of three characters. -/
theorem highlight_in_range_tight :
    let config : Config := { indentUnit := 3, tabSize := 1431655764 }
    let text : Text := "\t\t(\n\tx".toList
    config.check .ascending = .ok config ∧
      (∃ line ∈ Text.lines text, config.tabSize * line.length +
        max config.indentUnit config.continuationUnit = Column.largest) ∧
      ∃ stepped doc, (State.start 0).stepLines config (Text.lines text) = .ok stepped ∧
        highlight config text = .ok doc ∧
        (∀ visit ∈ stepped, ∀ st ∈ visit.2 :: visit.1.map (·.state),
          st.Within fun n => ∃ line ∈ Text.lines text, n ≤ config.tabSize * line.length) ∧
        ∀ style i textAfter, ∃ column,
          doc.indentAfter { config with indentStyle := style } i textAfter = .ok column := by
  intro config text
  have hcheck : config.check .ascending = .ok config := rfl
  have hunits : ∀ line ∈ Text.lines text, config.tabSize * line.length +
      max config.indentUnit config.continuationUnit ≤ Column.largest := by decide +kernel
  obtain ⟨-, -, stepped, doc, hstepped, hdoc, -, -, -, hwithin, hindent⟩ :=
    highlight_in_range hcheck fun line hline =>
      Nat.le_trans (Nat.le_add_right _ _) (hunits line hline)
  exact ⟨hcheck, by decide +kernel, stepped, doc, hstepped, hdoc, hwithin, hindent hunits⟩

end Document
end EditorMode
