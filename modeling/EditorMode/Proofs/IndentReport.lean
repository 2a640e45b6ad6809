import EditorMode.Cli
import EditorMode.Proofs.Overflow
import EditorMode.Proofs.Text.Decimal

/-! # The report on indentation

The report on a document has rows on the lines that can be compared with a suggestion
(`Document.IsCompared`): all but the first, the blank ones and those that begin inside a string or
comment.  Each row sets the indentation of its line beside the column that the state at the end of
the line before suggests (`Cli.reports_of_indentRows`).  The run fails exactly if the two differ in
some row, so that a line inside a string or comment cannot make it fail. -/

namespace EditorMode

/-! ## Printed text -/

namespace Text

/-- A line holds no line feed. -/
theorem lineFeed_notMem_of_mem_lines {t line : Text} (h : line ∈ lines t) : '\n' ∉ line := by
  fun_induction lines t generalizing line with
  | case1 => cases h
  | case2 t ih | case3 t ih =>
    rcases List.mem_cons.mp h with rfl | h
    · exact List.not_mem_nil
    · exact ih h
  | case4 c t hreturn hfeed hlines ih =>
    obtain rfl := List.mem_singleton.mp h
    exact fun hmem => hfeed (List.mem_singleton.mp hmem).symm
  | case5 c t hreturn hfeed first others hlines ih =>
    rw [hlines] at ih
    rcases List.mem_cons.mp h with rfl | h
    · rw [List.mem_cons, not_or]
      exact ⟨fun hc => hfeed hc.symm, ih List.mem_cons_self⟩
    · exact ih (List.mem_cons_of_mem first h)

theorem mem_of_mem_trim {t : Text} {c : Char} (h : c ∈ trim t) : c ∈ t := by
  rw [trim, List.mem_reverse] at h
  have hreverse := (List.dropWhile_sublist isBlank).subset h
  rw [List.mem_reverse] at hreverse
  exact (List.dropWhile_sublist isBlank).subset hreverse

end Text

/-! ## The lines that are compared -/

namespace Document

/-- Line `n`, counted from one, is compared with a suggestion: it is not the first, a character of
it is visible, and nothing is pending before it. -/
def IsCompared (doc : Document) (n : Nat) : Prop :=
  2 ≤ n ∧ (∃ line, doc.lines[n - 1]? = some line ∧ ∃ c ∈ line.text, ¬ Text.isBlank c) ∧
    ∃ before, doc.stateBefore? (n - 1) = some before ∧ before.pending = none

/-- Behind the first line, the states are those of the other lines. -/
theorem stateBefore?_cons_succ (st : State) (line : Line) (lines : List Line) (i : Nat) :
    stateBefore? ⟨st, line :: lines⟩ (i + 1) = stateBefore? ⟨line.state, lines⟩ i := by
  cases i <;> rfl

end Document

namespace Cli

variable {config : Config} {doc : Document} {before : State} {text : Text} {n : Nat}

/-! ## Rows -/

/-- A row sets the indentation of a line beside the column that a state suggests for it. -/
structure IndentRow.Compares (config : Config) (before : State) (text : Text) (row : IndentRow) :
    Prop where
  text_eq : row.text = text
  /-- The width of the blanks that the line begins with. -/
  actual : Column.count (Text.leadingBlank text) config.tabSize = .ok row.actual
  suggested : before.indent config text = .ok (some row.suggested)

/-- What is said about one line. -/
theorem indentRow?_eq_ok {row? : Option IndentRow}
    (h : indentRow? config n before text = .ok row?) :
    (row? = none ∧ ¬ ((∃ c ∈ text, ¬ Text.isBlank c) ∧ before.pending = none)) ∨
      ∃ row, row? = some row ∧ row.lineNumber = n ∧ row.Compares config before text ∧
        (∃ c ∈ text, ¬ Text.isBlank c) ∧ before.pending = none := by
  have hvisible : (∃ c ∈ text, ¬ Text.isBlank c) ↔ ¬ Text.isAllBlank text := by
    simp [Text.isAllBlank]
  rw [indentRow?] at h
  split at h
  · rename_i hblank
    obtain rfl := Except.ok.inj h
    exact .inl ⟨rfl, fun hboth => hvisible.mp hboth.1 hblank⟩
  · rename_i hblank
    obtain ⟨suggested?, hsuggested, h⟩ := Fault.bind_eq_ok.mp h
    cases suggested? with
    | none =>
      obtain rfl := Fault.pure_eq_ok.mp h
      have hpending : before.pending.isSome := State.indent_eq_ok_none.mp hsuggested
      refine .inl ⟨rfl, fun hboth => ?_⟩
      rw [hboth.2] at hpending
      cases hpending
    | some suggested =>
      obtain ⟨actual, hactual, h⟩ := Fault.bind_eq_ok.mp h
      obtain rfl := Fault.pure_eq_ok.mp h
      have hpending : before.pending = none := by
        rw [← Option.not_isSome_iff_eq_none]
        intro hsome
        rw [State.indent_eq_ok_none.mpr hsome] at hsuggested
        cases hsuggested
      exact .inr ⟨_, rfl, rfl, ⟨rfl, hactual, hsuggested⟩, hvisible.mpr hblank, hpending⟩

/-- The rows on consecutive lines, by the places of their lines. -/
structure RowsOn (config : Config) (n : Nat) (before : State) (lines : List Document.Line)
    (rows : List IndentRow) : Prop where
  ascending : (rows.map (·.lineNumber)).Pairwise (· < ·)
  of_mem : ∀ row ∈ rows, ∃ i line st, row.lineNumber = n + i ∧ lines[i]? = some line ∧
    Document.stateBefore? ⟨before, lines⟩ i = some st ∧ row.Compares config st line.text ∧
    (∃ c ∈ line.text, ¬ Text.isBlank c) ∧ st.pending = none
  exists_mem : ∀ i line st, lines[i]? = some line →
    Document.stateBefore? ⟨before, lines⟩ i = some st → (∃ c ∈ line.text, ¬ Text.isBlank c) →
    st.pending = none → ∃ row ∈ rows, row.lineNumber = n + i

/-- The rows on the lines behind the first keep their places. -/
theorem RowsOn.of_mem_succ (before : State) {line : Document.Line} {lines : List Document.Line}
    {rows : List IndentRow} (h : RowsOn config (n + 1) line.state lines rows) {row : IndentRow}
    (hmem : row ∈ rows) :
    ∃ i other st, row.lineNumber = n + i ∧ 0 < i ∧ (line :: lines)[i]? = some other ∧
      Document.stateBefore? ⟨before, line :: lines⟩ i = some st ∧
      row.Compares config st other.text ∧
      (∃ c ∈ other.text, ¬ Text.isBlank c) ∧ st.pending = none := by
  obtain ⟨i, other, st, hnumber, hother, hst, hrow⟩ := h.of_mem row hmem
  refine ⟨i + 1, other, st, by omega, by omega, hother, ?_, hrow⟩
  rw [Document.stateBefore?_cons_succ, hst]

/-- **Exactly the lines that can be compared have rows.** -/
theorem rowsOn_of_indentRowsFrom {lines : List Document.Line} {rows : List IndentRow}
    (h : indentRowsFrom config n before lines = .ok rows) :
    RowsOn config n before lines rows := by
  induction lines generalizing n before rows with
  | nil =>
    obtain rfl := Except.ok.inj h
    refine ⟨.nil, fun row hmem => ?_, fun i line st hline => ?_⟩
    · cases hmem
    · cases hline
  | cons line lines ih =>
    obtain ⟨row?, hrow?, h⟩ := Fault.bind_eq_ok.mp h
    obtain ⟨others, hothers, h⟩ := Fault.bind_eq_ok.mp h
    obtain rfl := Fault.pure_eq_ok.mp h
    have hrows := ih hothers
    rcases indentRow?_eq_ok hrow? with ⟨rfl, hskipped⟩ | ⟨row, rfl, hnumber, hcompares, hline⟩
    · refine ⟨hrows.ascending, fun row hmem => ?_,
        fun i other st hother hst hvisible hpending => ?_⟩
      · obtain ⟨i, other, st, hnumber, -, hrow⟩ := hrows.of_mem_succ before hmem
        exact ⟨i, other, st, hnumber, hrow⟩
      · cases i with
        | zero =>
          obtain rfl := Option.some.inj hother
          obtain rfl := Option.some.inj hst
          exact absurd ⟨hvisible, hpending⟩ hskipped
        | succ i =>
          rw [Document.stateBefore?_cons_succ] at hst
          obtain ⟨row, hmem, hnumber⟩ := hrows.exists_mem i other st hother hst hvisible hpending
          exact ⟨row, hmem, by omega⟩
    · refine ⟨?_, fun other hmem => ?_, fun i other st hother hst hvisible hpending => ?_⟩
      · refine List.pairwise_cons.mpr ⟨fun k hk => ?_, hrows.ascending⟩
        obtain ⟨other, hmem, rfl⟩ := List.mem_map.mp hk
        obtain ⟨i, -, -, hplace, -⟩ := hrows.of_mem other hmem
        show row.lineNumber < other.lineNumber
        omega
      · rcases List.mem_cons.mp hmem with rfl | hmem
        · exact ⟨0, line, before, hnumber, rfl, rfl, hcompares, hline⟩
        · obtain ⟨i, place, st, hplace, -, hrow⟩ := hrows.of_mem_succ before hmem
          exact ⟨i, place, st, hplace, hrow⟩
      · cases i with
        | zero => exact ⟨row, List.mem_cons_self, hnumber⟩
        | succ i =>
          rw [Document.stateBefore?_cons_succ] at hst
          obtain ⟨row, hmem, hnumber⟩ := hrows.exists_mem i other st hother hst hvisible hpending
          exact ⟨row, List.mem_cons_of_mem _ hmem, by omega⟩

/-- Rows on the lines of a document that can be compared, one on each and in their order. -/
structure Reports (config : Config) (doc : Document) (rows : List IndentRow) : Prop where
  ascending : (rows.map (·.lineNumber)).Pairwise (· < ·)
  mem_lineNumber : ∀ n, n ∈ rows.map (·.lineNumber) ↔ doc.IsCompared n
  /-- The suggestion is that of the state at the end of the line before, blank or not. -/
  compares : ∀ row ∈ rows, ∃ previous line, doc.lines[row.lineNumber - 2]? = some previous ∧
    doc.lines[row.lineNumber - 1]? = some line ∧ row.Compares config previous.state line.text

/-- **The rows on a document are a report.** -/
theorem reports_of_indentRows {rows : List IndentRow} (h : indentRows config doc = .ok rows) :
    Reports config doc rows := by
  obtain ⟨startState, lines⟩ := doc
  cases lines with
  | nil =>
    obtain rfl := Except.ok.inj h
    refine ⟨.nil, fun n => ⟨nofun, fun hcompared => ?_⟩, nofun⟩
    obtain ⟨-, ⟨line, hline, -⟩, -⟩ := hcompared
    cases hline
  | cons first others =>
    have hrows : RowsOn config 2 first.state others rows := rowsOn_of_indentRowsFrom h
    -- Line `n` of the document is line `n - 2` behind the first.
    refine ⟨hrows.ascending, fun n => ⟨fun hmem => ?_, fun hcompared => ?_⟩, fun row hmem => ?_⟩
    · obtain ⟨row, hrow, rfl⟩ := List.mem_map.mp hmem
      obtain ⟨i, line, st, hnumber, hline, hst, -, hvisible, hpending⟩ := hrows.of_mem row hrow
      have hplace : row.lineNumber - 1 = i + 1 := by omega
      rw [Document.IsCompared, hplace]
      refine ⟨by omega, ⟨line, hline, hvisible⟩, st, ?_, hpending⟩
      rw [Document.stateBefore?_cons_succ, hst]
    · obtain ⟨hn, ⟨line, hline, hvisible⟩, st, hst, hpending⟩ := hcompared
      obtain ⟨i, rfl⟩ := Nat.exists_eq_add_of_le hn
      have hplace : 2 + i - 1 = i + 1 := by omega
      rw [hplace] at hline hst
      rw [Document.stateBefore?_cons_succ] at hst
      obtain ⟨row, hrow, hnumber⟩ := hrows.exists_mem i line st hline hst hvisible hpending
      exact List.mem_map.mpr ⟨row, hrow, hnumber⟩
    · obtain ⟨i, line, st, hnumber, hline, hst, hcompares, -⟩ := hrows.of_mem row hmem
      have hstart : row.lineNumber - 2 = i := by omega
      have hplace : row.lineNumber - 1 = i + 1 := by omega
      rw [hstart, hplace]
      rw [← Document.stateBefore?_cons_succ startState] at hst
      obtain ⟨previous, hprevious, rfl⟩ := Option.map_eq_some_iff.mp hst
      exact ⟨previous, line, hprevious, hline, hcompares⟩

/-! ## The printed report -/

/-- How a row is marked. -/
def IndentRow.marker (row : IndentRow) : Text :=
  if row.actual = row.suggested then "ok".toList else "!!".toList

/-- The line that is printed for a row. -/
def IndentRow.printed (row : IndentRow) : Text :=
  "  ".toList ++ row.marker ++ " ".toList ++ Text.paddedDecimal 4 row.lineNumber ++ ": ".toList ++
    Text.paddedDecimal 3 row.actual ++ " (suggested ".toList ++
    Text.paddedDecimal 3 row.suggested ++ ") ".toList ++ Text.trim row.text

theorem IndentRow.agrees_iff {row : IndentRow} : row.agrees ↔ row.actual = row.suggested := by
  rw [IndentRow.agrees, beq_iff_eq]

theorem IndentRow.render_eq (row : IndentRow) : row.render = row.printed ++ ['\n'] := by
  have hmarker : (if row.agrees then "ok" else "!!").toList = row.marker := by
    unfold marker
    by_cases h : row.actual = row.suggested
    · rw [if_pos h, if_pos (agrees_iff.mpr h)]
    · rw [if_neg h, if_neg (mt agrees_iff.mp h)]
  have hbreak : "\n".toList = ['\n'] := by decide +kernel
  unfold render printed
  rw [hmarker, hbreak]

/-- A printed row is a line. -/
theorem IndentRow.lineFeed_notMem_printed {row : IndentRow} (h : '\n' ∉ row.text) :
    '\n' ∉ row.printed := by
  have hmarker : '\n' ∉ row.marker := by
    unfold marker
    split <;> decide +kernel
  have htext : '\n' ∉ Text.trim row.text := mt Text.mem_of_mem_trim h
  unfold printed
  simp [hmarker, htext, Text.lineFeed_notMem_paddedDecimal]

/-- The rows that begin with the mark are those whose line stands elsewhere than suggested. -/
theorem IndentRow.isPrefixOf_printed_iff {row : IndentRow} :
    "  !!".toList.isPrefixOf row.printed ↔ row.actual ≠ row.suggested := by
  unfold printed marker
  by_cases h : row.actual = row.suggested
  · simp [h]
  · simp [h]

/-- The number of printed rows that are marked as differing. -/
def markedRows (rows : List IndentRow) : Nat :=
  (rows.map (·.printed)).countP ("  !!".toList.isPrefixOf ·)

/-- The last lines of a report with marked rows. -/
def summary (marked : Nat) : Text :=
  if marked = 0 then []
  else "\n".toList ++ Text.decimal marked ++
    " line(s) differ from the suggested indentation\n".toList

/-- What a run leaves that prints rows: a heading, a line for each row, and if rows are marked
their number and an exit code that says so. -/
structure Prints (path : Text) (rows : List IndentRow) (output : Output) : Prop where
  stdout : output.stdout = "Indentation for '".toList ++ path ++ "':\n".toList ++
    rows.flatMap (fun row => row.printed ++ ['\n']) ++ summary (markedRows rows)
  isLine : ∀ row ∈ rows, '\n' ∉ row.printed
  exit : output.exit = if markedRows rows = 0 then 0 else 1
  stderr : output.stderr = []

theorem markedRows_eq (rows : List IndentRow) : markedRows rows = mismatches rows := by
  rw [markedRows, mismatches, List.countP_map]
  refine List.countP_congr fun row _ => ?_
  rw [Function.comp_apply, IndentRow.isPrefixOf_printed_iff, Bool.not_eq_true', Bool.eq_false_iff]
  exact (not_congr IndentRow.agrees_iff).symm

theorem markedRows_eq_zero_iff {rows : List IndentRow} :
    markedRows rows = 0 ↔ ∀ row ∈ rows, row.actual = row.suggested := by
  rw [markedRows, List.countP_map, List.countP_eq_zero]
  refine forall₂_congr fun row _ => ?_
  rw [Function.comp_apply, IndentRow.isPrefixOf_printed_iff, ne_eq, Decidable.not_not]

theorem prints_indentOutput {path : Text} {rows : List IndentRow}
    (h : ∀ row ∈ rows, '\n' ∉ row.text) : Prints path rows (indentOutput path rows) := by
  have hrows : rows.flatMap IndentRow.render = rows.flatMap fun row => row.printed ++ ['\n'] :=
    congrArg (List.flatMap · rows) (funext IndentRow.render_eq)
  have hlines : ∀ row ∈ rows, '\n' ∉ row.printed := fun row hmem =>
    IndentRow.lineFeed_notMem_printed (h row hmem)
  unfold indentOutput
  rw [hrows, ← markedRows_eq]
  by_cases hmarked : markedRows rows = 0
  · rw [if_pos hmarked]
    refine ⟨?_, hlines, (if_pos hmarked).symm, rfl⟩
    rw [summary, if_pos hmarked, List.append_nil]
    rfl
  · rw [if_neg hmarked]
    refine ⟨?_, hlines, (if_neg hmarked).symm, rfl⟩
    rw [summary, if_neg hmarked]
    simp only [List.append_assoc]

/-! ## The run -/

/-- The text of a row is that of a line of the document. -/
theorem Reports.exists_line {rows : List IndentRow} (h : Reports config doc rows)
    {row : IndentRow} (hmem : row ∈ rows) : ∃ line ∈ doc.lines, row.text = line.text := by
  obtain ⟨previous, line, -, hline, hcompares⟩ := h.compares row hmem
  exact ⟨line, List.mem_of_getElem? hline, hcompares.text_eq⟩

/-- **The report on indentation.**  Where nothing overflows, it has one row on each line that can be
compared, in the order of the document, and they are printed one to a line.  The run fails exactly
if some row differs, and then says how many do; a line before which a string or comment is pending
has no row and cannot make it fail. -/
theorem indent_reports_differences {config : Config} {path text : Text} {output : Output}
    (h : perform config .indent path text = .ok output) :
    ∃ doc rows, Document.highlight config text = .ok doc ∧ Reports config doc rows ∧
      Prints path rows output ∧
      (output.exit = 1 ↔ ∃ row ∈ rows, row.actual ≠ row.suggested) ∧
      (∀ i before, doc.stateBefore? i = some before → before.pending.isSome →
        i + 1 ∉ rows.map (·.lineNumber)) ∧
      ∀ decoder read arguments, request (operands arguments) = .run .indent path →
        loadConfig decoder read (lastConfigPath? arguments) = .ok config → read path = .ok text →
        run decoder read arguments = output := by
  obtain ⟨doc, hdoc, houtput⟩ := Fault.bind_eq_ok.mp h
  obtain ⟨rows, hrows, houtput⟩ := Fault.bind_eq_ok.mp houtput
  obtain rfl := Fault.pure_eq_ok.mp houtput
  have hreports := reports_of_indentRows hrows
  have hprints : Prints path rows (indentOutput path rows) := by
    refine prints_indentOutput fun row hmem => ?_
    obtain ⟨line, hline, htext⟩ := hreports.exists_line hmem
    obtain ⟨lines, hlines, hread⟩ := Fault.bind_eq_ok.mp hdoc
    obtain rfl := Fault.pure_eq_ok.mp hread
    have hmemLines : line.text ∈ Text.lines text :=
      Document.map_text_readLines hlines ▸ List.mem_map_of_mem hline
    exact htext ▸ Text.lineFeed_notMem_of_mem_lines hmemLines
  refine ⟨doc, rows, hdoc, hreports, hprints, ?_, fun i before hbefore hpending hmem => ?_, ?_⟩
  · rw [hprints.exit]
    by_cases hmarked : markedRows rows = 0
    · rw [if_pos hmarked]
      have hagree := markedRows_eq_zero_iff.mp hmarked
      exact ⟨nofun, fun ⟨row, hmem, hdiffers⟩ => absurd (hagree row hmem) hdiffers⟩
    · rw [if_neg hmarked]
      refine ⟨fun _ => Classical.byContradiction fun hagree => hmarked ?_, fun _ => rfl⟩
      exact markedRows_eq_zero_iff.mpr fun row hmem =>
        Decidable.byContradiction fun hdiffers => hagree ⟨row, hmem, hdiffers⟩
  · obtain ⟨-, -, st, hst, hnone⟩ := (hreports.mem_lineNumber (i + 1)).mp hmem
    rw [Nat.add_sub_cancel, hbefore] at hst
    obtain rfl := Option.some.inj hst
    rw [hnone] at hpending
    cases hpending
  · intro decoder read arguments hrequest hconfig hread
    rw [run_eq_respond, hrequest, respond]
    simp only [hconfig, hread, h]

/-- The second line begins in a string and stands in no column that the mode would suggest; the line
behind the empty one agrees, and the one behind that does not. -/
theorem indent_reports_differences_behind_string :
    let text : Text := "f \"a\n        b\" \x7b\n\n    x.\n  y.\n\x7d".toList
    let path : Text := "f".toList
    ∃ output doc rows, perform {} .indent path text = .ok output ∧ output.exit = 1 ∧
      Document.highlight {} text = .ok doc ∧ Reports {} doc rows ∧ Prints path rows output ∧
      (∃ row ∈ rows, row.actual ≠ row.suggested) ∧ 2 ∉ rows.map (·.lineNumber) := by
  intro text path
  obtain ⟨output, houtput, hexit⟩ :=
    Fault.exists_eq_ok_of_any (x := perform {} .indent path text) (p := fun o => o.exit = 1)
      (by decide +kernel)
  obtain ⟨doc, rows, hdoc, hreports, hprints, hfails, hpending, -⟩ :=
    indent_reports_differences houtput
  refine ⟨output, doc, rows, houtput, hexit, hdoc, hreports, hprints, hfails.mp hexit, ?_⟩
  obtain ⟨read, hread, hstring⟩ :=
    Fault.exists_eq_ok_of_any (x := Document.highlight {} text)
      (p := fun d => (d.stateBefore? 1).map (·.pending) = some (some (.string '\"')))
      (by decide +kernel)
  obtain rfl := Except.ok.inj (hread.symm.trans hdoc)
  obtain ⟨before, hbefore, hsome⟩ := Option.map_eq_some_iff.mp hstring
  exact hpending 1 before hbefore (by rw [hsome]; rfl)

end Cli
end EditorMode
