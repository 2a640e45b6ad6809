import EditorMode.Proofs.Segmentation

/-! # Lexing does not depend on the indentation

Contexts, columns and indents are found while a line is read, between one token and the next.  None
of them has a part in what the next token is.  That depends on the text to come, on what is
pending, and on the extra atoms; what stands to the left of the token, which contexts are open, how
wide a tab is and how lines are indented can differ.

The argument needs no comparison of two runs step by step.  Whatever else a run does, its tokens are
lexemes (`lexeme_of_tokenize`) and its lines are segmented (`segmentation_of_tokenizeLine`), the
grammar mentions nothing but text, pending construct and extra atoms, and it leaves no choice. -/

namespace EditorMode

/-- What lexing finds on a line: its tokens and what is pending behind it. -/
def Document.Line.lexed (line : Document.Line) : List Token × Option Construct :=
  (line.tokens, line.state.pending)

namespace State

variable {config config' : Config} {st st' : State}

/-! ## Single tokens -/

/-- At a boundary of the line, reading a token only overflows. -/
theorem onlyOverflows_tokenize {line before rest : Text} {offset : Nat}
    (hcut : Text.cutAt? offset line = some (before, rest)) :
    Fault.OnlyOverflows (st.tokenize config line offset) := by
  have hboundary : (Text.cutAt? (min offset (Text.byteLength line)) line).isSome := by
    rw [Text.min_of_cutAt? hcut, hcut]
    rfl
  exact (Cursor.onlyOverflows_ofOffset hboundary config.tabSize).bind fun s =>
    (st.onlyOverflows_token config s).bind fun _ => Fault.onlyOverflows_ok _

/-- **A token read at a boundary is the lexeme that stands there.** -/
theorem lexeme_of_tokenize {line before rest : Text} {offset : Nat} {step : Step}
    (hcut : Text.cutAt? offset line = some (before, rest)) (hne : rest ≠ [])
    (h : st.tokenize config line offset = .ok step) :
    ∃ left, rest = step.text ++ left ∧
      Lexeme config.extraAtoms st.pending step.text left step.category step.state.pending := by
  obtain ⟨s, hs, h⟩ := Fault.bind_eq_ok.mp h
  obtain ⟨⟨c, next, state⟩, ht, h⟩ := Fault.bind_eq_ok.mp h
  obtain rfl := Fault.pure_eq_ok.mp h
  rw [Cursor.ofOffset_of_cutAt? hcut] at hs
  obtain ⟨column, -, hs⟩ := Fault.bind_eq_ok.mp hs
  obtain rfl := Fault.pure_eq_ok.mp hs
  refine ⟨next.rest, ?_, lexeme_of_token hne rfl ht⟩
  obtain ⟨read, -, hrest, hnext⟩ := movesOnTo_of_token hne ht
  have hlexeme : next.lexeme = read := congrArg Cursor.lexeme hnext
  rw [hlexeme]
  exact hrest

/-- Two tokens that are read in front of the same text agree, if the same is pending. -/
theorem step_eq_of_tokenize {line line' before before' rest : Text} {offset offset' : Nat}
    {step step' : Step} (hatoms : config.extraAtoms = config'.extraAtoms)
    (hpending : st.pending = st'.pending) (hcut : Text.cutAt? offset line = some (before, rest))
    (hcut' : Text.cutAt? offset' line' = some (before', rest)) (hne : rest ≠ [])
    (h : st.tokenize config line offset = .ok step)
    (h' : st'.tokenize config' line' offset' = .ok step') :
    step.text = step'.text ∧ step.category = step'.category ∧
      step.state.pending = step'.state.pending := by
  obtain ⟨left, hrest, hlexeme⟩ := lexeme_of_tokenize hcut hne h
  obtain ⟨left', hrest', hlexeme'⟩ := lexeme_of_tokenize hcut' hne h'
  rw [← hatoms, ← hpending] at hlexeme'
  obtain ⟨htext, -, hcategory, hafter⟩ := hlexeme.unique hlexeme' (hrest.symm.trans hrest')
  exact ⟨htext, hcategory, hafter⟩

/-! ## Lines -/

/-- Lines agree in their tokens and in what is pending behind them. -/
theorem tokens_eq_of_tokenizeLine {line : Text} {tokens tokens' : List Token} {final final' : State}
    (hatoms : config.extraAtoms = config'.extraAtoms) (hpending : st.pending = st'.pending)
    (h : st.tokenizeLine config line = .ok (tokens, final))
    (h' : st'.tokenizeLine config' line = .ok (tokens', final')) :
    tokens = tokens' ∧ final.pending = final'.pending := by
  obtain ⟨pieces, rfl, hpieces⟩ := segmentation_of_tokenizeLine h
  obtain ⟨pieces', rfl, hpieces'⟩ := segmentation_of_tokenizeLine h'
  rw [← hatoms, ← hpending] at hpieces'
  obtain ⟨rfl, hfinal⟩ := hpieces.unique hpieces'
  exact ⟨rfl, hfinal⟩

theorem lexed_eq_of_readLines {texts : List Text} {lines lines' : List Document.Line}
    (hatoms : config.extraAtoms = config'.extraAtoms) (hpending : st.pending = st'.pending)
    (h : Document.readLines config st texts = .ok lines)
    (h' : Document.readLines config' st' texts = .ok lines') :
    lines.map Document.Line.lexed = lines'.map Document.Line.lexed := by
  induction texts generalizing st st' lines lines' with
  | nil =>
    obtain rfl := Except.ok.inj h
    obtain rfl := Except.ok.inj h'
    rfl
  | cons text texts ih =>
    obtain ⟨tokens, state, others, hline, hothers, rfl⟩ := Document.readLines_cons_eq_ok_iff.mp h
    obtain ⟨tokens', state', others', hline', hothers', rfl⟩ :=
      Document.readLines_cons_eq_ok_iff.mp h'
    obtain ⟨htokens, hstate⟩ := tokens_eq_of_tokenizeLine hatoms hpending hline hline'
    rw [List.map_cons, List.map_cons, ih hstate hothers hothers', Document.Line.lexed,
      Document.Line.lexed, htokens, hstate]

/-- **Lexing does not depend on the indentation.** Take two configurations with the same extra
atoms and two states with the same pending construct, whatever else is different about them.

* A token read at a boundary of a line, before its end, and a token read at the beginning of the
  rest of the line alone have the same text, the same category, and the same construct pending
  behind them.
* Lines read in order have the same tokens, and the same construct pending behind each of them. -/
theorem lexing_ignores_indentation (config config' : Config) (st st' : State)
    (hatoms : config.extraAtoms = config'.extraAtoms) (hpending : st.pending = st'.pending) :
    (∀ line offset before rest, Text.cutAt? offset line = some (before, rest) →
      offset < Text.byteLength line →
      st.tokenize config line offset ≠ .error .columnOverflow →
      st'.tokenize config' rest 0 ≠ .error .columnOverflow →
      ∃ step step', st.tokenize config line offset = .ok step ∧
        st'.tokenize config' rest 0 = .ok step' ∧ step.text = step'.text ∧
        step.category = step'.category ∧ step.state.pending = step'.state.pending) ∧
    (∀ texts, Document.readLines config st texts ≠ .error .columnOverflow →
      Document.readLines config' st' texts ≠ .error .columnOverflow →
      ∃ lines lines', Document.readLines config st texts = .ok lines ∧
        Document.readLines config' st' texts = .ok lines' ∧
        lines.map Document.Line.lexed = lines'.map Document.Line.lexed) := by
  constructor
  · intro line offset before rest hcut hlt hover hover'
    have hcut' : Text.cutAt? 0 rest = some ([], rest) := Text.cutAt?_zero rest
    have hne : rest ≠ [] := by
      rintro rfl
      obtain ⟨hline, hlength⟩ := Text.cutAt?_eq_some hcut
      rw [List.append_nil] at hline
      rw [← hline, hlength] at hlt
      exact Nat.lt_irrefl offset hlt
    obtain ⟨step, hstep⟩ := (onlyOverflows_tokenize hcut).exists_eq_ok hover
    obtain ⟨step', hstep'⟩ := (onlyOverflows_tokenize hcut').exists_eq_ok hover'
    exact ⟨step, step', hstep, hstep',
      step_eq_of_tokenize hatoms hpending hcut hcut' hne hstep hstep'⟩
  · intro texts hover hover'
    obtain ⟨lines, hlines⟩ :=
      (Document.onlyOverflows_readLines config st texts).exists_eq_ok hover
    obtain ⟨lines', hlines'⟩ :=
      (Document.onlyOverflows_readLines config' st' texts).exists_eq_ok hover'
    exact ⟨lines, lines', hlines, hlines',
      lexed_eq_of_readLines hatoms hpending hlines hlines'⟩

/-- The end of a comment behind a tab, and lines on which a string goes on: with tab stops of two
and of eight columns, in a document and in brackets whose alignment nothing has decided. -/
theorem lexing_ignores_indentation_resumed :
    let config : Config := { tabSize := 2, extraAtoms := .ofList ["load".toList] }
    let config' : Config :=
      { indentUnit := 1, tabSize := 8, extraAtoms := .ofList ["load".toList],
        indentStyle := .preserve }
    let st : State := { start 0 with pending := some .blockComment }
    let st' : State :=
      ⟨some .blockComment, .push ⟨.paren, 7, 3, .undecided⟩ (.ofBase 5), 9, false⟩
    let texts : List Text := ["*/load \"\\".toList, "\t\" (é".toList]
    (∃ step step', st.tokenize config "\t→*/load".toList 1 = .ok step ∧
      st'.tokenize config' "→*/load".toList 0 = .ok step' ∧ step.text = step'.text ∧
      step.category = step'.category ∧ step.state.pending = step'.state.pending) ∧
    ∃ lines lines', Document.readLines config st texts = .ok lines ∧
      Document.readLines config' st' texts = .ok lines' ∧
      lines.map Document.Line.lexed = lines'.map Document.Line.lexed := by
  intro config config' st st' texts
  obtain ⟨htokens, hlines⟩ := lexing_ignores_indentation config config' st st' rfl rfl
  exact ⟨htokens "\t→*/load".toList 1 ['\t'] "→*/load".toList (by decide) (by decide)
      (Fault.ne_overflow_of_isOk (by decide +kernel))
      (Fault.ne_overflow_of_isOk (by decide +kernel)),
    hlines texts (Fault.ne_overflow_of_isOk (by decide +kernel))
      (Fault.ne_overflow_of_isOk (by decide +kernel))⟩

end State
end EditorMode
