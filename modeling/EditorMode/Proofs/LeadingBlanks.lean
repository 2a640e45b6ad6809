import EditorMode.Proofs.InStep
import EditorMode.Proofs.Opening

/-! # Tabs and spaces

Of the blanks that a line begins with, the mode sees only how wide they are.  Which characters they
are, and of how many bytes, shows in the offsets of the tokens and nowhere else: neither in what is
read behind them, nor in the columns at which it is read, where later tabs are measured from the
same place, nor in the indentation.  This holds also where the blanks belong to a string or a
comment that an earlier line began.

In both lines the blanks are part of the opening.  It is read as one token, with the same state
behind it; from there on the two runs are in step. -/

namespace EditorMode

/-! ## Blanks of the same width -/

namespace Column

variable {tabSize column c : Nat} {t : Text}

/-- Every character is at least one column wide. -/
theorem length_le_of_advance (htab : 0 < tabSize) (h : advance tabSize column t = .ok c) :
    column + t.length ≤ c := by
  induction t generalizing column with
  | nil =>
    obtain rfl := Except.ok.inj h
    exact Nat.le_refl _
  | cons ch t ih =>
    rw [advance_cons] at h
    obtain ⟨next, hnext, h⟩ := Fault.bind_eq_ok.mp h
    obtain ⟨rfl, -⟩ := add_eq_ok.mp hnext
    have hpos : 0 < width tabSize column ch := width_pos ch htab
    have hlength := ih h
    rw [List.length_cons]
    omega

/-- Only the empty text has no width. -/
theorem eq_nil_of_count_eq {requested : Nat} (h : count [] requested = count t requested) :
    t = [] := by
  have hlength := length_le_of_advance (tabSize_pos requested) h.symm
  apply List.eq_nil_of_length_eq_zero
  omega

/-- What is read behind texts of the same width is as wide. -/
theorem advance_append_congr {w w' : Text}
    (h : advance tabSize column w = advance tabSize column w') (t : Text) :
    advance tabSize column (w ++ t) = advance tabSize column (w' ++ t) := by
  rw [advance_append, advance_append, h]

end Column

/-- Blanks of the same width indent a line alike. -/
theorem Cursor.indentation_ofLine_congr {w w' : Text} {tabSize : Nat}
    (hw : ∀ c ∈ w, Text.isBlank c) (hw' : ∀ c ∈ w', Text.isBlank c)
    (hwidth : Column.count w tabSize = Column.count w' tabSize) (t : Text) :
    (ofLine (w ++ t) tabSize).indentation = (ofLine (w' ++ t) tabSize).indentation := by
  show Column.advance _ 0 (Text.leadingBlank (w ++ t)) =
    Column.advance _ 0 (Text.leadingBlank (w' ++ t))
  rw [Text.leadingBlank_append hw, Text.leadingBlank_append hw']
  exact Column.advance_append_congr hwidth _

theorem Cursor.pos_forward_ofLine (w rest : Text) (tabSize : Nat) :
    ((ofLine (w ++ rest) tabSize).forward w.length).pos = Text.byteLength w := by
  rw [pos, lexeme_forward_ofLine]
  exact Nat.zero_add _

/-- So the runs behind the opening are in step. -/
theorem Cursor.inStep_forward_ofLine {w w' u : Text} {tabSize : Nat} (hne : w ≠ []) (hne' : w' ≠ [])
    (hwidth : Column.count w tabSize = Column.count w' tabSize) (left : Text) :
    InStep [] ((ofLine (w ++ u ++ left) tabSize).forward (w ++ u).length)
      ((ofLine (w' ++ u ++ left) tabSize).forward (w' ++ u).length) where
  rest_eq := by
    rw [rest_forward, rest_forward, List.append_nil]
    exact List.drop_left.trans List.drop_left.symm
  tabSize_eq := rfl
  column_eq := by
    rw [lexeme_forward_ofLine, lexeme_forward_ofLine]
    exact (Column.advance_append_congr hwidth u).symm
  enterLine_eq st := by
    rw [State.enterLine_of_lexeme, State.enterLine_of_lexeme]
    · rw [lexeme_forward_ofLine]
      exact List.append_ne_nil_of_left_ne_nil hne u
    · rw [lexeme_forward_ofLine]
      exact List.append_ne_nil_of_left_ne_nil hne' u

/-! ## Offsets -/

/-- Offsets in two lines that begin with the blanks `w` and `w'`: both at the beginning, or both
behind it, and then equally far behind the blanks. -/
def SameOffset (w w' : Text) (offset offset' : Nat) : Prop :=
  (offset = 0 ∧ offset' = 0) ∨
    (offset ≠ 0 ∧ offset' ≠ 0 ∧
      offset + Text.byteLength w' = offset' + Text.byteLength w)

/-- The same token behind other blanks. -/
structure Token.SameBehind (w w' : Text) (t t' : Token) : Prop where
  category_eq : t'.category = t.category
  start : SameOffset w w' t.start t'.start
  stop : SameOffset w w' t.stop t'.stop

theorem SameOffset.refl (w : Text) (offset : Nat) : SameOffset w w offset offset := by
  by_cases hzero : offset = 0
  · exact .inl ⟨hzero, hzero⟩
  · exact .inr ⟨hzero, hzero, rfl⟩

/-- Offsets that are counted from the ends of the blanks. -/
theorem sameOffset_byteLength_add {w w' : Text} (hne : w ≠ []) (hne' : w' ≠ []) (n : Nat) :
    SameOffset w w' (Text.byteLength w + n) (Text.byteLength w' + n) := by
  have hpos : Text.byteLength w ≠ 0 := fun hzero => hne (Text.byteLength_eq_zero.mp hzero)
  have hpos' : Text.byteLength w' ≠ 0 := fun hzero => hne' (Text.byteLength_eq_zero.mp hzero)
  refine .inr ⟨?_, ?_, ?_⟩
  · omega
  · omega
  · omega

/-! ## Lines -/

namespace State

variable {config : Config} {st final : State} {w w' rest : Text} {tokens : List Token}

/-- **A line behind other blanks** has the same state behind it, and its tokens in other places
only. -/
theorem exists_tokenizeLine_of_blanks (hne : w ≠ []) (hne' : w' ≠ [])
    (hw : ∀ c ∈ w, Text.isBlank c ∧ st.pending ≠ some (.string c))
    (hw' : ∀ c ∈ w', Text.isBlank c ∧ st.pending ≠ some (.string c))
    (hwidth : Column.count w config.tabSize = Column.count w' config.tabSize)
    (h : st.tokenizeLine config (w ++ rest) = .ok (tokens, final)) :
    ∃ tokens', st.tokenizeLine config (w' ++ rest) = .ok (tokens', final) ∧
      List.Forall₂ (Token.SameBehind w w') tokens tokens' := by
  obtain ⟨u, left, after, rfl, hopening, -⟩ := exists_opening config.extraAtoms st.pending rest
  have hindentation := Cursor.indentation_ofLine_congr (fun c hc => (hw c hc).1)
    (fun c hc => (hw' c hc).1) hwidth (u ++ left)
  have hcursor := Cursor.inStep_forward_ofLine (u := u) hne hne' hwidth left
  rw [← List.append_assoc] at h ⊢
  rw [← List.append_assoc, ← List.append_assoc] at hindentation
  have henter := enterLine_congr rfl rfl hindentation st
  -- the opening is one token of either line, and leaves the same state behind
  obtain ⟨entered, others, hentered, rfl, tail⟩ :=
    (tokenizeLine_append_eq_ok_iff (hopening w hne hw)).mp h
  obtain ⟨others', tail', hothers⟩ := hcursor.readsRest tail config
  rw [Construct.mark?_openingCategory, ← Construct.mark?_openingCategory st.pending (w' ++ u)]
    at tail'
  refine ⟨_, (tokenizeLine_append_eq_ok_iff (hopening w' hne' hw')).mpr
    ⟨entered, others', henter.symm.trans hentered, rfl, tail'⟩, .cons ⟨rfl, ?_, ?_⟩ ?_⟩
  · exact .inl ⟨rfl, rfl⟩
  · rw [Token.stop, Token.stop, Text.byteLength_append, Text.byteLength_append, Nat.zero_add,
      Nat.zero_add]
    exact sameOffset_byteLength_add hne hne' _
  · refine hothers.imp fun t t' ht => ?_
    obtain ⟨n, hn, hn'⟩ := ht.place
    rw [Cursor.pos_forward_ofLine, Text.byteLength_append, Nat.add_assoc] at hn hn'
    refine ⟨(ht.category.eq_of_mem_iff Iff.rfl).symm, ?_, ?_⟩
    · rw [hn, hn']
      exact sameOffset_byteLength_add hne hne' _
    · simp only [Token.stop, hn, hn', ht.text_eq, Nat.add_assoc]
      exact sameOffset_byteLength_add hne hne' _

/-- A line that is read twice is the same behind its own blanks. -/
theorem forall₂_sameBehind_self (w : Text) (tokens : List Token) :
    List.Forall₂ (Token.SameBehind w w) tokens tokens :=
  List.forall₂_same.mpr fun _ _ => ⟨rfl, .refl w _, .refl w _⟩

/-- **Only the width of leading blanks matters.**  Let two lines differ in the blanks that they
begin with, whichever characters these are, and let the blanks be equally wide.  From any state that
has no string pending but one between the quotes of the language, and unless a column overflows,
both lines are read with the same state behind them.  Their tokens are in the same categories, one
by one, and the offsets of their ends, unless zero, differ by as many bytes as the blanks do. -/
theorem tokenizeLine_blanks_of_same_width
    (hquote : ∀ quote, st.pending = some (.string quote) → quote = '\"' ∨ quote = '\x60')
    (hw : Text.isAllBlank w) (hw' : Text.isAllBlank w')
    (hwidth : Column.count w config.tabSize = Column.count w' config.tabSize)
    (hover : st.tokenizeLine config (w ++ rest) ≠ .error .columnOverflow) :
    ∃ tokens tokens' final, st.tokenizeLine config (w ++ rest) = .ok (tokens, final) ∧
      st.tokenizeLine config (w' ++ rest) = .ok (tokens', final) ∧
      List.Forall₂ (Token.SameBehind w w') tokens tokens' := by
  obtain ⟨⟨tokens, final⟩, h⟩ := (st.onlyOverflows_tokenizeLine config _).exists_eq_ok hover
  have hblanks : ∀ v : Text, Text.isAllBlank v →
      ∀ c ∈ v, Text.isBlank c ∧ st.pending ≠ some (.string c) := by
    intro v hv c hc
    have hblank := List.all_eq_true.mp hv c hc
    refine ⟨hblank, fun hpending => ?_⟩
    rcases hquote c hpending with rfl | rfl
    · exact absurd hblank (by decide)
    · exact absurd hblank (by decide)
  by_cases hnil : w = []
  · subst hnil
    obtain rfl := Column.eq_nil_of_count_eq hwidth
    exact ⟨tokens, tokens, final, h, h, forall₂_sameBehind_self [] tokens⟩
  by_cases hnil' : w' = []
  · subst hnil'
    exact absurd (Column.eq_nil_of_count_eq hwidth.symm) hnil
  obtain ⟨tokens', h', htokens⟩ :=
    exists_tokenizeLine_of_blanks hnil hnil' (hblanks w hw) (hblanks w' hw') hwidth h
  exact ⟨tokens, tokens', final, h, h', htokens⟩

/-- Two tabs, and an ideographic space between ordinary ones, before the end of a string with
another tab in it. -/
theorem tokenizeLine_blanks_of_same_width_resumed :
    let config : Config := { tabSize := 3 }
    let st : State := ⟨some (.string '\"'), .push ⟨.paren, 7, 3, .undecided⟩ (.ofBase 5), 9, false⟩
    let w : Text := "\t\t".toList
    let w' : Text := "  \u3000   ".toList
    let rest : Text := "a\t\" (\t[b".toList
    ∃ tokens tokens' final, st.tokenizeLine config (w ++ rest) = .ok (tokens, final) ∧
      st.tokenizeLine config (w' ++ rest) = .ok (tokens', final) ∧
      List.Forall₂ (Token.SameBehind w w') tokens tokens' := by
  intro config st w w' rest
  refine tokenizeLine_blanks_of_same_width ?_ (by decide) (by decide) (by decide +kernel)
    (Fault.ne_overflow_of_isOk (by decide +kernel))
  intro quote hquote
  obtain rfl : '\"' = quote := by simpa [st] using hquote
  exact .inl rfl

end State
end EditorMode
