import EditorMode.Token

/-! # Where a cursor stands

Of the text before the current token a cursor keeps only two numbers: how many bytes it takes and
which column it reaches.  A cursor **stands after** a text if the line is that text, the lexeme and
the rest, and both numbers are those of the text.  Opening a line establishes this, reading forward
keeps it, and starting a token moves the lexeme to the text before (`StandsAfter.startToken`).

Since the column that is carried along is the column of the whole text before the token, a cursor
opened at the reading position is the cursor whose next token is started there: the two fail
together and are otherwise equal (`ofOffset_pos`). -/

namespace EditorMode

/-- What stands before a text that is not empty ends before the whole does. -/
theorem Text.byteLength_lt_append (before : Text) {rest : Text} (h : rest ≠ []) :
    byteLength before < byteLength (before ++ rest) := by
  have hlength : byteLength rest ≠ 0 := fun hzero => h (byteLength_eq_zero.mp hzero)
  rw [byteLength_append]
  omega

/-- A place where a text can be cut is not behind its end. -/
theorem Text.min_of_cutAt? {offset : Nat} {t before rest : Text}
    (h : cutAt? offset t = some (before, rest)) : min offset (byteLength t) = offset := by
  obtain ⟨rfl, rfl⟩ := cutAt?_eq_some h
  rw [byteLength_append]
  omega

/-- Reading any token moves the cursor forward, and moves it in no other way. -/
theorem Construct.exists_scan_eq_forward (k : Construct) (s : Cursor) :
    ∃ n, (k.scan s).2 = s.forward n := by
  cases k with
  | string quote =>
    rw [Construct.scan, Construct.scanString]
    split
    · exact ⟨_, rfl⟩
    · exact ⟨_, rfl⟩
  | blockComment =>
    rw [Construct.scan, Construct.scanBlockComment]
    split
    · exact ⟨_, rfl⟩
    · exact ⟨_, rfl⟩

namespace Cursor

/-- The cursor's token begins right behind `before` in its line. -/
structure StandsAfter (before : Text) (s : Cursor) : Prop where
  line_eq : s.line = before ++ (s.lexeme ++ s.rest)
  start_eq : s.start = Text.byteLength before
  column_eq : Column.advance s.tabSize 0 before = .ok s.column

theorem standsAfter_ofLine (line : Text) (tabSize : Nat) :
    (ofLine line tabSize).StandsAfter [] where
  line_eq := rfl
  start_eq := rfl
  column_eq := rfl

/-- The cursor stands at a boundary of its line: behind `read`, and before its rest. -/
def StandsAt (read : Text) (s : Cursor) : Prop := Text.cutAt? s.pos s.line = some (read, s.rest)

section Movement

variable {before : Text} {s t : Cursor}

/-- The reading position is the byte length of all that has been read of the line. -/
theorem StandsAfter.pos_eq (h : s.StandsAfter before) :
    s.pos = Text.byteLength (before ++ s.lexeme) := by
  rw [pos, h.start_eq, Text.byteLength_append]

theorem StandsAfter.standsAt (h : s.StandsAfter before) : s.StandsAt (before ++ s.lexeme) := by
  rw [StandsAt, h.pos_eq, h.line_eq, ← List.append_assoc, Text.cutAt?_byteLength]

/-- The reading position is at the end of the line exactly if nothing is left to read. -/
theorem StandsAfter.pos_lt_iff (h : s.StandsAfter before) :
    s.pos < Text.byteLength s.line ↔ s.rest ≠ [] := by
  have hlen : Text.byteLength s.line = s.pos + Text.byteLength s.rest := by
    rw [h.pos_eq, h.line_eq, ← List.append_assoc, Text.byteLength_append]
  rw [hlen, ne_eq, ← Text.byteLength_eq_zero]
  omega

/-- Reading forward keeps the place of the token. -/
theorem StandsAfter.forward (h : s.StandsAfter before) (n : Nat) :
    (s.forward n).StandsAfter before := by
  refine ⟨?_, h.start_eq, h.column_eq⟩
  rw [lexeme_append_rest_forward]
  exact h.line_eq

/-- Starting a token is counting on over the finished lexeme. -/
theorem startToken_eq_ok_iff : s.startToken = .ok t ↔
    ∃ column, Column.advance s.tabSize s.column s.lexeme = .ok column ∧
      t = { s with start := s.pos, column, lexeme := [] } := by
  constructor
  · intro h
    obtain ⟨column, hcolumn, h⟩ := Fault.bind_eq_ok.mp h
    exact ⟨column, hcolumn, (Fault.pure_eq_ok.mp h).symm⟩
  · rintro ⟨column, hcolumn, rfl⟩
    rw [startToken, hcolumn]
    rfl

/-- Starting a token moves the lexeme to the text before. -/
theorem StandsAfter.startToken (h : s.StandsAfter before) (hs : s.startToken = .ok t) :
    t.StandsAfter (before ++ s.lexeme) := by
  obtain ⟨column, hcolumn, rfl⟩ := startToken_eq_ok_iff.mp hs
  refine ⟨?_, h.pos_eq, ?_⟩
  · show s.line = before ++ s.lexeme ++ ([] ++ s.rest)
    rw [h.line_eq, List.nil_append, List.append_assoc]
  · show Column.advance s.tabSize 0 (before ++ s.lexeme) = .ok column
    rw [Column.advance_append, h.column_eq]
    exact hcolumn

/-- **Counting on agrees with counting anew.**  A cursor opened at the reading position of another
is that one with its next token started, and overflows exactly if starting the token does. -/
theorem StandsAfter.ofOffset_pos (h : s.StandsAfter before) {tabSize : Nat}
    (htab : s.tabSize = Column.tabSize tabSize) :
    ofOffset s.line s.pos tabSize = s.startToken := by
  have hline : s.line = (before ++ s.lexeme) ++ s.rest := by
    rw [h.line_eq, List.append_assoc]
  have hcut : Text.cutAt? s.pos s.line = some (before ++ s.lexeme, s.rest) := by
    rw [hline, h.pos_eq, Text.cutAt?_byteLength]
  -- counting in two parts is counting at once, in its faults too
  have hcount : Column.advance s.tabSize 0 (before ++ s.lexeme) =
      Column.advance s.tabSize s.column s.lexeme := by
    rw [Column.advance_append, h.column_eq]
    rfl
  simp only [ofOffset, Text.min_of_cutAt? hcut, hcut, ← htab, hcount, Cursor.startToken]

end Movement

/-- Opening a cursor at an offset where the line can be cut is counting the column of what stands
before. -/
theorem ofOffset_of_cutAt? {line before rest : Text} {offset : Nat}
    (h : Text.cutAt? offset line = some (before, rest)) (tabSize : Nat) :
    ofOffset line offset tabSize = (do
      let column ← Column.advance (Column.tabSize tabSize) 0 before
      return { line, tabSize := Column.tabSize tabSize, start := offset, column, lexeme := [],
               rest }) := by
  simp only [ofOffset, Text.min_of_cutAt? h, h]

/-- A cursor opened at an offset begins a token there. -/
theorem exists_standsAfter_of_ofOffset {line : Text} {offset tabSize : Nat} {s : Cursor}
    (h : ofOffset line offset tabSize = .ok s) :
    ∃ before, s.StandsAfter before ∧ s.line = line ∧ s.lexeme = [] ∧
      s.start = min offset (Text.byteLength line) := by
  rw [ofOffset] at h
  dsimp only at h
  split at h
  · cases h
  · rename_i before rest hcut
    obtain ⟨column, hcolumn, h⟩ := Fault.bind_eq_ok.mp h
    obtain rfl := Fault.pure_eq_ok.mp h
    obtain ⟨hline, hlength⟩ := Text.cutAt?_eq_some hcut
    exact ⟨before, ⟨hline.symm, hlength.symm, hcolumn⟩, rfl, rfl, rfl⟩

/-! ## Reading a token reads forward -/

theorem exists_readWord_eq_forward (extraAtoms : WordSet) (s : Cursor) :
    ∃ n, (s.readWord extraAtoms).cursor = s.forward n :=
  ⟨_, rfl⟩

theorem forward_zero (s : Cursor) : s.forward 0 = s := by
  simp [forward]

theorem forward_forward (m n : Nat) (s : Cursor) :
    (s.forward m).forward n = s.forward (m + n) := by
  simp only [forward, List.append_assoc, List.drop_drop, List.take_add]

theorem exists_readAfterSlash_eq_forward (extraAtoms : WordSet) (s : Cursor) :
    ∃ n, (s.readAfterSlash extraAtoms).cursor = s.forward n := by
  rw [readAfterSlash]
  split
  · rename_i inside h
    obtain ⟨-, rfl⟩ := eat?_eq_some h
    obtain ⟨n, hn⟩ := Construct.exists_scan_eq_forward .blockComment (s.forward 1)
    rw [Construct.cursor_read, hn, forward_forward]
    exact ⟨_, rfl⟩
  · split
    · rename_i inside h
      obtain ⟨-, rfl⟩ := eat?_eq_some h
      exact ⟨_, forward_forward 1 _ s⟩
    · exact exists_readWord_eq_forward extraAtoms s

theorem exists_readFresh_eq_forward (extraAtoms : WordSet) (s : Cursor) :
    ∃ n, (s.readFresh extraAtoms).cursor = s.forward n := by
  rw [readFresh]
  split
  · refine ⟨0, ?_⟩
    simp [forward]
  · rename_i c behind h
    obtain ⟨-, rfl⟩ := advance?_eq_some h
    -- whatever is read behind the first character is read forward from there
    have onward : ∀ r : Reading, (∃ n, r.cursor = (s.forward 1).forward n) →
        ∃ n, r.cursor = s.forward n := by
      rintro r ⟨n, hn⟩
      exact ⟨1 + n, by rw [hn, forward_forward]⟩
    apply onward
    split
    · rw [Construct.cursor_read]
      exact Construct.exists_scan_eq_forward _ _
    · split
      · exact ⟨0, by simp [forward]⟩
      · split
        · exact ⟨_, rfl⟩
        · split
          · exact exists_readAfterSlash_eq_forward extraAtoms _
          · exact exists_readWord_eq_forward extraAtoms _

theorem exists_read_eq_forward (extraAtoms : WordSet) (pending : Option Construct) (s : Cursor) :
    ∃ n, (s.read extraAtoms pending).cursor = s.forward n := by
  unfold read
  split
  · rw [Construct.cursor_read]
    exact Construct.exists_scan_eq_forward _ s
  · split
    · rename_i behind h
      unfold eatBlanks? eatWhile? at h
      split at h
      · exact ⟨_, (Option.some.inj h).symm⟩
      · cases h
    · exact exists_readFresh_eq_forward extraAtoms s

end Cursor

/-! ## Progress -/

/-- The second cursor is the first one after at least one more character has been read. -/
def Cursor.MovesOnTo (s next : Cursor) : Prop :=
  ∃ read, read ≠ [] ∧ s.rest = read ++ next.rest ∧
    next = { s with lexeme := s.lexeme ++ read, rest := next.rest }

theorem Cursor.MovesOnTo.pos_lt {s next : Cursor} (h : s.MovesOnTo next) : s.pos < next.pos := by
  obtain ⟨read, hread, -, hnext⟩ := h
  have hlength : Text.byteLength read ≠ 0 := fun h => hread (Text.byteLength_eq_zero.mp h)
  rw [hnext]
  show s.start + Text.byteLength s.lexeme < s.start + Text.byteLength (s.lexeme ++ read)
  rw [Text.byteLength_append]
  omega

/-- Moving on keeps the place of the token. -/
theorem Cursor.StandsAfter.movesOnTo {before : Text} {s next : Cursor} (h : s.StandsAfter before)
    (hmoves : s.MovesOnTo next) : next.StandsAfter before := by
  obtain ⟨read, -, hrest, hnext⟩ := hmoves
  have hline : s.line = before ++ (s.lexeme ++ read ++ next.rest) := by
    rw [h.line_eq, hrest, List.append_assoc]
  rw [hnext]
  exact ⟨hline, h.start_eq, h.column_eq⟩

/-- **A token read before the end of the line moves the cursor on**, and changes nothing else about
it. -/
theorem State.movesOnTo_of_token {config : Config} {s next : Cursor} {st st' : State} {c : Category}
    (hne : s.rest ≠ []) (h : st.token config s = .ok (c, next, st')) : s.MovesOnTo next := by
  obtain ⟨n, hn⟩ := s.exists_read_eq_forward config.extraAtoms st.pending
  have hnext : next = s.forward n := (State.cursor_of_token hne h).trans hn
  have hlt := State.length_rest_token_lt hne h
  subst hnext
  refine ⟨s.rest.take n, ?_, (List.take_append_drop n s.rest).symm, rfl⟩
  intro hnil
  rcases List.take_eq_nil_iff.mp hnil with rfl | hrest
  · exact absurd hlt (Nat.lt_irrefl _)
  · exact hne hrest

end EditorMode
