import EditorMode.Proofs.OffsetCursor
import EditorMode.Proofs.Overflow

/-! # Whatever a host does with a cursor

A host holds a cursor and moves it as it likes: by one character, over a run of characters, to a
character or to the end of the line, over a string or a comment, and on to the next token.  A
`Movement` names one such operation, and `Cursor.run` performs any number of them in any order.

What a host can rely on in all of this is `Cursor.Sound`: the two offsets of the cursor are
boundaries of the line, the lexeme is the text between them, and the column carried along is the one
that counting the whole line up to the token gives.  The last part is the reason why a line is
measured once and not once per token.  It holds because the place of the token is all that the
column depends on (`Cursor.StandsAfter`), and because every movement either reads forward or starts
a token (`perform_eq`), so that one step keeps this and a run does by induction
(`StandsIn.run`).  A host that keeps the two offsets only, and cuts the line at them, is in the same
place after the same movements (`StandsIn.run_offsets`). -/

namespace EditorMode

/-- What a host can do with a cursor. -/
inductive Movement where
  | advance
  | eat (c : Char)
  | eatWhile (p : Char → Bool)
  | eatBlanks
  | skipTo (c : Char)
  | skipToEnd
  | startToken
  | scanString (quote : Char)
  | scanBlockComment

namespace Cursor

/-- The cursor after a movement.  One that finds nothing to read leaves the cursor where it is. -/
def perform (s : Cursor) : Movement → Except Fault Cursor
  | .advance => .ok ((s.advance?.map (·.2)).getD s)
  | .eat c => .ok ((s.eat? c).getD s)
  | .eatWhile p => .ok ((s.eatWhile? p).getD s)
  | .eatBlanks => .ok (s.eatBlanks?.getD s)
  | .skipTo c => .ok ((s.skipTo? c).getD s)
  | .skipToEnd => .ok s.skipToEnd
  | .startToken => s.startToken
  | .scanString quote => .ok (Construct.scanString quote s).2
  | .scanBlockComment => .ok (Construct.scanBlockComment s).2

/-- The cursor after movements in order. -/
def run (s : Cursor) (moves : List Movement) : Except Fault Cursor := moves.foldlM perform s

theorem run_cons (s : Cursor) (move : Movement) (moves : List Movement) :
    s.run (move :: moves) = s.perform move >>= fun t => t.run moves := by
  rw [run, List.foldlM_cons]
  rfl

end Cursor

namespace OffsetCursor

/-- A movement of the offsets.  What looks for something to read may fault. -/
def perform (s : OffsetCursor) : Movement → Except Fault OffsetCursor
  | .advance => (fun read => (read.map (·.2)).getD s) <$> s.advance?
  | .eat c => (·.getD s) <$> s.eat? c
  | .eatWhile p => (·.getD s) <$> s.eatWhile? p
  | .eatBlanks => (·.getD s) <$> s.eatBlanks?
  | .skipTo c => (·.getD s) <$> s.skipTo? c
  | .skipToEnd => .ok s.skipToEnd
  | .startToken => s.startToken
  | .scanString quote => Prod.snd <$> s.scanString quote false
  | .scanBlockComment => Prod.snd <$> s.scanBlockComment

/-- The offsets after movements in order. -/
def run (s : OffsetCursor) (moves : List Movement) : Except Fault OffsetCursor :=
  moves.foldlM perform s

theorem run_cons (s : OffsetCursor) (move : Movement) (moves : List Movement) :
    s.run (move :: moves) = s.perform move >>= fun t => t.run moves := by
  rw [run, List.foldlM_cons]
  rfl

end OffsetCursor

namespace Cursor

variable {line before : Text} {tabSize : Nat} {s t : Cursor}

/-! ## One movement -/

theorem exists_eatWhile?_eq_forward (p : Char → Bool) (s : Cursor) :
    ∃ n, (s.eatWhile? p).getD s = s.forward n := by
  rw [eatWhile?]
  split
  · exact ⟨_, rfl⟩
  · exact ⟨0, (forward_zero s).symm⟩

/-- **A movement starts a token, or it reads forward.** -/
theorem perform_eq (s : Cursor) (move : Movement) :
    s.perform move = s.startToken ∨ ∃ n, s.perform move = .ok (s.forward n) := by
  cases move with
  | startToken => exact .inl rfl
  | skipToEnd => exact .inr ⟨_, rfl⟩
  | advance =>
    right
    rw [perform, advance?]
    cases s.peek? with
    | none => exact ⟨0, congrArg Except.ok (forward_zero s).symm⟩
    | some c => exact ⟨1, rfl⟩
  | eat c =>
    right
    rw [perform, eat?]
    split
    · exact ⟨1, rfl⟩
    · exact ⟨0, congrArg Except.ok (forward_zero s).symm⟩
  | eatWhile p =>
    obtain ⟨n, hn⟩ := s.exists_eatWhile?_eq_forward p
    exact .inr ⟨n, congrArg Except.ok hn⟩
  | eatBlanks =>
    obtain ⟨n, hn⟩ := s.exists_eatWhile?_eq_forward Text.isBlank
    exact .inr ⟨n, congrArg Except.ok hn⟩
  | skipTo c =>
    right
    rw [perform, skipTo?]
    cases Text.cutBefore? c s.rest with
    | none => exact ⟨0, congrArg Except.ok (forward_zero s).symm⟩
    | some parts => exact ⟨_, rfl⟩
  | scanString quote =>
    obtain ⟨n, hn⟩ := (Construct.string quote).exists_scan_eq_forward s
    exact .inr ⟨n, congrArg Except.ok hn⟩
  | scanBlockComment =>
    obtain ⟨n, hn⟩ := Construct.blockComment.exists_scan_eq_forward s
    exact .inr ⟨n, congrArg Except.ok hn⟩

/-- Moving on the same line, a cursor never goes back. -/
theorem pos_le_of_perform {move : Movement} (h : s.perform move = .ok t) : s.pos ≤ t.pos := by
  rcases s.perform_eq move with hstart | ⟨n, hforward⟩
  · obtain ⟨column, -, rfl⟩ := startToken_eq_ok_iff.mp (hstart.symm.trans h)
    exact Nat.le_refl s.pos
  · obtain rfl := Except.ok.inj (hforward.symm.trans h)
    rw [pos_forward]
    omega

theorem onlyOverflows_perform (s : Cursor) (move : Movement) :
    Fault.OnlyOverflows (s.perform move) := by
  rcases s.perform_eq move with hstart | ⟨n, hforward⟩
  · rw [hstart]
    exact s.onlyOverflows_startToken
  · rw [hforward]
    exact Fault.onlyOverflows_ok _

/-! ## Any number of movements -/

theorem pos_le_of_run {moves : List Movement} (h : s.run moves = .ok t) : s.pos ≤ t.pos := by
  induction moves generalizing s with
  | nil =>
    obtain rfl := Except.ok.inj h
    exact Nat.le_refl s.pos
  | cons move moves ih =>
    rw [run_cons] at h
    obtain ⟨next, hnext, h⟩ := Fault.bind_eq_ok.mp h
    exact Nat.le_trans (pos_le_of_perform hnext) (ih h)

theorem onlyOverflows_run (s : Cursor) (moves : List Movement) :
    Fault.OnlyOverflows (s.run moves) := by
  induction moves generalizing s with
  | nil => exact Fault.onlyOverflows_ok s
  | cons move moves ih =>
    rw [run_cons]
    exact (s.onlyOverflows_perform move).bind ih

/-! ## Where the cursor stands -/

/-- The cursor stands somewhere in the line, and has counted the columns before its token with the
tab size. -/
def StandsIn (line : Text) (tabSize : Nat) (s : Cursor) : Prop :=
  s.line = line ∧ s.tabSize = Column.tabSize tabSize ∧ ∃ before, s.StandsAfter before

theorem standsIn_of_ofOffset {offset : Nat} (h : ofOffset line offset tabSize = .ok s) :
    s.StandsIn line tabSize := by
  obtain ⟨before, hstands, hline, -, -⟩ := exists_standsAfter_of_ofOffset h
  refine ⟨hline, ?_, before, hstands⟩
  rw [ofOffset] at h
  dsimp only at h
  split at h
  · cases h
  · obtain ⟨column, -, h⟩ := Fault.bind_eq_ok.mp h
    obtain rfl := Fault.pure_eq_ok.mp h
    rfl

/-- **One step.** -/
theorem StandsIn.perform {move : Movement} (h : s.StandsIn line tabSize)
    (ht : s.perform move = .ok t) : t.StandsIn line tabSize := by
  obtain ⟨hline, htab, before, hstands⟩ := h
  rcases s.perform_eq move with hstart | ⟨n, hforward⟩
  · have hstarted : s.startToken = .ok t := hstart.symm.trans ht
    have hnext := hstands.startToken hstarted
    obtain ⟨column, -, rfl⟩ := startToken_eq_ok_iff.mp hstarted
    exact ⟨hline, htab, _, hnext⟩
  · obtain rfl := Except.ok.inj (hforward.symm.trans ht)
    exact ⟨hline, htab, before, hstands.forward n⟩

/-- **The run**, by induction on the movements. -/
theorem StandsIn.run {moves : List Movement} (h : s.StandsIn line tabSize)
    (ht : s.run moves = .ok t) : t.StandsIn line tabSize := by
  induction moves generalizing s with
  | nil =>
    obtain rfl := Except.ok.inj ht
    exact h
  | cons move moves ih =>
    rw [run_cons] at ht
    obtain ⟨next, hnext, ht⟩ := Fault.bind_eq_ok.mp ht
    exact ih (h.perform hnext) ht

/-! ## Movements of the offsets -/

/-- **One step.** -/
theorem StandsAfter.perform_offsets (h : s.StandsAfter before) (move : Movement) :
    s.offsets.perform move = offsets <$> s.perform move := by
  cases move with
  | advance =>
    rw [OffsetCursor.perform, h.advance?_offsets, Cursor.perform]
    cases s.advance? <;> rfl
  | eat c =>
    rw [OffsetCursor.perform, h.eat?_offsets, Cursor.perform]
    cases s.eat? c <;> rfl
  | eatWhile p =>
    rw [OffsetCursor.perform, h.eatWhile?_offsets, Cursor.perform]
    cases s.eatWhile? p <;> rfl
  | eatBlanks =>
    rw [OffsetCursor.perform, OffsetCursor.eatBlanks?, h.eatWhile?_offsets, Cursor.perform,
      eatBlanks?]
    cases s.eatWhile? Text.isBlank <;> rfl
  | skipTo c =>
    rw [OffsetCursor.perform, h.skipTo?_offsets, Cursor.perform]
    cases s.skipTo? c <;> rfl
  | skipToEnd => exact congrArg Except.ok h.skipToEnd_offsets
  | startToken => exact h.startToken_offsets
  | scanString quote =>
    rw [OffsetCursor.perform, h.scanString_offsets]
    rfl
  | scanBlockComment =>
    rw [OffsetCursor.perform, h.scanBlockComment_offsets]
    rfl

/-- **The run**, by induction on the movements. -/
theorem StandsIn.run_offsets (h : s.StandsIn line tabSize) (moves : List Movement) :
    s.offsets.run moves = offsets <$> s.run moves := by
  induction moves generalizing s with
  | nil => rfl
  | cons move moves ih =>
    obtain ⟨hline, htab, before, hstands⟩ := h
    rw [OffsetCursor.run_cons, run_cons, hstands.perform_offsets]
    cases hstep : s.perform move with
    | error fault => rfl
    | ok t => exact ih (StandsIn.perform ⟨hline, htab, before, hstands⟩ hstep)

/-! ## What a host can rely on -/

/-- What a host can rely on about a cursor in a line. -/
structure Sound (line : Text) (tabSize : Nat) (s : Cursor) : Prop where
  line_eq : s.line = line
  start_le_pos : s.start ≤ s.pos
  pos_le : s.pos ≤ Text.byteLength line
  isSome_cutAt?_start : (Text.cutAt? s.start line).isSome
  /-- The rest is what stands in the line from the reading position on, -/
  standsAt : ∃ read, s.StandsAt read
  /-- and the lexeme is what stands between the token's start and this position. -/
  slice?_eq : Text.slice? s.start s.pos line = some s.lexeme
  /-- The column is that of counting the line up to the token anew, -/
  column_eq : ∃ before after, Text.cutAt? s.start line = some (before, after) ∧
    Column.count before tabSize = .ok s.column
  /-- and that of a cursor opened where the token starts, which has the lexeme still to read. -/
  reopened : ofOffset line s.start tabSize = .ok { s with lexeme := [], rest := s.lexeme ++ s.rest }
  /-- Starting a token is opening a cursor at the reading position, and overflows if that does. -/
  startToken_eq : s.startToken = ofOffset line s.pos tabSize
  /-- The indentation is that of the line, wherever the cursor stands. -/
  indentation_eq : s.indentation = Column.count (Text.leadingBlank line) tabSize
  /-- The offsets are all that has to be kept: to cut the line at them gives the cursor back, -/
  parts_offsets : s.offsets.parts = .ok s
  /-- and the end of the line and its indentation are found from them. -/
  atLineEnd_offsets : s.offsets.atLineEnd = s.atLineEnd
  indentation_offsets : s.offsets.indentation = s.indentation

/-- A cursor that stands in the line is one that a host can rely on. -/
theorem StandsIn.sound (h : s.StandsIn line tabSize) : s.Sound line tabSize := by
  obtain ⟨rfl, htab, before, hstands⟩ := h
  have hread : s.line = (before ++ s.lexeme) ++ s.rest := by
    rw [hstands.line_eq, List.append_assoc]
  have hcut : Text.cutAt? s.start s.line = some (before, s.lexeme ++ s.rest) := by
    rw [hstands.start_eq, hstands.line_eq, Text.cutAt?_byteLength]
  have hcount : Column.count before tabSize = .ok s.column := by
    rw [Column.count, ← htab]
    exact hstands.column_eq
  have htabPos : 0 < s.tabSize := by
    rw [htab]
    exact Column.tabSize_pos tabSize
  refine ⟨rfl, ?_, ?_, ?_, ⟨_, hstands.standsAt⟩, ?_, ⟨before, _, hcut, hcount⟩, ?_, ?_, ?_,
    hstands.parts_offsets, hstands.atLineEnd_offsets, indentation_offsets htabPos⟩
  · rw [pos]
    omega
  · rw [hstands.pos_eq, hread, Text.byteLength_append (before ++ s.lexeme)]
    omega
  · rw [hcut]
    rfl
  · rw [pos, hstands.start_eq, hstands.line_eq, Text.slice?_append]
  · rw [ofOffset_of_cutAt? hcut, ← htab, hstands.column_eq]
    rfl
  · exact (hstands.ofOffset_pos htab).symm
  · rw [indentation, htab]
    rfl

/-- **What a host can rely on, whatever it does.**  Open a cursor in any line at an offset that is a
boundary once it is clamped to the line, and move it in any way.

* Nothing but an overflow of a column can end this.
* It is opened at that boundary.  Wherever the movements lead, the cursor is sound, and its reading
  position is not before the one where it was opened and not behind any to which it moves on.
* A host that keeps the offsets only, and adds to them what it reads, comes to the same offsets, and
  overflows if the cursor does.

A tab size of zero acts as one. -/
theorem sound_of_run {offset : Nat}
    (hboundary : (Text.cutAt? (min offset (Text.byteLength line)) line).isSome)
    (tabSize : Nat) (moves : List Movement) :
    Fault.OnlyOverflows (ofOffset line offset tabSize >>= fun s => s.run moves) ∧
    (∀ opened s, ofOffset line offset tabSize = .ok opened → opened.run moves = .ok s →
      opened.pos = min offset (Text.byteLength line) ∧ opened.pos ≤ s.pos ∧ s.Sound line tabSize ∧
      ∀ later t, s.run later = .ok t → s.pos ≤ t.pos ∧ t.indentation = s.indentation) ∧
    (OffsetCursor.ofOffset line offset tabSize >>= fun s => s.run moves) =
      offsets <$> (ofOffset line offset tabSize >>= fun s => s.run moves) ∧
    ofOffset line offset 0 = ofOffset line offset 1 := by
  refine ⟨?_, fun opened s hopened hs => ?_, ?_, rfl⟩
  · exact (onlyOverflows_ofOffset hboundary tabSize).bind fun s => s.onlyOverflows_run moves
  · have hstands : s.StandsIn line tabSize := (standsIn_of_ofOffset hopened).run hs
    obtain ⟨before, -, -, hlexeme, hstart⟩ := exists_standsAfter_of_ofOffset hopened
    have hpos : opened.pos = min offset (Text.byteLength line) := by
      rw [pos, hlexeme, hstart, Text.byteLength_nil, Nat.add_zero]
    refine ⟨hpos, pos_le_of_run hs, hstands.sound, fun later t ht => ⟨pos_le_of_run ht, ?_⟩⟩
    rw [(hstands.run ht).sound.indentation_eq, hstands.sound.indentation_eq]
  · rw [offsets_ofOffset]
    cases hopened : ofOffset line offset tabSize with
    | error fault => rfl
    | ok opened => exact (standsIn_of_ofOffset hopened).run_offsets moves

/-- From behind a tab, with no `é` to eat or to skip to, into a comment, where a token starts at the
star, over the rest of the comment and on to the next token.  This one starts behind twelve bytes
and, because of the tab and the arrow, at column thirteen. -/
theorem sound_of_run_comment :
    let line : Text := "\tx /* → */ y".toList
    let moves : List Movement := [.eat 'é', .skipTo '→', .skipTo '*', .startToken,
      .scanBlockComment, .skipTo 'é', .startToken, .eatBlanks]
    (Text.cutAt? (min 1 (Text.byteLength line)) line).isSome ∧
      ∃ opened s, ofOffset line 1 4 = .ok opened ∧ opened.run moves = .ok s ∧
        opened.pos = 1 ∧ s.start = 12 ∧ s.pos = 13 ∧ s.column = 13 ∧ s.Sound line 4 ∧
        (OffsetCursor.ofOffset line 1 4 >>= fun opened => opened.run moves) = .ok s.offsets := by
  intro line moves
  have hboundary : (Text.cutAt? (min 1 (Text.byteLength line)) line).isSome := by decide
  obtain ⟨s, hrun, hstart, hpos, hcolumn⟩ := Fault.exists_eq_ok_of_any
    (x := ofOffset line 1 4 >>= fun opened => opened.run moves)
    (p := fun s => s.start = 12 ∧ s.pos = 13 ∧ s.column = 13) (by decide +kernel)
  obtain ⟨opened, hopened, hs⟩ := Fault.bind_eq_ok.mp hrun
  obtain ⟨-, hsound, hoffsets, -⟩ := sound_of_run hboundary 4 moves
  obtain ⟨hbegin, -, hsound, -⟩ := hsound opened s hopened hs
  rw [hrun] at hoffsets
  exact ⟨hboundary, opened, s, hopened, hs, hbegin, hstart, hpos, hcolumn, hsound, hoffsets⟩

end Cursor
end EditorMode
