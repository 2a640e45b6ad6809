import EditorMode.OffsetCursor
import EditorMode.Proofs.Scanning

/-! # Offsets instead of parts

Of a cursor its host keeps the two offsets, and not what they divide the line into.  As long as the
cursor stands in its line (`Cursor.StandsAfter`), the offsets are boundaries, no cut faults, and
every operation on the offsets gives the offsets of what the same operation on the cursor gives.
For the operations that loop, this is an induction on the rest of the line, or on the rounds of the
loop. -/

namespace EditorMode

/-! ## One round of a loop -/

namespace OffsetCursor

variable {p : Char → Bool} {quote c : Char} {escaped : Bool} {s t : OffsetCursor}

theorem eatWhile_of_peek?_none (h : s.peek? = .ok none) : s.eatWhile p = .ok s := by
  rw [eatWhile]
  split
  · cases h.symm.trans ‹_›
  · rfl
  · cases h.symm.trans ‹_›

theorem eatWhile_of_peek? (h : s.peek? = .ok (some c)) :
    s.eatWhile p = if p c then (s.moveBy c.utf8Size).eatWhile p else .ok s := by
  rw [eatWhile]
  split
  · cases h.symm.trans ‹_›
  · cases h.symm.trans ‹_›
  · rename_i d hd
    obtain rfl := Option.some.inj (Except.ok.inj (h.symm.trans hd))
    rfl

theorem scanString_of_advance?_none (h : s.advance? = .ok none) :
    s.scanString quote escaped = .ok (.unfinished, s) := by
  rw [scanString]
  split
  · cases h.symm.trans ‹_›
  · rfl
  · cases h.symm.trans ‹_›

theorem scanString_of_advance? (h : s.advance? = .ok (some (c, t))) :
    s.scanString quote escaped =
      if c = quote ∧ ¬ escaped then .ok (.closed, t)
      else t.scanString quote (!escaped && c == '\\') := by
  rw [scanString]
  split
  · cases h.symm.trans ‹_›
  · cases h.symm.trans ‹_›
  · rename_i d behind hd
    obtain ⟨rfl, rfl⟩ := Prod.mk.inj (Option.some.inj (Except.ok.inj (h.symm.trans hd)))
    rfl

theorem scanBlockComment_of_skipTo?_none (h : s.skipTo? '*' = .ok none) :
    s.scanBlockComment = .ok (.unfinished, s.skipToEnd) := by
  rw [scanBlockComment]
  split
  · cases h.symm.trans ‹_›
  · rfl
  · cases h.symm.trans ‹_›

/-- A round of a comment's loop that finds a star. -/
theorem scanBlockComment_of_skipTo? {star : OffsetCursor} {closed? : Option OffsetCursor}
    (hstar : s.skipTo? '*' = .ok (some star)) (hbehind : star.advance? = .ok (some (c, t)))
    (hclosed : t.eat? '/' = .ok closed?) :
    s.scanBlockComment =
      closed?.elim t.scanBlockComment fun closed => .ok (.closed, closed) := by
  rw [scanBlockComment]
  split
  · cases hstar.symm.trans ‹_›
  · cases hstar.symm.trans ‹_›
  · rename_i found hfound
    obtain rfl := Option.some.inj (Except.ok.inj (hstar.symm.trans hfound))
    split
    · cases hbehind.symm.trans ‹_›
    · rename_i advanced hadvanced
      obtain rfl := Except.ok.inj (hbehind.symm.trans hadvanced)
      simp only [Option.map_some, Option.getD_some, hclosed]
      cases closed? <;> rfl

end OffsetCursor

namespace Cursor

open OffsetCursor (cut)

theorem cut_byteLength (a b : Text) : cut (Text.byteLength a) (a ++ b) = .ok (a, b) := by
  rw [cut, Text.cutAt?_byteLength]

/-- Opening a line at an offset faults on both sides or on neither. -/
theorem offsets_ofOffset (line : Text) (offset tabSize : Nat) :
    OffsetCursor.ofOffset line offset tabSize = offsets <$> ofOffset line offset tabSize := by
  unfold OffsetCursor.ofOffset ofOffset cut
  dsimp only
  cases Text.cutAt? (min offset (Text.byteLength line)) line with
  | none => rfl
  | some parts =>
    obtain ⟨before, rest⟩ := parts
    show (Column.advance (Column.tabSize tabSize) 0 before >>= _) =
      offsets <$> (Column.advance (Column.tabSize tabSize) 0 before >>= _)
    cases Column.advance (Column.tabSize tabSize) 0 before with
    | error fault => rfl
    | ok column => rfl

/-- Reading forward adds the bytes of what is read. -/
theorem offsets_forward (n : Nat) (s : Cursor) :
    (s.forward n).offsets = s.offsets.moveBy (Text.byteLength (s.rest.take n)) := by
  rw [offsets, pos_forward]
  rfl

theorem offsets_forward_one {s : Cursor} {c : Char} (h : s.peek? = some c) :
    (s.forward 1).offsets = s.offsets.moveBy c.utf8Size := by
  obtain ⟨t, hrest⟩ := List.head?_eq_some_iff.mp h
  rw [offsets_forward, hrest]
  rfl

section Standing

variable {before : Text} {s : Cursor}

/-! ## Looking -/

theorem StandsAfter.rest_offsets (h : s.StandsAfter before) : s.offsets.rest = .ok s.rest := by
  have hcut : cut s.pos s.line = .ok (before ++ s.lexeme, s.rest) := by
    rw [h.pos_eq, h.line_eq, ← List.append_assoc, cut_byteLength]
  show cut s.pos s.line >>= _ = _
  rw [hcut]
  rfl

theorem StandsAfter.lexeme_offsets (h : s.StandsAfter before) :
    s.offsets.lexeme = .ok s.lexeme := by
  have hslice : Text.slice? s.offsets.start s.offsets.pos s.offsets.line = some s.lexeme := by
    show Text.slice? s.start s.pos s.line = some s.lexeme
    rw [pos, h.start_eq, h.line_eq, Text.slice?_append]
  rw [OffsetCursor.lexeme, hslice]

/-- The cursor is divided as its offsets say. -/
theorem StandsAfter.parts_offsets (h : s.StandsAfter before) : s.offsets.parts = .ok s := by
  rw [OffsetCursor.parts, h.lexeme_offsets, h.rest_offsets]
  rfl

theorem StandsAfter.atLineEnd_offsets (h : s.StandsAfter before) :
    s.offsets.atLineEnd = s.atLineEnd := by
  rw [Bool.eq_iff_iff, atLineEnd, List.isEmpty_iff]
  show decide (Text.byteLength s.line ≤ s.pos) = true ↔ _
  rw [decide_eq_true_iff, ← Nat.not_lt, h.pos_lt_iff, ne_eq, Decidable.not_not]

theorem StandsAfter.peek?_offsets (h : s.StandsAfter before) : s.offsets.peek? = .ok s.peek? := by
  rw [OffsetCursor.peek?, h.rest_offsets]
  rfl

/-- The blanks at the beginning of the line are what is left if the other bytes are taken away. -/
theorem indentation_offsets (htab : 0 < s.tabSize) : s.offsets.indentation = s.indentation := by
  have hline : Text.leadingBlank s.line ++ Text.trimStart s.line = s.line :=
    Text.leadingBlank_append_trimStart s.line
  have hbytes : Text.byteLength s.line - Text.byteLength (Text.trimStart s.line) =
      Text.byteLength (Text.leadingBlank s.line) := by
    have hlength := congrArg Text.byteLength hline
    rw [Text.byteLength_append] at hlength
    omega
  have hcut : cut (Text.byteLength (Text.leadingBlank s.line)) s.line =
      .ok (Text.leadingBlank s.line, Text.trimStart s.line) := by
    have hparts := cut_byteLength (Text.leadingBlank s.line) (Text.trimStart s.line)
    rwa [hline] at hparts
  have htabSize : Column.tabSize s.tabSize = s.tabSize := by
    rw [Column.tabSize]
    omega
  show cut (Text.byteLength s.line - Text.byteLength (Text.trimStart s.line)) s.line >>= _ = _
  rw [hbytes, hcut]
  show Column.count (Text.leadingBlank s.line) s.tabSize = _
  rw [Column.count, htabSize, indentation]

/-! ## Moving -/

theorem StandsAfter.startToken_offsets (h : s.StandsAfter before) :
    s.offsets.startToken = offsets <$> s.startToken := by
  rw [OffsetCursor.startToken, h.lexeme_offsets, Cursor.startToken]
  show Column.advance s.tabSize s.column s.lexeme >>= _ =
    offsets <$> (Column.advance s.tabSize s.column s.lexeme >>= _)
  cases Column.advance s.tabSize s.column s.lexeme with
  | error fault => rfl
  | ok column => rfl

theorem StandsAfter.advance?_offsets (h : s.StandsAfter before) :
    s.offsets.advance? = .ok (s.advance?.map fun read => (read.1, read.2.offsets)) := by
  rw [OffsetCursor.advance?, h.peek?_offsets, advance?]
  cases hpeek : s.peek? with
  | none => rfl
  | some c =>
    rw [Option.map_some, Option.map_some, offsets_forward_one hpeek]
    rfl

theorem StandsAfter.eat?_offsets (h : s.StandsAfter before) (c : Char) :
    s.offsets.eat? c = .ok ((s.eat? c).map offsets) := by
  rw [OffsetCursor.eat?, h.peek?_offsets, eat?]
  by_cases hpeek : s.peek? = some c
  · rw [if_pos hpeek, Option.map_some, offsets_forward_one hpeek]
    exact congrArg Except.ok (if_pos hpeek)
  · rw [if_neg hpeek]
    exact congrArg Except.ok (if_neg hpeek)

theorem StandsAfter.skipTo?_offsets (h : s.StandsAfter before) (c : Char) :
    s.offsets.skipTo? c = .ok ((s.skipTo? c).map offsets) := by
  rw [OffsetCursor.skipTo?, h.rest_offsets, skipTo?]
  show Except.ok ((Text.offsetOf? c s.rest).map fun offset => s.offsets.moveBy offset) = _
  rw [Text.offsetOf?_eq_scanOffset?]
  by_cases hc : c ∈ s.rest
  · obtain ⟨a, b, hrest, ha⟩ := List.eq_append_cons_of_mem hc
    rw [hrest, Text.scanOffset?_append ha, Text.cutBefore?_append ha, Option.map_some,
      Option.map_some, Option.map_some, offsets_forward, hrest, List.take_left]
  · rw [Text.scanOffset?_eq_none_iff.mpr hc, Text.cutBefore?_of_notMem hc]
    rfl

theorem StandsAfter.skipToEnd_offsets (h : s.StandsAfter before) :
    s.offsets.skipToEnd = s.skipToEnd.offsets := by
  rw [offsets, offsets, h.standsAt.pos_skipToEnd]
  rfl

/-! ## Looping -/

/-- Reading on, by induction on what is left. -/
theorem StandsAfter.eatWhile_offsets (h : s.StandsAfter before) (p : Char → Bool) :
    s.offsets.eatWhile p = .ok (s.eatWhile p).offsets := by
  generalize hrest : s.rest = t
  induction t generalizing s with
  | nil =>
    have hpeek : s.peek? = none := by rw [peek?, hrest, List.head?_nil]
    have hstays : s.eatWhile p = s := by
      rw [eatWhile, hrest, List.takeWhile_nil]
      exact forward_zero s
    rw [OffsetCursor.eatWhile_of_peek?_none (h.peek?_offsets.trans (congrArg _ hpeek)), hstays]
  | cons c t ih =>
    have hpeek : s.peek? = some c := by rw [peek?, hrest, List.head?_cons]
    rw [OffsetCursor.eatWhile_of_peek? (h.peek?_offsets.trans (congrArg _ hpeek))]
    by_cases hc : p c
    · have hbehind : (s.forward 1).rest = t := by
        rw [rest_forward, hrest]
        rfl
      have hread : (s.forward 1).eatWhile p = s.eatWhile p := by
        rw [eatWhile, eatWhile, hbehind, hrest, List.takeWhile_cons_of_pos hc, forward_forward,
          List.length_cons, Nat.add_comm]
      rw [if_pos hc, ← offsets_forward_one hpeek, ih (h.forward 1) hbehind, hread]
    · have hstays : s.eatWhile p = s := by
        rw [eatWhile, hrest, List.takeWhile_cons_of_neg hc]
        exact forward_zero s
      rw [if_neg hc, hstays]

/-- The reading position is further on exactly if something has been read. -/
theorem pos_lt_eatWhile_iff (p : Char → Bool) (s : Cursor) :
    s.pos < (s.eatWhile p).pos ↔ s.peek?.any p := by
  rw [eatWhile, pos_forward, peek?]
  cases s.rest with
  | nil => simp
  | cons c t =>
    by_cases hc : p c
    · have := c.utf8Size_pos
      rw [List.takeWhile_cons_of_pos hc, List.length_cons, List.take_succ_cons,
        Text.byteLength_cons]
      simp only [List.head?_cons, Option.any_some, hc, iff_true]
      omega
    · rw [List.takeWhile_cons_of_neg hc]
      simp [hc]

theorem StandsAfter.eatWhile?_offsets (h : s.StandsAfter before) (p : Char → Bool) :
    s.offsets.eatWhile? p = .ok ((s.eatWhile? p).map offsets) := by
  rw [OffsetCursor.eatWhile?, h.eatWhile_offsets, eatWhile?]
  by_cases hread : s.peek?.any p
  · rw [if_pos hread]
    exact congrArg Except.ok (if_pos ((pos_lt_eatWhile_iff p s).mpr hread))
  · rw [if_neg hread]
    exact congrArg Except.ok (if_neg (mt (pos_lt_eatWhile_iff p s).mp hread))

open Construct (Rounds stringRound commentRound)

/-- A string, by induction on the rounds of its loop. -/
theorem StandsAfter.scanString_offsets_of_rounds {quote : Char} {escaped : Bool} {n : Nat}
    {r : Construct.Outcome × Cursor} (h : s.StandsAfter before)
    (hrounds : Rounds (stringRound quote) n (escaped, s) r) :
    s.offsets.scanString quote escaped = .ok (r.1, r.2.offsets) := by
  generalize hbegin : (escaped, s) = begun at hrounds
  induction hrounds generalizing s escaped with
  | @last begun r hlast =>
    subst hbegin
    have hadvance := h.advance?_offsets
    rw [stringRound] at hlast
    split at hlast
    · rename_i hnone
      obtain rfl := Sum.inl.inj hlast
      rw [hnone] at hadvance
      exact OffsetCursor.scanString_of_advance?_none hadvance
    · rename_i c behind hsome
      rw [hsome] at hadvance
      split at hlast
      · rename_i hcloses
        obtain rfl := Sum.inl.inj hlast
        rw [OffsetCursor.scanString_of_advance? hadvance, if_pos hcloses]
      · cases hlast
  | @next begun further r n hnext others ih =>
    subst hbegin
    have hadvance := h.advance?_offsets
    rw [stringRound] at hnext
    split at hnext
    · cases hnext
    · rename_i c behind hsome
      rw [hsome] at hadvance
      split at hnext
      · cases hnext
      · rename_i hcloses
        obtain rfl := Sum.inr.inj hnext
        obtain ⟨-, rfl⟩ := advance?_eq_some hsome
        rw [OffsetCursor.scanString_of_advance? hadvance, if_neg hcloses]
        exact ih (h.forward 1) rfl

theorem StandsAfter.scanString_offsets (h : s.StandsAfter before) (quote : Char) :
    s.offsets.scanString quote false =
      .ok ((Construct.scanString quote s).1, (Construct.scanString quote s).2.offsets) := by
  obtain ⟨n, -, hrounds⟩ := Construct.rounds_scanString quote s
  exact h.scanString_offsets_of_rounds hrounds

/-- At a star that has been skipped to, the star is read. -/
theorem advance?_of_skipTo? {c : Char} {star : Cursor} (h : s.skipTo? c = some star) :
    ∃ d, star.advance? = some (d, star.forward 1) := by
  obtain ⟨-, -, -, hne⟩ := skipTo?_eq_some h
  obtain ⟨d, t, hrest⟩ := List.exists_cons_of_ne_nil hne
  refine ⟨d, ?_⟩
  rw [advance?, peek?, hrest]
  rfl

theorem StandsAfter.skipTo? {c : Char} {t : Cursor} (h : s.StandsAfter before)
    (ht : s.skipTo? c = some t) : t.StandsAfter before := by
  obtain ⟨skipped, -, rfl, -⟩ := skipTo?_eq_some ht
  exact h.forward skipped.length

/-- A round that finds a star, in the loop over cursors, -/
theorem commentRound_of_skipTo? {star : Cursor} (hstar : s.skipTo? '*' = some star) :
    commentRound s =
      ((star.forward 1).eat? '/').elim (.inr (star.forward 1)) fun closed =>
        .inl (.closed, closed) := by
  obtain ⟨d, hadvance⟩ := advance?_of_skipTo? hstar
  rw [commentRound, hstar]
  simp only [hadvance, Option.map_some, Option.getD_some]
  cases (star.forward 1).eat? '/' <;> rfl

/-- and in the loop over offsets. -/
theorem StandsAfter.scanBlockComment_offsets_of_skipTo? {star : Cursor} (h : s.StandsAfter before)
    (hstar : s.skipTo? '*' = some star) :
    s.offsets.scanBlockComment =
      ((star.forward 1).eat? '/').elim (star.forward 1).offsets.scanBlockComment fun closed =>
        .ok (.closed, closed.offsets) := by
  obtain ⟨d, hadvance⟩ := advance?_of_skipTo? hstar
  have hstands := h.skipTo? hstar
  have hskip := h.skipTo?_offsets '*'
  have hread := hstands.advance?_offsets
  rw [hstar] at hskip
  rw [hadvance] at hread
  rw [OffsetCursor.scanBlockComment_of_skipTo? hskip hread ((hstands.forward 1).eat?_offsets '/')]
  cases (star.forward 1).eat? '/' <;> rfl

/-- A comment, by induction on the rounds of its loop. -/
theorem StandsAfter.scanBlockComment_offsets_of_rounds {n : Nat}
    {r : Construct.Outcome × Cursor} (h : s.StandsAfter before)
    (hrounds : Rounds commentRound n s r) :
    s.offsets.scanBlockComment = .ok (r.1, r.2.offsets) := by
  induction hrounds with
  | @last s r hlast =>
    cases hstar : s.skipTo? '*' with
    | none =>
      have hskip := h.skipTo?_offsets '*'
      rw [hstar] at hskip
      rw [commentRound, hstar] at hlast
      obtain rfl := Sum.inl.inj hlast
      rw [OffsetCursor.scanBlockComment_of_skipTo?_none hskip, h.skipToEnd_offsets]
    | some star =>
      rw [commentRound_of_skipTo? hstar] at hlast
      rw [h.scanBlockComment_offsets_of_skipTo? hstar]
      cases heat : (star.forward 1).eat? '/' with
      | none =>
        rw [heat] at hlast
        cases hlast
      | some closed =>
        rw [heat] at hlast
        obtain rfl := Sum.inl.inj hlast
        rfl
  | @next s t r n hnext others ih =>
    cases hstar : s.skipTo? '*' with
    | none =>
      rw [commentRound, hstar] at hnext
      cases hnext
    | some star =>
      rw [commentRound_of_skipTo? hstar] at hnext
      rw [h.scanBlockComment_offsets_of_skipTo? hstar]
      cases heat : (star.forward 1).eat? '/' with
      | none =>
        rw [heat] at hnext
        obtain rfl := Sum.inr.inj hnext
        exact ih ((h.skipTo? hstar).forward 1)
      | some closed =>
        rw [heat] at hnext
        cases hnext

theorem StandsAfter.scanBlockComment_offsets (h : s.StandsAfter before) :
    s.offsets.scanBlockComment =
      .ok ((Construct.scanBlockComment s).1, (Construct.scanBlockComment s).2.offsets) := by
  obtain ⟨n, -, hrounds⟩ := Construct.rounds_scanBlockComment s
  exact h.scanBlockComment_offsets_of_rounds hrounds

end Standing
end Cursor
end EditorMode
