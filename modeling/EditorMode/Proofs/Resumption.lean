import Mathlib.Algebra.GroupWithZero.Nat
import EditorMode.Proofs.Construct
import EditorMode.Proofs.Position

/-! # Reading on at the next line

A construct that a line leaves unfinished is read on from the beginning of the next line, and
nothing is carried over but the construct: neither the escape flag of a string nor the star of a
comment.
Nothing needs to be.  A line feed stands between two lines of a text, and it is neither a backslash
nor a star nor, in a string with a quote of another kind, the quote: no delimiter reaches across it,
and what is escaped behind it does not depend on what stands before it
(`closes_append_lineFeed`).

So reading line by line finds the end of a construct where a single search through all the lines,
joined by line feeds, finds it: `closingPlace?_eq_some_iff` places it, and `scan_joinLines` says the
same of `Construct.scan`. -/

namespace EditorMode

/-! ## Joined lines -/

namespace Text

/-- The lines in one text, with a line feed between each of them and the next. -/
def joinLines (lines : List Text) : Text := ['\n'].intercalate lines

/-- The byte offset in the joined lines of the offset `p` in line `j`. -/
def joinedOffset (lines : List Text) (j p : Nat) : Nat :=
  ((lines.take j).map fun line => byteLength line + 1).sum + p

theorem joinLines_cons (line : Text) {lines : List Text} (h : lines ≠ []) :
    joinLines (line :: lines) = line ++ '\n' :: joinLines lines := by
  obtain ⟨next, lines, rfl⟩ := List.exists_cons_of_ne_nil h
  simp [joinLines, List.intercalate]

@[simp] theorem joinedOffset_zero (lines : List Text) (p : Nat) : joinedOffset lines 0 p = p := by
  simp [joinedOffset]

theorem joinedOffset_succ (line : Text) (lines : List Text) (j p : Nat) :
    joinedOffset (line :: lines) (j + 1) p = byteLength line + 1 + joinedOffset lines j p := by
  simp only [joinedOffset, List.take_succ_cons, List.map_cons, List.sum_cons]
  omega

/-- Different places in lines are different places in the joined lines. -/
theorem joinedOffset_inj {lines : List Text} {i j p q : Nat} {line line' : Text}
    (hi : lines[i]? = some line) (hp : p ≤ byteLength line) (hj : lines[j]? = some line')
    (hq : q ≤ byteLength line') (h : joinedOffset lines i p = joinedOffset lines j q) :
    i = j ∧ p = q := by
  induction lines generalizing i j with
  | nil => cases hi
  | cons first lines ih =>
    cases i with
    | zero =>
      obtain rfl := Option.some.inj hi
      cases j with
      | zero =>
        rw [joinedOffset_zero, joinedOffset_zero] at h
        exact ⟨rfl, h⟩
      | succ j =>
        rw [joinedOffset_zero, joinedOffset_succ] at h
        omega
    | succ i =>
      cases j with
      | zero =>
        obtain rfl := Option.some.inj hj
        rw [joinedOffset_zero, joinedOffset_succ] at h
        omega
      | succ j =>
        rw [joinedOffset_succ, joinedOffset_succ] at h
        obtain ⟨rfl, rfl⟩ := ih hi hj (by omega)
        exact ⟨rfl, rfl⟩

/-- The backslashes at the end of a text all stand behind its last line feed. -/
theorem trailingBackslashes_append_lineFeed (a b : Text) :
    trailingBackslashes (a ++ '\n' :: b) = trailingBackslashes b := by
  have hreverse : (a ++ '\n' :: b).reverse = b.reverse ++ '\n' :: a.reverse := by simp
  rw [trailingBackslashes, hreverse, List.takeWhile_append]
  split
  · rename_i hall
    simp [trailingBackslashes, hall]
  · rfl

end Text

namespace Construct

variable {k : Construct}

/-! ## Delimiters and line feeds -/

/-- **No delimiter reaches across a line feed**, and none depends on what stands before one. -/
theorem closes_append_lineFeed (hk : k ≠ .string '\n') (a v : Text) :
    k.Closes (a ++ '\n' :: v) ↔ k.Closes v := by
  cases k with
  | string quote =>
    have hquote : '\n' ≠ quote := fun heq => hk (by rw [heq])
    rcases List.eq_nil_or_concat v with rfl | ⟨body, c, rfl⟩
    · refine ⟨fun h => ?_, fun h => absurd h (not_closes_nil _)⟩
      exact absurd (closes_string_concat.mp h).1 hquote
    · have hsplit : a ++ '\n' :: (body ++ [c]) = (a ++ '\n' :: body) ++ [c] := by simp
      rw [List.concat_eq_append, hsplit, closes_string_concat, closes_string_concat,
        Text.trailingBackslashes_append_lineFeed]
  | blockComment =>
    induction a with
    | nil =>
      rw [List.nil_append, closes_comment_cons]
      exact or_iff_right fun h => absurd h.1 (by decide)
    | cons c a ih =>
      rw [List.cons_append, closes_comment_cons, ih]
      refine or_iff_right fun h => ?_
      -- a text with a line feed in it is not the slash alone
      have hmem : '\n' ∈ ['/'] := h.2 ▸ List.mem_append_right a List.mem_cons_self
      exact absurd hmem (by decide)

/-- The beginnings of a text with a line feed in it. -/
theorem prefix_append_lineFeed {v a t : Text} (h : v <+: a ++ '\n' :: t) :
    v <+: a ∨ ∃ u, u <+: t ∧ v = a ++ '\n' :: u := by
  rcases List.prefix_or_prefix_of_prefix h (List.prefix_append a ('\n' :: t)) with hv | ⟨u, rfl⟩
  · exact .inl hv
  · rcases List.prefix_cons_iff.mp ((List.prefix_append_right_inj a).mp h) with rfl | ⟨w, rfl, hw⟩
    · exact .inl (by simp)
    · exact .inr ⟨w, hw, rfl⟩

theorem StaysOpen.append_lineFeed (hk : k ≠ .string '\n') {a t : Text} (ha : k.StaysOpen a)
    (ht : k.StaysOpen t) : k.StaysOpen (a ++ '\n' :: t) := by
  intro v hv hcloses
  rcases prefix_append_lineFeed hv with hv | ⟨u, hu, rfl⟩
  · exact ha v hv hcloses
  · exact ht u hu ((closes_append_lineFeed hk a u).mp hcloses)

theorem RunsThrough.append_lineFeed (hk : k ≠ .string '\n') {a w : Text} (ha : k.StaysOpen a)
    (hw : k.RunsThrough w) : k.RunsThrough (a ++ '\n' :: w) := by
  refine ⟨(closes_append_lineFeed hk a w).mpr hw.1, fun v hv hcloses => ?_⟩
  rcases prefix_append_lineFeed hv with hv | ⟨u, hu, rfl⟩
  · exact absurd hcloses (ha v hv)
  · rw [hw.2 u hu ((closes_append_lineFeed hk a u).mp hcloses)]

/-! ## Where a construct closes -/

/-- The byte offset behind the delimiter that closes the construct, if a text is read from its
beginning. -/
def closingOffset? (k : Construct) (tabSize : Nat) (t : Text) : Option Nat :=
  match k.scan (Cursor.ofLine t tabSize) with
  | (.closed, behind) => some behind.pos
  | (.unfinished, _) => none

/-- The line in which the construct closes, and the offset behind its delimiter there, if the first
line is read from its beginning and, as long as the construct stays unfinished, the next line from
its own. -/
def closingPlace? (k : Construct) (tabSize : Nat) : List Text → Option (Nat × Nat)
  | [] => none
  | line :: lines =>
    match k.closingOffset? tabSize line with
    | some p => some (0, p)
    | none => (closingPlace? k tabSize lines).map fun place => (place.1 + 1, place.2)

variable {tabSize : Nat}

theorem closingOffset?_of_runsThrough {w rest : Text} (hw : k.RunsThrough w) :
    k.closingOffset? tabSize (w ++ rest) = some (Text.byteLength w) := by
  have hscan : k.scan (Cursor.ofLine (w ++ rest) tabSize) =
      (.closed, (Cursor.ofLine (w ++ rest) tabSize).forward w.length) :=
    scan_of_runsThrough rfl hw
  have hpos : ((Cursor.ofLine (w ++ rest) tabSize).forward w.length).pos = Text.byteLength w := by
    simp [Cursor.pos, Cursor.ofLine, Cursor.forward]
  simp only [closingOffset?, hscan, hpos]

theorem closingOffset?_of_staysOpen {t : Text} (ht : k.StaysOpen t) :
    k.closingOffset? tabSize t = none := by
  have hscan : k.scan (Cursor.ofLine t tabSize) =
      (.unfinished, (Cursor.ofLine t tabSize).skipToEnd) := scan_of_staysOpen ht
  simp only [closingOffset?, hscan]

/-- Either the construct runs through a beginning of the text, or it stays open. -/
theorem runsThrough_or_staysOpen (k : Construct) (t : Text) :
    (∃ w rest, t = w ++ rest ∧ k.RunsThrough w) ∨ k.StaysOpen t := by
  rcases k.scan_spec (Cursor.ofLine t 0) with ⟨w, rest, ht, hw, -⟩ | ⟨ht, -⟩
  · exact .inl ⟨w, rest, ht, hw⟩
  · exact .inr ht

theorem closingOffset?_le {t : Text} {p : Nat} (h : k.closingOffset? tabSize t = some p) :
    p ≤ Text.byteLength t := by
  rcases k.runsThrough_or_staysOpen t with ⟨w, rest, rfl, hw⟩ | ht
  · rw [closingOffset?_of_runsThrough hw] at h
    obtain rfl := Option.some.inj h
    rw [Text.byteLength_append]
    omega
  · rw [closingOffset?_of_staysOpen ht] at h
    cases h

/-- **One line feed.**  A construct closes before it, or where it closes in what stands behind
it. -/
theorem closingOffset?_append_lineFeed (hk : k ≠ .string '\n') (a t : Text) :
    k.closingOffset? tabSize (a ++ '\n' :: t) =
      (k.closingOffset? tabSize a).or
        ((k.closingOffset? tabSize t).map (Text.byteLength a + 1 + ·)) := by
  rcases k.runsThrough_or_staysOpen a with ⟨w, rest, rfl, hw⟩ | ha
  · rw [closingOffset?_of_runsThrough hw, List.append_assoc, closingOffset?_of_runsThrough hw]
    rfl
  · rw [closingOffset?_of_staysOpen ha, Option.none_or]
    rcases k.runsThrough_or_staysOpen t with ⟨w, rest, rfl, hw⟩ | ht
    · have hjoined : a ++ '\n' :: (w ++ rest) = (a ++ '\n' :: w) ++ rest := by simp
      have hlength : Text.byteLength (a ++ '\n' :: w) =
          Text.byteLength a + 1 + Text.byteLength w := by
        rw [Text.byteLength_append, Text.byteLength_cons, Nat.add_assoc]
        rfl
      rw [hjoined, closingOffset?_of_runsThrough (hw.append_lineFeed hk ha),
        closingOffset?_of_runsThrough hw, hlength]
      rfl
    · rw [closingOffset?_of_staysOpen (ha.append_lineFeed hk ht), closingOffset?_of_staysOpen ht]
      rfl

/-- **All lines**, by induction on them. -/
theorem closingOffset?_joinLines (hk : k ≠ .string '\n') (lines : List Text) :
    k.closingOffset? tabSize (Text.joinLines lines) =
      (k.closingPlace? tabSize lines).map fun place => Text.joinedOffset lines place.1 place.2 := by
  induction lines with
  | nil => exact closingOffset?_of_staysOpen (staysOpen_nil k)
  | cons line lines ih =>
    have hjoined : k.closingOffset? tabSize (Text.joinLines (line :: lines)) =
        (k.closingOffset? tabSize line).or
          ((k.closingOffset? tabSize (Text.joinLines lines)).map
            (Text.byteLength line + 1 + ·)) := by
      by_cases hne : lines = []
      · -- behind the last line there is no line feed, and nothing to find
        subst hne
        rw [ih]
        simp [Text.joinLines, List.intercalate, closingPlace?]
      · rw [Text.joinLines_cons line hne, closingOffset?_append_lineFeed hk]
    rw [hjoined, ih, closingPlace?]
    cases k.closingOffset? tabSize line with
    | some p => simp
    | none =>
      cases k.closingPlace? tabSize lines with
      | none => rfl
      | some place => simp [Text.joinedOffset_succ]

/-- A place where a construct closes is a place in the lines. -/
theorem exists_line_of_closingPlace? {lines : List Text} {j p : Nat}
    (h : k.closingPlace? tabSize lines = some (j, p)) :
    ∃ line, lines[j]? = some line ∧ p ≤ Text.byteLength line := by
  induction lines generalizing j with
  | nil => cases h
  | cons line lines ih =>
    rw [closingPlace?] at h
    split at h
    · rename_i q hq
      obtain ⟨rfl, rfl⟩ := Prod.mk.inj (Option.some.inj h)
      exact ⟨line, rfl, closingOffset?_le hq⟩
    · obtain ⟨⟨i, q⟩, hplace, heq⟩ := Option.map_eq_some_iff.mp h
      obtain ⟨rfl, rfl⟩ := Prod.mk.inj heq
      exact ih hplace

/-- **The place in the lines is the place in the joined lines.** -/
theorem closingPlace?_eq_some_iff (hk : k ≠ .string '\n') {lines : List Text} {j p : Nat} :
    k.closingPlace? tabSize lines = some (j, p) ↔
      ∃ line, lines[j]? = some line ∧ p ≤ Text.byteLength line ∧
        k.closingOffset? tabSize (Text.joinLines lines) = some (Text.joinedOffset lines j p) := by
  rw [closingOffset?_joinLines hk]
  constructor
  · intro h
    obtain ⟨line, hline, hp⟩ := exists_line_of_closingPlace? h
    exact ⟨line, hline, hp, by rw [h, Option.map_some]⟩
  · rintro ⟨line, hline, hp, h⟩
    obtain ⟨⟨i, q⟩, hplace, hoffset⟩ := Option.map_eq_some_iff.mp h
    obtain ⟨line', hline', hq⟩ := exists_line_of_closingPlace? hplace
    obtain ⟨rfl, rfl⟩ := Text.joinedOffset_inj hline' hq hline hp hoffset
    exact hplace

theorem closingPlace?_eq_none_iff {lines : List Text} :
    k.closingPlace? tabSize lines = none ↔
      ∀ line ∈ lines, k.closingOffset? tabSize line = none := by
  induction lines with
  | nil => simp [closingPlace?]
  | cons line lines ih =>
    rw [closingPlace?, List.forall_mem_cons, ← ih]
    cases k.closingOffset? tabSize line with
    | some p => simp
    | none => simp

/-! ## Scanning -/

theorem closingOffset?_eq_some_iff {t : Text} {p : Nat} :
    k.closingOffset? tabSize t = some p ↔
      ∃ behind, k.scan (Cursor.ofLine t tabSize) = (.closed, behind) ∧ behind.pos = p := by
  rw [closingOffset?]
  split
  · rename_i behind hscan
    simp [hscan]
  · rename_i behind hscan
    simp [hscan]

theorem closingOffset?_eq_none_iff {t : Text} :
    k.closingOffset? tabSize t = none ↔
      (k.scan (Cursor.ofLine t tabSize)).1 = .unfinished := by
  rw [closingOffset?]
  split
  · rename_i behind hscan
    simp [hscan]
  · rename_i behind hscan
    simp [hscan]

/-- **Reading line by line is reading the joined lines.**  Let a construct be unfinished before some
lines; a string may have any quote but a line feed.

* If each line is read from its beginning until the construct closes, it closes in line `j` at
  offset `p` exactly if a single scan of the lines, joined by line feeds, closes it at the place of
  this offset in the joined text.
* Every line leaves it unfinished exactly if the single scan does.

So a backslash or a star at the end of a line has an effect on the line feed and on nothing behind
it.  The lines are any texts, with line feeds of their own or without. -/
theorem scan_joinLines (hk : k ≠ .string '\n') (tabSize : Nat) (lines : List Text) :
    (∀ j p, k.closingPlace? tabSize lines = some (j, p) ↔
      ∃ line behind, lines[j]? = some line ∧ p ≤ Text.byteLength line ∧
        k.scan (Cursor.ofLine (Text.joinLines lines) tabSize) = (.closed, behind) ∧
        behind.pos = Text.joinedOffset lines j p) ∧
    ((∀ line ∈ lines, (k.scan (Cursor.ofLine line tabSize)).1 = .unfinished) ↔
      (k.scan (Cursor.ofLine (Text.joinLines lines) tabSize)).1 = .unfinished) := by
  constructor
  · intro j p
    rw [closingPlace?_eq_some_iff hk]
    constructor
    · rintro ⟨line, hline, hp, h⟩
      obtain ⟨behind, hscan, hpos⟩ := closingOffset?_eq_some_iff.mp h
      exact ⟨line, behind, hline, hp, hscan, hpos⟩
    · rintro ⟨line, behind, hline, hp, hscan, hpos⟩
      exact ⟨line, hline, hp, closingOffset?_eq_some_iff.mpr ⟨behind, hscan, hpos⟩⟩
  · rw [← closingOffset?_eq_none_iff, closingOffset?_joinLines hk, Option.map_eq_none_iff,
      closingPlace?_eq_none_iff]
    simp only [closingOffset?_eq_none_iff]

/-- A string over four lines: a backslash at the end of the first, nothing on the second, an escaped
quote and an escaped backslash on the third.  And a comment in which a star at the end of a line
stands before a slash. -/
theorem scan_joinLines_escapes :
    let quoted : List Text := ["a\\".toList, [], "\\\"é\\\\".toList, "\"x".toList]
    let comment : List Text := ["**".toList, "/ *".toList, "/".toList]
    (Construct.string '\"').closingPlace? 4 quoted = some (3, 1) ∧
    (∃ behind, (Construct.string '\"').scan (Cursor.ofLine (Text.joinLines quoted) 4) =
      (.closed, behind) ∧ behind.pos = 12) ∧
    (blockComment.scan (Cursor.ofLine (Text.joinLines comment) 4)).1 = .unfinished := by
  intro quoted comment
  have hplace : (Construct.string '\"').closingPlace? 4 quoted = some (3, 1) := by decide
  have hopen : ∀ line ∈ comment, (blockComment.scan (Cursor.ofLine line 4)).1 = .unfinished := by
    decide +kernel
  obtain ⟨line, behind, -, -, hscan, hpos⟩ :=
    ((scan_joinLines (k := .string '\"') (by decide) 4 quoted).1 3 1).mp hplace
  exact ⟨hplace, ⟨behind, hscan, hpos⟩,
    (scan_joinLines (k := .blockComment) nofun 4 comment).2.mp hopen⟩

end Construct
end EditorMode
