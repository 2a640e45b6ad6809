import EditorMode.Category
import EditorMode.Cursor

/-! # Constructs that span lines

A string and a block comment may run past the end of a line.  An unfinished **construct** is a
value that the state carries to the next line, where reading goes on.  Nothing but the construct
itself survives the line break: neither the backslash nor the star at a line's end has an effect on
the next line. -/

namespace EditorMode

/-- A construct that may be left unfinished at the end of a line. -/
inductive Construct where
  /-- A quoted literal, which only its own quote closes. -/
  | string (quote : Char)
  /-- A comment between `/*` and `*/`. -/
  | blockComment
  deriving DecidableEq, Repr

namespace Construct

/-- Whether the closing delimiter was read. -/
inductive Outcome where
  | closed
  | unfinished
  deriving DecidableEq, Repr

/-- The category of all that belongs to a construct. -/
def category : Construct → Category
  | string _ => .string
  | blockComment => .comment

/-! ## Strings -/

/-- Number of characters up to and including the first quote that is not escaped, `count` having
been read before.  A backslash escapes the next character only. -/
def closingQuote? (quote : Char) (escaped : Bool) (count : Nat) : Text → Option Nat
  | [] => none
  | c :: t =>
    if c = quote ∧ ¬ escaped then some (count + 1)
    else closingQuote? quote (!escaped && c == '\\') (count + 1) t

theorem lt_of_closingQuote? {quote : Char} {escaped : Bool} {count n : Nat} {t : Text}
    (h : closingQuote? quote escaped count t = some n) : count < n := by
  induction t generalizing escaped count with
  | nil => simp [closingQuote?] at h
  | cons c t ih =>
    unfold closingQuote? at h
    split at h
    · have := Option.some.inj h
      omega
    · have := ih h
      omega

/-- Reads a string's content up to and including its closing quote, or to the end of the line. -/
def scanString (quote : Char) (s : Cursor) : Outcome × Cursor :=
  match closingQuote? quote false 0 s.rest with
  | some n => (.closed, s.forward n)
  | none => (.unfinished, s.skipToEnd)

theorem length_rest_scanString_lt (quote : Char) {s : Cursor} (h : s.rest ≠ []) :
    (scanString quote s).2.rest.length < s.rest.length := by
  have hpos : 0 < s.rest.length := List.length_pos_iff.mpr h
  unfold scanString
  split
  · rename_i n hn
    have := lt_of_closingQuote? hn
    simp
    omega
  · simpa

/-! ## Block comments -/

/-- Number of characters up to and including the first star followed by a slash, `count` having
been read before.  The search goes from one star to the next. -/
def closingStar? (count : Nat) (t : Text) : Option Nat :=
  match _found : Text.cutBefore? '*' t with
  | none => none
  | some (before, star) =>
    if star.tail.head? = some '/' then some (count + before.length + 2)
    else closingStar? (count + before.length + 1) star.tail
termination_by t.length
decreasing_by
  obtain ⟨hab, hne⟩ := Text.cutBefore?_eq_some _found
  have hpos := List.length_pos_iff.mpr hne
  rw [← hab, List.length_append, List.length_tail]
  omega

theorem lt_of_closingStar? {count n : Nat} {t : Text} (h : closingStar? count t = some n) :
    count < n := by
  fun_induction closingStar? count t with
  | case1 count t hnone => simp at h
  | case2 count t before star hfound hslash =>
    have := Option.some.inj h
    omega
  | case3 count t before star hfound hslash ih =>
    have := ih h
    omega

/-- Reads a comment's content up to and including its closing `*/`, or to the end of the line. -/
def scanBlockComment (s : Cursor) : Outcome × Cursor :=
  match closingStar? 0 s.rest with
  | some n => (.closed, s.forward n)
  | none => (.unfinished, s.skipToEnd)

theorem length_rest_scanBlockComment_lt {s : Cursor} (h : s.rest ≠ []) :
    (scanBlockComment s).2.rest.length < s.rest.length := by
  have hpos : 0 < s.rest.length := List.length_pos_iff.mpr h
  unfold scanBlockComment
  split
  · rename_i n hn
    have := lt_of_closingStar? hn
    simp
    omega
  · simpa

/-! ## Either -/

/-- Goes on reading an unfinished construct. -/
def scan : Construct → Cursor → Outcome × Cursor
  | string quote, s => scanString quote s
  | blockComment, s => scanBlockComment s

/-- Unless the line is at its end, scanning reads something. -/
theorem length_rest_scan_lt (k : Construct) {s : Cursor} (h : s.rest ≠ []) :
    (k.scan s).2.rest.length < s.rest.length := by
  cases k with
  | string quote => exact length_rest_scanString_lt quote h
  | blockComment => exact length_rest_scanBlockComment_lt h

theorem length_rest_scan_le (k : Construct) (s : Cursor) :
    (k.scan s).2.rest.length ≤ s.rest.length := by
  cases k with
  | string quote =>
    rw [scan, scanString]
    split <;> simp
  | blockComment =>
    rw [scan, scanBlockComment]
    split <;> simp

end Construct
end EditorMode
