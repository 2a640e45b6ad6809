import EditorMode.Document

/-! # Folding

A line can be folded if its last opening brace is closed by a matching brace on a later line.  Only
braces that are tokens of their own count: those inside strings and comments do not. -/

namespace EditorMode

/-- A place in a document: a line, counted from zero, and a byte offset in it. -/
structure Position where
  line : Nat
  offset : Nat
  deriving DecidableEq, Repr

/-- What a fold hides: all from behind its opening brace to right before its closing brace. -/
structure Fold where
  start : Position
  stop : Position
  deriving DecidableEq, Repr

/-- The two braces. -/
inductive Brace where
  | opening
  | closing
  deriving DecidableEq, Repr

/-- The brace that a token is. -/
def Token.brace? (t : Token) : Option Brace :=
  if t.category = .punctuation then
    if t.text = ['{'] then some .opening
    else if t.text = ['}'] then some .closing
    else none
  else
    none

namespace Document

/-- A brace of a document: the line it stands on, its token, and which brace it is. -/
structure BraceMark where
  line : Nat
  token : Token
  brace : Brace
  deriving DecidableEq, Repr

/-- The braces among the tokens of a line. -/
def bracesOf (line : Nat) (tokens : List Token) : List BraceMark :=
  tokens.filterMap fun token => token.brace?.map fun brace => { line, token, brace }

/-- The braces of consecutive lines, the first of which has the number `line`. -/
def bracesFrom (line : Nat) : List Line → List BraceMark
  | [] => []
  | first :: others => bracesOf line first.tokens ++ bracesFrom (line + 1) others

/-- The first closing brace that closes more than has been opened, inside `depth` braces that are
open already. -/
def matching? (depth : Nat) : List BraceMark → Option BraceMark
  | [] => none
  | mark :: marks =>
    match mark.brace, depth with
    | .opening, _ => matching? (depth + 1) marks
    | .closing, 0 => some mark
    | .closing, depth + 1 => matching? depth marks

@[simp] theorem matching?_nil (depth : Nat) : matching? depth [] = none := rfl

theorem matching?_opening {depth : Nat} {mark : BraceMark} {marks : List BraceMark}
    (h : mark.brace = .opening) :
    matching? depth (mark :: marks) = matching? (depth + 1) marks := by
  simp [matching?, h]

theorem matching?_closing_zero {mark : BraceMark} {marks : List BraceMark}
    (h : mark.brace = .closing) : matching? 0 (mark :: marks) = some mark := by
  simp [matching?, h]

theorem matching?_closing_succ {depth : Nat} {mark : BraceMark} {marks : List BraceMark}
    (h : mark.brace = .closing) :
    matching? (depth + 1) (mark :: marks) = matching? depth marks := by
  simp [matching?, h]

/-- The last opening brace among some braces, and the braces behind it. -/
def lastOpening? : List BraceMark → Option (BraceMark × List BraceMark)
  | [] => none
  | mark :: marks =>
    match lastOpening? marks with
    | some found => some found
    | none => if mark.brace = .opening then some (mark, marks) else none

/-- What stands behind the last opening brace holds no other. -/
theorem lastOpening?_eq_some {marks after : List BraceMark} {mark : BraceMark}
    (h : lastOpening? marks = some (mark, after)) :
    mark.brace = .opening ∧ (∃ before, marks = before ++ mark :: after) ∧
      ∀ other ∈ after, other.brace = .closing := by
  have hnone : ∀ marks : List BraceMark, lastOpening? marks = none →
      ∀ other ∈ marks, other.brace = .closing := by
    intro marks
    induction marks with
    | nil => simp
    | cons first marks ih =>
      intro h
      unfold lastOpening? at h
      split at h
      · simp at h
      · rename_i hmarks
        split at h
        · simp at h
        · rename_i hfirst
          intro other hother
          rcases List.mem_cons.mp hother with rfl | hother
          · cases hb : other.brace with
            | opening => exact absurd hb hfirst
            | closing => rfl
          · exact ih hmarks other hother
  induction marks with
  | nil => simp [lastOpening?] at h
  | cons first marks ih =>
    unfold lastOpening? at h
    split at h
    · rename_i found hfound
      obtain rfl := Option.some.inj h
      obtain ⟨hmark, ⟨before, rfl⟩, hafter⟩ := ih hfound
      exact ⟨hmark, ⟨first :: before, rfl⟩, hafter⟩
    · rename_i hmarks
      split at h
      · rename_i hfirst
        obtain ⟨rfl, rfl⟩ := Prod.mk.inj (Option.some.inj h)
        exact ⟨hfirst, ⟨[], rfl⟩, hnone _ hmarks⟩
      · simp at h

/-- The fold that starts on line `i`. -/
def foldAt? (i : Nat) (doc : Document) : Option Fold := do
  let line ← doc.lines[i]?
  let (opening, marks) ← lastOpening? (bracesOf i line.tokens)
  let closing ← matching? 0 (marks ++ bracesFrom (i + 1) (doc.lines.drop (i + 1)))
  if closing.line = i then none
  else some ⟨⟨i, opening.token.stop⟩, ⟨closing.line, closing.token.start⟩⟩

end Document
end EditorMode
