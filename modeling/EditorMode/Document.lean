import EditorMode.Indent
import EditorMode.Text.Lines

/-! # Documents

A **document** is a text whose lines have been read in order, each from the state at the end of the
line before.  It keeps the state at the end of every line, so that after an edit reading can start
again at the edited line. -/

namespace EditorMode

namespace Document

/-- One line of a document. -/
structure Line where
  text : Text
  tokens : List Token
  /-- The state at the end of the line. -/
  state : State
  deriving DecidableEq, Repr

end Document

/-- A highlighted text. -/
structure Document where
  startState : State
  lines : List Document.Line
  deriving DecidableEq, Repr

namespace Document

/-- Reads lines in order, each from the state at the end of the one before. -/
def readLines (config : Config) (st : State) : List Text → Except Fault (List Line)
  | [] => .ok []
  | text :: texts => do
    let (tokens, state) ← st.tokenizeLine config text
    let lines ← readLines config state texts
    return { text, tokens, state } :: lines

/-- Highlights a text from the start state of a document at the left margin. -/
def highlight (config : Config) (text : Text) : Except Fault Document := do
  let startState := State.start 0
  let lines ← readLines config startState (Text.lines text)
  return { startState, lines }

/-- Reading a line and the ones behind it. -/
theorem readLines_cons_eq_ok_iff {config : Config} {st : State} {text : Text} {texts : List Text}
    {lines : List Line} :
    readLines config st (text :: texts) = .ok lines ↔
      ∃ tokens state others, st.tokenizeLine config text = .ok (tokens, state) ∧
        readLines config state texts = .ok others ∧ lines = ⟨text, tokens, state⟩ :: others := by
  constructor
  · intro h
    obtain ⟨⟨tokens, state⟩, hline, h⟩ := Fault.bind_eq_ok.mp h
    obtain ⟨others, hothers, h⟩ := Fault.bind_eq_ok.mp h
    exact ⟨tokens, state, others, hline, hothers, (Fault.pure_eq_ok.mp h).symm⟩
  · rintro ⟨tokens, state, others, hline, hothers, rfl⟩
    rw [readLines, hline]
    simp only [bind, Except.bind, hothers]
    rfl

/-- The document has the lines that were read. -/
theorem map_text_readLines {config : Config} {st : State} {texts : List Text} {lines : List Line}
    (h : readLines config st texts = .ok lines) : lines.map (·.text) = texts := by
  induction texts generalizing st lines with
  | nil =>
    obtain rfl := Except.ok.inj h
    rfl
  | cons text texts ih =>
    obtain ⟨tokens, state, others, -, hothers, rfl⟩ := readLines_cons_eq_ok_iff.mp h
    simp [ih hothers]

/-- The state before a line: the state from which to read on after an edit on that line.  It is
defined for every line, and for the place behind the last one. -/
def stateBefore? (doc : Document) : Nat → Option State
  | 0 => some doc.startState
  | i + 1 => doc.lines[i]?.map (·.state)

/-- There is a state before every line and before the place behind the last line. -/
theorem isSome_stateBefore? {doc : Document} {i : Nat} :
    (doc.stateBefore? i).isSome ↔ i ≤ doc.lines.length := by
  cases i with
  | zero => simp [stateBefore?]
  | succ i =>
    have hsome : (doc.stateBefore? (i + 1)).isSome ↔ i < doc.lines.length := by
      simp [stateBefore?]
    exact hsome

/-- The tokens of a line are those that are read from the state before it. -/
theorem tokenizeLine_of_readLines {config : Config} {st before : State} {texts : List Text}
    {lines : List Line} {line : Line} {j : Nat} (h : readLines config st texts = .ok lines)
    (hbefore : stateBefore? ⟨st, lines⟩ j = some before) (hline : lines[j]? = some line) :
    before.tokenizeLine config line.text = .ok (line.tokens, line.state) := by
  induction texts generalizing st lines j with
  | nil =>
    obtain rfl := Except.ok.inj h
    cases hline
  | cons text texts ih =>
    obtain ⟨tokens, state, others, hfirst, hothers, rfl⟩ := readLines_cons_eq_ok_iff.mp h
    cases j with
    | zero =>
      obtain rfl := Option.some.inj hbefore
      obtain rfl := Option.some.inj hline
      exact hfirst
    | succ j =>
      refine ih hothers ?_ hline
      cases j with
      | zero => exact hbefore
      | succ j => exact hbefore

/-- The suggested column of a new line below line `i`; none if there is no such line. -/
def indentAfter (config : Config) (i : Nat) (textAfter : Text) (doc : Document) :
    Except Fault (Option Nat) :=
  match doc.lines[i]? with
  | some line => line.state.indent config textAfter
  | none => .ok none

/-- Reads a line anew from the state before line `i`; none if there is no such state. -/
def reread? (config : Config) (i : Nat) (replacement : Text) (doc : Document) :
    Except Fault (Option (List Token × State)) :=
  match doc.stateBefore? i with
  | some before => some <$> before.tokenizeLine config replacement
  | none => .ok none

end Document
end EditorMode
