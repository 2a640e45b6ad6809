import EditorMode.Construct
import EditorMode.ContextStack

/-! # The state between tokens

Between two tokens, and from line to line, the mode keeps a **state**: the construct left
unfinished, the stack of open contexts, the indentation of the current line, and whether a
significant token has been seen on it.  A state is a value, so a host can keep the one at the end
of each line and start again from any of them. -/

namespace EditorMode

/-- All that reading on depends on, besides the text to come. -/
structure State where
  /-- The string or comment that an earlier line left unfinished. -/
  pending : Option Construct
  /-- The open contexts. -/
  stack : ContextStack
  /-- The indentation of the current line, or that of the bracket closed last on it. -/
  indented : Nat
  /-- Whether no significant token has been read on this line. -/
  atLineStart : Bool
  deriving DecidableEq, Repr

namespace State

/-- The state before the first line of a document rooted at `baseColumn`. -/
def start (baseColumn : Nat) : State :=
  { pending := none, stack := .ofBase baseColumn, indented := 0, atLineStart := true }

instance : Inhabited State := ⟨start 0⟩

/-! ## Opening and closing contexts -/

/-- Opens a context at a column.  Inside a statement it takes over the statement's base indent, so
that brackets nested in a statement line up with the statement; elsewhere it takes the indentation
of the current line. -/
def push (column : Nat) (kind : Context.Kind) (st : State) : State :=
  let top := st.stack.top
  let baseIndent := if top.kind = .statement then top.baseIndent else st.indented
  { st with stack := st.stack.push { kind, baseIndent, column, alignment := .undecided } }

/-- Closes the innermost context, unless it is the root.  Closing a bracket restores the indent
that the bracket was opened with. -/
def pop? (st : State) : Option (Context × State) :=
  st.stack.pop?.map fun (popped, below) =>
    let indented := if popped.kind.isBracket then popped.baseIndent else st.indented
    (popped, { st with stack := below, indented })

/-- Exactly the root cannot be closed. -/
theorem pop?_eq_none {st : State} : st.pop? = none ↔ st.stack.depth = 1 := by
  unfold pop?
  cases hs : st.stack with
  | root c => simp [ContextStack.pop?, ContextStack.depth]
  | push c below =>
    have := below.depth_pos
    simp only [ContextStack.pop?, Option.map_some, reduceCtorEq, ContextStack.depth, false_iff]
    omega

/-- Closing a context undoes its opening, as far as the stack is concerned. -/
theorem pop?_push (column : Nat) (kind : Context.Kind) (st : State) :
    ∃ opened closed, (st.push column kind).pop? = some (opened, closed) ∧
      opened.kind = kind ∧ opened.column = column ∧ closed.stack = st.stack := by
  exact ⟨_, _, rfl, rfl, rfl, rfl⟩

/-- The state after closing the innermost context; the root stays. -/
def pop (st : State) : State :=
  match st.pop? with
  | some (_, below) => below
  | none => st

/-- The state after closing the innermost context, if it is of the given kind. -/
def popKind (kind : Context.Kind) (st : State) : State :=
  if st.stack.top.kind = kind then st.pop else st

/-- The state after the statements on top of the stack have ended. -/
def dropStatements (st : State) : State := { st with stack := st.stack.dropStatements }

/-- Decides the innermost context's alignment, if nothing has decided it before. -/
def decideAlignment (a : Context.Alignment) (st : State) : State :=
  { st with stack := st.stack.decideAlignment a }

/-! ## Tokens and contexts -/

/-- What a significant token at `column` does to the contexts.  `mark` is the token's character if
it is punctuation.

* An opening bracket opens its context.
* A `)` or `]` closes the innermost context if that is its own, and is ignored otherwise.
* A `}` ends the statements inside the braces, closes the braces, and ends the statement that the
  braces belong to.
* Other punctuation ends a statement.
* Any other token begins a statement where none is open. -/
def follow (column : Nat) (mark : Option Char) (st : State) : State :=
  let st := st.decideAlignment .aligned
  match mark with
  | none =>
    match st.stack.top.kind with
    | .top | .brace => st.push column .statement
    | _ => st
  | some '}' => (st.dropStatements.popKind .brace).dropStatements
  | some c =>
    if c = ';' ∨ c = ',' ∨ c = ':' ∨ c = '.' then st.popKind .statement
    else
      match Context.Kind.ofOpener? c with
      | some kind => st.push column kind
      | none => if st.stack.top.kind.closer? = some c then st.pop else st

end State
end EditorMode
