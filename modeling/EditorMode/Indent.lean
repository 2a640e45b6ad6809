import EditorMode.Token

/-! # Suggested columns

A new line is placed by the state at the end of the line before it and by the first visible
character of the text that it will begin with.  In the **contextual** style one open context
decides; in the **preserve** style the new line takes over the indentation of the line before.
Inside an unfinished string or comment there is no suggestion. -/

namespace EditorMode

namespace Context

/-- The column of a new line that `ctx` decides, if its text begins with `first`.

* The document's own lines start at its base column.
* A statement goes on one step further in, but an opening brace stands below its beginning.
* Where a token followed the opening bracket, lines stand right behind the bracket, and the closing
  bracket stands below it.
* Elsewhere between brackets lines are one step further in than the line that opened them, and the
  closing bracket is not. -/
def innerColumn (config : Config) (first : Option Char) (ctx : Context) : Except Fault Nat :=
  match ctx.kind with
  | .top => .ok ctx.baseIndent
  | .statement =>
    if first = some '{' then .ok ctx.baseIndent
    else Column.add ctx.baseIndent config.continuationUnit
  | kind =>
    let closes := first = kind.closer?
    if ctx.alignment = .aligned then
      if closes then .ok ctx.column else Column.add ctx.column 1
    else if closes then .ok ctx.baseIndent
    else if kind = .paren then Column.add ctx.baseIndent config.continuationUnit
    else Column.add ctx.baseIndent config.indentUnit

end Context

/-- The context that decides where a line beginning with `first` goes: the innermost one, except
that a closing brace looks past a statement to what encloses it. -/
def ContextStack.deciding (first : Option Char) (stack : ContextStack) : Context :=
  if stack.top.kind = .statement ∧ first = some '}' then stack.parent?.getD stack.top
  else stack.top

namespace State

/-- The column for a new line whose text begins with `textAfter`, given the state at the end of the
line before; none inside an unfinished string or comment. -/
def indent (config : Config) (textAfter : Text) (st : State) : Except Fault (Option Nat) :=
  match st.pending with
  | some _ => .ok none
  | none =>
    match config.indentStyle with
    | .preserve => .ok (some st.indented)
    | .contextual =>
      let first := Text.firstVisible? textAfter
      some <$> (st.stack.deciding first).innerColumn config first

/-- There is no suggestion exactly if something is unfinished. -/
theorem indent_eq_ok_none {config : Config} {textAfter : Text} {st : State} :
    st.indent config textAfter = .ok none ↔ st.pending.isSome := by
  unfold indent
  cases st.pending with
  | some k => simp
  | none =>
    cases config.indentStyle with
    | preserve => simp
    | contextual =>
      dsimp only
      generalize (st.stack.deciding (Text.firstVisible? textAfter)).innerColumn config
        (Text.firstVisible? textAfter) = column
      cases column <;> simp [Functor.map, Except.map]

end State
end EditorMode
