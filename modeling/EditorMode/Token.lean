import EditorMode.Config
import EditorMode.Reading
import EditorMode.State

/-! # Tokens

Reading a token at a cursor in a state gives a category, the cursor behind the token and the next
state.  The first token of a line settles what the line break means to the contexts and measures
the line's indentation; every significant token then acts on the contexts.

There are three ways to go through a line, and they agree: `State.token` moves a cursor that the
host keeps, `State.tokenize` starts at a byte offset and keeps nothing, and `State.tokenizeLine`
reads a whole line at once. -/

namespace EditorMode

/-- One classified piece of a line. -/
structure Token where
  category : Category
  /-- Byte offset of the first character. -/
  start : Nat
  text : Text
  deriving DecidableEq, Repr

/-- Byte offset behind the last character. -/
def Token.stop (t : Token) : Nat := t.start + Text.byteLength t.text

/-- What a host sees of a token that does not look at the text: its category and its place. -/
def Token.span (t : Token) : Category × Nat × Nat := (t.category, t.start, t.stop)

/-- The result of reading one token from a byte offset. -/
structure Step where
  category : Category
  /-- The characters read; empty only at the end of the line. -/
  text : Text
  /-- Byte offset behind the token. -/
  stop : Nat
  /-- The state behind the token. -/
  state : State
  deriving DecidableEq, Repr

namespace State

/-! ## One token -/

/-- At the beginning of a line, nothing can follow the last opener on its own line any more, and
the line's indentation becomes the current one. -/
def enterLine (s : Cursor) (st : State) : Except Fault State :=
  if s.atLineStart then do
    let indented ← s.indentation
    return { st.decideAlignment .hanging with indented, atLineStart := true }
  else
    return st

/-- The state behind a token that starts at `column`. -/
def afterReading (column : Nat) (r : Reading) (st : State) : State :=
  let st := { st with pending := r.pending }
  if r.category.isSignificant then { st.follow column r.mark with atLineStart := false } else st

/-- Reads one token: its category, the cursor behind it and the next state.  At the end of a line
nothing is read, but the line's indentation is noted. -/
def token (config : Config) (s : Cursor) (st : State) :
    Except Fault (Category × Cursor × State) := do
  let st ← st.enterLine s
  if s.atLineEnd then
    let indented ← s.indentation
    return (.unstyled, s, { st with indented })
  else
    let r := s.read config.extraAtoms st.pending
    return (r.category, r.cursor, st.afterReading s.column r)

/-- Entering a line keeps what is pending. -/
theorem pending_enterLine {s : Cursor} {st st' : State} (h : st.enterLine s = .ok st') :
    st'.pending = st.pending := by
  unfold enterLine at h
  split at h
  · obtain ⟨indented, -, h⟩ := Fault.bind_eq_ok.mp h
    obtain rfl := Fault.pure_eq_ok.mp h
    rfl
  · obtain rfl := Fault.pure_eq_ok.mp h
    rfl

/-- Unless the line is at its end, the cursor moves exactly as reading a token says. -/
theorem cursor_of_token {config : Config} {s next : Cursor} {st st' : State} {c : Category}
    (hne : s.rest ≠ []) (h : st.token config s = .ok (c, next, st')) :
    next = (s.read config.extraAtoms st.pending).cursor := by
  have hend : s.atLineEnd = false := by simp [Cursor.atLineEnd, hne]
  obtain ⟨entered, he, h⟩ := Fault.bind_eq_ok.mp h
  simp only [hend, Bool.false_eq_true, if_false, Fault.pure_eq_ok, Prod.mk.injEq] at h
  rw [← h.2.1, pending_enterLine he]

theorem length_rest_token_lt {config : Config} {s next : Cursor} {st st' : State} {c : Category}
    (hne : s.rest ≠ []) (h : st.token config s = .ok (c, next, st')) :
    next.rest.length < s.rest.length := by
  rw [cursor_of_token hne h]
  exact Cursor.length_rest_read_lt _ _ hne

/-- Reads the token at a byte offset of a line. -/
def tokenize (config : Config) (line : Text) (offset : Nat) (st : State) : Except Fault Step := do
  let s ← Cursor.ofOffset line offset config.tabSize
  let (category, next, state) ← st.token config s
  return { category, text := next.lexeme, stop := next.pos, state }

/-! ## A whole line -/

/-- Reads all tokens that are left at a cursor. -/
def tokenizeRest (config : Config) (s : Cursor) (st : State) :
    Except Fault (List Token × State) :=
  if _hne : s.rest = [] then .ok ([], st)
  else
    match _hs : s.startToken with
    | .error fault => .error fault
    | .ok started =>
      match _ht : st.token config started with
      | .error fault => .error fault
      | .ok (category, next, st') =>
        match tokenizeRest config next st' with
        | .error fault => .error fault
        | .ok (tokens, final) => .ok (⟨category, started.pos, next.lexeme⟩ :: tokens, final)
termination_by s.rest.length
decreasing_by
  have hrest : started.rest = s.rest := Cursor.rest_startToken _hs
  rw [← hrest]
  exact length_rest_token_lt (hrest ▸ _hne) _ht

@[simp] theorem tokenizeRest_of_nil {config : Config} {s : Cursor} {st : State}
    (h : s.rest = []) : st.tokenizeRest config s = .ok ([], st) := by
  unfold tokenizeRest
  simp [h]

/-- Reading what is left of a line is reading its next token and then what is left behind it. -/
theorem tokenizeRest_of_ne_nil {config : Config} {s : Cursor} {st : State} (h : s.rest ≠ []) :
    st.tokenizeRest config s = (do
      let started ← s.startToken
      let (category, next, st') ← st.token config started
      let (tokens, final) ← st'.tokenizeRest config next
      return (⟨category, started.pos, next.lexeme⟩ :: tokens, final)) := by
  rw [tokenizeRest, dif_neg h]
  cases s.startToken with
  | error fault => rfl
  | ok started =>
    simp only [bind, Except.bind]
    cases st.token config started with
    | error fault => rfl
    | ok result =>
      obtain ⟨category, next, st'⟩ := result
      simp only
      cases st'.tokenizeRest config next with
      | error fault => rfl
      | ok tail => rfl

/-- Reads a line: its tokens and the state for the next line.  An empty line has no tokens, but
still is a line. -/
def tokenizeLine (config : Config) (line : Text) (st : State) :
    Except Fault (List Token × State) :=
  let s := Cursor.ofLine line config.tabSize
  if line.isEmpty then do
    let (_, _, st') ← st.token config s
    return ([], st')
  else
    st.tokenizeRest config s

end State
end EditorMode
