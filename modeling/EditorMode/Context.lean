/-! # Nesting contexts

A **context** is one level of nesting: the document itself, a statement, or what stands between a
pair of brackets.  It remembers what a later line needs in order to line up with it: the indent of
the line it belongs to, the column of its first token, and whether anything followed that token on
its own line. -/

namespace EditorMode

namespace Context

/-- What a context was made by, and therefore what ends it. -/
inductive Kind where
  /-- The document. -/
  | top
  /-- A statement, which runs to a terminator or to the end of what encloses it. -/
  | statement
  /-- What stands between `(` and `)`. -/
  | paren
  /-- What stands between `[` and `]`. -/
  | bracket
  /-- What stands between `{` and `}`. -/
  | brace
  deriving DecidableEq, Repr

namespace Kind

/-- The bracket context that a character opens. -/
def ofOpener? : Char → Option Kind
  | '(' => some paren
  | '[' => some bracket
  | '{' => some brace
  | _ => none

/-- The character that closes a bracket context. -/
def closer? : Kind → Option Char
  | paren => some ')'
  | bracket => some ']'
  | brace => some '}'
  | top | statement => none

/-- Whether a context stands between brackets. -/
def isBracket (k : Kind) : Bool := k.closer?.isSome

/-- Exactly the bracket contexts are opened by a character. -/
theorem isBracket_iff_exists_opener {k : Kind} : k.isBracket ↔ ∃ c, ofOpener? c = some k := by
  constructor
  · intro h
    cases k with
    | top | statement => exact absurd h (by decide)
    | paren => exact ⟨'(', rfl⟩
    | bracket => exact ⟨'[', rfl⟩
    | brace => exact ⟨'{', rfl⟩
  · rintro ⟨c, hc⟩
    unfold ofOpener? at hc
    split at hc <;> simp_all only [Option.some.injEq, reduceCtorEq] <;> subst hc <;> rfl

end Kind

/-- How the inner lines of a bracket context line up. -/
inductive Alignment where
  /-- Neither a token nor the end of the line has followed the opener. -/
  | undecided
  /-- The opener was the last token of its line: inner lines are indented. -/
  | hanging
  /-- A token followed on the opener's line: inner lines line up with it. -/
  | aligned
  deriving DecidableEq, Repr

end Context

/-- One level of nesting. -/
structure Context where
  kind : Context.Kind
  /-- The indent that the level inherited when it was opened. -/
  baseIndent : Nat
  /-- The column of the token that opened it. -/
  column : Nat
  alignment : Context.Alignment
  deriving DecidableEq, Repr

namespace Context

/-- The level of the document itself, whose text starts at `baseColumn`. -/
def root (baseColumn : Nat) : Context :=
  { kind := .top, baseIndent := baseColumn, column := 0, alignment := .hanging }

end Context
end EditorMode
