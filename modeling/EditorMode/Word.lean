import EditorMode.Category
import EditorMode.WordSet

/-! # Bare words

A **bare word** is a run of word characters.  Its category is decided by the first rule that
applies:

1. `_` alone is the anonymous variable;
2. a word that begins with `_` is a named singleton;
3. an upper-case initial makes a variable;
4. a configured extra atom is an atom;
5. `about`, `main` and `is` are keywords, `load` and `store` builtins;
6. anything else is an atom.

Only ASCII letters and digits count as such. -/

namespace EditorMode

namespace Word

/-- Whether a character continues a bare word. -/
def isWordChar (c : Char) : Bool := c.isAlphanum || c == '_' || c == '$'

/-- Whether a character is a token on its own. -/
def isPunctuation (c : Char) : Bool :=
  ['[', ']', '{', '}', '(', ')', ',', ';', ':', '.'].contains c

/-- No character is both. -/
theorem not_isPunctuation_of_isWordChar {c : Char} (h : isWordChar c) : ¬ isPunctuation c := by
  intro hp
  simp only [isPunctuation, List.contains_cons, List.contains_nil, Bool.or_eq_true, beq_iff_eq,
    Bool.false_eq_true, or_false] at hp
  rcases hp with rfl | rfl | rfl | rfl | rfl | rfl | rfl | rfl | rfl | rfl <;> revert h <;> decide

/-- The reserved words. -/
def keywords : List Text := ["about", "main", "is"].map String.toList

/-- The names of the built-in operations. -/
def builtins : List Text := ["load", "store"].map String.toList

/-- The category that a word has by the language alone, without regard to its initial. -/
def reservedCategory (w : Text) : Category :=
  if keywords.contains w then .keyword else if builtins.contains w then .builtin else .atom

/-- The category of a bare word. -/
def category (extraAtoms : WordSet) (w : Text) : Category :=
  match w with
  | [] => .atom
  | ['_'] => .anonymousVariable
  | '_' :: _ => .namedSingleton
  | initial :: _ =>
    if initial.isUpper then .namedVariable
    else if w ∈ extraAtoms then .atom
    else reservedCategory w

/-- Whether a word may be configured as an extra atom: it begins like an atom and is one word. -/
def isBareAtom : Text → Bool
  | [] => false
  | initial :: others => (initial.isLower || initial == '$') && others.all isWordChar

end Word
end EditorMode
