/-! # Lexical categories

Every piece of a line has exactly one **category**, which a host turns into a style.  Pieces
without a style of their own, such as white space, are `unstyled`. -/

namespace EditorMode

/-- What a piece of a line is, lexically. -/
inductive Category where
  | unstyled
  | comment
  | string
  | number
  | keyword
  | builtin
  | namedVariable
  | anonymousVariable
  | namedSingleton
  | atom
  | punctuation
  deriving DecidableEq, Repr

namespace Category

/-- All categories in their fixed order. -/
def all : List Category :=
  [unstyled, comment, string, number, keyword, builtin, namedVariable, anonymousVariable,
   namedSingleton, atom, punctuation]

theorem mem_all (c : Category) : c ∈ all := by
  cases c <;> decide

/-- Position of a category in the fixed order. -/
def index (c : Category) : Nat := all.idxOf c

/-- The stable name of a category. -/
def name : Category → String
  | unstyled => "none"
  | comment => "comment"
  | string => "string"
  | number => "number"
  | keyword => "keyword"
  | builtin => "builtin"
  | namedVariable => "variable"
  | anonymousVariable => "anonymous-variable"
  | namedSingleton => "named-singleton"
  | atom => "atom"
  | punctuation => "punctuation"

/-- The style class a host applies; unstyled pieces have none. -/
def style? (c : Category) : Option String :=
  if c = unstyled then none else some c.name

/-- The category of a given name. -/
def ofName? (name : String) : Option Category := all.find? (·.name == name)

/-- Names determine their category. -/
theorem ofName?_name (c : Category) : ofName? c.name = some c := by
  cases c <;> decide

/-- Whether a piece takes part in nesting and indentation: white space and comments do not. -/
def isSignificant : Category → Bool
  | unstyled | comment => false
  | _ => true

end Category
end EditorMode
