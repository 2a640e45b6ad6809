import EditorMode.Text.Blank

/-! # Languages

What a host wants to know about a language before it reads any text: its names, the characters
after which a line is indented anew, its comment delimiters and the way it folds. -/

namespace EditorMode

/-- How the foldable regions of a document are found. -/
inductive FoldStrategy where
  /-- From an opening brace to the matching closing brace. -/
  | brace
  deriving DecidableEq, Repr

/-- The description of a language. -/
structure Language where
  name : String
  /-- The content type of its texts. -/
  mime : String
  /-- Typing one of these indents the line anew. -/
  electricChars : String
  blockCommentStart : String
  blockCommentEnd : String
  lineComment : String
  fold : FoldStrategy
  deriving DecidableEq, Repr

namespace Language

/-- Whether typing a character indents the line anew. -/
def isElectric (c : Char) (language : Language) : Bool := language.electricChars.toList.contains c

/-- The language of this mode. -/
def amalog : Language :=
  { name := "amalog"
    mime := "text/amalog"
    electricChars := "\x7b\x7d"
    blockCommentStart := "/*"
    blockCommentEnd := "*/"
    lineComment := "//"
    fold := .brace }

/-- The languages that can be looked up. -/
def all : List Language := [amalog]

/-- The part of a content type before its parameters. -/
def essence (mime : Text) : Text := Text.trim (mime.takeWhile (· != ';'))

/-- The language of a content type.  Parameters and the case of ASCII letters do not matter. -/
def ofMime? (mime : Text) : Option Language :=
  all.find? fun language =>
    (essence mime).map Char.toLower == language.mime.toList.map Char.toLower

/-- The language of a name. -/
def ofName? (name : Text) : Option Language :=
  all.find? fun language => language.name.toList == name

end Language
end EditorMode
