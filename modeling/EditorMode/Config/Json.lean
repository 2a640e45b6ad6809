import EditorMode.Config
import EditorMode.Json

/-! # Reading a configuration

A configuration is a JSON object with any of its fields as members, each at most once and nothing
else; a field that is left out has its default value.  Instead of an object it may be an array of
the fields in their fixed order, cut short anywhere.  Numbers are natural and at most the largest
column.  What is well formed is then checked like any other configuration. -/

namespace EditorMode

namespace IndentStyle

/-- Reads a style: its name, or an object whose only member has that name and the value `null`. -/
def ofSymbols? : List Json.Symbol → Option (IndentStyle × List Json.Symbol)
  | .string name :: rest => (ofName? name).map (·, rest)
  | .objectStart :: .string name :: .colon :: .null :: .objectEnd :: rest =>
    (ofName? name).map (·, rest)
  | _ => none

end IndentStyle

namespace Config

/-- The fields of a configuration. -/
inductive Field where
  | indentUnit
  | statementIndentUnit
  | tabSize
  | extraAtoms
  | indentStyle
  deriving DecidableEq, Repr

namespace Field

/-- The fields in their fixed order. -/
def all : List Field := [indentUnit, statementIndentUnit, tabSize, extraAtoms, indentStyle]

/-- The name of a field's member in an object. -/
def key : Field → String
  | indentUnit => "indent_unit"
  | statementIndentUnit => "statement_indent_unit"
  | tabSize => "tab_size"
  | extraAtoms => "extra_atoms"
  | indentStyle => "indent_style"

end Field

/-- Reads a number that can be a column. -/
def readNumber? : List Json.Symbol → Option (Nat × List Json.Symbol)
  | .number n :: rest => if n ≤ Column.largest then some (n, rest) else none
  | _ => none

/-- Reads a number that may be left unset. -/
def readOptionalNumber? : List Json.Symbol → Option (Option Nat × List Json.Symbol)
  | .null :: rest => some (none, rest)
  | symbols => (readNumber? symbols).map fun (n, rest) => (some n, rest)

/-- Reads the words of an array that is not empty, its bracket having been read. -/
def readWordsAfterBracket? : List Json.Symbol → Option (List Text × List Json.Symbol)
  | .string w :: .arrayEnd :: rest => some ([w], rest)
  | .string w :: .comma :: rest =>
    (readWordsAfterBracket? rest).map fun (ws, rest) => (w :: ws, rest)
  | _ => none

/-- Reads an array of words. -/
def readWords? : List Json.Symbol → Option (List Text × List Json.Symbol)
  | .arrayStart :: .arrayEnd :: rest => some ([], rest)
  | .arrayStart :: rest => readWordsAfterBracket? rest
  | _ => none

/-- Reads the value of a field into a configuration. -/
def readField? (field : Field) (config : Config) (symbols : List Json.Symbol) :
    Option (Config × List Json.Symbol) :=
  match field with
  | .indentUnit =>
    (readNumber? symbols).map fun (n, rest) => ({ config with indentUnit := n }, rest)
  | .statementIndentUnit =>
    (readOptionalNumber? symbols).map fun (n, rest) =>
      ({ config with statementIndentUnit := n }, rest)
  | .tabSize =>
    (readNumber? symbols).map fun (n, rest) => ({ config with tabSize := n }, rest)
  | .extraAtoms =>
    (readWords? symbols).map fun (ws, rest) => ({ config with extraAtoms := .ofList ws }, rest)
  | .indentStyle =>
    (IndentStyle.ofSymbols? symbols).map fun (style, rest) =>
      ({ config with indentStyle := style }, rest)

/-- Reads the members of an object up to its end.  `unread` are the fields that have not occurred
yet: any other key, also one that is repeated, is refused. -/
def readMembers? (unread : List Field) (config : Config) :
    List Json.Symbol → Option (Config × List Json.Symbol)
  | .string key :: .colon :: symbols =>
    match _h : unread.find? (·.key.toList == key) with
    | none => none
    | some field =>
      match readField? field config symbols with
      | some (config, .objectEnd :: rest) => some (config, rest)
      | some (config, .comma :: rest) => readMembers? (unread.erase field) config rest
      | _ => none
  | _ => none
termination_by unread.length
decreasing_by
  have hmem := List.mem_of_find?_eq_some _h
  have := List.length_pos_of_mem hmem
  rw [List.length_erase_of_mem hmem]
  omega

/-- Reads the elements of an array up to its end, as the values of the given fields in order. -/
def readElements? : List Field → Config → List Json.Symbol → Option (Config × List Json.Symbol)
  | [], _, _ => none
  | field :: fields, config, symbols =>
    match readField? field config symbols with
    | some (config, .arrayEnd :: rest) => some (config, rest)
    | some (config, .comma :: rest) => readElements? fields config rest
    | _ => none

/-- Reads an object or an array as a configuration. -/
def readConfig? : List Json.Symbol → Option (Config × List Json.Symbol)
  | .objectStart :: .objectEnd :: rest => some ({}, rest)
  | .objectStart :: rest => readMembers? Field.all {} rest
  | .arrayStart :: .arrayEnd :: rest => some ({}, rest)
  | .arrayStart :: rest => readElements? Field.all {} rest
  | _ => none

/-- The configuration that some symbols write, all of them. -/
def ofSymbols? (symbols : List Json.Symbol) : Option Config :=
  match readConfig? symbols with
  | some (config, []) => some config
  | _ => none

/-- The configuration that a JSON text writes, whether or not it passes the check. -/
def decode? (text : Text) : Option Config := (Json.symbols? text).bind ofSymbols?

/-- What the form of a configuration leaves open to those who read it. -/
structure Decoder where
  /-- The order in which the extra atoms are met when they have been read from a text.  The text
  lists them, and two texts that list the same words may make them be met in different orders. -/
  order : Text → WordSet.Enumeration
  /-- The words that tell what is wrong with a malformed text. -/
  complaint : Text → Text

/-- The decoder that meets words in ascending order and says the same of all malformed texts. -/
def Decoder.plain : Decoder where
  order _ := .ascending
  complaint _ := "not a JSON object or array of its fields".toList

/-- Reads and checks a configuration. -/
def fromJson (decoder : Decoder) (text : Text) : Except ConfigError Config :=
  match decode? text with
  | none => .error (.malformed (decoder.complaint text))
  | some config => config.check (decoder.order text)

/-- Whatever is read passes the check, in any order. -/
theorem fault?_of_fromJson {decoder : Decoder} {text : Text} {config : Config}
    (h : fromJson decoder text = .ok config) (order : WordSet.Enumeration) :
    config.fault? order = none := by
  unfold fromJson at h
  split at h
  · simp at h
  · obtain ⟨rfl, hfault⟩ := check_eq_ok.mp h
    exact fault?_eq_none.mpr (fault?_eq_none.mp hfault)

end Config
end EditorMode
