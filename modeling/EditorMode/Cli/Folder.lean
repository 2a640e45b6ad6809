import EditorMode.Cli.FileError

/-! # A folder in memory

The command line reads files through a function from paths to texts.  A **folder** gives such a
function: it is the working directory, holds named files and nothing else, and everything outside
of it is unknown. -/

namespace EditorMode.Cli

/-- A working directory: files by their paths, which lead downwards from it. -/
structure Folder where
  files : List (Text × ByteArray)

namespace Folder

/-- The components of a path between its slashes. -/
def components : Text → List Text
  | [] => [[]]
  | c :: path =>
    if c = '/' then [] :: components path
    else
      match components path with
      | [] => [[c]]
      | first :: others => (c :: first) :: others

/-- What a path leads to. -/
inductive Entry where
  | file (contents : ByteArray)
  | directory

/-- The entry at some components below the working directory: a file of that path, or the
directory that such files are in. -/
def entry? (folder : Folder) (place : List Text) : Option Entry :=
  match folder.files.find? fun file => components file.1 == place with
  | some file => some (.file file.2)
  | none =>
    if place.isEmpty || folder.files.any fun file => place.isPrefixOf (components file.1) then
      some .directory
    else
      none

/-- The longest name that a file can have, in bytes. -/
def longestName : Nat := 255

/-- The longest path that the system follows, in bytes. -/
def longestPath : Nat := 4095

/-- Follows components from a directory above the folder.  Empty components and dots lead to such a
directory again; every name is unknown there. -/
def followAbove : List Text → Except FileError Entry
  | [] => .ok .directory
  | name :: names =>
    if name = [] ∨ name = ['.'] ∨ name = ['.', '.'] then followAbove names
    else if longestName < Text.byteLength name then .error .nameTooLong
    else .error .notFound

/-- Follows components from a place in the folder.  Empty components and dots stay where they are,
two dots lead upwards. -/
def follow (folder : Folder) (place : List Text) : List Text → Except FileError Entry
  | [] => .ok .directory
  | name :: names =>
    if name = [] ∨ name = ['.'] then follow folder place names
    else if name = ['.', '.'] then
      if place = [] then followAbove names else follow folder place.dropLast names
    else if longestName < Text.byteLength name then .error .nameTooLong
    else
      match folder.entry? (place ++ [name]) with
      | none => .error .notFound
      | some .directory => follow folder (place ++ [name]) names
      | some (.file contents) =>
        if names.isEmpty then .ok (.file contents) else .error .notDirectory

/-- What a path leads to, from the working directory or from the root of the file system.  A path
that is too long is not followed at all. -/
def resolve (folder : Folder) (path : Text) : Except FileError Entry :=
  if longestPath < Text.byteLength path then .error .nameTooLong
  else
    match path with
    | [] => .error .notFound
    | '/' :: rest => followAbove (components rest)
    | path => folder.follow [] (components path)

/-- Reads the file at a path as UTF-8 text. -/
def read (folder : Folder) (path : Text) : Except FileError Text :=
  match folder.resolve path with
  | .error e => .error e
  | .ok .directory => .error .isDirectory
  | .ok (.file contents) =>
    match String.fromUTF8? contents with
    | some s => .ok s.toList
    | none => .error .invalidUtf8

end Folder
end EditorMode.Cli
