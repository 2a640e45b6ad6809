import EditorMode.Text.Decimal

/-! # Why a file cannot be read

The command line tells a missing file, a forbidden one and one that is not text in words of its
own.  Everything else is told in the words of the system, with the system's number of the error. -/

namespace EditorMode.Cli

/-- What keeps a file from being read as text. -/
inductive FileError where
  | notFound
  | permissionDenied
  | invalidUtf8
  | notDirectory
  | isDirectory
  | nameTooLong
  /-- Any other error of the system, by its number and description. -/
  | other (code : Nat) (description : Text)
  deriving DecidableEq, Repr

namespace FileError

/-- The error that a number of the system stands for. -/
def ofCode (code : Nat) (description : Text) : FileError :=
  match code with
  | 1 => permissionDenied
  | 2 => notFound
  | 13 => permissionDenied
  | 20 => notDirectory
  | 21 => isDirectory
  | 36 => nameTooLong
  | code => other code description

/-- What a user reads about a file on which the system reported an error. -/
def systemMessage (path description : Text) (code : Nat) : Text :=
  "error reading '".toList ++ path ++ "': ".toList ++ description ++ " (os error ".toList ++
    Text.decimal code ++ ")".toList

/-- What a user reads about a file that cannot be read. -/
def message (path : Text) : FileError → Text
  | notFound => "cannot find file '".toList ++ path ++ "'".toList
  | permissionDenied => "permission denied reading '".toList ++ path ++ "'".toList
  | invalidUtf8 => "'".toList ++ path ++ "' contains invalid UTF-8 data".toList
  | notDirectory => systemMessage path "Not a directory".toList 20
  | isDirectory => systemMessage path "Is a directory".toList 21
  | nameTooLong => systemMessage path "File name too long".toList 36
  | other code description => systemMessage path description code

end FileError
end EditorMode.Cli
