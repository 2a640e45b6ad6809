import EditorMode.Cli

/-! # The program

Reads the files that the arguments name, and leaves the rest to `EditorMode.Cli.run`. -/

open EditorMode

/-- The number by which the system knows an error; some operations report it negated. -/
def systemCode (code : UInt32) : Nat :=
  if code.toNat < 0x80000000 then code.toNat else 0x100000000 - code.toNat

/-- The cause of a failed read. -/
def fileErrorOf (e : IO.Error) : Cli.FileError :=
  match e with
  | .noFileOrDirectory _ _ _ => .notFound
  | .permissionDenied _ _ _ => .permissionDenied
  | .inappropriateType _ code details | .invalidArgument _ code details
  | .resourceExhausted _ code details | .alreadyExists _ code details =>
    .ofCode (systemCode code) details.toList
  | .otherError code details | .resourceBusy code details | .resourceVanished code details
  | .unsupportedOperation code details | .hardwareFault code details
  | .unsatisfiedConstraints code details | .illegalOperation code details
  | .protocolError code details | .timeExpired code details =>
    .ofCode (systemCode code) details.toList
  | .interrupted _ code details => .ofCode (systemCode code) details.toList
  | .noSuchThing _ code details => .ofCode (systemCode code) details.toList
  | .unexpectedEof => .other 0 "unexpected end of file".toList
  | .userError details => .other 0 details.toList

/-- Reads a file as text. -/
def readText (path : Text) : IO (Except Cli.FileError Text) := do
  try
    let bytes ← IO.FS.readBinFile (String.ofList path)
    match String.fromUTF8? bytes with
    | some s => return .ok s.toList
    | none => return .error .invalidUtf8
  catch e =>
    return .error (fileErrorOf e)

def main (args : List String) : IO UInt32 := do
  let arguments := args.map String.toList
  let files ← (Cli.paths arguments).mapM fun path => return (path, ← readText path)
  let output :=
    Cli.run .plain (fun path => (files.lookup path).getD (.error .notFound)) arguments
  IO.print (String.ofList output.stdout)
  IO.eprint (String.ofList output.stderr)
  return output.exit.toUInt32
