import EditorMode.Cli.FileError
import EditorMode.Cli.Report
import EditorMode.Config.Error
import EditorMode.Config.Json
import EditorMode.Language

/-! # The command line

The arguments are read in two steps.  First the options that name a configuration are taken out,
wherever they stand; of several the last one counts.  What remains is a **request**, which is
judged before any file is read.  Then the configuration is loaded, then the document, and the
result is an exit code and two texts: nothing here touches the outside, since files come through
the function `read`, and what is said about a bad configuration through the decoder. -/

namespace EditorMode.Cli

/-- What a run of the program leaves. -/
structure Output where
  exit : Nat
  stdout : Text
  stderr : Text
  deriving DecidableEq, Repr

/-- A run that succeeds with some text. -/
def Output.success (text : Text) : Output := ⟨0, text, []⟩

/-- A run that fails with a message. -/
def Output.failure (message : Text) : Output := ⟨1, [], message ++ ['\n']⟩

/-- The exit code of a run that a fault ends. -/
def faultExit : Nat := 101

/-- A run that a fault ends. -/
def Output.ofFault (fault : Fault) : Output := ⟨faultExit, [], fault.message.toList ++ ['\n']⟩

/-! ## Arguments -/

/-- The path that an option `--config=` names. -/
def configPath? (argument : Text) : Option Text :=
  "--config=".toList.isPrefixOf? argument

/-- Goes over the arguments once.  What is no configuration option is kept, and the path of an
option takes the place of the one before. -/
def separate (path : Option Text) : List Text → List Text × Option Text
  | [] => ([], path)
  | argument :: arguments =>
    match configPath? argument with
    | some later => separate (some later) arguments
    | none =>
      let (kept, path) := separate path arguments
      (argument :: kept, path)

/-- The arguments that are no configuration options. -/
def operands (arguments : List Text) : List Text :=
  arguments.filter fun argument => (configPath? argument).isNone

/-- The configuration that the last configuration option names. -/
def lastConfigPath? (arguments : List Text) : Option Text :=
  (arguments.filterMap configPath?).getLast?

theorem separate_eq (path : Option Text) (arguments : List Text) :
    separate path arguments = (operands arguments, (lastConfigPath? arguments).or path) := by
  induction arguments generalizing path with
  | nil => rfl
  | cons argument arguments ih =>
    cases h : configPath? argument with
    | none =>
      have hoperands : operands (argument :: arguments) = argument :: operands arguments := by
        simp [operands, h]
      have hlast : lastConfigPath? (argument :: arguments) = lastConfigPath? arguments := by
        rw [lastConfigPath?, List.filterMap_cons_none h, lastConfigPath?]
      simp only [separate, h, ih, hoperands, hlast]
    | some later =>
      have hoperands : operands (argument :: arguments) = operands arguments := by
        simp [operands, h]
      have hlast : lastConfigPath? (argument :: arguments) =
          (lastConfigPath? arguments).or (some later) := by
        rw [lastConfigPath?, List.filterMap_cons_some h, List.getLast?_cons, lastConfigPath?]
        cases (arguments.filterMap configPath?).getLast? <;> rfl
      simp only [separate, h, ih, hoperands, hlast, Option.or_assoc, Option.some_or]

/-- What is done to a document. -/
inductive Task where
  | lex
  | indent
  /-- Shows the fold that starts on a line, counted from zero. -/
  | fold (line : Nat)
  deriving DecidableEq, Repr

/-- Why a request is refused before any file is read. -/
inductive Refusal where
  | missingOperand (task : Task)
  | invalidLineNumber (argument : Text)
  | unknownCommand (command : Text)
  deriving DecidableEq, Repr

/-- What the arguments ask for. -/
inductive Request where
  | usage
  | version
  | run (task : Task) (path : Text)
  | refused (refusal : Refusal)
  deriving DecidableEq, Repr

/-- The largest line number: a number of 64 bits. -/
def largestLineNumber : Nat := 18446744073709551615

/-- A line number, counted from one, as an index: digits, with a plus sign before them or not. -/
def lineIndex? (argument : Text) : Option Nat := do
  let n ← Text.nat? (if argument.head? = some '+' then argument.drop 1 else argument)
  if 0 < n ∧ n ≤ largestLineNumber then some (n - 1) else none

/-- The request of a fold command. -/
def foldRequest : List Text → Request
  | path :: number :: _ =>
    match lineIndex? number with
    | some i => .run (.fold i) path
    | none => .refused (.invalidLineNumber number)
  | _ => .refused (.missingOperand (.fold 0))

/-- The request of a command that takes a file. -/
def fileRequest (task : Task) : List Text → Request
  | path :: _ => .run task path
  | [] => .refused (.missingOperand task)

/-- The names under which the help text is asked for. -/
def helpCommands : List Text := ["help", "--help", "-h"].map String.toList

/-- The names under which the version is asked for. -/
def versionCommands : List Text := ["version", "--version", "-v"].map String.toList

/-- The request that some operands make. -/
def request : List Text → Request
  | [] => .usage
  | command :: operands =>
    if command = "lex".toList then fileRequest .lex operands
    else if command = "indent".toList then fileRequest .indent operands
    else if command = "fold".toList then foldRequest operands
    else if helpCommands.contains command then .usage
    else if versionCommands.contains command then .version
    else .refused (.unknownCommand command)

/-! ## Fixed texts -/

/-- The help text. -/
def usageText : Text :=
  (String.join
    ["Amalog editor mode\n",
     "\n",
     "Usage: amalog <command> [options]\n",
     "\n",
     "Commands:\n",
     "  lex <file>           Print every token with its category\n",
     "  indent <file>        Compare each line's indentation with the suggested one\n",
     "  fold <file> <line>   Show the brace fold starting on a line (1-based)\n",
     "  help                 Show this help message\n",
     "  version              Show version information\n",
     "\n",
     "Options:\n",
     "  --config=<file.json> Mode configuration (indent_unit, statement_indent_unit,\n",
     "                       tab_size, extra_atoms, indent_style)\n",
     "\n",
     "Examples:\n",
     "  amalog lex main.amalog\n",
     "  amalog indent main.amalog --config=mode.json\n",
     "  amalog fold main.amalog 3\n"]).toList

/-- The version text. -/
def versionText : Text := "Amalog editor mode 0.1.0\n".toList

/-- What a refused request prints.  An unknown command also shows the help text. -/
def Refusal.output : Refusal → Output
  | missingOperand .lex => .failure "Usage: amalog lex <file.amalog>".toList
  | missingOperand .indent => .failure "Usage: amalog indent <file.amalog>".toList
  | missingOperand (.fold _) =>
    .failure "Usage: amalog fold <file.amalog> <line>\n\nLines are numbered from 1.".toList
  | invalidLineNumber argument =>
    .failure ("error: invalid line number '".toList ++ argument ++ "'".toList)
  | unknownCommand command =>
    ⟨1, usageText, "Unknown command: ".toList ++ command ++ "\n\n".toList⟩

/-! ## Running a task -/

/-- The configuration at a path; the default one if no path is given. -/
def loadConfig (decoder : Config.Decoder) (read : Text → Except FileError Text) :
    Option Text → Except Text Config
  | none => .ok {}
  | some path =>
    match read path with
    | .error e => .error (e.message path)
    | .ok text =>
      match Config.fromJson decoder text with
      | .ok config => .ok config
      | .error e =>
        .error ("error: invalid configuration '".toList ++ path ++ "': ".toList ++ e.message)

/-- Lists the tokens of a document. -/
def lexOutput (path : Text) (doc : Document) : Output :=
  .success <|
    "Tokens for '".toList ++ path ++ "' (".toList ++ Text.decimal (tokenCount doc) ++
      " tokens, ".toList ++ Language.amalog.name.toList ++ " mode):\n".toList ++
      tokenRows .unicode 1 doc.lines

/-- Lists the compared lines of a document; lines that stand elsewhere than suggested make the run
fail. -/
def indentOutput (path : Text) (rows : List IndentRow) : Output :=
  let listing :=
    "Indentation for '".toList ++ path ++ "':\n".toList ++ rows.flatMap IndentRow.render
  if mismatches rows = 0 then .success listing
  else
    ⟨1, listing ++ "\n".toList ++ Text.decimal (mismatches rows) ++
      " line(s) differ from the suggested indentation\n".toList, []⟩

/-- Does a task with a document that has been read. -/
def perform (config : Config) (task : Task) (path text : Text) : Except Fault Output := do
  let doc ← Document.highlight config text
  match task with
  | .lex => return lexOutput path doc
  | .indent => return indentOutput path (← indentRows config doc)
  | .fold i => return .success (foldText i (doc.foldAt? i))

/-- Answers a request with the configuration that an option names. -/
def respond (decoder : Config.Decoder) (read : Text → Except FileError Text)
    (configPath : Option Text) : Request → Output
  | .usage => .success usageText
  | .version => .success versionText
  | .refused refusal => refusal.output
  | .run task path =>
    match loadConfig decoder read configPath with
    | .error message => .failure message
    | .ok config =>
      match read path with
      | .error e => .failure (e.message path)
      | .ok text =>
        match perform config task path text with
        | .ok output => output
        | .error fault => .ofFault fault

/-- Runs the program on its arguments. -/
def run (decoder : Config.Decoder) (read : Text → Except FileError Text) (arguments : List Text) :
    Output :=
  let (kept, path) := separate none arguments
  respond decoder read path (request kept)

theorem run_eq_respond (decoder : Config.Decoder) (read : Text → Except FileError Text)
    (arguments : List Text) :
    run decoder read arguments =
      respond decoder read (lastConfigPath? arguments) (request (operands arguments)) := by
  rw [run, separate_eq, Option.or_none]

/-! ## What a run reads -/

/-- The files that a run may read: its configuration, and its document. -/
def paths (arguments : List Text) : List Text :=
  let (kept, path) := separate none arguments
  path.toList ++
    match request kept with
    | .run _ path => [path]
    | _ => []

/-- A run depends on the outside only through the files it may read. -/
theorem run_congr {decoder : Config.Decoder} {read read' : Text → Except FileError Text}
    {arguments : List Text} (h : ∀ path ∈ paths arguments, read path = read' path) :
    run decoder read arguments = run decoder read' arguments := by
  unfold run paths at *
  generalize separate none arguments = separated at h ⊢
  obtain ⟨kept, config?⟩ := separated
  dsimp only at h ⊢
  cases hr : request kept with
  | usage | version | refused refusal => rfl
  | run task path =>
    rw [hr] at h
    have hpath : read path = read' path := h path (by simp)
    have hconfig : loadConfig decoder read config? = loadConfig decoder read' config? := by
      cases config? with
      | none => rfl
      | some config => simp only [loadConfig, h config (by simp)]
    simp only [respond, hconfig, hpath]

end EditorMode.Cli
