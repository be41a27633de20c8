import TreeScript.Launch

/-!
# The command line

`CommandLine.parse` reads the arguments from the first to the last.  The first that asks for help
or the version decides, as does the first that is wrong; what is missing is only found at the end.
`Command.execute` then does what was asked for on a directory of files and reports what is printed.

Options may stand before or after the file.  The value of an option follows it or an equals sign;
one that follows must not look like an option.  After `--` everything is a file.
-/

namespace TreeScript

/-- What help is asked for. -/
inductive HelpTopic where
  | overview | run | check | help
  deriving DecidableEq, Repr

/-- What a command line asks for. -/
inductive Command where
  | run (verbosity : Nat) (file : String) (showsResult : Bool) (callLimit : Option Nat)
      (settings : Option String)
  | check (file : String)
  | help (topic : HelpTopic)
  | version
  deriving DecidableEq, Repr

namespace CommandLine

/-! ## 1. Arguments -/

/-- What an argument is by its form. -/
inductive Shape where
  /-- A long option, with what follows its equals sign. -/
  | long (name : String) (value : Option String)
  /-- Short options behind one dash. -/
  | short (letters : List Char)
  /-- The end of the options. -/
  | endOfOptions
  | plain (text : String)
  deriving DecidableEq, Repr

/-- The form of an argument. -/
def Shape.ofText (text : String) : Shape :=
  match text.toList with
  | ['-', '-'] => .endOfOptions
  | '-' :: '-' :: rest =>
    let name := rest.takeWhile fun c => c ≠ '='
    match rest.drop name.length with
    | [] => .long (String.ofList name) none
    | _ :: value => .long (String.ofList name) (some (String.ofList value))
  | '-' :: letter :: rest => .short (letter :: rest)
  | _ => .plain text

/-- Reads short options: how much detail they ask for beside what was asked for before, or what a
letter among them decides. -/
def readShort (hasVersion : Bool) (topic : HelpTopic) (verbosity : Nat) :
    List Char → Except (Option Command) Nat
  | [] => .ok verbosity
  | letter :: rest =>
    if letter = 'v' then readShort hasVersion topic (verbosity + 1) rest
    else if letter = 'h' then .error (some (.help topic))
    else if letter = 'V' ∧ hasVersion then .error (some .version)
    else .error none

/-- A number of calls as an argument: an optional plus and digits, below `2^64`. -/
def readLimit (text : String) : Option Nat :=
  let digits := match text.toList with
    | '+' :: rest => rest
    | other => other
  if digits.isEmpty || !digits.all Char.isDigit then none
  else
    let n := Decimal.natOfDigits digits
    if n < UInt64.size then some n else none

/-- What has been read of a command. -/
structure Draft where
  verbosity : Nat := 0
  file : Option String := none
  showsResult : Bool := false
  callLimit : Option Nat := none
  settings : Option String := none

/-- Sets the file; there is only one, and its name is not empty. -/
def Draft.setFile (draft : Draft) (text : String) : Option Draft :=
  if draft.file.isSome || text.isEmpty then none else some { draft with file := some text }

/-- Sets the limit of calls; it is given once. -/
def Draft.setLimit (draft : Draft) (text : String) : Option Draft :=
  if draft.callLimit.isSome then none
  else (readLimit text).map fun n => { draft with callLimit := some n }

/-- Sets the file with the settings; it is given once, and its name is not empty. -/
def Draft.setSettings (draft : Draft) (text : String) : Option Draft :=
  if draft.settings.isSome || text.isEmpty then none else some { draft with settings := some text }

/-- The value of an option that is not behind an equals sign. -/
def plainValue? (text : String) : Option String :=
  match Shape.ofText text with
  | .plain value => some value
  | _ => none

/-! ## 2. Commands -/

/-- Reads the arguments of `run`. -/
def readRun (draft : Draft) (onlyFiles : Bool) : List String → Option Command
  | [] => do
    let file ← draft.file
    return .run draft.verbosity file draft.showsResult draft.callLimit draft.settings
  | text :: rest =>
    if onlyFiles then do readRun (← draft.setFile text) true rest
    else match Shape.ofText text with
      | .endOfOptions => readRun draft true rest
      | .plain text => do readRun (← draft.setFile text) false rest
      | .short letters =>
        match readShort false .run draft.verbosity letters with
        | .error decided => decided
        | .ok verbosity => readRun { draft with verbosity := verbosity } false rest
      | .long "verbose" none => readRun { draft with verbosity := draft.verbosity + 1 } false rest
      | .long "help" none => some (.help .run)
      | .long "show-result" none =>
        if draft.showsResult then none else readRun { draft with showsResult := true } false rest
      | .long "max-depth" (some value) => do readRun (← draft.setLimit value) false rest
      | .long "config" (some value) => do readRun (← draft.setSettings value) false rest
      | .long "max-depth" none =>
        match rest with
        | [] => none
        | value :: rest => do readRun (← draft.setLimit (← plainValue? value)) false rest
      | .long "config" none =>
        match rest with
        | [] => none
        | value :: rest => do readRun (← draft.setSettings (← plainValue? value)) false rest
      | .long _ _ => none

/-- Reads the arguments of `check`. -/
def readCheck (file : Option String) (onlyFiles : Bool) : List String → Option Command
  | [] => file.map .check
  | text :: rest =>
    let setFile (text : String) : Option String :=
      if file.isSome || text.isEmpty then none else some text
    if onlyFiles then do readCheck (some (← setFile text)) true rest
    else match Shape.ofText text with
      | .endOfOptions => readCheck file true rest
      | .plain text => do readCheck (some (← setFile text)) false rest
      | .short letters =>
        match readShort false .check 0 letters with
        | .error decided => decided
        | .ok _ => readCheck file false rest
      | .long "verbose" none => readCheck file false rest
      | .long "help" none => some (.help .check)
      | .long _ _ => none

/-- Reads the topic of `help`. -/
def readHelp : List String → Option Command
  | [] => some (.help .overview)
  | ["run"] => some (.help .run)
  | ["check"] => some (.help .check)
  | ["help"] => some (.help .help)
  | _ => none

/-- **Reads a command line**, with what options before it have asked for.  There is no command if
the arguments are wrong or incomplete. -/
def parse (verbosity : Nat) : List String → Option Command
  | [] => none
  | text :: rest =>
    match Shape.ofText text with
    | .plain "run" => readRun { verbosity := verbosity } false rest
    | .plain "check" => readCheck none false rest
    | .plain "help" => readHelp rest
    | .plain _ => none
    | .endOfOptions => none
    | .short letters =>
      match readShort true .overview verbosity letters with
      | .error decided => decided
      | .ok verbosity => parse verbosity rest
    | .long "verbose" none => parse (verbosity + 1) rest
    | .long "help" none => some (.help .overview)
    | .long "version" none => some .version
    | .long _ _ => none

/-! ## 3. Texts -/

/-- The text of `--version`. -/
def versionText : String := "axis 0.1.0\n"

/-- The text of help. -/
def helpText : HelpTopic → String
  | .run =>
    "Execute a program\n\nUsage: axis run [OPTIONS] <FILE>\n\nArguments:\n" ++
    "  <FILE>  JSON syntax tree to execute\n\nOptions:\n" ++
    "      --show-result    Print the final value of the program\n" ++
    "  -v, --verbose...     Increase log verbosity (-v info, -vv debug, -vvv trace)\n" ++
    "      --max-depth <N>  Maximum nested function calls\n" ++
    "      --config <PATH>  TOML run configuration\n" ++
    "  -h, --help           Print help\n"
  | .check =>
    "Validate a program without executing it\n\nUsage: axis check [OPTIONS] <FILE>\n\n" ++
    "Arguments:\n  <FILE>  JSON syntax tree to check\n\nOptions:\n" ++
    "  -v, --verbose...  Increase log verbosity (-v info, -vv debug, -vvv trace)\n" ++
    "  -h, --help        Print help\n"
  | .help =>
    "Print this message or the help of the given subcommand(s)\n\n" ++
    "Usage: axis help [COMMAND]...\n\nArguments:\n" ++
    "  [COMMAND]...  Print help for the subcommand(s)\n"
  | .overview =>
    "Axis - tree-walking interpreter\n\nUsage: axis [OPTIONS] <COMMAND>\n\nCommands:\n" ++
    "  run    Execute a program\n  check  Validate a program without executing it\n" ++
    "  help   Print this message or the help of the given subcommand(s)\n\nOptions:\n" ++
    "  -v, --verbose...  Increase log verbosity (-v info, -vv debug, -vvv trace)\n" ++
    "  -h, --help        Print help\n  -V, --version     Print version\n"

/-! ## 4. Execution -/

/-- What a command leaves behind. -/
structure Report where
  code : Nat
  output : String := ""
  errors : String := ""
  files : Files
  /-- The records that were asked for. -/
  log : List Record := []

/-- The report of a launch that was stopped. -/
def Report.failure (files : Files) (e : LaunchError) : Report where
  code := 1
  errors := "Error: " ++ e.display ++ "\n"
  files := files

/-- The report of arguments that are wrong. -/
def Report.usage (files : Files) : Report where
  code := 2
  errors := "error: invalid arguments\n\nFor more information, try '--help'.\n"
  files := files

/-- The settings of a run: those of the file, changed by the options. -/
def chooseSettings (files : Files) (showsResult : Bool) (callLimit : Option Nat)
    (settings : Option String) : Except LaunchError Settings := do
  let base ← match settings with
    | some path => Launch.settingsOfFile files path
    | none => pure {}
  return { callLimit := callLimit.getD base.callLimit,
           showsResult := showsResult || base.showsResult }

/-- The report of a run, from the files before it. -/
def reportRun (verbosity : Nat) (settings : Settings) (files : Files) : Outcome Value → Report
  | .done value st =>
    let result := if settings.showsResult && !value.isAbsent then
      "Result: " ++ value.toText ++ "\n" else ""
    { code := 0, output := st.console.text ++ result, files := st.files, log := logOf st }
  | .failed error st =>
    { Report.failure st.files (.program error) with output := st.console.text, log := logOf st }
  | .exhausted => { code := 1, errors := "Error: out of fuel\n", files := files }
where
  logOf (st : State) : List Record :=
    st.records.filter fun record => record.isWithin (Level.ofVerbosity verbosity)

/-- **Does what a command asks for**, in a directory. -/
def execute (fuel : Nat) (files : Files) : Command → Report
  | .version => { code := 0, output := versionText, files := files }
  | .help topic => { code := 0, output := helpText topic, files := files }
  | .check path =>
    match Launch.programOfFile files path with
    | .error e => .failure files e
    | .ok p =>
      let count := p.functionCount
      { code := 0, files := files,
        output := "✓ " ++ path ++ s!" is a well-formed program ({count} function(s))\n" }
  | .run verbosity path showsResult callLimit settings =>
    match chooseSettings files showsResult callLimit settings with
    | .error e => .failure files e
    | .ok settings =>
      match Launch.programOfFile files path with
      | .error e => .failure files e
      | .ok p =>
        let start : State := { files := files, log := [.started path p.statements.length] }
        reportRun verbosity settings files (Interpreter.execute settings.callLimit fuel p start)

/-- What the arguments of a command line lead to. -/
def run (fuel : Nat) (files : Files) (arguments : List String) : Report :=
  match parse 0 arguments with
  | some command => execute fuel files command
  | none => .usage files

end CommandLine

end TreeScript
