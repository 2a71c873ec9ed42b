import TranslationKeys.Command.Arguments
import TranslationKeys.Command.Report
import TranslationKeys.Config.Search
import TranslationKeys.Text.Lines

/-!
# Runs

A run takes arguments, standard input and the directory it is started in, and
looks at the files.  It ends with a status and two texts, or with an error
before anything is written, or it is stopped while it reports.  The only thing
that it may change is to add a configuration file to its directory.
-/

namespace TranslationKeys

/-! ## Errors -/

inductive InternalError where
  | config (error : Config.LoadError)
  | inputFile (path : Path) (cause : FileError)
  | standardInput
  | newConfig (path : Path) (cause : FileError)
  deriving DecidableEq, Repr

/-- What is said about a path: the words, then the path as a quoted text. -/
def aboutPath (context : Text) (path : Path) : Text :=
  context ++ ": ".toList ++ Text.quoted path.text

/-- An error on one line.  The cause of a configuration that cannot be decoded is not part of it. -/
def InternalError.message : InternalError -> Text
  | .config (.unreadable path cause) =>
      aboutPath "Failed to read config file".toList path ++ ": ".toList ++ cause.message
  | .config (.undecodable path _) =>
      aboutPath "Failed to parse config file".toList path
  | .inputFile path cause =>
      aboutPath "Failed to read input file".toList path ++ ": ".toList ++ cause.message
  | .standardInput =>
      "Failed to read from stdin: ".toList ++ FileError.invalidText.message
  | .newConfig path cause =>
      aboutPath "Failed to write config file".toList path ++ ": ".toList ++ cause.message

/-! ## Inputs -/

/--
The inputs of a run: those among the arguments, then the lines of the file that
is named, which is read as a whole.  Standard input is read only if there is
neither, line by line.
-/
def gatherInputs (files : Files) (cwd : Location) (stdin : ByteArray)
    (options : ParseOptions) : Except InternalError (List Text) :=
  match options.file with
  | some name =>
      match files.readText cwd ⟨name⟩ with
      | .error cause => .error (.inputFile ⟨name⟩ cause)
      | .ok text => .ok (options.inputs ++ Text.contentLines text)
  | none =>
      if options.inputs.isEmpty then
        match Text.readLines? stdin with
        | none => .error .standardInput
        | some lines => .ok (Text.withContent lines)
      else
        .ok options.inputs

/-! ## Commands -/

/-- The outcomes of some inputs.  Options take precedence over the settings. -/
def summarize (config : Config) (options : ParseOptions) (inputs : List Text) : Summary where
  outcomes := inputs.map (Outcome.ofInput (options.trace || config.trace))
  format := options.format.getD config.format
  denyTrailing := options.denyTrailing || config.denyTrailing
  verbose := options.verbose

def runParse (files : Files) (cwd : Location) (stdin : ByteArray) (options : ParseOptions) :
    Except InternalError Completion := do
  match Config.load files cwd cwd.toPath with
  | .error error => .error (.config error)
  | .ok loaded =>
      let inputs <- gatherInputs files cwd stdin options
      .ok (.parsed (summarize loaded.config options inputs))

/--
The command `init` in some directory: the result, and the files after it.
Whatever stands at the path of the configuration file already stays as it is.
-/
def initIn (files : Files) (base : Location) (directory : Path) :
    Except InternalError (Completion × Files) :=
  let path := directory.join Config.fileName
  match files.locate base path with
  | .ok _ => .ok (.initialized false, files)
  | .error .notFound =>
      match files.create base path (Text.toBytes Config.defaultText) with
      | .error cause => .error (.newConfig path cause)
      | .ok after => .ok (.initialized true, after)
  | .error cause => .error (.newConfig path cause)

def runInit (files : Files) (cwd : Location) : Except InternalError (Completion × Files) :=
  initIn files cwd cwd.toPath

def helpLines : List String :=
  ["Parser for i18n translation-key expressions embedded in text",
    "",
    "Usage: i18n-expr [COMMAND]",
    "",
    "Commands:",
    "  parse  Parse i18n expressions and print the parse trees",
    "  init   Initialize a new .i18nexprrc.json configuration file",
    "  help   Print this message or the help of the given subcommand(s)",
    "",
    "Options:",
    "  -h, --help     Print help",
    "  -V, --version  Print version"]

/-- What is shown when no command is given. -/
def helpText : Text :=
  helpLines.flatMap fun line => line.toList ++ ['\n']

/-! ## Whole runs -/

structure Invocation where
  arguments : List Text
  stdin : ByteArray
  cwd : Location
  colour : Bool

inductive Ending where
  /-- The arguments ask for help or the version, or are wrong. -/
  | usage (error : UsageError)
  /-- The command could not be run. -/
  | internal (error : InternalError)
  /-- The report was stopped by an obstacle, with something written already. -/
  | unplaced {written : Output}
  /-- The command was run. -/
  | finished (status : Status) (output : Output)

/-- How a run ends that has a report to show. -/
def Report.ending (colour : Bool) (status : Status) (report : Report) : Ending :=
  match report.stop with
  | none => .finished status (report.render colour)
  | some _ => @Ending.unplaced (report.render colour)

/-- The end of a command with a result, where columns are counted by some measure. -/
def finishBy (measure : Text -> Nat) (colour : Bool) (result : Completion) : Ending :=
  (result.reportBy measure).ending colour result.status

/-- A whole run: how it ends, and the files after it. -/
def runBy (measure : Text -> Nat) (files : Files) (invocation : Invocation) : Ending × Files :=
  match Arguments.read invocation.arguments with
  | .error error => (.usage error, files)
  | .ok none => (.finished .success ⟨helpText, []⟩, files)
  | .ok (some (.parse options)) =>
      match runParse files invocation.cwd invocation.stdin options with
      | .error error => (.internal error, files)
      | .ok result => (finishBy measure invocation.colour result, files)
  | .ok (some .init) =>
      match runInit files invocation.cwd with
      | .error error => (.internal error, files)
      | .ok (result, after) => (finishBy measure invocation.colour result, after)

/-- A run of the program. -/
def run (files : Files) (invocation : Invocation) : Ending × Files :=
  runBy Text.displayWidth files invocation

end TranslationKeys
