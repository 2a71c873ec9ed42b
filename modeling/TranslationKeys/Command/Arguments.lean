import TranslationKeys.Command.Outcome

/-!
# Arguments

The first argument names a command.  The arguments of `parse` are inputs and
options in any order, and everything after `--` is an input.  An option that
needs a value takes the next word.  Its value is looked at only when the next
input or known option comes, or at the end, so an unknown option wins over a
wrong value in front of it.
-/

namespace TranslationKeys

/-! ## Commands -/

/-- What `parse` is asked to do. -/
structure ParseOptions where
  inputs : List Text
  file : Option Text
  format : Option ReportFormat
  trace : Bool
  denyTrailing : Bool
  verbose : Bool
  deriving DecidableEq, Repr

def ParseOptions.empty : ParseOptions :=
  ⟨[], none, none, false, false, false⟩

inductive Command where
  | parse (options : ParseOptions)
  | init
  deriving DecidableEq, Repr

/-- Why no command is run: help or the version is shown, or the arguments are wrong. -/
inductive UsageError where
  | displayHelp
  | displayVersion
  | invalidSubcommand
  | unknownArgument
  | invalidValue
  | argumentConflict
  | tooManyValues
  deriving DecidableEq, Repr

def UsageError.status : UsageError -> Status
  | .displayHelp => .success
  | .displayVersion => .success
  | _ => .error

namespace Arguments

/-! ## Words -/

/-- The four forms of an argument. -/
inductive Word where
  | plain (text : Text)
  | separator
  | long (name : Text) (value : Option Text)
  | short (letters : Text)
  deriving DecidableEq, Repr

/-- The form of an argument.  A lone hyphen is a plain word. -/
def Word.ofText : Text -> Word
  | ['-', '-'] => .separator
  | '-' :: '-' :: rest =>
      match rest.dropWhile (· != '=') with
      | '=' :: value => .long (rest.takeWhile (· != '=')) (some value)
      | _ => .long rest none
  | '-' :: letter :: more => .short (letter :: more)
  | text => .plain text

/-! ## Options -/

inductive Flag where
  | trace
  | denyTrailing
  | verbose
  deriving DecidableEq, Repr

inductive Setting where
  | file
  | format
  deriving DecidableEq, Repr

inductive Switch where
  | help
  | flag (flag : Flag)
  | setting (setting : Setting)
  deriving DecidableEq, Repr

def longNames : List (Text × Switch) :=
  [("help".toList, .help),
    ("trace".toList, .flag .trace),
    ("deny-trailing".toList, .flag .denyTrailing),
    ("verbose".toList, .flag .verbose),
    ("file".toList, .setting .file),
    ("format".toList, .setting .format)]

def Switch.ofLong? (name : Text) : Option Switch :=
  longNames.lookup name

def Switch.ofLetter? : Char -> Option Switch
  | 'h' => some .help
  | 'v' => some (.flag .verbose)
  | 'f' => some (.setting .file)
  | _ => none

/-! ## Values -/

/-- Turn a flag on.  It may be turned on only once. -/
def raise (options : ParseOptions) : Flag -> Except UsageError ParseOptions
  | .trace =>
      if options.trace then .error .argumentConflict
      else .ok { options with trace := true }
  | .denyTrailing =>
      if options.denyTrailing then .error .argumentConflict
      else .ok { options with denyTrailing := true }
  | .verbose =>
      if options.verbose then .error .argumentConflict
      else .ok { options with verbose := true }

/-- Give an option its value.  A second value is a conflict, whatever it is. -/
def assign (options : ParseOptions) (setting : Setting) (value : Text) :
    Except UsageError ParseOptions :=
  match setting with
  | .file =>
      if options.file.isSome then .error .argumentConflict
      else if value.isEmpty then .error .invalidValue
      else .ok { options with file := some value }
  | .format =>
      if options.format.isSome then .error .argumentConflict
      else
        match ReportFormat.ofName? value with
        | none => .error .invalidValue
        | some format => .ok { options with format := some format }

/-! ## Scanning -/

/-- An option that waits for its value, or for its value to be looked at. -/
structure Pending where
  setting : Setting
  value : Option Text
  deriving DecidableEq, Repr

/-- The options so far, and the option whose value is still open. -/
structure Scan where
  options : ParseOptions
  pending : Option Pending
  deriving DecidableEq, Repr

namespace Scan

/-- The options once the open value is looked at. -/
def settle (scan : Scan) : Except UsageError ParseOptions :=
  match scan.pending with
  | none => .ok scan.options
  | some ⟨_, none⟩ => .error .invalidValue
  | some ⟨setting, some value⟩ => assign scan.options setting value

/-- Take a plain word: as the value that is waited for, or as an input. -/
def takePlain (scan : Scan) (text : Text) : Except UsageError Scan :=
  match scan.pending with
  | some ⟨setting, none⟩ => .ok { scan with pending := some ⟨setting, some text⟩ }
  | _ => do
      let options <- scan.settle
      .ok ⟨{ options with inputs := options.inputs ++ [text] }, none⟩

def takeFlag (scan : Scan) (flag : Flag) : Except UsageError Scan := do
  let options <- scan.settle
  .ok ⟨<- raise options flag, none⟩

def takeAssigned (scan : Scan) (setting : Setting) (value : Text) :
    Except UsageError Scan := do
  let options <- scan.settle
  .ok ⟨<- assign options setting value, none⟩

def takeOpen (scan : Scan) (setting : Setting) : Except UsageError Scan := do
  let options <- scan.settle
  .ok ⟨options, some ⟨setting, none⟩⟩

def takeHelp (scan : Scan) : Except UsageError Scan := do
  let _ <- scan.settle
  .error .displayHelp

def takeLong (scan : Scan) (name : Text) (value : Option Text) : Except UsageError Scan :=
  match Switch.ofLong? name, value with
  | none, _ => .error .unknownArgument
  | some .help, none => scan.takeHelp
  | some (.flag flag), none => scan.takeFlag flag
  | some (.setting setting), none => scan.takeOpen setting
  | some (.setting setting), some value => scan.takeAssigned setting value
  | some _, some _ => .error .tooManyValues

/-- Take a group of letters.  The rest of a group is the value of a letter that needs one. -/
def takeLetters (scan : Scan) : Text -> Except UsageError Scan
  | [] => .ok scan
  | letter :: rest =>
      match Switch.ofLetter? letter with
      | none => .error .unknownArgument
      | some .help => scan.takeHelp
      | some (.flag flag) => do
          let next <- scan.takeFlag flag
          next.takeLetters rest
      | some (.setting setting) =>
          match rest with
          | [] => scan.takeOpen setting
          | '=' :: value => scan.takeAssigned setting value
          | value => scan.takeAssigned setting value

def takeAll (scan : Scan) : List Text -> Except UsageError ParseOptions
  | [] => scan.settle
  | argument :: rest =>
      match Word.ofText argument with
      | .separator => do
          let options <- scan.settle
          .ok { options with inputs := options.inputs ++ rest }
      | .plain text => do
          let next <- scan.takePlain text
          next.takeAll rest
      | .long name value => do
          let next <- scan.takeLong name value
          next.takeAll rest
      | .short letters => do
          let next <- scan.takeLetters letters
          next.takeAll rest

end Scan

/-! ## Command lines -/

/-- The problem with an option of a command that knows nothing but help. -/
def helpOnly : Word -> UsageError
  | .long name value =>
      if name != "help".toList then .unknownArgument
      else if value.isSome then .tooManyValues
      else .displayHelp
  | .short ('h' :: _) => .displayHelp
  | _ => .unknownArgument

/-- The command `init` takes no arguments. -/
def readInit : List Text -> Except UsageError Command
  | [] => .ok .init
  | first :: rest =>
      match Word.ofText first with
      | .separator => if rest.isEmpty then .ok .init else .error .unknownArgument
      | word => .error (helpOnly word)

def commandNames : List Text :=
  ["parse".toList, "init".toList, "help".toList]

/-- The command `help` takes at most one command name. -/
def readHelp : List Text -> UsageError
  | [] => .displayHelp
  | [name] => if commandNames.contains name then .displayHelp else .invalidSubcommand
  | _ => .invalidSubcommand

/-- The problem with an option in front of any command. -/
def readGlobal : Word -> UsageError
  | .long name value =>
      if name = "version".toList then
        if value.isSome then .tooManyValues else .displayVersion
      else helpOnly (.long name value)
  | .short ('V' :: _) => .displayVersion
  | word => helpOnly word

/-- What follows a separator that stands in front of any command can never name one. -/
def readSeparated : List Text -> Except UsageError (Option Command)
  | [] => .ok none
  | name :: _ =>
      if commandNames.contains name then .error .unknownArgument
      else .error .invalidSubcommand

/-- The command that some arguments ask for, if they ask for one. -/
def read : List Text -> Except UsageError (Option Command)
  | [] => .ok none
  | first :: rest =>
      match Word.ofText first with
      | .separator => readSeparated rest
      | .plain name =>
          if name = "parse".toList then do
            let options <- Scan.takeAll ⟨.empty, none⟩ rest
            .ok (some (.parse options))
          else if name = "init".toList then some <$> readInit rest
          else if name = "help".toList then .error (readHelp rest)
          else .error .invalidSubcommand
      | word => .error (readGlobal word)

end Arguments

end TranslationKeys
