import TranslationKeys.Command.Run

/-!
# Endings

How a run ends decides which texts it writes and with which code it exits.  A
run that could not be carried out writes one line that says why, and nothing to
standard output.  A run that was stopped has written everything in front of the
obstacle, and what is said about the stop follows it.

Some of the texts come from the libraries that read the arguments and the
configuration, and from the language itself.  They are left open.
-/

namespace TranslationKeys

/-- The texts that are not the program's own. -/
structure Wording where
  /-- What is written for arguments that ask for help or the version, or are wrong. -/
  usage : UsageError -> Output
  /-- What is said about a text that is no configuration. -/
  undecodable : DecodeError -> Text
  /-- What is said when a run is stopped. -/
  stopped : Text

/-- An error with all its causes. -/
def InternalError.fullMessage (wording : Wording) (error : InternalError) : Text :=
  match error with
  | .config (.undecodable _ cause) =>
      error.message ++ ": ".toList ++ wording.undecodable cause
  | _ => error.message

/-- What a run writes to its two streams. -/
def Ending.output (wording : Wording) : Ending -> Output
  | .usage error => wording.usage error
  | .internal error => ⟨[], "Error: ".toList ++ error.fullMessage wording ++ ['\n']⟩
  | @unplaced written => ⟨written.stdout, written.stderr ++ wording.stopped⟩
  | .finished _ output => output

def Ending.isStopped : Ending -> Bool
  | .unplaced => true
  | _ => false

/-- The exit code of a run that is stopped. -/
def stoppedCode : Nat :=
  101

/-- The code that a run exits with. -/
def Ending.exitCode : Ending -> Nat
  | .usage error => error.status.code
  | .internal _ => Status.error.code
  | .unplaced => stoppedCode
  | .finished status _ => status.code

end TranslationKeys
