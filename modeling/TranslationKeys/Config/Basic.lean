import TranslationKeys.Json.Printer

/-!
# Configuration

The settings of a project: the form of the results, whether the rules that are
entered are traced, and whether text after a call counts as a failure.
-/

namespace TranslationKeys

inductive ReportFormat where
  | text
  | json
  deriving DecidableEq, Repr

def ReportFormat.name : ReportFormat -> Text
  | .text => "text".toList
  | .json => "json".toList

def ReportFormat.ofName? (name : Text) : Option ReportFormat :=
  [ReportFormat.text, .json].find? fun format => format.name == name

/-- The settings of a project. -/
structure Config where
  format : ReportFormat
  trace : Bool
  denyTrailing : Bool
  deriving DecidableEq, Repr

namespace Config

/-- The settings of a project that has no configuration file. -/
def default : Config :=
  ⟨.text, false, false⟩

def fileName : Text :=
  ".i18nexprrc.json".toList

def toJson (config : Config) : Json :=
  .object [
    ("format".toList, .string config.format.name),
    ("trace".toList, .boolean config.trace),
    ("denyTrailing".toList, .boolean config.denyTrailing)]

/-- The text of a new configuration file. -/
def defaultText : Text :=
  default.toJson.pretty

end Config

end TranslationKeys
