import TranslationKeys.Config.Basic
import TranslationKeys.Json.Decoder
import TranslationKeys.Text.Quoted

/-!
# Decoding configuration files

A configuration is an object with the fields `format`, `trace` and
`denyTrailing`, or an array of their values in that order.  Fields that are
missing take their defaults, and unknown fields are skipped.  A known field may
stand only once.  A format is a string, or an object of its name and null.  What is
read for the name in such an object is a parameter of the decoders.
-/

namespace TranslationKeys.Config

open Decoder

/-! ## Problems of shape -/

def invalidType (found expected : Text) : DecodeError :=
  .wrongShape ("invalid type: ".toList ++ found ++ ", expected ".toList ++ expected)

def unknownFormat (name : Text) : DecodeError :=
  .wrongShape ("unknown variant `".toList ++ name ++ "`, expected `text` or `json`".toList)

def duplicateField (name : Text) : DecodeError :=
  .wrongShape ("duplicate field `".toList ++ name ++ ['\x60'])

/--
The words for a value of the wrong type whose first character is already taken.
Literals, strings and numbers are read to their end, brackets are not entered.
-/
def describeValue (first : Char) : Decoder Text := do
  if first == 'n' then
    literal ['u', 'l', 'l']
    return "null".toList
  else if first == 't' then
    literal ['r', 'u', 'e']
    return "boolean `true`".toList
  else if first == 'f' then
    literal ['a', 'l', 's', 'e']
    return "boolean `false`".toList
  else if first == '\x22' then
    let body <- keptString
    return "string ".toList ++ Text.quoted body
  else if first == '[' then
    return "sequence".toList
  else if first == '{' then
    return "map".toList
  else if first == '-' || first.isDigit then
    let number <- numeral .cutOff first
    match number.describe? with
    | some words => return words
    | none => throw .malformed
  else throw .malformed

/-- Reject a value of the wrong type whose first character is already taken. -/
def rejectType {α : Type} (first : Char) (expected : Text) : Decoder α := do
  let found <- describeValue first
  throw (invalidType found expected)

/-! ## Values of fields -/

def decodeBoolean : Decoder Bool := do
  let c <- takeToken
  if c == 't' then
    literal ['r', 'u', 'e']
    return true
  else if c == 'f' then
    literal ['a', 'l', 's', 'e']
    return false
  else rejectType c "a boolean".toList

def decodeNull : Decoder Unit := do
  let c <- takeToken
  if c == 'n' then literal ['u', 'l', 'l']
  else rejectType c "unit".toList

/-- The format of a name, after the opening quote of the name. -/
def decodeFormatName : Decoder ReportFormat := do
  let name <- keptString
  match ReportFormat.ofName? name with
  | some format => return format
  | none => throw (unknownFormat name)

/--
What is read for the name of a format in an object.  It is a key, which can only be
a string, or any value, and then one that is no string has the wrong type.
-/
inductive KeyRule where
  | key
  | value (expected : Text)
  deriving DecidableEq, Repr

/-- Reject what is no string and whose first character is already taken. -/
def KeyRule.reject {α : Type} : KeyRule -> Char -> Decoder α
  | .key, _ => throw .malformed
  | .value expected, first => rejectType first expected

def decodeFormatKey (rule : KeyRule) : Decoder ReportFormat := do
  let c <- takeToken
  if c == '\x22' then decodeFormatName
  else rule.reject c

/-- An object of the name of a format and null, after its opening brace. -/
def decodeFormatObject (rule : KeyRule) : Decoder ReportFormat := do
  let format <- decodeFormatKey rule
  expectToken ':'
  decodeNull
  expectToken '}'
  return format

/-- A format: its name, or an object of its name and null. -/
def decodeFormat (rule : KeyRule) : Decoder ReportFormat := do
  let c <- takeToken
  if c == '\x22' then decodeFormatName
  else if c == '{' then decodeFormatObject rule
  else throw .malformed

/-! ## Objects -/

structure Fields where
  format : Option ReportFormat
  trace : Option Bool
  denyTrailing : Option Bool
  deriving DecidableEq, Repr

def Fields.empty : Fields :=
  ⟨none, none, none⟩

/-- The settings of some fields: what is missing takes its default. -/
def Fields.toConfig (fields : Fields) : Config where
  format := fields.format.getD default.format
  trace := fields.trace.getD default.trace
  denyTrailing := fields.denyTrailing.getD default.denyTrailing

def checkNew {α : Type} (name : Text) (old : Option α) : Decoder Unit :=
  if old.isSome then throw (duplicateField name) else pure ()

/-- A field after the opening quote of its name.  A repeated field is rejected at once. -/
def decodeField (rule : KeyRule) (fields : Fields) : Decoder Fields := do
  let name <- keptString
  if name == "format".toList then
    checkNew name fields.format
    expectToken ':'
    let format <- decodeFormat rule
    return { fields with format := some format }
  else if name == "trace".toList then
    checkNew name fields.trace
    expectToken ':'
    let trace <- decodeBoolean
    return { fields with trace := some trace }
  else if name == "denyTrailing".toList then
    checkNew name fields.denyTrailing
    expectToken ':'
    let denyTrailing <- decodeBoolean
    return { fields with denyTrailing := some denyTrailing }
  else
    expectToken ':'
    skipValue
    return fields

/--
The fields after the first one, up to the closing brace.  The bound is a text
with a character for each step.  Every step takes at least one character, so the
text itself is long enough.
-/
def decodeFields (rule : KeyRule) : Text -> Fields -> Decoder Fields
  | [], _ => throw .cutOff
  | _ :: bound, fields => do
      let c <- takeToken
      if c == '}' then return fields
      else if c == ',' then
        expectToken '\x22'
        let fields <- decodeField rule fields
        decodeFields rule bound fields
      else throw .malformed

def decodeMore (rule : KeyRule) (fields : Fields) : Decoder Fields := fun text =>
  decodeFields rule text fields text

def decodeObject (rule : KeyRule) : Decoder Config := do
  let c <- takeToken
  if c == '}' then return default
  else if c == '\x22' then
    let first <- decodeField rule .empty
    let fields <- decodeMore rule first
    return fields.toConfig
  else throw .malformed

/-! ## Arrays -/

/--
The next item of an array, unless the array ends here.  An item after the first
needs a comma in front.
-/
def nextItem? {α : Type} (first : Bool) (item : Decoder α) : Decoder (Option α) := do
  let c <- peekToken
  if c == ']' then return none
  else if first then some <$> item
  else if c == ',' then
    let _ <- take
    let next <- peekToken
    require (next != ']')
    some <$> item
  else throw .malformed

def decodeArray (rule : KeyRule) : Decoder Config := do
  let format <- nextItem? true (decodeFormat rule)
  let trace <- nextItem? false decodeBoolean
  let denyTrailing <- nextItem? false decodeBoolean
  expectToken ']'
  return Fields.toConfig ⟨format, trace, denyTrailing⟩

/-! ## Whole texts -/

def decodeConfig (rule : KeyRule) : Decoder Config := do
  let c <- takeToken
  if c == '{' then decodeObject rule
  else if c == '[' then decodeArray rule
  else rejectType c "struct Config".toList

def atEnd : Decoder Unit := do
  skipBlank
  let rest <- get
  require rest.isEmpty

def decodeWhole (rule : KeyRule) : Decoder Config := do
  let config <- decodeConfig rule
  atEnd
  return config

def decodeBy (rule : KeyRule) (text : Text) : Except DecodeError Config :=
  (decodeWhole rule).run' text

/--
The settings that a text holds, and nothing else.  The program reads the name of a
format in an object as a key: it rejects `{"format": {[]: null}}` as malformed, not as
of a wrong shape, and `{"format": {nul` as malformed, not as cut off.
-/
def decode (text : Text) : Except DecodeError Config :=
  decodeBy .key text

end TranslationKeys.Config
