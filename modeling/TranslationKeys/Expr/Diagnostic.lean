import TranslationKeys.Json.Basic

/-!
# Diagnostics

A diagnostic says what is wrong with an input and at which byte offset.  All
kinds but one mean that the input cannot be read.  Text after a complete call is
reported as well, but the call stands.
-/

namespace TranslationKeys

/-- What can be wrong with an input. -/
inductive Diagnostic.Kind where
  | missingTerminator
  | malformedKey
  | malformedStringLiteral
  | nestingTooDeep
  | trailingInput
  deriving DecidableEq, Repr

namespace Diagnostic.Kind

/-- True of the kinds that leave the input unread. -/
def isFatal : Diagnostic.Kind -> Bool
  | .trailingInput => false
  | _ => true

def name : Diagnostic.Kind -> Text
  | .missingTerminator => "missing-terminator".toList
  | .malformedKey => "malformed-key".toList
  | .malformedStringLiteral => "malformed-string-literal".toList
  | .nestingTooDeep => "nesting-too-deep".toList
  | .trailingInput => "trailing-input".toList

def fieldName : Diagnostic.Kind -> Text
  | .missingTerminator => "missingTerminator".toList
  | .malformedKey => "malformedKey".toList
  | .malformedStringLiteral => "malformedStringLiteral".toList
  | .nestingTooDeep => "nestingTooDeep".toList
  | .trailingInput => "trailingInput".toList

end Diagnostic.Kind

/-- A finding about an input. -/
structure Diagnostic where
  kind : Diagnostic.Kind
  /-- Number of bytes before the place of the finding. -/
  offset : Nat
  message : Text
  /-- The text at the offset, absent at the end of the input. -/
  remainder : Option Text
  deriving DecidableEq, Repr

namespace Diagnostic

def shownRemainder (diagnostic : Diagnostic) : Text :=
  diagnostic.remainder.getD "<end-of-file>".toList

/-- A diagnostic as two lines: the place with the message, then the text found there. -/
def render (diagnostic : Diagnostic) : Text :=
  "[0:".toList ++ Text.natural diagnostic.offset ++ "]: ".toList ++ diagnostic.message ++
    "\nCurrent location is: '".toList ++ diagnostic.shownRemainder ++ ['\x27']

def toJson (diagnostic : Diagnostic) : Json :=
  .object [
    ("kind".toList, .string diagnostic.kind.fieldName),
    ("offset".toList, .number diagnostic.offset),
    ("message".toList, .string diagnostic.message),
    ("remainder".toList, (diagnostic.remainder.map Json.string).getD .null)]

end Diagnostic

/-- The reason why an input has no tree, and the byte offset where it shows. -/
structure ParseError where
  kind : Diagnostic.Kind
  offset : Nat
  deriving DecidableEq, Repr

def ParseError.render (error : ParseError) : Text :=
  error.kind.name ++ " at offset ".toList ++ Text.natural error.offset

end TranslationKeys
