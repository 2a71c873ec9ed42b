import TranslationKeys.Expr.Lexeme
import TranslationKeys.Expr.Reading

/-!
# Reading expressions

The grammar has four rules.

* An expression is a call, if a marker and a key start here, or else all the
  text that is left.
* A block is a sequence of parameters up to, but without, its closing brace.
* A parameter is a name, a colon, a value and an optional comma.
* A value is a string literal or a call.

At most 128 blocks may be open at once.  A repeated name keeps its last value
only, and commas may be left out.
-/

namespace TranslationKeys

open Lexeme

def maxOpenBlocks : Nat :=
  128

/-! ## Rules -/

/-- The value that a nested expression gives: plain text can never be one. -/
def nestedValue (node : Node) (rest : Text) : Reading Value :=
  match node with
  | .translate call => .done (.nested call) rest
  | .literal _ => .fail .missingTerminator rest

/-- A value: a string literal, or the call that a nested expression gives. -/
def readValue (nested : Text -> Reading Node) (text : Text) : Reading Value :=
  if text.head? = some '\x22' then
    match stringLiteral? text with
    | some (raw, rest) => .done (.literal raw) rest
    | none => .fail .malformedStringLiteral text
  else
    (nested text).andThen nestedValue

def readParam (nested : Text -> Reading Node) (depth : Nat) (text : Text) :
    Reading (Text × Value) :=
  .entered ⟨depth, .param, text⟩ <|
    match paramName? text with
    | none => .fail .malformedKey text
    | some (name, rest) =>
        (readValue nested rest).andThen fun value rest =>
          .done (name, value) (skipSeparator rest)

/--
The parameters up to the closing brace, added to those that are given.  The
bound is a text with a character for each parameter that may still be read.  The
text itself is long enough, because a parameter takes more than one character.
-/
def readParams (nested : Text -> Reading Node) (depth : Nat) :
    Text -> Params -> Text -> Reading Params
  | [], _, text => .fail .missingTerminator text
  | _ :: bound, params, text =>
      match skipSpacing text with
      | [] => .fail .missingTerminator []
      | c :: more =>
          if c = '}' then .done params (c :: more)
          else
            (readParam nested depth (c :: more)).andThen fun param rest =>
              readParams nested depth bound (params.insert param.1 param.2) rest

def readBlock (nested : Text -> Reading Node) (depth : Nat) (text : Text) : Reading Params :=
  .entered ⟨depth, .params, text⟩ (readParams nested (depth + 1) text .nil text)

/-- The call of a key and a block, once the closing brace of the block is taken. -/
def closeBlock (key : Text) (params : Params) (rest : Text) : Reading Node :=
  match rest with
  | '}' :: after => .done (.translate (.block key params)) after
  | _ => .fail .missingTerminator rest

/-- The call of a key, with a block if an opening brace comes next. -/
def readCall (openBlock : Text -> Reading Params) (key rest : Text) : Reading Node :=
  match rest with
  | '{' :: inner => (openBlock inner).andThen (closeBlock key)
  | _ => .done (.translate (.bare key)) rest

/-- An expression at some depth, given how its block is read. -/
def readExpressionWith (openBlock : Text -> Reading Params) (depth : Nat) (text : Text) :
    Reading Node :=
  .entered ⟨depth, .expression, text⟩ <|
    match callKey? text with
    | none => .done (.literal text) []
    | some (key, rest) => readCall openBlock key rest

/-- The depth of an expression inside which so many more blocks may be opened. -/
def expressionDepth (free : Nat) : Nat :=
  3 * (maxOpenBlocks - free)

/-- An expression inside which so many more blocks may be opened. -/
def readExpression : Nat -> Text -> Reading Node
  | 0 => readExpressionWith (.fail .nestingTooDeep) (expressionDepth 0)
  | free + 1 =>
      readExpressionWith (readBlock (readExpression free) (expressionDepth (free + 1) + 1))
        (expressionDepth (free + 1))

/-! ## Whole inputs -/

/-- The end of an input: text that a call leaves is reported, but the call stands. -/
def readEnd (node : Node) (rest : Text) : Reading Node :=
  if rest.isEmpty then .done node rest else .noted .trailingInput node rest

/-- A whole input: an expression with no block open, and the end. -/
def readInput (input : Text) : Reading Node :=
  (readExpression maxOpenBlocks input).andThen readEnd

def diagnosticMessage (kind : Diagnostic.Kind) (rest : Text) : Text :=
  match kind with
  | .missingTerminator => "Expected a terminal '\x7d'".toList
  | .malformedKey => "Expected param key".toList
  | .malformedStringLiteral =>
      "Expect the string from '".toList ++ rest ++
        "' starts a double-quoted string".toList
  | .nestingTooDeep =>
      "Parameter blocks nested deeper than ".toList ++ Text.natural maxOpenBlocks ++
        " levels".toList
  | .trailingInput => "Trailing strings".toList

def offsetOf (input rest : Text) : Nat :=
  Text.byteLength input - Text.byteLength rest

/-- A finding about an input as a diagnostic. -/
def diagnosticAt (input : Text) (finding : Finding) : Diagnostic where
  kind := finding.kind
  offset := offsetOf input finding.rest
  message := diagnosticMessage finding.kind finding.rest
  remainder := if finding.rest.isEmpty then none else some finding.rest

structure Parsed where
  result : Except ParseError Node
  diagnostics : List Diagnostic
  trace : List RuleEntry

def parse (input : Text) : Parsed :=
  let reading := readInput input
  { result :=
      match reading.outcome with
      | .error failure => .error ⟨failure.kind, offsetOf input failure.rest⟩
      | .ok (node, _) => .ok node
    diagnostics := reading.reports.map (diagnosticAt input)
    trace := reading.entries }

/-- The tree of an input, if it has one. -/
def Node.parse? (input : Text) : Option Node :=
  (parse input).result.toOption

end TranslationKeys
