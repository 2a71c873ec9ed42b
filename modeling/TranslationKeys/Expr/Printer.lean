import TranslationKeys.Expr.Basic
import TranslationKeys.Json.Basic

/-!
# Written forms of expressions

An expression is written in its own notation, `i18n:key{name: value, name: value}`,
or as a JSON document.  In the notation a block without entries is written `{}`,
and a key without a block is written bare.
-/

namespace TranslationKeys

/-- The mark that introduces a call. -/
def marker : Text :=
  ['i', '1', '8', 'n', ':']

/-! ## The notation -/

mutual

def Call.render : Call -> Text
  | .bare key => marker ++ key
  | .block key params => marker ++ (key ++ ('{' :: (params.render [] ++ ['}'])))

/-- The entries of a block in the notation, the first one behind the given text. -/
def Params.render (separator : Text) : Params -> Text
  | .nil => []
  | .cons name value rest =>
      separator ++ (name ++ (':' :: ' ' :: (value.render ++ rest.render [',', ' '])))

def Value.render : Value -> Text
  | .literal raw => raw
  | .nested call => call.render

end

def Node.render : Node -> Text
  | .literal text => text
  | .translate call => call.render

/-! ## The document -/

mutual

/-- A call as an object of its key and, if it has a block, its parameters. -/
def Call.toJson : Call -> Json
  | .bare key => .object [(['k', 'e', 'y'], .string key)]
  | .block key params =>
      .object [(['k', 'e', 'y'], .string key),
        (['p', 'a', 'r', 'a', 'm', 's'], .object params.toFields)]

def Params.toFields : Params -> List (Text × Json)
  | .nil => []
  | .cons name value rest => (name, value.toJson) :: rest.toFields

def Value.toJson : Value -> Json
  | .literal raw => .string raw
  | .nested call => call.toJson

end

def Params.toJson (params : Params) : Json :=
  .object params.toFields

def Node.toJson : Node -> Json
  | .literal text => .string text
  | .translate call => call.toJson

end TranslationKeys
