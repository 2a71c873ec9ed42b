import TranslationKeys.Text.Basic

/-!
# JSON documents

The documents that the library writes.  Numbers are natural numbers, and the
fields of an object keep their order.
-/

namespace TranslationKeys

/-- A JSON document. -/
inductive Json where
  | null
  | boolean (value : Bool)
  | number (value : Nat)
  | string (value : Text)
  | array (items : List Json)
  | object (fields : List (Text × Json))
  deriving Repr

end TranslationKeys
