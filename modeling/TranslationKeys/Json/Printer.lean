import TranslationKeys.Json.Basic

/-!
# JSON text

A document is written in one of two layouts.  The compact layout has no blank
characters outside strings.  The pretty layout puts every item and every field
on a line of its own, indented by two spaces for each level.  Both write the
same marks in the same order.
-/

namespace TranslationKeys.Json

/-! ## Strings -/

def hexDigit (value : Nat) : Char :=
  Nat.digitChar (value % 16)

def stringChar (c : Char) : Text :=
  match c with
  | '\x22' => ['\\', '\x22']
  | '\\' => ['\\', '\\']
  | '\x08' => ['\\', 'b']
  | '\x0c' => ['\\', 'f']
  | '\n' => ['\\', 'n']
  | '\r' => ['\\', 'r']
  | '\t' => ['\\', 't']
  | c =>
      if c.toNat < 0x20 then
        ['\\', 'u', '0', '0', hexDigit (c.toNat / 16), hexDigit c.toNat]
      else
        [c]

def stringForm (value : Text) : Text :=
  '\x22' :: value.flatMap stringChar ++ ['\x22']

/-! ## Layouts -/

/-- What stands between the marks of a document. -/
structure Layout where
  /-- The break before an item or a closing bracket at some depth. -/
  lineBreak : Nat -> Text
  /-- The text after a colon. -/
  afterColon : Text

def Layout.compact : Layout :=
  ⟨fun _ => [], []⟩

/-- One line for each item and field, two spaces for each level. -/
def Layout.pretty : Layout :=
  ⟨fun depth => '\n' :: Text.spaces (2 * depth), [' ']⟩

mutual

/-- The text of a document at some depth. -/
def write (layout : Layout) (depth : Nat) : Json -> Text
  | .null => ['n', 'u', 'l', 'l']
  | .boolean true => ['t', 'r', 'u', 'e']
  | .boolean false => ['f', 'a', 'l', 's', 'e']
  | .number value => Text.natural value
  | .string value => stringForm value
  | .array [] => ['[', ']']
  | .array (item :: rest) =>
      '[' :: layout.lineBreak (depth + 1) ++
        (write layout (depth + 1) item ++
          (writeItems layout (depth + 1) rest ++ (layout.lineBreak depth ++ [']'])))
  | .object [] => ['{', '}']
  | .object ((name, value) :: rest) =>
      '{' :: layout.lineBreak (depth + 1) ++
        (stringForm name ++ (':' :: layout.afterColon ++
          (write layout (depth + 1) value ++
            (writeFields layout (depth + 1) rest ++ (layout.lineBreak depth ++ ['}'])))))

/-- The items of an array after the first, each behind its comma. -/
def writeItems (layout : Layout) (depth : Nat) : List Json -> Text
  | [] => []
  | item :: rest =>
      ',' :: layout.lineBreak depth ++
        (write layout depth item ++ writeItems layout depth rest)

/-- The fields of an object after the first, each behind its comma. -/
def writeFields (layout : Layout) (depth : Nat) : List (Text × Json) -> Text
  | [] => []
  | (name, value) :: rest =>
      ',' :: layout.lineBreak depth ++
        (stringForm name ++ (':' :: layout.afterColon ++
          (write layout depth value ++ writeFields layout depth rest)))

end

def compact (document : Json) : Text :=
  write .compact 0 document

/-- The pretty text of a document, without a line feed at its end. -/
def pretty (document : Json) : Text :=
  write .pretty 0 document

example : compact (.object [(['a'], .array [.null, .number 10])]) =
    ['{', '\x22', 'a', '\x22', ':', '[', 'n', 'u', 'l', 'l', ',', '1', '0', ']', '}'] := by
  decide

end TranslationKeys.Json
