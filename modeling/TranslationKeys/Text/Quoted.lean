import TranslationKeys.Text.Printable

/-!
# Quoted text

A text that a message cites stands between double quotes.  Backslashes,
quotes and line controls are escaped by a backslash and a letter.  Every other
character that is not printable is written by its code point.
-/

namespace TranslationKeys.Text

/-- How a quoted text writes the characters that have an escape of their own. -/
def shortEscape? : Char -> Option Char
  | '\x22' => some '\x22'
  | '\\' => some '\\'
  | '\n' => some 'n'
  | '\r' => some 'r'
  | '\t' => some 't'
  | '\x00' => some '0'
  | _ => none

/-- The form of one character between the quotes. -/
def quotedChar (c : Char) : Text :=
  match shortEscape? c with
  | some letter => ['\\', letter]
  | none =>
      if isPrintable c then [c]
      else ['\\', 'u', '{'] ++ Nat.toDigits 16 c.toNat ++ ['}']

def quoted (text : Text) : Text :=
  '\x22' :: text.flatMap quotedChar ++ ['\x22']

end TranslationKeys.Text
