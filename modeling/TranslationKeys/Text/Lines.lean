import TranslationKeys.Text.Bytes

/-!
# Lines

A line ends at a line feed or at the end of the text.  One carriage return
right before the line feed belongs to the line's end; any other carriage
return belongs to the line.  A text is divided as a whole.  A stream is read
one line at a time, and what is read each time has to be a text.

A line has content when it holds something besides white space, which is the
Unicode property White_Space.
-/

namespace TranslationKeys.Text

/-- The lines of a text, without their ends. -/
def lines : Text -> List Text
  | [] => []
  | '\n' :: rest => [] :: lines rest
  | '\r' :: '\n' :: rest => [] :: lines rest
  | c :: rest =>
      match lines rest with
      | [] => [[c]]
      | line :: more => (c :: line) :: more

/-! ## Lines of a stream -/

/-- The parts of a list, each of them up to the next mark and with it. -/
def splitAfter {α : Type} [DecidableEq α] (mark : α) : List α -> List (List α)
  | [] => []
  | item :: rest =>
      if item = mark then [item] :: splitAfter mark rest
      else
        match splitAfter mark rest with
        | [] => [[item]]
        | part :: more => (item :: part) :: more

def lineFeed : UInt8 :=
  0x0A

/-- A line that was read through its line feed, without its end. -/
def dropLineEnd (line : Text) : Text :=
  if line.getLast? == some '\n' then
    let body := line.dropLast
    if body.getLast? == some '\r' then body.dropLast else body
  else line

/-- The lines of a stream of bytes, if each of them is UTF-8. -/
def readLines? (bytes : ByteArray) : Option (List Text) :=
  (splitAfter lineFeed bytes.data.toList).mapM fun line =>
    (ofBytes? line.toByteArray).map dropLineEnd

/-! ## Lines with content -/

/-- The code points with the property White_Space. -/
def whiteSpaceRanges : List (Nat × Nat) :=
  [(0x09, 0x0D), (0x20, 0x20), (0x85, 0x85), (0xA0, 0xA0), (0x1680, 0x1680),
   (0x2000, 0x200A), (0x2028, 0x2029), (0x202F, 0x202F), (0x205F, 0x205F),
   (0x3000, 0x3000)]

/-- True of the characters with the property White_Space. -/
def isWhiteSpace (c : Char) : Bool :=
  inRanges whiteSpaceRanges c

def isBlank (text : Text) : Bool :=
  text.all isWhiteSpace

/-- The lines that hold something besides white space, unchanged and in order. -/
def withContent (lines : List Text) : List Text :=
  lines.filter fun line => !isBlank line

def contentLines (text : Text) : List Text :=
  withContent (lines text)

end TranslationKeys.Text
