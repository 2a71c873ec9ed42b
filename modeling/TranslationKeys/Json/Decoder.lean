import TranslationKeys.Number.Numeral

/-!
# Reading JSON text

Decoders read a text from left to right and stop at the first problem.  A
problem is a character that cannot stand where it stands, an end of the text
where more is needed, or a value of the wrong shape.

This file reads the lexemes of JSON, strictly: literals, strings and numbers.
It also skips whole values, however deep, without building them.
-/

namespace TranslationKeys

/-- Why a text cannot be decoded. -/
inductive DecodeError where
  /-- A value that is not the one that is expected. -/
  | wrongShape (message : Text)
  /-- A character that cannot stand where it stands. -/
  | malformed
  /-- The end of the text where more is needed. -/
  | cutOff
  deriving DecidableEq, Repr

/-- A decoder takes characters off the front of a text and gives a value. -/
abbrev Decoder (α : Type) := StateT Text (Except DecodeError) α

namespace Decoder

variable {α : Type}

/-! ## Characters -/

def isJsonSpace (c : Char) : Bool :=
  c == ' ' || c == '\n' || c == '\t' || c == '\r'

def skipBlank : Decoder Unit := fun text =>
  .ok ((), text.dropWhile isJsonSpace)

/-- The next character, which stays; the text must not end here. -/
def peek : Decoder Char := fun text =>
  match text with
  | [] => .error .cutOff
  | c :: _ => .ok (c, text)

/-- Take the next character; the text must not end here. -/
def take : Decoder Char := fun text =>
  match text with
  | [] => .error .cutOff
  | c :: rest => .ok (c, rest)

def peekToken : Decoder Char := do
  skipBlank
  peek

def takeToken : Decoder Char := do
  skipBlank
  take

def takeIf? (wanted : Char -> Bool) : Decoder (Option Char) := fun text =>
  match text with
  | [] => .ok (none, [])
  | c :: rest => if wanted c then .ok (some c, rest) else .ok (none, text)

def require (condition : Bool) : Decoder Unit :=
  if condition then pure () else throw .malformed

def expectToken (wanted : Char) : Decoder Unit := do
  let c <- takeToken
  require (c == wanted)

def literal : Text -> Decoder Unit
  | [] => pure ()
  | wanted :: more => do
      let c <- take
      require (c == wanted)
      literal more

/-! ## Strings -/

def hexValue? (c : Char) : Option Nat :=
  if '0' <= c && c <= '9' then some (c.toNat - '0'.toNat)
  else if 'a' <= c && c <= 'f' then some (c.toNat - 'a'.toNat + 10)
  else if 'A' <= c && c <= 'F' then some (c.toNat - 'A'.toNat + 10)
  else none

def hexUnit? (a b c d : Char) : Option Nat := do
  some ((((<- hexValue? a) * 16 + (<- hexValue? b)) * 16 + (<- hexValue? c)) * 16 +
    (<- hexValue? d))

def shortEscape? : Char -> Option Char
  | '\x22' => some '\x22'
  | '\\' => some '\\'
  | '/' => some '/'
  | 'b' => some '\x08'
  | 'f' => some '\x0c'
  | 'n' => some '\n'
  | 'r' => some '\r'
  | 't' => some '\t'
  | _ => none

/-- The problem with fewer than four digits of an escape, or with four wrong ones. -/
def hexProblem (rest : Text) : DecodeError :=
  if Text.byteLength rest < 4 then .cutOff else .malformed

def isLeadUnit (value : Nat) : Bool :=
  0xD800 <= value && value < 0xDC00

def isTrailUnit (value : Nat) : Bool :=
  0xDC00 <= value && value < 0xE000

def pairedChar (lead trail : Nat) : Char :=
  Char.ofNat (0x10000 + (lead - 0xD800) * 0x400 + (trail - 0xDC00))

def consResult (c : Char) (result : Except DecodeError (Text × Text)) :
    Except DecodeError (Text × Text) :=
  result.map fun (body, rest) => (c :: body, rest)

/--
The rest of a string after its opening quote.  A string that is kept must write
every character outside the first plane as a pair of code units.  A string that
is skipped may hold any code units.
-/
def stringBody (kept : Bool) : Text -> Except DecodeError (Text × Text)
  | [] => .error .cutOff
  | '\x22' :: rest => .ok ([], rest)
  | ['\\'] => .error .cutOff
  | '\\' :: 'u' :: a :: b :: c :: d :: rest =>
      match hexUnit? a b c d with
      | none => .error .malformed
      | some unit =>
          if kept && isTrailUnit unit then .error .malformed
          else if kept && isLeadUnit unit then
            match rest with
            | [] => .error .cutOff
            | ['\\'] => .error .cutOff
            | '\\' :: 'u' :: e :: f :: g :: h :: rest =>
                match hexUnit? e f g h with
                | none => .error .malformed
                | some trail =>
                    if isTrailUnit trail then
                      consResult (pairedChar unit trail) (stringBody kept rest)
                    else .error .malformed
            | '\\' :: 'u' :: rest => .error (hexProblem rest)
            | _ => .error .malformed
          else consResult (Char.ofNat unit) (stringBody kept rest)
  | '\\' :: 'u' :: rest => .error (hexProblem rest)
  | '\\' :: letter :: rest =>
      match shortEscape? letter with
      | none => .error .malformed
      | some c => consResult c (stringBody kept rest)
  | c :: rest =>
      if c.toNat < 0x20 then .error .malformed
      else consResult c (stringBody kept rest)

/-- A string that is kept, after its opening quote. -/
def keptString : Decoder Text :=
  stringBody true

def skippedString : Decoder Unit := do
  let _ <- (stringBody false : Decoder Text)

/-! ## Numbers -/

def digits : Decoder Text := fun text =>
  .ok (text.takeWhile Char.isDigit, text.dropWhile Char.isDigit)

/-- One digit; the given problem arises where the text ends instead. -/
def digit (missing : DecodeError) : Decoder Char := fun text =>
  match text with
  | [] => .error missing
  | c :: rest => if c.isDigit then .ok (c, rest) else .error .malformed

/-- At least one digit; the given problem arises where the text ends instead. -/
def someDigits (missing : DecodeError) : Decoder Text := do
  let first <- digit missing
  let more <- digits
  return first :: more

def fractionPart (missing : DecodeError) : Decoder Text := do
  match <- takeIf? (· == '.') with
  | none => return []
  | some _ => someDigits missing

/-- The sign and the digits of an exponent, if there is one. -/
def exponentPart (missing : DecodeError) : Decoder (Option (Bool × Text)) := do
  match <- takeIf? (fun c => c == 'e' || c == 'E') with
  | none => return none
  | some _ =>
      let sign <- takeIf? (fun c => c == '+' || c == '-')
      let power <- someDigits missing
      return some (sign == some '-', power)

def leadDigit (missing : DecodeError) (first : Char) : Decoder Char :=
  if first == '-' then digit missing else pure first

/--
A number whose first character is already taken.  A zero in front stands alone.
The given problem arises where the text ends in front of a digit that is needed.
-/
def numeral (missing : DecodeError) (first : Char) : Decoder Numeral := do
  let lead <- leadDigit missing first
  let more <- digits
  require (lead != '0' || more.isEmpty)
  let fraction <- fractionPart missing
  let exponent <- exponentPart missing
  return ⟨first == '-', lead :: more, fraction, exponent⟩

/-! ## Skipped values -/

/-- A bracket that is open around a value. -/
inductive Bracket where
  | array
  | object
  deriving DecidableEq, Repr

def Bracket.closing : Bracket -> Char
  | .array => ']'
  | .object => '}'

def skipKey : Decoder Unit := do
  expectToken '\x22'
  skippedString
  expectToken ':'

/-- Skip what stands in front of a value inside a bracket: in an object its key. -/
def skipLead : Bracket -> Decoder Unit
  | .array => pure ()
  | .object => skipKey

/-- Skip a value without brackets whose first character is already taken. -/
def skipAtom (first : Char) : Decoder Unit := do
  if first == 'n' then literal ['u', 'l', 'l']
  else if first == 't' then literal ['r', 'u', 'e']
  else if first == 'f' then literal ['a', 'l', 's', 'e']
  else if first == '\x22' then skippedString
  else if first == '-' || first.isDigit then
    let _ <- numeral .malformed first
  else throw .malformed

/-- Open a bracket: it stays open in front of a value, and closes at once otherwise. -/
def skipOpening (bracket : Bracket) (around : List Bracket) :
    Decoder (Bool × List Bracket) := do
  let c <- peekToken
  if c == bracket.closing then
    let _ <- take
    return (false, around)
  else
    skipLead bracket
    return (true, bracket :: around)

/--
One step of skipping: a value, or what follows one inside the innermost bracket.
The result says whether a value must come next, and which brackets are open.
-/
def skipStep : Bool -> List Bracket -> Decoder (Bool × List Bracket)
  | true, around => do
      let c <- takeToken
      if c == '[' then skipOpening .array around
      else if c == '{' then skipOpening .object around
      else
        skipAtom c
        return (false, around)
  | false, [] => return (false, [])
  | false, bracket :: around => do
      let c <- takeToken
      if c == bracket.closing then return (false, around)
      else if c == ',' then
        skipLead bracket
        return (true, bracket :: around)
      else throw .malformed

/--
Skip the rest of a value inside the open brackets.  The bound is a text with a
character for each step.  Every step takes at least one character, so the text
itself is long enough.
-/
def skipRest : Text -> Bool -> List Bracket -> Decoder Unit
  | _, false, [] => pure ()
  | [], _, _ => throw .cutOff
  | _ :: bound, wanted, around => do
      let (wanted, around) <- skipStep wanted around
      skipRest bound wanted around

def skipValue : Decoder Unit := fun text =>
  skipRest text true [] text

end Decoder

end TranslationKeys
