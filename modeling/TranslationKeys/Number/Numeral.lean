import TranslationKeys.Number.Shortest

/-!
# Numerals

A numeral is a number as it is written: a sign, digits, and perhaps a fraction
and an exponent.  It means a whole number if it has neither and fits into 64
bits.  Otherwise it means a double.  The double keeps as many leading digits as
fit into 64 bits and scales them by one power of ten, so it need not be the
nearest one to the numeral.
-/

namespace TranslationKeys

structure Numeral where
  negative : Bool
  /-- The digits before the point. -/
  whole : Text
  /-- The digits after the point, none if there is no point. -/
  fraction : Text
  /-- The exponent, if there is one: whether it is negative, and its digits. -/
  exponent : Option (Bool × Text)
  deriving DecidableEq, Repr

namespace Numeral

/-- Append digits to a number while it fits into 64 bits; count the appended ones. -/
def absorb (value : Nat) : Text -> Nat × Nat
  | [] => (value, 0)
  | digit :: rest =>
      let next := 10 * value + (digit.toNat - '0'.toNat)
      if next < Nat.pow 2 64 then
        let (final, count) := absorb next rest
        (final, count + 1)
      else
        (value, 0)

def digitsValue? (digits : Text) : Option Nat :=
  let (value, count) := absorb 0 digits
  if count = digits.length then some value else none

/-- The leading digits that fit into 64 bits, and the power of ten that they count. -/
def significand (numeral : Numeral) : Nat × Int :=
  let (whole, taken) := absorb 0 numeral.whole
  let (value, places) := absorb whole numeral.fraction
  (value, (numeral.whole.length : Int) - taken - places)

/-- A number times a power of ten, unless the product is too large for a double. -/
def scale? (value : Nat) (exponent : Int) : Option Binary64 :=
  if value = 0 then some .zero
  else if 308 < exponent then none
  else if 0 <= exponent then do
    (<- Binary64.ofNat? value).mul? (<- Binary64.ofNat? (Nat.pow 10 exponent.toNat))
  else if -308 <= exponent then do
    (<- Binary64.ofNat? value).div? (<- Binary64.ofNat? (Nat.pow 10 (-exponent).toNat))
  else if -616 <= exponent then do
    let small <- (<- Binary64.ofNat? value).div? (<- Binary64.ofNat? (Nat.pow 10 308))
    small.div? (<- Binary64.ofNat? (Nat.pow 10 (-exponent - 308).toNat))
  else some .zero

/-- The double of a numeral without its sign, unless it is too large. -/
def magnitude? (numeral : Numeral) : Option Binary64 :=
  let (value, power) := numeral.significand
  match numeral.exponent with
  | none => scale? value power
  | some (negative, digits) =>
      match (digitsValue? digits).filter (· < Nat.pow 2 31) with
      | some exponent =>
          scale? value (if negative then power - exponent else power + exponent)
      | none => if value = 0 || negative then some .zero else none

/-- The whole number of a numeral that means one. -/
def integer? (numeral : Numeral) : Option Int :=
  if !numeral.fraction.isEmpty || numeral.exponent.isSome then none
  else
    match digitsValue? numeral.whole with
    | none => none
    | some value =>
        if !numeral.negative then some value
        else if 0 < value && value <= Nat.pow 2 63 then some (Int.negOfNat value)
        else none

/-- The words for a numeral in a message, unless it is too large. -/
def describe? (numeral : Numeral) : Option Text :=
  match numeral.integer? with
  | some value =>
      some ("integer `".toList ++ (if value < 0 then ['-'] else []) ++
        Text.natural value.natAbs ++ ['\x60'])
  | none =>
      numeral.magnitude?.map fun magnitude =>
        "floating point `".toList ++ magnitude.render numeral.negative ++ ['\x60']

end Numeral

end TranslationKeys
