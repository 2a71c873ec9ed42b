import TranslationKeys.Number.Binary64
import TranslationKeys.Text.Basic

/-!
# Shortest decimals

The shortest decimal of a double has the fewest digits among all decimals that
round to it, and is the nearest to it among those.  Numbers from 0.00001 up to
sixteen digits before the point are written in full, with at least one digit
after the point.  All others have one digit before the point and an exponent,
which always has a sign.
-/

namespace TranslationKeys

/-- The decimal `digits * 10 ^ exponent`. -/
structure Decimal where
  digits : Nat
  exponent : Int
  deriving DecidableEq, Repr

/-- A fraction as a count of some power of ten: numerator and denominator of the count. -/
def tenths (fraction : Nat × Nat) (exponent : Int) : Nat × Nat :=
  (fraction.1 * Nat.pow 10 (-exponent).toNat, fraction.2 * Nat.pow 10 exponent.toNat)

/-- The exponent of the first digit of a positive fraction above 10 ^ -400. -/
def leadingExponent (fraction : Nat × Nat) : Int :=
  let whole := fraction.1 / fraction.2
  if whole > 0 then (Nat.toDigits 10 whole).length - 1
  else
    let places := (List.range 400).find? fun n => fraction.1 * Nat.pow 10 n >= fraction.2
    Int.negOfNat (places.getD 400)

namespace Binary64

/--
Four times a positive double and the ends of the range that rounds to it, as
numerators over one denominator.  The range is shorter below a power of two.
-/
def roundingRange (x : Binary64) : Nat × Nat × Nat × Nat :=
  let below := if x.mantissa = Nat.pow 2 52 && x.exponent > -1074 then 1 else 2
  let up := Nat.pow 2 x.exponent.toNat
  (up * (4 * x.mantissa - below), up * (4 * x.mantissa), up * (4 * x.mantissa + 2),
    4 * Nat.pow 2 (-x.exponent).toNat)

/-- A decimal with some power of ten as its unit that rounds to a positive double, if one does. -/
def decimalAt? (x : Binary64) (exponent : Int) : Option Decimal :=
  let (low, value, high, unit) := x.roundingRange
  let (numerator, denominator) := tenths (value, unit) exponent
  let rounds (digits : Nat) : Bool :=
    let (scaledLow, base) := tenths (low, unit) exponent
    let (scaledHigh, _) := tenths (high, unit) exponent
    if x.mantissa % 2 == 0 then
      scaledLow <= digits * base && digits * base <= scaledHigh
    else
      scaledLow < digits * base && digits * base < scaledHigh
  let floor := numerator / denominator
  let first := nearest numerator denominator
  let second := if first = floor then floor + 1 else floor
  ([first, second].find? rounds).map fun digits => ⟨digits, exponent⟩

def shortest (x : Binary64) : Decimal :=
  let lead := leadingExponent x.toFraction
  let candidates := (List.range 17).filterMap fun (places : Nat) =>
    x.decimalAt? (lead - places)
  candidates.head?.getD ⟨0, 0⟩

end Binary64

/-- The digits of a decimal without trailing zeros, and the exponent of the last one. -/
def Decimal.trimmed (decimal : Decimal) : Text × Int :=
  let digits := (Nat.toDigits 10 decimal.digits).reverse
  let zeros := (digits.takeWhile (· == '0')).length
  ((digits.drop zeros).reverse, decimal.exponent + zeros)

def Decimal.render (decimal : Decimal) : Text :=
  let (digits, exponent) := decimal.trimmed
  let point := digits.length + exponent
  if 0 <= exponent && point <= 16 then
    digits ++ List.replicate exponent.toNat '0' ++ ['.', '0']
  else if 0 < point && point <= 16 then
    digits.take point.toNat ++ ['.'] ++ digits.drop point.toNat
  else if -5 < point && point <= 0 then
    ['0', '.'] ++ List.replicate (-point).toNat '0' ++ digits
  else
    let fraction :=
      match digits.drop 1 with
      | [] => []
      | more => '.' :: more
    let power := point - 1
    digits.take 1 ++ fraction ++ ['e'] ++
      [if power < 0 then '-' else '+'] ++ Text.natural power.natAbs

def Binary64.render (negative : Bool) (x : Binary64) : Text :=
  (if negative then ['-'] else []) ++
    (if x.mantissa = 0 then ['0', '.', '0'] else x.shortest.render)

end TranslationKeys
