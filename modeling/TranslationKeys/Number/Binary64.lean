/-!
# Doubles

A finite nonnegative double is `mantissa * 2 ^ exponent` with a mantissa of at
most 53 bits and an exponent of at least -1074.  Every operation takes the exact
result as a fraction and rounds it once, to the nearest double and to an even
mantissa in the middle between two.
-/

namespace TranslationKeys

/-- A finite nonnegative double. -/
structure Binary64 where
  mantissa : Nat
  exponent : Int
  deriving DecidableEq, Repr

namespace Binary64

def zero : Binary64 :=
  ⟨0, -1074⟩

/-- The whole number nearest to a fraction, the even one of two. -/
def nearest (numerator denominator : Nat) : Nat :=
  let quotient := numerator / denominator
  let twice := 2 * (numerator % denominator)
  if twice > denominator || (twice == denominator && quotient % 2 == 1) then quotient + 1
  else quotient

/-- A fraction divided by a power of two, as a numerator and a denominator. -/
def shift (numerator denominator : Nat) (exponent : Int) : Nat × Nat :=
  (numerator * Nat.pow 2 (-exponent).toNat, denominator * Nat.pow 2 exponent.toNat)

/-- The exponent with which a positive fraction has a mantissa of 53 bits, or the least one. -/
def exponentFor (numerator denominator : Nat) : Int :=
  let estimate : Int := (numerator.log2 : Int) - denominator.log2
  let (scaled, unit) := shift numerator denominator estimate
  let top := if scaled < unit then estimate - 1 else estimate
  max (top - 52) (-1074)

/-- The same double with at most 53 bits: rounding up can give the power of two above them. -/
def normalize (x : Binary64) : Binary64 :=
  if x.mantissa = Nat.pow 2 53 then ⟨Nat.pow 2 52, x.exponent + 1⟩ else x

/-- The double nearest to a fraction, unless the fraction is too large for all of them. -/
def ofFraction? (numerator denominator : Nat) : Option Binary64 :=
  if numerator = 0 then some zero
  else
    let exponent := exponentFor numerator denominator
    let (scaled, unit) := shift numerator denominator exponent
    let mantissa := nearest scaled unit
    if mantissa * Nat.pow 2 exponent.toNat >= Nat.pow 2 1024 then none
    else some (normalize ⟨mantissa, exponent⟩)

def ofNat? (n : Nat) : Option Binary64 :=
  ofFraction? n 1

def toFraction (x : Binary64) : Nat × Nat :=
  (x.mantissa * Nat.pow 2 x.exponent.toNat, Nat.pow 2 (-x.exponent).toNat)

def mul? (x y : Binary64) : Option Binary64 :=
  ofFraction? (x.toFraction.1 * y.toFraction.1) (x.toFraction.2 * y.toFraction.2)

def div? (x y : Binary64) : Option Binary64 :=
  ofFraction? (x.toFraction.1 * y.toFraction.2) (x.toFraction.2 * y.toFraction.1)

end Binary64

end TranslationKeys
