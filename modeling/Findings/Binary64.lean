/-!
# Binary floating point numbers

The finite numbers of the 64-bit binary format, in exact arithmetic. A magnitude is a mantissa
below `2 ^ 53` times a power of two, counted in units of the smallest positive number
`2 ^ -1074`. Every operation computes its exact quotient and rounds once, to the nearest
magnitude; a tie goes to the even mantissa.
-/

namespace Findings

-- Powers are those of the core library, whatever else is imported beside this module.
attribute [instance (high), default_instance high] instPowNat

/-- The number `mantissa * 2 ^ exponent / 2 ^ 1074`. -/
structure Magnitude where
  mantissa : Nat
  exponent : Nat
  deriving DecidableEq, Repr

/-- A finite number of the 64-bit binary format. Zero has a sign too. -/
structure Binary64 where
  negative : Bool
  magnitude : Magnitude
  deriving DecidableEq, Repr

namespace Magnitude

def zero : Magnitude := ⟨0, 0⟩

/-- The largest exponent of a finite number. -/
def maxExponent : Nat := 2045

/-- Divides to the nearest natural number, a tie to the even one. -/
def divideToEven (num den : Nat) : Nat :=
  let quotient := num / den
  let twice := 2 * (num % den)
  if den < twice || (twice = den && quotient % 2 = 1) then quotient + 1 else quotient

/-- The magnitude nearest to `num / den`, unless that is too large. -/
def ofRatio? (num den : Nat) : Option Magnitude :=
  let units := num * 2 ^ 1074
  let exponent := (units / den).log2 - 52
  let mantissa := divideToEven units (den * 2 ^ exponent)
  let rounded : Magnitude :=
    if mantissa = 2 ^ 53 then ⟨2 ^ 52, exponent + 1⟩ else ⟨mantissa, exponent⟩
  if rounded.exponent ≤ maxExponent then some rounded else none

def ofNat? (n : Nat) : Option Magnitude :=
  ofRatio? n 1

/-- Numerator of the number, over the denominator `2 ^ 1074`. -/
def units (x : Magnitude) : Nat :=
  x.mantissa * 2 ^ x.exponent

/-- The product, rounded. -/
def multiply? (x y : Magnitude) : Option Magnitude :=
  ofRatio? (x.units * y.units) (2 ^ 2148)

/-- The quotient, rounded. -/
def divide? (x y : Magnitude) : Option Magnitude :=
  ofRatio? x.units y.units

/-- The magnitude nearest to a power of ten. -/
def powerOfTen? (n : Nat) : Option Magnitude :=
  ofNat? (10 ^ n)

end Magnitude

end Findings
