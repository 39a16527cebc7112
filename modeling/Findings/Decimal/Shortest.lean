import Findings.Binary64

/-!
# Shortest decimals

The decimal number with the fewest digits that rounds to a given binary number, and of those the
nearest to it; a tie goes to the even digit. For each count of digits only the two neighbours of
the number on that decimal grid need a test: if any point of the grid rounds to the number, one of
its neighbours does.

- `reads_back_neighbour`: what is chosen on a grid rounds to the number.
-/

namespace Findings

/-- The number `digits * 10 ^ exponent`. -/
structure Decimal where
  digits : Nat
  exponent : Int
  deriving DecidableEq, Repr

namespace Decimal

/-- The decimal number as a quotient of natural numbers. -/
def ratio (d : Decimal) : Nat × Nat :=
  if 0 ≤ d.exponent then (d.digits * 10 ^ d.exponent.toNat, 1)
  else (d.digits, 10 ^ (-d.exponent).toNat)

/-- The binary number nearest to the decimal one. -/
def magnitude? (d : Decimal) : Option Magnitude :=
  Magnitude.ofRatio? d.ratio.1 d.ratio.2

/-- How many decimal digits a natural number has. -/
def countDigits (n : Nat) : Nat :=
  (Nat.toDigits 10 n).length

/-- The `k` with `10 ^ (k - 1) ≤ x < 10 ^ k`, for a positive number. -/
def order (x : Magnitude) : Int :=
  let whole := x.units / 2 ^ 1074
  if 0 < whole then countDigits whole
  else
    match (List.range 324).find? fun j => 2 ^ 1074 ≤ x.units * 10 ^ (j + 1) with
    | some j => -j
    | none => -323

/-- The two neighbours of the number on the grid `10 ^ exponent`, the nearer one first. -/
def neighbours (x : Magnitude) (exponent : Int) : List Decimal :=
  let num := x.units * 10 ^ (-exponent).toNat
  let den := 2 ^ 1074 * 10 ^ exponent.toNat
  let below := num / den
  if Magnitude.divideToEven num den = below then [⟨below, exponent⟩, ⟨below + 1, exponent⟩]
  else [⟨below + 1, exponent⟩, ⟨below, exponent⟩]

/-- The nearer of the neighbours on a grid that round to the number. -/
def onGrid? (x : Magnitude) (exponent : Int) : Option Decimal :=
  (neighbours x exponent).find? fun d => d.magnitude? = some x

/-- All digits of the number. -/
def exact (x : Magnitude) : Decimal :=
  ⟨x.units * 5 ^ 1074, -1074⟩

/-- Moves zeros at the end of the digits into the exponent, at most `bound` of them. -/
def stripZeros : Nat → Decimal → Decimal
  | 0, d => d
  | bound + 1, d =>
    if d.digits ≠ 0 && d.digits % 10 = 0 then stripZeros bound ⟨d.digits / 10, d.exponent + 1⟩
    else d

/-- The shortest decimal that rounds to the number. Seventeen digits always suffice. -/
def shortest (x : Magnitude) : Decimal :=
  if x.mantissa = 0 then ⟨0, 0⟩
  else
    let k := order x
    let found := (List.range 17).findSome? fun n => onGrid? x (k - (n + 1 : Nat))
    stripZeros 20 (found.getD (exact x))

theorem reads_back_neighbour {x : Magnitude} {exponent : Int} {d : Decimal}
    (h : onGrid? x exponent = some d) : d.magnitude? = some x := by
  simpa using List.find?_some h

end Decimal

end Findings
