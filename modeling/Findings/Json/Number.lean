import Findings.Decimal.Shortest
import Findings.Json.Basic

/-!
# The text of JSON numbers

Reading collects digits into a significand while it stays below `2 ^ 64` and counts the others in
the exponent; the significand is then scaled by a power of ten in floating point arithmetic. The
result is the nearest number when both steps are exact, and may be off in the last place
otherwise.

Writing uses the shortest decimal. Positional notation reaches from `1e-5` to just below `1e16`.
-/

namespace Findings

/-- Why a text is no JSON document. -/
inductive ReadError where
  | unexpectedEnd
  | unexpected (c : Char)
  | invalidEscape
  | loneSurrogate
  | numberOutOfRange
  | tooDeep
  deriving DecidableEq, Repr

namespace ReadError

def message : ReadError → String
  | unexpectedEnd => "unexpected end of text"
  | unexpected c => s!"unexpected character '{c}'"
  | invalidEscape => "invalid escape"
  | loneSurrogate => "lone surrogate in an escape"
  | numberOutOfRange => "number out of range"
  | tooDeep => "nested too deeply"

/-- The error at a place where something else was expected. -/
def atStart : List Char → ReadError
  | [] => unexpectedEnd
  | c :: _ => unexpected c

end ReadError

namespace Number

/-! ## Reading -/

/-- The value of a decimal digit. -/
def digit? (c : Char) : Option Nat :=
  if '0' ≤ c ∧ c ≤ '9' then some (c.toNat - '0'.toNat) else none

/-- The digits at the start of a text, and the text after them. -/
def takeDigits : List Char → List Nat × List Char
  | [] => ([], [])
  | c :: cs =>
    match digit? c with
    | none => ([], c :: cs)
    | some d =>
      let (digits, rest) := takeDigits cs
      (d :: digits, rest)

/-- Appends digits to a significand while it stays below `2 ^ 64`. Returns it with the count of
digits that went in and of those left over. -/
def absorb (significand : Nat) : List Nat → Nat × Nat × Nat
  | [] => (significand, 0, 0)
  | d :: digits =>
    let next := significand * 10 + d
    if next < 2 ^ 64 then
      let (significand, taken, left) := absorb next digits
      (significand, taken + 1, left)
    else (significand, 0, digits.length + 1)

/-- The largest power of ten that a number is scaled by in one step. -/
def maxPower : Nat := 308

/-- Scales by `10 ^ exponent`, rounding after each step. At most `steps` steps of `10 ^ -308` come
before the last one; three of them bring every significand below `2 ^ 64` to zero. -/
def scale? : (steps : Nat) → Magnitude → (exponent : Int) → Option Magnitude
  | steps, x, exponent =>
    if exponent.natAbs ≤ maxPower then do
      let power ← Magnitude.powerOfTen? exponent.natAbs
      if 0 ≤ exponent then x.multiply? power else x.divide? power
    else if x = .zero then some .zero
    else if 0 ≤ exponent then none
    else
      match steps with
      | 0 => some .zero
      | steps + 1 => do
        scale? steps (← x.divide? (← Magnitude.powerOfTen? maxPower)) (exponent + maxPower)

/-- The floating point number of a magnitude, if there is one. -/
def ofMagnitude (negative : Bool) : Option Magnitude → Except ReadError Number
  | some x => .ok (.float ⟨negative, x⟩)
  | none => .error .numberOutOfRange

/-- The floating point number of a significand and an exponent. -/
def ofParts (negative : Bool) (significand : Nat) (exponent : Int) : Except ReadError Number :=
  ofMagnitude negative ((Magnitude.ofNat? significand).bind fun x => scale? 3 x exponent)

/-- The largest exponent, and the largest number of its digits that is read. -/
def maxExponent : Nat := 2 ^ 31 - 1

/-- The number that digits spell. -/
def ofDigits (digits : List Nat) : Nat :=
  digits.foldl (fun n d => 10 * n + d) 0

/-- Reads the digits of an exponent, which is negative if `down`. -/
def readExponentDigits (negative : Bool) (significand : Nat) (start : Int) (down : Bool)
    (cs : List Char) : Except ReadError (Number × List Char) :=
  let (digits, rest) := takeDigits cs
  if digits.isEmpty then .error (.atStart cs)
  else
    let shift := ofDigits digits
    if maxExponent < shift then
      if significand ≠ 0 && !down then .error .numberOutOfRange
      else .ok (.float ⟨negative, .zero⟩, rest)
    else
      let exponent := if down then start - shift else start + shift
      (ofParts negative significand (max (-maxExponent - 1) (min maxExponent exponent))).map
        fun number => (number, rest)

/-- Reads what follows the `e` of a number whose digits before it are read. -/
def readExponent (negative : Bool) (significand : Nat) (start : Int) :
    List Char → Except ReadError (Number × List Char)
  | '+' :: rest => readExponentDigits negative significand start false rest
  | '-' :: rest => readExponentDigits negative significand start true rest
  | cs => readExponentDigits negative significand start false cs

/-- The number of a text without point and exponent, all of whose digits are in `n`. -/
def ofInteger (negative : Bool) (n : Nat) : Except ReadError Number :=
  if !negative then .ok (.int n)
  else if n ≠ 0 && n ≤ 2 ^ 63 then .ok (.int (-n))
  else ofParts true n 0

/-- Reads what follows the point of a number, of whose digits before it `left` were left over. -/
def readFraction (negative : Bool) (significand left : Nat) (cs : List Char) :
    Except ReadError (Number × List Char) :=
  let (fraction, rest) := takeDigits cs
  if fraction.isEmpty then .error (.atStart rest)
  else
    let (significand, taken, _) := absorb significand fraction
    let exponent : Int := (left : Int) - taken
    match rest with
    | 'e' :: rest | 'E' :: rest => readExponent negative significand exponent rest
    | rest => (ofParts negative significand exponent).map fun number => (number, rest)

/-- Reads what follows the whole digits of a number. -/
def readAfterDigits (negative : Bool) (digits : List Nat) (rest : List Char) :
    Except ReadError (Number × List Char) :=
  let (significand, _, left) := absorb 0 digits
  match rest with
  | '.' :: rest => readFraction negative significand left rest
  | 'e' :: rest | 'E' :: rest => readExponent negative significand left rest
  | rest =>
    (if left = 0 then ofInteger negative significand
      else ofParts negative significand left).map fun number => (number, rest)

/-- Reads a number after its sign. -/
def readUnsigned (negative : Bool) (cs : List Char) : Except ReadError (Number × List Char) :=
  match takeDigits cs with
  | ([], _) => .error (.atStart cs)
  | (0 :: _ :: _, _) => .error (.unexpected '0')
  | (digits, rest) => readAfterDigits negative digits rest

/-- Reads the number at the start of a text. -/
def read : List Char → Except ReadError (Number × List Char)
  | '-' :: rest => readUnsigned true rest
  | cs => readUnsigned false cs

/-! ## Writing -/

/-- The exponents of the leading digit for which positional notation is used. -/
def positionalFrom : Int := -5

/-- See `positionalFrom`. -/
def positionalTo : Int := 15

/-- The text of a decimal number. -/
def decimalText (d : Decimal) : List Char :=
  let digits := Nat.toDigits 10 d.digits
  let leading : Int := d.exponent + digits.length - 1
  if d.digits = 0 then ['0', '.', '0']
  else if positionalFrom ≤ leading && leading ≤ positionalTo then
    if 0 ≤ d.exponent then
      digits ++ List.replicate d.exponent.toNat '0' ++ ['.', '0']
    else if 0 ≤ leading then
      let whole := leading.toNat + 1
      digits.take whole ++ ['.'] ++ digits.drop whole
    else
      ['0', '.'] ++ List.replicate (-leading - 1).toNat '0' ++ digits
  else
    let fraction := if digits.length = 1 then [] else '.' :: digits.drop 1
    let sign := if leading < 0 then '-' else '+'
    digits.take 1 ++ fraction ++ ['e', sign] ++ Nat.toDigits 10 leading.natAbs

/-- The text of a number. -/
def text : Number → List Char
  | .int n => (if n < 0 then ['-'] else []) ++ Nat.toDigits 10 n.natAbs
  | .float x => (if x.negative then ['-'] else []) ++ decimalText (Decimal.shortest x.magnitude)

end Number

end Findings
