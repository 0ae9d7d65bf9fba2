/-!
# Binary floating point with 64 bits

Finite arithmetic of the format with an 11-bit exponent and a 52-bit fraction, in exact natural
numbers:

* `Binary64`: sign and magnitude word; the word counts the representable magnitudes upwards from
  zero, so that neighbours differ by one.
* `Binary64.significand`, `Binary64.exponent`: a finite magnitude is `significand · 2 ^ exponent`.
* `Binary64.ofRatio`: the nearest magnitude to a quotient, ties to even.
* `neg`, `mul`, `div`, `add`, `pow` and the comparison `same`.
-/

namespace EntityCache
namespace Numeric

/-- `num / den` rounded to the nearest natural number, a half to the even neighbour. -/
def roundDiv (num den : Nat) : Nat :=
  let whole := num / den
  let twice := 2 * (num % den)
  if den < twice ∨ (twice = den ∧ whole % 2 = 1) then whole + 1 else whole

/-- `2 ^ e` as the quotient of two natural numbers. -/
def twoPow : Int → Nat × Nat
  | .ofNat e => (Nat.pow 2 e, 1)
  | .negSucc e => (1, Nat.pow 2 (e + 1))

/-- A number of the 64-bit format.  The magnitude word is the exponent field followed by the
fraction field. -/
structure Binary64 where
  negative : Bool
  magnitude : Nat
  deriving DecidableEq, Inhabited

namespace Binary64

/-- The weight of the first of the 53 bits of a normal number, `2 ^ 52`.  The exponent field counts
in it, and the fraction field stays below it. -/
def leadingBit : Nat :=
  4503599627370496

/-- The magnitude word of infinity; larger words are no numbers. -/
def infinity : Nat :=
  2047 * leadingBit

def zero : Binary64 :=
  ⟨false, 0⟩

def nan : Binary64 :=
  ⟨false, infinity + 1⟩

def isFinite (x : Binary64) : Bool :=
  decide (x.magnitude < infinity)

def isInfinite (x : Binary64) : Bool :=
  decide (x.magnitude = infinity)

def isNaN (x : Binary64) : Bool :=
  decide (infinity < x.magnitude)

def isZero (x : Binary64) : Bool :=
  decide (x.magnitude = 0)

/-- The integer part of the scaled form of a finite number. -/
def significand (x : Binary64) : Nat :=
  if x.magnitude < leadingBit then x.magnitude else x.magnitude % leadingBit + leadingBit

/-- The power of two of the scaled form of a finite number. -/
def exponent (x : Binary64) : Int :=
  if x.magnitude < leadingBit then -1074 else (x.magnitude / leadingBit : Nat) - 1075

/-- The magnitude of a finite number as a quotient of natural numbers. -/
def ratio (x : Binary64) : Nat × Nat :=
  let scale := twoPow x.exponent
  (x.significand * scale.1, scale.2)

/-! ## Rounding -/

/-- The power of two at which the leading 53 bits of `num / den` end, not below the smallest
one of the format. -/
def scaleOf (num den : Nat) : Int :=
  let guess : Int := (Nat.log2 num : Int) - Nat.log2 den - 53
  let scale := twoPow guess
  let q := if num * scale.2 / (den * scale.1) < 2 * leadingBit then guess else guess + 1
  if q < -1074 then -1074 else q

/-- The magnitude word nearest to `num / den`, ties to even; `infinity` above the format. -/
def roundRatio (num den : Nat) : Nat :=
  if num = 0 then
    0
  else
    let q := scaleOf num den
    let scale := twoPow q
    let word := (q + 1074).toNat * leadingBit + roundDiv (num * scale.2) (den * scale.1)
    if infinity ≤ word then infinity else word

/-- The nearest number to `± num / den`. -/
def ofRatio (negative : Bool) (num den : Nat) : Binary64 :=
  ⟨negative, roundRatio num den⟩

def ofNat (n : Nat) : Binary64 :=
  ofRatio false n 1

/-! ## Arithmetic -/

def neg (x : Binary64) : Binary64 :=
  { x with negative := !x.negative }

def mul (x y : Binary64) : Binary64 :=
  let sign := x.negative != y.negative
  if x.isNaN || y.isNaN then nan
  else if x.isInfinite || y.isInfinite then
    if x.isZero || y.isZero then nan else ⟨sign, infinity⟩
  else
    ofRatio sign (x.ratio.1 * y.ratio.1) (x.ratio.2 * y.ratio.2)

def div (x y : Binary64) : Binary64 :=
  let sign := x.negative != y.negative
  if x.isNaN || y.isNaN then nan
  else if x.isInfinite then
    if y.isInfinite then nan else ⟨sign, infinity⟩
  else if y.isInfinite then ⟨sign, 0⟩
  else if y.isZero then
    if x.isZero then nan else ⟨sign, infinity⟩
  else
    ofRatio sign (x.ratio.1 * y.ratio.2) (x.ratio.2 * y.ratio.1)

/-- The sum of two numbers that are not negative. -/
def addMagnitudes (x y : Binary64) : Binary64 :=
  if x.isNaN || y.isNaN then nan
  else if x.isInfinite || y.isInfinite then ⟨false, infinity⟩
  else
    ofRatio false (x.ratio.1 * y.ratio.2 + y.ratio.1 * x.ratio.2) (x.ratio.2 * y.ratio.2)

/-- `x ^ n` by repeated squaring, each product rounded; `acc` holds the factors taken so far. -/
def powFrom (fuel : Nat) (acc x : Binary64) (n : Nat) : Binary64 :=
  match fuel with
  | 0 =>
      acc
  | fuel + 1 =>
      let acc := if n % 2 = 1 then mul acc x else acc
      if n / 2 = 0 then acc else powFrom fuel acc (mul x x) (n / 2)

def pow (x : Binary64) (n : Nat) : Binary64 :=
  powFrom (n + 1) (ofNat 1) x n

/-- Equality of numbers: both zeros are equal, and what is no number equals nothing. -/
def same (x y : Binary64) : Bool :=
  !x.isNaN && !y.isNaN && (decide (x = y) || (x.isZero && y.isZero))

end Binary64
end Numeric
end EntityCache
