import EntityCache.Json.Lexical
import EntityCache.Value.Basic

/-!
# Numbers in JSON text

* `readNumber`: a number, the text standing after its sign.  Whole numbers from `-2 ^ 63` up to
  `2 ^ 64 - 1` are integers; all others, and `-0`, are floats.
* `scaled`: how a float comes about: the leading digits as far as they fit 64 bits, rounded, then
  one multiplication or division by a rounded power of ten.
* `passNumber`: past a number whose value does not matter.
-/

namespace EntityCache
namespace Json

open Numeric (Binary64)

/-- The largest number of 64 bits, `2 ^ 64 - 1`. -/
def maxWord : Nat :=
  18446744073709551615

/-- The size of the least integer of 64 signed bits, `2 ^ 63`. -/
def maxNegated : Nat :=
  9223372036854775808

/-- The digits at the front and what follows them. -/
def takeDigits : Symbols → List Nat × Symbols
  | some c :: rest =>
      if isDigit c then
        let (ds, rest) := takeDigits rest
        ((c.toNat - 48) :: ds, rest)
      else
        ([], some c :: rest)
  | s =>
      ([], s)

/-- Appends digits to `n` as long as the result fits 64 bits; also tells how many are left out. -/
def gather (n : Nat) : List Nat → Nat × Nat
  | [] =>
      (n, 0)
  | d :: ds =>
      if n * 10 + d ≤ maxWord then gather (n * 10 + d) ds else (n, ds.length + 1)

/-! ## Floats -/

/-- The float nearest to `10 ^ k`. -/
def powerOfTen (k : Nat) : Binary64 :=
  Binary64.ofNat (Nat.pow 10 k)

/-- `f · 10 ^ e`, rounded after each step; `none` above the range of the format.  Exponents below
`-308` are taken in steps of 308, and three steps leave nothing but zero. -/
def scaled : (steps : Nat) → (f : Binary64) → (e : Int) → Option Binary64
  | 0, f, _ =>
      some f
  | steps + 1, f, e =>
      if e.natAbs ≤ 308 then
        if 0 ≤ e then
          let g := f.mul (powerOfTen e.natAbs)
          if g.isInfinite then none else some g
        else
          some (f.div (powerOfTen e.natAbs))
      else if f.isZero then some f
      else if 0 ≤ e then none
      else scaled steps (f.div (powerOfTen 308)) (e + 308)

/-- The float `± n · 10 ^ e`. -/
def float (negative : Bool) (n : Nat) (e : Int) (rest : Symbols) : Scan Number :=
  match scaled 4 (Binary64.ofNat n) e with
  | some f => .ok (.float { f with negative := negative }, rest)
  | none => .error .malformed

/-- The largest exponent that is read as a number. -/
def maxExponent : Nat :=
  2147483647

/-- A float from its leading digits `n`, scaled by `10 ^ e`, the text standing after the `e`. -/
def readExponent (negative : Bool) (n : Nat) (e : Int) (s : Symbols) : Scan Number :=
  let (down, s) :=
    match s with
    | some '+' :: rest => (false, rest)
    | some '-' :: rest => (true, rest)
    | s => (false, s)
  match takeDigits s with
  | ([], []) => .error .ended
  | ([], _ :: _) => .error .malformed
  | (ds, rest) =>
      let x := ds.foldl (fun n d => n * 10 + d) 0
      if maxExponent < x then
        if n ≠ 0 ∧ !down then .error .malformed
        else .ok (.float ⟨negative, 0⟩, rest)
      else
        float negative n (if down then e - x else e + x) rest

/-- As `readExponent`, if the text goes on with an exponent. -/
def readScale (negative : Bool) (n : Nat) (e : Int) : Symbols → Scan Number
  | some 'e' :: rest => readExponent negative n e rest
  | some 'E' :: rest => readExponent negative n e rest
  | s => float negative n e s

/-- A float from its digits before the point, the text standing after the point. -/
def readFraction (negative : Bool) (n : Nat) (e : Int) (s : Symbols) : Scan Number :=
  match takeDigits s with
  | ([], []) => .error .ended
  | ([], _ :: _) => .error .malformed
  | (ds, rest) =>
      let (n, excess) := gather n ds
      readScale negative n (e - (ds.length - excess : Nat)) rest

/-- What a whole number is read as. -/
def whole (negative : Bool) (n : Nat) : Number :=
  if negative then
    if n = 0 ∨ maxNegated < n then .float { Binary64.ofNat n with negative := true }
    else .int (-(n : Int))
  else
    .int n

/-- The rest of a number after the digits of its whole part, of which `excess` did not fit. -/
def readTail (negative : Bool) (n excess : Nat) : Symbols → Scan Number
  | some '.' :: rest => readFraction negative n excess rest
  | some 'e' :: rest => readExponent negative n excess rest
  | some 'E' :: rest => readExponent negative n excess rest
  | s => if excess = 0 then .ok (whole negative n, s) else float negative n excess s

/-- A number, the text standing after its sign. -/
def readNumber (negative : Bool) (s : Symbols) : Scan Number :=
  match takeDigits s with
  | ([], []) => .error .ended
  | ([], _ :: _) => .error .malformed
  | (0 :: [], rest) => readTail negative 0 0 rest
  | (0 :: _ :: _, _) => .error .malformed
  | (ds, rest) =>
      let (n, excess) := gather 0 ds
      readTail negative n excess rest

/-! ## Numbers whose value does not matter -/

/-- Past at least one digit. -/
def passDigits (s : Symbols) : Except Fault Symbols :=
  match takeDigits s with
  | ([], _) => .error .malformed
  | (_, rest) => .ok rest

def passExponent (s : Symbols) : Except Fault Symbols :=
  match s with
  | some '+' :: rest => passDigits rest
  | some '-' :: rest => passDigits rest
  | s => passDigits s

def passScale : Symbols → Except Fault Symbols
  | some 'e' :: rest => passExponent rest
  | some 'E' :: rest => passExponent rest
  | s => .ok s

/-- Past a number, the text standing after its sign. -/
def passNumber (s : Symbols) : Except Fault Symbols :=
  match takeDigits s with
  | ([], _) => .error .malformed
  | (0 :: _ :: _, _) => .error .malformed
  | (_, some '.' :: rest) =>
      match passDigits rest with
      | .ok rest => passScale rest
      | .error e => .error e
  | (_, rest) => passScale rest

end Json
end EntityCache
