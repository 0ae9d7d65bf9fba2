import EntityCache.Numeric.Binary64

/-!
# Decimal text of binary numbers

Two stages, the digits and their layout:

* `Decimal.ofBinary`: the fewest decimal digits that read back to a given number, and of those the
  nearest.
* `Layout`: the decisions of an output format (where positional notation ends, how an exponent is
  written); `Layout.write` lays digits out.
-/

namespace EntityCache
namespace Numeric

/-- The digit characters of a natural number, most significant first. -/
def digitsOf (n : Nat) : List Char :=
  Nat.toDigits 10 n

/-- A positive decimal number `d.ddd · 10 ^ exponent`, its digits without trailing zeros. -/
structure Decimal where
  digits : List Char
  exponent : Int
  deriving DecidableEq

namespace Decimal

/-- `10 ^ k` as the quotient of two natural numbers. -/
def tenPow : Int → Nat × Nat
  | .ofNat k => (Nat.pow 10 k, 1)
  | .negSucc k => (1, Nat.pow 10 (k + 1))

/-- `c · 10 ^ k ≤ n · 2 ^ p`. -/
def atMost (c : Nat) (k : Int) (n : Nat) (p : Int) : Bool :=
  decide (c * (tenPow k).1 * (twoPow p).2 ≤ n * (twoPow p).1 * (tenPow k).2)

/-- `n · 2 ^ p ≤ c · 10 ^ k`. -/
def atLeast (c : Nat) (k : Int) (n : Nat) (p : Int) : Bool :=
  decide (n * (twoPow p).1 * (tenPow k).2 ≤ c * (tenPow k).1 * (twoPow p).2)

/-- Whether the decimal `c · 10 ^ k` reads back as `m · 2 ^ q`: it lies between the halfway points
to the two neighbours, and on such a point only if `m` is even.  The neighbour below a power of
two is only half as far away. -/
def readsBack (m : Nat) (q : Int) (c : Nat) (k : Int) : Bool :=
  let below := if m = Binary64.leadingBit ∧ -1074 < q then 1 else 2
  let low := 4 * m - below
  let high := 4 * m + 2
  if m % 2 = 0 then
    atLeast c k low (q - 2) && atMost c k high (q - 2)
  else
    !atMost c k low (q - 2) && !atLeast c k high (q - 2)

/-- Of the neighbours `c` and `c + 1` of `m · 2 ^ q` on the grid `10 ^ k`, the nearer one that
reads back; of two equally near ones the even one. -/
def onGrid (m : Nat) (q : Int) (k : Int) : Option Nat :=
  let num := m * (twoPow q).1 * (tenPow k).2
  let den := (twoPow q).2 * (tenPow k).1
  let c := num / den
  let nearer := roundDiv num den
  let other := if nearer = c then c + 1 else c
  if readsBack m q nearer k then some nearer
  else if readsBack m q other k then some other
  else none

/-- The power of ten of the leading digit of `m · 2 ^ q`.  The factor `10 ^ 400` makes every
number of the format at least one. -/
def leading (m : Nat) (q : Int) : Int :=
  ((digitsOf (m * Nat.pow 10 400 * (twoPow q).1 / (twoPow q).2)).length : Int) - 401

def stripZeros (l : List Char) : List Char :=
  (l.reverse.dropWhile (· == '0')).reverse

/-- Tries grids from coarse to fine; `step` counts how many digits the grid gives, from one. -/
def search (m : Nat) (q : Int) (lead : Int) : (grids step : Nat) → Decimal
  | 0, _ =>
      ⟨['0'], 0⟩
  | grids + 1, step =>
      let k := lead - step
      match onGrid m q k with
      | some c =>
          let ds := digitsOf c
          ⟨stripZeros ds, k + (ds.length : Int) - 1⟩
      | none =>
          search m q lead grids (step + 1)

/-- The fewest digits that read back to the magnitude of `x`, which is finite and not zero.
Seventeen digits always suffice. -/
def ofBinary (x : Binary64) : Decimal :=
  search x.significand x.exponent (leading x.significand x.exponent) 17 0

end Decimal

/-! ## Layout -/

/-- How a format writes a decimal number. -/
structure Layout where
  /-- The least exponent written positionally. -/
  positionalFrom : Int
  /-- The least exponent that is no longer written positionally. -/
  positionalBelow : Int
  /-- What follows a number without fractional digits in positional notation. -/
  wholeMark : List Char
  /-- What precedes a positive exponent. -/
  plusMark : List Char

namespace Layout

def signedExponent (f : Layout) (e : Int) : List Char :=
  if e < 0 then '-' :: digitsOf e.natAbs else f.plusMark ++ digitsOf e.natAbs

/-- The digits of `d` with the decimal point at its place. -/
def positional (f : Layout) (d : Decimal) : List Char :=
  if d.exponent < 0 then
    '0' :: '.' :: (List.replicate (d.exponent.natAbs - 1) '0' ++ d.digits)
  else
    let whole := d.exponent.toNat + 1
    if d.digits.length ≤ whole then
      d.digits ++ List.replicate (whole - d.digits.length) '0' ++ f.wholeMark
    else
      d.digits.take whole ++ '.' :: d.digits.drop whole

def scientific (f : Layout) (d : Decimal) : List Char :=
  let mantissa :=
    match d.digits with
    | lead :: next :: rest => lead :: '.' :: next :: rest
    | short => short
  mantissa ++ 'e' :: f.signedExponent d.exponent

def write (f : Layout) (d : Decimal) : List Char :=
  if f.positionalFrom ≤ d.exponent ∧ d.exponent < f.positionalBelow then
    f.positional d
  else
    f.scientific d

end Layout
end Numeric
end EntityCache
