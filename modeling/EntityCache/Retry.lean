import EntityCache.Entry

/-!
# Retrying

Opening a store is tried several times with growing pauses.

* `Retry.Policy`: first pause, longest pause, growth factor and number of attempts.
* `Retry.Policy.pauseAfter?`: the pause after an attempt; `none` if the grown pause is no span of
  time (negative, no number, or too long), even where the cap would have cut it.
* `Retry.run`: calls until the first success or the last attempt.
* `Retry.Run.pausedMillis`: how long a run paused.
-/

namespace EntityCache
namespace Retry

open Numeric (Binary64 roundDiv)

/-- How often and at which intervals to try. -/
structure Policy where
  initial : Span
  longest : Span
  factor : Binary64
  /-- Attempts in all; at least one is made. -/
  attempts : Nat

namespace Policy

/-- For opening a store file: three attempts, with pauses of 50 and 150 milliseconds. -/
def storeOpen : Policy :=
  ⟨.ofMillis 50, .ofMillis 500, .ofNat 3, 3⟩

def once : Policy :=
  { storeOpen with attempts := 1 }

def withAttempts (p : Policy) (n : Nat) : Policy :=
  { p with attempts := max n 1 }

/-- The growth exponent stops at this value. -/
def maxExponent : Nat :=
  16

end Policy

/-! ## Pauses -/

/-- A span in seconds, as a sum of rounded seconds and rounded rest. -/
def seconds (d : Span) : Binary64 :=
  Binary64.addMagnitudes (.ofNat (d.nanos / 1000000000))
    (Binary64.div (.ofNat (d.nanos % 1000000000)) (.ofNat 1000000000))

/-- The largest number of whole seconds in a span, `2 ^ 64 - 1`. -/
def maxSeconds : Nat :=
  18446744073709551615

/-- The span of so many seconds, to the nearest nanosecond, a half to the even one. -/
def spanOf? (x : Binary64) : Option Span :=
  if !x.isFinite || (x.negative && !x.isZero) then none
  else
    let (num, den) := x.ratio
    if (maxSeconds + 1) * den ≤ num then none else some ⟨roundDiv (num * 1000000000) den⟩

/-- The pause after attempt `n`, counted from one. -/
def Policy.pauseAfter? (p : Policy) (n : Nat) : Option Span :=
  let growth := p.factor.pow (min (n - 1) maxExponent)
  (spanOf? (growth.mul (seconds p.initial))).map (fun d => ⟨min d.nanos p.longest.nanos⟩)

/-! ## Attempts -/

/-- How a run of attempts went. -/
structure Run (ε α : Type) where
  /-- The number of calls made. -/
  calls : Nat
  /-- The last outcome; `none` if the run broke off because a pause was no span of time. -/
  outcome : Option (Except ε α)
  /-- The pauses made, in order. -/
  pauses : List Span

/-- The milliseconds spent in pauses.  A pause ends only with a whole millisecond. -/
def Run.pausedMillis {ε α : Type} (r : Run ε α) : Nat :=
  r.pauses.foldl (fun n d => n + d.startedMillis) 0

/-- The run from attempt `n` on, with `left` more attempts allowed after it. -/
def runFrom {ε α : Type} (p : Policy) (call : Nat → Except ε α) : (left n : Nat) → Run ε α
  | 0, n =>
      ⟨n, some (call n), []⟩
  | left + 1, n =>
      match call n with
      | .ok a => ⟨n, some (.ok a), []⟩
      | .error _ =>
          match p.pauseAfter? n with
          | none => ⟨n, none, []⟩
          | some pause =>
              let later := runFrom p call left (n + 1)
              { later with pauses := pause :: later.pauses }

/-- Calls until the first success, at most as often as the policy allows.  `call` gets the number
of the attempt, from one. -/
def run {ε α : Type} (p : Policy) (call : Nat → Except ε α) : Run ε α :=
  runFrom p call (p.attempts - 1) 1

end Retry
end EntityCache
