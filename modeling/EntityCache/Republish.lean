import EntityCache.Journal
import EntityCache.Store.Error

/-!
# Re-publishing impacted queries

A query whose shown data a write has changed is handed to its subscribers by a callback that runs
in the background.

* `Queue`: callbacks that wait and callbacks that run.
* `Queue.schedule`: new requests.  A query that is waiting already is not queued twice.
* `Queue.start?`: a waiting callback begins to run, if another one may.  It leaves the pending set
  first, so that a write from then on makes it run once more.
* `Queue.finish?`: a running callback ends.  Its failure is reported and goes no further.
-/

namespace EntityCache
namespace Republish

/-- Callbacks that wait and run. -/
structure Queue where
  /-- How many callbacks may run at once. -/
  capacity : Nat
  /-- The queries whose next callback has not begun. -/
  pending : KeySet QueryKey
  /-- The callbacks that wait, the oldest first. -/
  waiting : List QueryKey
  /-- The callbacks that run, the oldest first. -/
  running : List QueryKey
  /-- The counter of running callbacks. -/
  inflight : Nat

namespace Queue

/-- The largest number of callbacks that may be allowed to run at once, `2 ^ 61 - 1`. -/
def maxCapacity : Nat :=
  2305843009213693951

/-- An empty queue.  At least one callback may run. -/
def new (concurrency : Nat) : Queue :=
  ⟨max concurrency 1, .empty, [], [], 0⟩

/-! ## Requests -/

/-- One request. -/
def request (s : Queue) (q : QueryKey) : Queue × Journal :=
  if s.pending.mem q then (s, [.republish .coalesced])
  else ({ s with pending := s.pending.add q, waiting := s.waiting ++ [q] }, [])

def requestAll (s : Queue) : List QueryKey → Queue × Journal
  | [] => (s, [])
  | q :: rest =>
      let (s, first) := s.request q
      let (s, later) := s.requestAll rest
      (s, first ++ later)

def schedule (s : Queue) (queries : KeySet QueryKey) : Queue × Journal :=
  s.requestAll queries.toList

/-! ## Callbacks -/

/-- Whether one more callback may run. -/
def hasRoom (s : Queue) : Bool :=
  decide (s.running.length < s.capacity)

/-- A waiting callback for `q` begins to run. -/
def start? (s : Queue) (q : QueryKey) : Option (Queue × Journal) :=
  if s.hasRoom && s.waiting.contains q then
    some
      ({ s with
          pending := s.pending.erase q
          waiting := s.waiting.erase q
          running := s.running ++ [q]
          inflight := s.inflight + 1 },
        [.inflight (s.inflight + 1)])
  else none

/-- What is reported of an ended callback. -/
def outcomeSignals : Except DeliveryError Unit → Journal
  | .ok () => [.republish .success]
  | .error _ => [.notice .republishFailed, .republish .error]

/-- A running callback for `q` ends. -/
def finish? (s : Queue) (q : QueryKey) (outcome : Except DeliveryError Unit) :
    Option (Queue × Journal) :=
  if s.running.contains q then
    some
      ({ s with running := s.running.erase q, inflight := s.inflight - 1 },
        outcomeSignals outcome ++ [.inflight (s.inflight - 1)])
  else none

/-- The callback that begins next. -/
def next? (s : Queue) : Option QueryKey :=
  if s.hasRoom then s.waiting.head? else none

/-- How many steps the callbacks at hand can still take. -/
def remaining (s : Queue) : Nat :=
  2 * s.waiting.length + s.running.length

end Queue
end Republish
end EntityCache
