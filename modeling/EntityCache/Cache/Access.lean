import EntityCache.Cache.Result
import EntityCache.Config
import EntityCache.Republish
import EntityCache.Store.Backend

/-!
# Reading and writing through a backend

Nothing here fails.  A failed store call is reported and turned into a miss or a dropped write.

* `Backend.read`: the cached result of a query, with the current fields of its entities.
* `Backend.write`: a result is split over the records of the store, and every other query that
  shows one of them is scheduled for re-publishing.
* `Backend.lookup`: what to do for a query under a fetch policy.
* `Backend.countEntries`: the numbers of trees and entities.
* `Upkeep.review`: every so many writes the size of the store is looked at; too large a store is
  reported once, and nothing is dropped.
-/

namespace EntityCache

variable {σ : Type}

def note (signals : Journal) : StateM (World σ) Unit :=
  modify (fun w => w.report signals)

/-- What is reported of a failed store call. -/
def failureSignals (store : Backing) (table : Table) (activity : Activity) (e : StoreError) :
    Journal :=
  (if e.isCodec then [.undecodable store table] else []) ++
    [.notice .operationFailed, .operation store activity .error]

namespace Backend

/-! ## Reading -/

/-- The result of a cached entry, as far as its skeleton and its entities can be decoded. -/
def present (b : Backend σ) (q : QueryKey) (e : Entry) :
    StateM (World σ) (Option CachedResult) := do
  match e.root? with
  | .error _ =>
      note [.notice .treeUndecodable, .undecodable b.backing .trees,
        .operation b.backing .read .error]
      pure none
  | .ok root =>
      match ← (b.project root).outcome with
      | .error failed =>
          note (failureSignals b.backing .entities .read failed)
          pure none
      | .ok data =>
          let w ← get
          let stale := e.isStaleAt w.now
          note [.operation b.backing .read (if stale then .stale else .hit)]
          pure (some ⟨q, data.plain, stale, e.ttl, e.cachedAt⟩)

def readEntry (b : Backend σ) (q : QueryKey) : StateM (World σ) (Option CachedResult) := do
  match ← (b.tree? q).outcome with
  | .error failed =>
      note (failureSignals b.backing .trees .read failed)
      pure none
  | .ok none =>
      note [.operation b.backing .read .miss]
      pure none
  | .ok (some e) => present b q e

/-- The cached result of a query, stale or not. -/
def read (b : Backend σ) (q : QueryKey) : StateM (World σ) (Option CachedResult) := do
  let result ← readEntry b q
  note [.timed b.backing .read]
  pure result

/-- What to do for a query.  The cache is read unless the policy passes it by. -/
def lookup (b : Backend σ) (q : QueryKey) (policy : FetchPolicy) : StateM (World σ) Decision :=
  match policy with
  | .serverOnly => pure (policy.choose none)
  | _ => do
      let result ← read b q
      pure (policy.choose result)

/-! ## Numbers of entries -/

/-- The numbers of trees and entities, also as current levels. -/
def levels (b : Backend σ) : StateM (World σ) (Except StoreError Counts) := do
  let r ← b.counts.outcome
  match r with
  | .ok n => note [.entries b.backing n.trees n.entities]
  | .error _ => pure ()
  pure r

def countEntries (b : Backend σ) : StateM (World σ) (Option Counts) := do
  match ← levels b with
  | .ok n => pure (some n)
  | .error _ =>
      note [.notice .statsFailed]
      pure none

end Backend

/-! ## Size -/

/-- When the size of the store was looked at. -/
structure Sizing where
  /-- The writes so far. -/
  writes : Nat
  /-- The size is to be looked at. -/
  due : Bool
  /-- Too large a store has been reported. -/
  warned : Bool

namespace Sizing

def start : Sizing :=
  ⟨0, false, false⟩

/-- The size is looked at once in so many writes. -/
def interval : Nat :=
  64

/-- One more write.  The first one after a change of the store is number zero. -/
def count (s : Sizing) : Sizing :=
  { s with writes := s.writes + 1, due := decide (s.writes % interval = 0) }

/-- Looks at the size if that is due.  `limit` bounds trees and entities together. -/
def review (s : Sizing) (b : Backend σ) (limit : Nat) : StateM (World σ) Sizing := do
  if s.due then
    let seen : Sizing := { s with due := false }
    match ← b.levels with
    | .error _ => pure seen
    | .ok n =>
        if limit < n.trees + n.entities && !s.warned then
          note [.notice .oversize]
          pure { seen with warned := true }
        else pure seen
  else pure s

end Sizing

/-! ## Writing -/

/-- What a cache keeps up from write to write. -/
structure Upkeep where
  sizing : Sizing
  /-- The callbacks for impacted queries, if somebody listens. -/
  queue : Option Republish.Queue

namespace Upkeep

/-- Requests for impacted queries. -/
def schedule (u : Upkeep) (queries : KeySet QueryKey) : StateM (World σ) Upkeep :=
  match u.queue with
  | none => pure u
  | some queue => do
      let (queue, signals) := queue.schedule queries
      note signals
      pure { u with queue := some queue }

/-- The size of the store after a write. -/
def review (u : Upkeep) (b : Backend σ) (limit : Nat) : StateM (World σ) Upkeep := do
  let sizing ← u.sizing.review b limit
  pure { u with sizing := sizing }

end Upkeep

namespace Backend

/-- Stores the skeleton of a result.  The answer is whether that succeeded. -/
def storeTree (b : Backend σ) (q : QueryKey) (root : Skeleton) (ttl : Span) :
    StateM (World σ) Bool := do
  let w ← get
  match ← (b.setTree q (Entry.new q root.text ttl (some root) w.now)).outcome with
  | .ok () =>
      note [.operation b.backing .write .success]
      pure true
  | .error failed =>
      note (failureSignals b.backing .trees .write failed)
      pure false

/-- The rest of a write whose records are saved: they stay even where the tree is not stored. -/
def complete (b : Backend σ) (config : Config) (q : QueryKey) (ttl : Option Span)
    (pass : Normalize.Pass) (u : Upkeep) : StateM (World σ) (WriteOutcome × Upkeep) := do
  let stored ← storeTree b q pass.root (ttl.getD config.defaultSpan)
  note [.impacted pass.impacted.size]
  let u ← u.schedule pass.impacted
  pure (⟨stored, pass.impacted⟩, { u with sizing := u.sizing.count })

/-- Stores a result of the server.  Its `requestor` becomes a dependent of every entity in it. -/
def write (b : Backend σ) (config : Config) (q : QueryKey) (response : Response)
    (requestor : Option QueryKey) (u : Upkeep) : StateM (World σ) (WriteOutcome × Upkeep) := do
  let answer ←
    -- The records are saved first: a skeleton is stored only when what it refers to is there.
    match ← (b.absorb response.data response.ids requestor).outcome with
    | .error failed => do
        note (failureSignals b.backing .entities .write failed)
        pure (WriteOutcome.dropped, u)
    | .ok pass => complete b config q response.ttl pass u
  note [.timed b.backing .write]
  pure answer

end Backend
end EntityCache
