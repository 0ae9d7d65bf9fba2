import EntityCache.Normalize.Assemble
import EntityCache.Store.World

/-!
# Backends

What a cache needs of a store, and what it does with it:

* `Backend σ`: the calls that a store of type `σ` answers.
* `Backend.guarded`: a backend behind a check that may refuse each call, and `Backend.zoom`, a
  backend for a part of the stores.
* `Backend.absorb`: a result is split over the stored records, and those it touches are saved.
* `Backend.project`: the result that a skeleton stands for, given the stored records.
-/

namespace EntityCache

open Normalize

/-- Numbers of stored trees and entities. -/
structure Counts where
  trees : Nat
  entities : Nat
  deriving DecidableEq

/-- The calls that a store answers. -/
structure Backend (σ : Type) where
  /-- Where the data is kept. -/
  backing : Backing
  /-- The cached result of a query, marked as accessed now. -/
  tree? : QueryKey → Act σ (Option Entry)
  setTree : QueryKey → Entry → Act σ Unit
  /-- The record of an entity, created if there is none. -/
  entity : Guid → Act σ Handle
  /-- Saves the fields of a record and adds its dependents. -/
  save : Handle → Act σ Unit
  /-- The records of several entities, created if there are none. -/
  batch : KeySet Guid → Act σ (Dict Guid Handle)
  /-- The records that there are of several entities. -/
  stored : KeySet Guid → Act σ (Dict Guid Handle)
  counts : Act σ Counts

namespace Backend

variable {σ τ : Type}

/-- Each guid with its record, one call after the other. -/
def oneByOne (entity : Guid → Act σ Handle) : List Guid → Dict Guid Handle →
    Act σ (Dict Guid Handle)
  | [], found => pure found
  | guid :: rest, found => do
      let h ← entity guid
      oneByOne entity rest (found.insert guid h)

/-- The backend behind a check before each call but that for counts. -/
def guarded (check : Act σ Unit) (b : Backend σ) : Backend σ where
  backing := b.backing
  tree? q := do
    check
    b.tree? q
  setTree q e := do
    check
    b.setTree q e
  entity guid := do
    check
    b.entity guid
  save h := do
    check
    b.save h
  batch guids := do
    check
    b.batch guids
  stored guids := do
    check
    b.stored guids
  counts := b.counts

/-- The backend for a part of the stores, as one for all of them. -/
def zoom (view : τ → σ) (put : τ → σ → τ) (b : Backend σ) : Backend τ where
  backing := b.backing
  tree? q := (b.tree? q).zoom view put
  setTree q e := (b.setTree q e).zoom view put
  entity guid := (b.entity guid).zoom view put
  save h := (b.save h).zoom view put
  batch guids := (b.batch guids).zoom view put
  stored guids := (b.stored guids).zoom view put
  counts := b.counts.zoom view put

/-! ## Results in and out -/

/-- The name under which a result without requestor is reported. -/
def anonymous : String :=
  "<anonymous>"

/-- Splits a result over the records at hand.  A root that is no object is refused. -/
def splitOver (v : Value) (ids : IdIndex) (index : Dict Guid Handle)
    (requestor : Option QueryKey) : Act σ Pass := fun w =>
  match Pass.run? v ids ⟨w.pool, index⟩ requestor with
  | some pass => (.ok pass, { w with pool := pass.records.pool })
  | none =>
      (.error (.codec (requestor.getD anonymous) .rootNotObject),
        w.report [.anomaly .rootNotObject])

/-- Splits a result over the stored records and saves every record it touches. -/
def absorb (b : Backend σ) (v : Value) (ids : IdIndex) (requestor : Option QueryKey) :
    Act σ Pass :=
  Act.holding do
    let index ← b.batch (idsWithin ids v)
    let pass ← splitOver v ids index requestor
    Act.each b.save pass.touched.values
    Act.report [.touched pass.touched.size]
    pure pass

/-- The records of a skeleton that are stored.  No entity, no call. -/
def recordsOf (b : Backend σ) (root : Skeleton) : Act σ (Dict Guid Handle) :=
  if root.guids.isEmpty then pure .empty else b.stored root.guids

/-- The result that a skeleton stands for.  Nothing is created. -/
def project (b : Backend σ) (root : Skeleton) : Act σ Value :=
  Act.holding do
    let index ← b.recordsOf root
    let w ← Act.world
    let view := RecordSet.view ⟨w.pool, index⟩
    Act.report (missingNotices view root)
    pure (assemble view root)

end Backend
end EntityCache
