import EntityCache.Normalize.Split
import EntityCache.Record

/-!
# One pass over records

* `RecordSet`: the records at hand, by the guid under which each was asked for.
* `Progress.apply`: one effect of a walk on them.
* `Pass`: the outcome of a whole pass: skeleton, impacted queries and touched records.
* `Pass.run?`: a result split over a record set.

Every query that depends on a touched record is impacted, except the requestor itself.
-/

namespace EntityCache
namespace Normalize

/-- Records by the guid under which they were asked for. -/
structure RecordSet where
  pool : Pool
  index : Dict Guid Handle

namespace RecordSet

def empty : RecordSet :=
  ⟨.empty, .empty⟩

def handle? (s : RecordSet) (guid : Guid) : Option Handle :=
  s.index.get? guid

def get? (s : RecordSet) (guid : Guid) : Option Record :=
  (s.handle? guid).bind s.pool.get?

def size (s : RecordSet) : Nat :=
  s.index.size

/-- The id that the record under `guid` calls its own; a missing one would be created under
`guid`. -/
def own (s : RecordSet) (guid : Guid) : Guid :=
  ((s.get? guid).map Record.guid).getD guid

/-- The record under `guid`, a fresh one if there is none. -/
def fetch (s : RecordSet) (guid : Guid) : Handle × RecordSet :=
  match s.handle? guid with
  | some h => (h, s)
  | none =>
      let (h, pool) := s.pool.add (.fresh guid)
      (h, ⟨pool, s.index.insert guid h⟩)

/-- Adds a record under `guid`. -/
def add (s : RecordSet) (guid : Guid) (r : Record) : RecordSet :=
  let (h, pool) := s.pool.add r
  ⟨pool, s.index.insert guid h⟩

def modify (s : RecordSet) (h : Handle) (f : Record → Record) : RecordSet :=
  { s with pool := s.pool.modify h f }

/-- The dependents of the record behind a handle. -/
def dependents (s : RecordSet) (h : Handle) : KeySet QueryKey :=
  ((s.pool.get? h).map Record.dependents).getD .empty

end RecordSet

/-! ## Effects -/

/-- How far a pass has come. -/
structure Progress where
  records : RecordSet
  impacted : KeySet QueryKey
  /-- The records left so far, by their own guid. -/
  touched : Dict Guid Handle

namespace Progress

def start (records : RecordSet) : Progress :=
  ⟨records, .empty, .empty⟩

def impact (p : Progress) (queries : KeySet QueryKey) : Progress :=
  { p with impacted := p.impacted.union queries }

/-- One effect.  Overwriting a field reports the dependents after it, leaving an object those
before it, because a changed shape matters even where no field changed. -/
def apply (requestor : Option QueryKey) (p : Progress) : Effect → Progress
  | .visit guid =>
      { p with records := (p.records.fetch guid).2 }
  | .put guid name v =>
      let (h, records) := p.records.fetch guid
      let records := records.modify h (fun r => r.put name v requestor)
      { p with records := records }.impact (records.dependents h)
  | .leave guid =>
      let (h, records) := p.records.fetch guid
      let before := records.dependents h
      let records := records.modify h (fun r => r.enroll requestor)
      { p with
          records := records
          touched := p.touched.insert (records.own guid) h }.impact before

def applyAll (requestor : Option QueryKey) (p : Progress) (effects : List Effect) : Progress :=
  effects.foldl (apply requestor) p

end Progress

/-! ## Whole passes -/

/-- The outcome of a pass. -/
structure Pass where
  root : Skeleton
  /-- Other queries that show a touched record. -/
  impacted : KeySet QueryKey
  /-- The touched records, by their own guid. -/
  touched : Dict Guid Handle
  records : RecordSet

namespace Pass

/-- The text of the skeleton. -/
def data (p : Pass) : String :=
  p.root.text

/-- Splits a result over the records; `none` if the result is no object. -/
def run? (v : Value) (ids : IdIndex) (records : RecordSet) (requestor : Option QueryKey) :
    Option Pass :=
  (split? ids records.own v).map (fun (root, effects) =>
    let p := (Progress.start records).applyAll requestor effects
    let impacted :=
      match requestor with
      | some q => p.impacted.erase q
      | none => p.impacted
    ⟨root, impacted, p.touched, p.records⟩)

end Pass
end Normalize
end EntityCache
