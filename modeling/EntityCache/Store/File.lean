import EntityCache.Store.Backend
import EntityCache.Store.Tables

/-!
# The store in a file

* `FileStore`: an opened store file.  It knows the records that it has handed out, as long as
  somebody holds them; a record that nobody holds is read from the file again.
* `FileStore.Connected`: an opened store together with its file.
* `FileStore.backend`: its calls.  A call that needs a table fails if the table is missing or the
  store is closed.

A stored entity that cannot be decoded fails a read.  A call that may create the entity starts it
over instead, keeping its dependents, and leaves the stored bytes alone.
-/

namespace EntityCache

/-- An opened store file. -/
structure FileStore where
  /-- The number of the file. -/
  file : Nat
  /-- Records handed out, by their own guid. -/
  live : Dict Guid Handle
  /-- The number of known records at which those that nobody holds are forgotten. -/
  sweepAt : Nat
  closed : Bool

namespace FileStore

/-- The least number of known records that is worth a sweep. -/
def leastSweep : Nat :=
  1024

def new (file : Nat) : FileStore :=
  ⟨file, .empty, leastSweep, false⟩

def close (s : FileStore) : FileStore :=
  { s with closed := true }

/-! ## Known records -/

/-- Forgets the records that nobody holds, once there are too many. -/
def sweep (s : FileStore) (held : Handle → Bool) : FileStore :=
  if s.live.size < s.sweepAt then s
  else
    let kept := s.live.filter (fun _ h => held h)
    { s with live := kept, sweepAt := max (kept.size * 2) leastSweep }

/-- Knows a record from now on. -/
def remember (s : FileStore) (held : Handle → Bool) (guid : Guid) (h : Handle) : FileStore :=
  { s with live := s.live.insert guid h }.sweep held

def forget (s : FileStore) (guid : Guid) : FileStore :=
  { s with live := s.live.erase guid }

/-- The record known under `guid`, if somebody holds it. -/
def live? (s : FileStore) (held : Handle → Bool) (guid : Guid) : Option Handle :=
  (s.live.get? guid).filter held

/-- An opened store and its file. -/
structure Connected where
  opened : FileStore
  state : FileState

namespace Connected

/-! ## Tables -/

def noTable : StoreError :=
  .backend .noTable

/-- The tables, as far as the store may still use them. -/
def reachable (c : Connected) : Tables :=
  if c.opened.closed then .missing else c.state.tables

/-- One table. -/
def table {α : Type} (pick : Tables → Option α) : Act Connected α := do
  let w ← Act.world
  match pick w.store.reachable with
  | some rows => pure rows
  | none => .fail noTable

/-- A change of the tables. -/
def change (f : Tables → Option Tables) : Act Connected Unit := do
  let tables ← table f
  .update (fun w => { w with store := { w.store with state := w.store.state.put tables } })

/-! ## Cached results -/

def tree? (q : QueryKey) : Act Connected (Option Entry) := do
  let rows ← table Tables.trees
  match rows.get? q with
  | none => pure none
  | some row =>
      let e ← .ofExcept (Blob.decode Entry.ofSymbols? q row.blob)
      let w ← Act.world
      let e := e.touch w.now
      -- The bytes stay as they were stored.
      change (fun t => t.putTree? q { row with lastAccessed := e.lastAccessed })
      pure (some e)

def setTree (q : QueryKey) (e : Entry) : Act Connected Unit := do
  let blob ← .ofExcept (Blob.encode q e.text)
  change (fun t => t.putTree? q ⟨e.lastAccessed, blob⟩)

/-! ## Entities -/

/-- The known record under `guid`, if somebody holds it. -/
def live? (w : World Connected) (guid : Guid) : Option Handle :=
  w.store.opened.live? w.isHeld guid

/-- A record is handed out. -/
def handOut (r : Record) : Act Connected Handle := do
  let h ← .allocate r
  .update (fun w =>
    { w with
      store := { w.store with opened := w.store.opened.remember w.isHeld r.guid h } })
  pure h

def dependentsOf (guid : Guid) : Act Connected (KeySet QueryKey) := do
  let pairs ← table Tables.dependents
  pure (Tables.queriesOf pairs guid)

/-- The entity in the row of `guid`. -/
def readEntity (guid : Guid) : Act Connected (Option Record) := do
  let rows ← table Tables.entities
  match rows.get? guid with
  | none => pure none
  | some blob =>
      let s ← .ofExcept (Blob.decode Snapshot.ofSymbols? guid blob)
      let dependents ← dependentsOf guid
      pure (some (.restore s dependents))

def writeEntity (r : Record) : Act Connected Unit := do
  let blob ← .ofExcept (Blob.encode r.guid r.snapshot.text)
  change (fun t => t.saveEntity? r.guid blob r.dependents)

/-- A new record, written at once. -/
def create (guid : Guid) : Act Connected Record := do
  writeEntity (.fresh guid)
  pure (.fresh guid)

/-- A record without fields in place of one that cannot be decoded. -/
def startOver (guid : Guid) : Act Connected Record := do
  .report [.notice .entityStartedOver, .undecodable .persistent .entities]
  let dependents ← dependentsOf guid
  pure (.restore (Record.fresh guid).snapshot dependents)

/-- The stored record, or else a new one. -/
def readOrCreate (guid : Guid) : Act Connected Record := do
  -- Only damage of this one entity is made good; any other failure is passed on.
  match ← Act.attempt (readEntity guid) with
  | .ok (some r) => pure r
  | .ok none => create guid
  | .error e => if e.isCodec then startOver guid else .fail e

def entity (guid : Guid) : Act Connected Handle := do
  let w ← Act.world
  match live? w guid with
  | some h => pure h
  | none =>
      let r ← readOrCreate guid
      handOut r

/-- The record of an entity, if it is stored. -/
def find? (guid : Guid) : Act Connected (Option Handle) := do
  let w ← Act.world
  match live? w guid with
  | some h => pure (some h)
  | none =>
      match ← readEntity guid with
      | none => pure none
      | some r =>
          let h ← handOut r
          pure (some h)

/-- Each guid that has a record with that record. -/
def findAll : List Guid → Dict Guid Handle → Act Connected (Dict Guid Handle)
  | [], found => pure found
  | guid :: rest, found => do
      match ← find? guid with
      | some h => findAll rest (found.insert guid h)
      | none => findAll rest found

/-- The records that somebody holds are looked up first, and the others loaded in order. -/
def batch (guids : KeySet Guid) : Act Connected (Dict Guid Handle) := do
  let w ← Act.world
  -- Loading one record may change what is known of the next one, so all are looked up before.
  let known := guids.toList.filterMap (fun guid => (live? w guid).map (fun h => (guid, h)))
  let unknown := guids.toList.filter (fun guid => (live? w guid).isNone)
  Backend.oneByOne entity unknown (.ofList known)

/-- Writes a record.  Another record known under the same guid is behind the file now and is
forgotten. -/
def save (h : Handle) : Act Connected Unit := do
  let w ← Act.world
  match w.pool.get? h with
  | none => pure ()
  | some r =>
      writeEntity r
      .update (fun w =>
        if (live? w r.guid).any (· != h) then
          { w with store := { w.store with opened := w.store.opened.forget r.guid } }
        else w)

def counts : Act Connected Counts := do
  let trees ← table Tables.trees
  let entities ← table Tables.entities
  pure ⟨trees.size, entities.size⟩

end Connected

/-- The calls that an opened store answers. -/
def backend : Backend Connected where
  backing := .persistent
  tree? := Connected.tree?
  setTree := Connected.setTree
  entity := Connected.entity
  save := Connected.save
  batch := Connected.batch
  stored guids := Connected.findAll guids.toList .empty
  counts := Connected.counts

end FileStore
end EntityCache
