import EntityCache.Entry
import EntityCache.Store.Blob
import EntityCache.Record

/-!
# The tables of a store file

* `Tables`: cached results, entities, and the pairs of an entity and a query that depends on it.
  Each table may be missing.
* `Tables.isComplete`: whether no table is missing.
* `Tables.repair`: missing tables are made anew, the others stay.
* `Tables.queriesOf`: the dependents of an entity.
* `Tables.drop?`: a table is removed.
* `Tables.saveEntity?`: one transaction that writes an entity and its dependents, or nothing.
* `ChangeLog`, `FileState`: a store file is its tables and the log of their changes, which it has
  only as long as a store is connected to it.
-/

namespace EntityCache

/-- A stored result. -/
structure TreeRow where
  /-- The time of the latest access; the bytes keep the one they were stored with. -/
  lastAccessed : Time
  blob : Blob

/-- The tables of a store file. -/
structure Tables where
  trees : Option (Dict QueryKey TreeRow)
  entities : Option (Dict Guid Blob)
  /-- Pairs of an entity and a query that shows it. -/
  dependents : Option (KeySet (Guid × QueryKey))

namespace Tables

/-- A file without tables. -/
def missing : Tables :=
  ⟨none, none, none⟩

instance : Inhabited Tables := ⟨missing⟩

/-- The tables of a new file. -/
def empty : Tables :=
  ⟨some .empty, some .empty, some .empty⟩

/-- Whether no table is missing. -/
def isComplete (t : Tables) : Bool :=
  t.trees.isSome && t.entities.isSome && t.dependents.isSome

def repair (t : Tables) : Tables :=
  ⟨some (t.trees.getD .empty), some (t.entities.getD .empty), some (t.dependents.getD .empty)⟩

/-! ## Rows -/

/-- The queries that are paired with an entity. -/
def queriesOf (pairs : KeySet (Guid × QueryKey)) (guid : Guid) : KeySet QueryKey :=
  .ofKeys ((pairs.toList.filter (fun p => p.1 == guid)).map Prod.snd)

/-- An entity paired with each of the queries. -/
def pairsOf (guid : Guid) (queries : KeySet QueryKey) : KeySet (Guid × QueryKey) :=
  .ofKeys (queries.toList.map (fun q => (guid, q)))

def putTree? (t : Tables) (q : QueryKey) (row : TreeRow) : Option Tables :=
  t.trees.map (fun rows => { t with trees := some (rows.insert q row) })

def putEntity? (t : Tables) (guid : Guid) (blob : Blob) : Option Tables :=
  t.entities.map (fun rows => { t with entities := some (rows.insert guid blob) })

def addDependents? (t : Tables) (guid : Guid) (queries : KeySet QueryKey) : Option Tables :=
  t.dependents.map (fun pairs => { t with dependents := some (pairs.union (pairsOf guid queries)) })

/-- Writes an entity and adds its dependents.  Without dependents only one table is needed. -/
def saveEntity? (t : Tables) (guid : Guid) (blob : Blob) (queries : KeySet QueryKey) :
    Option Tables :=
  (t.putEntity? guid blob).bind (fun t =>
    if queries.isEmpty then some t else t.addDependents? guid queries)

/-- The tables by name. -/
inductive Part where
  | trees
  | entities
  | dependents
  deriving DecidableEq

/-- Removes a table, if it is there. -/
def drop? (t : Tables) : Part → Option Tables
  | .trees => t.trees.map (fun _ => { t with trees := none })
  | .entities => t.entities.map (fun _ => { t with entities := none })
  | .dependents => t.dependents.map (fun _ => { t with dependents := none })

/-! ## What the operations keep -/

theorem mem_queriesOf (pairs : KeySet (Guid × QueryKey)) (guid : Guid) (q : QueryKey) :
    (queriesOf pairs guid).mem q = pairs.mem (guid, q) := by
  rw [queriesOf, KeySet.mem_ofKeys, Bool.eq_iff_iff, KeySet.mem_iff_mem_toList]
  simp

theorem mem_pairsOf (guid : Guid) (queries : KeySet QueryKey) (p : Guid × QueryKey) :
    (pairsOf guid queries).mem p = (decide (p.1 = guid) && queries.mem p.2) := by
  obtain ⟨p₁, p₂⟩ := p
  rw [pairsOf, KeySet.mem_ofKeys, Bool.eq_iff_iff, Bool.and_eq_true, KeySet.mem_iff_mem_toList]
  simp only [decide_eq_true_eq, List.mem_map, Prod.mk.injEq]
  constructor
  · rintro ⟨q, hq, rfl, rfl⟩
    exact ⟨rfl, hq⟩
  · rintro ⟨rfl, hq⟩
    exact ⟨p₂, hq, rfl, rfl⟩

theorem repair_empty : empty.repair = empty := rfl

theorem repair_repair (t : Tables) : t.repair.repair = t.repair := rfl

theorem isComplete_repair (t : Tables) : t.repair.isComplete = true := rfl

/-- Nothing is made anew where nothing is missing. -/
theorem repair_eq_self_iff {t : Tables} : t.repair = t ↔ t.isComplete = true := by
  constructor
  · intro h
    rw [← h]
    rfl
  · obtain ⟨trees, entities, dependents⟩ := t
    cases trees <;> cases entities <;> cases dependents <;> simp [isComplete, repair]

theorem trees_saveEntity? {t u : Tables} {guid : Guid} {blob : Blob} {queries : KeySet QueryKey}
    (h : t.saveEntity? guid blob queries = some u) : u.trees = t.trees := by
  simp only [saveEntity?, putEntity?, addDependents?] at h
  cases he : t.entities with
  | none =>
      simp [he] at h
  | some rows =>
      rw [he] at h
      simp only [Option.map_some, Option.bind_some] at h
      split at h
      · cases h
        rfl
      · cases hd : t.dependents with
        | none =>
            simp [hd] at h
        | some pairs =>
            simp only [hd, Option.map_some, Option.some.injEq] at h
            subst h
            rfl

end Tables

/-! ## Store files -/

/-- The log of the changes of a store file. -/
inductive ChangeLog where
  /-- No store is connected to the file. -/
  | absent
  /-- Nothing has changed since a store was connected to the file. -/
  | blank
  | written
  deriving DecidableEq

namespace ChangeLog

/-- The log once a store is connected. -/
def begin : ChangeLog → ChangeLog
  | absent => blank
  | log => log

/-- The log after a change.  Without a connected store nothing is logged. -/
def append : ChangeLog → ChangeLog
  | absent => absent
  | _ => written

theorem begin_ne_absent (log : ChangeLog) : log.begin ≠ absent := by
  cases log <;> simp [begin]

theorem append_eq_absent_iff {log : ChangeLog} : log.append = absent ↔ log = absent := by
  cases log <;> simp [append]

end ChangeLog

/-- A store file. -/
structure FileState where
  tables : Tables
  log : ChangeLog

namespace FileState

/-- A file that no store was ever connected to. -/
def fresh : FileState :=
  ⟨.missing, .absent⟩

/-- The file after its tables were changed. -/
def put (s : FileState) (t : Tables) : FileState :=
  ⟨t, s.log.append⟩

/-- The file once a store is connected.  Making missing tables is a change. -/
def connect (s : FileState) : FileState :=
  let s := { s with log := s.log.begin }
  if s.tables.isComplete then s else s.put s.tables.repair

/-- The file when no store is connected any more. -/
def disconnect (s : FileState) : FileState :=
  { s with log := .absent }

theorem tables_connect (s : FileState) : s.connect.tables = s.tables.repair := by
  simp only [connect]
  split
  · next h => exact (Tables.repair_eq_self_iff.2 h).symm
  · rfl

end FileState
end EntityCache
