import EntityCache.Journal
import EntityCache.Path

/-!
# Entity ids by path

The transport sends, next to a result, a list of records that name the entities at certain paths.

* `IdIndex`: the id at each path, the latest one given.
* `IdIndex.Hint`: the id of the object at a path, or the ids of a list's elements.
* `IdIndex.ofMetadata`: the index of a metadata list.  A record that is not well formed adds
  nothing; it and every replaced id are reported.
-/

namespace EntityCache

/-- The entity id at each path. -/
structure IdIndex where
  ids : Dict Path Guid

namespace IdIndex

def empty : IdIndex :=
  ⟨.empty⟩

instance : Inhabited IdIndex := ⟨empty⟩

def get? (ix : IdIndex) (p : Path) : Option Guid :=
  ix.ids.get? p

def size (ix : IdIndex) : Nat :=
  ix.ids.size

/-- What is known about a path. -/
inductive Hint where
  /-- The object there is this entity. -/
  | single (id : Guid)
  /-- The list there holds these entities, one for each element. -/
  | perElement (ids : List Guid)
  deriving DecidableEq

/-- The paths that a hint gives ids, in order; `at₀` is the position of the first element. -/
def elementsFrom (p : Path) (at₀ : Nat) : List Guid → List (Path × Guid)
  | [] => []
  | id :: rest => (p.index at₀, id) :: elementsFrom p (at₀ + 1) rest

def Hint.assignments (p : Path) : Hint → List (Path × Guid)
  | .single id => [(p, id)]
  | .perElement ids => elementsFrom p 0 ids

/-- One assignment.  Replacing a different id is reported. -/
def assign (ix : IdIndex) (a : Path × Guid) : IdIndex × Journal :=
  let replaced := (ix.get? a.1).any (fun previous => previous != a.2)
  (⟨ix.ids.insert a.1 a.2⟩,
    if replaced then [.notice .duplicatePath, .anomaly .duplicatePath] else [])

/-- Assignments in turn. -/
def assignAll (ix : IdIndex) : List (Path × Guid) → IdIndex × Journal
  | [] => (ix, [])
  | a :: rest =>
      let (ix, first) := ix.assign a
      let (ix, later) := ix.assignAll rest
      (ix, first ++ later)

def insert (ix : IdIndex) (p : Path) (hint : Hint) : IdIndex × Journal :=
  ix.assignAll (hint.assignments p)

/-! ## Metadata -/

/-- A string, unmarked. -/
def plainText? : Value → Option String
  | .str s => some s
  | _ => none

/-- What one metadata record says: assignments, or a reason why it says nothing. -/
def readEntry (record : Value) : List (Path × Guid) × List Notice :=
  match (record.field? "path").bind Path.ofValue? with
  | none => ([], [.entryWithoutPath])
  | some p =>
      match (record.field? "entityId").bind plainText? with
      | some id => ((Hint.single id).assignments p, [])
      | none =>
          match record.field? "entityIds" with
          | some (.list items) =>
              match items.mapM plainText? with
              | some ids => ((Hint.perElement ids).assignments p, [])
              | none => ([], [.idsNotText])
          | _ => ([], [])

/-- Metadata records in turn. -/
def addEntries (ix : IdIndex) : List Value → IdIndex × Journal
  | [] => (ix, [])
  | record :: rest =>
      let (assignments, flaws) := readEntry record
      let (ix, first) := ix.assignAll assignments
      let (ix, later) := ix.addEntries rest
      (ix, flaws.map .notice ++ first ++ later)

/-- The index of a metadata value: a list of records, or `null` for none. -/
def ofMetadata : Value → IdIndex × Journal
  | .list records => empty.addEntries records
  | .null => (empty, [])
  | _ => (empty, [.notice .metadataNotList])

end IdIndex
end EntityCache
