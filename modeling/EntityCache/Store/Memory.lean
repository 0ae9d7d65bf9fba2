import EntityCache.Store.Backend

/-!
# The store in memory

* `MemoryStore`: cached results and the records themselves.  A record that is asked for again is
  the same record.
* `MemoryStore.backend`: its calls.  None of them fails.
-/

namespace EntityCache

/-- A store that lives in the process. -/
structure MemoryStore where
  trees : Dict QueryKey Entry
  entities : Dict Guid Handle

namespace MemoryStore

def empty : MemoryStore :=
  ⟨.empty, .empty⟩

instance : Inhabited MemoryStore := ⟨empty⟩

def counts (s : MemoryStore) : Counts :=
  ⟨s.trees.size, s.entities.size⟩

/-! ## Calls -/

def tree? (q : QueryKey) : Act MemoryStore (Option Entry) := fun w =>
  match w.store.trees.get? q with
  | none => (.ok none, w)
  | some e =>
      let e := e.touch w.now
      (.ok (some e), { w with store := { w.store with trees := w.store.trees.insert q e } })

def setTree (q : QueryKey) (e : Entry) : Act MemoryStore Unit :=
  Act.update (fun w => { w with store := { w.store with trees := w.store.trees.insert q e } })

/-- Keeps a new record under `guid`. -/
def adopt (guid : Guid) (r : Record) : Act MemoryStore Handle := fun w =>
  let (h, pool) := w.pool.add r
  (.ok h,
    { w with
      pool := pool
      store := { w.store with entities := w.store.entities.insert guid h } })

def entity (guid : Guid) : Act MemoryStore Handle := do
  let w ← Act.world
  match w.store.entities.get? guid with
  | some h => pure h
  | none => adopt guid (.fresh guid)

/-- A record of this store is saved already; of any other one a copy is adopted. -/
def save (h : Handle) : Act MemoryStore Unit := do
  let w ← Act.world
  match w.pool.get? h with
  | none => pure ()
  | some r =>
      if w.store.entities.get? r.guid = some h then pure ()
      else
        let _ ← adopt r.guid r
        pure ()

def stored (guids : KeySet Guid) : Act MemoryStore (Dict Guid Handle) := do
  let w ← Act.world
  pure (w.store.entities.filter (fun guid _ => guids.mem guid))

def backend : Backend MemoryStore where
  backing := .memory
  tree? := tree?
  setTree := setTree
  entity := entity
  save := save
  batch guids := Backend.oneByOne entity guids.toList .empty
  stored := stored
  counts := do
    let w ← Act.world
    pure w.store.counts

end MemoryStore
end EntityCache
