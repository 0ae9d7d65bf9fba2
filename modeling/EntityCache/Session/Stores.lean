import EntityCache.Session.Caches

/-!
# Steps on held stores

* `Session.openStore`: a new store into a slot; `Session.hold`: the current store of a cache.
* `Session.closeStore`, `Session.clearStore`: only for a store that was opened into its slot.
* `Session.tree?`, `Session.setTree`, `Session.ageTree`, `Session.counts`: calls on a store.
* `Session.absorb`, `Session.project`: results in and out, past any cache.
-/

namespace EntityCache
namespace Session

/-! ## Slots -/

def fill (key : String) (held : Slot) : Call Unit :=
  modify (fun s => { s with slots := s.slots.insert key held })

/-- Opens a store for a scope, in the file of the scope or at another path. -/
def openStore (key : String) (scope : Scope) (policy : Retry.Policy) (path : Option String) :
    Call StoreRef := do
  let r ← Call.onVault
    (match path with
    | some path => Vault.openAt scope path policy
    | none => Vault.openFor scope policy)
  fill key ⟨r, true⟩
  pure r

/-- Holds the current store of a cache. -/
def hold (key : String) (name : String) : Call Unit := do
  let r ← storeAt none name
  fill key ⟨r, false⟩

/-- Lets a store go.  The answer is whether one was held. -/
def dropSlot (key : String) : Call Bool := do
  let s ← get
  set { s with slots := s.slots.erase key }
  pure (s.slots.contains key)

/-- Whether a held store is the current one of a cache. -/
def isCurrent (key : String) (name : String) : Call Bool := do
  let (_, c) ← cacheNamed name
  let r ← storeAt (some key) name
  pure (decide (c.store? = some r))

/-- The store that was opened into a slot. -/
def openedIn (key : String) : Call StoreId := do
  let s ← get
  match s.slots.get? key with
  | some held => if held.opened then pure held.store.store else throw .noSlot
  | none => throw .noSlot

/-- Closes a persistent store. -/
def closeStore (key : String) : Call Unit := do
  match ← openedIn key with
  | .file n => Call.onVault (Vault.edit (fun v =>
      ((), { v with opened := v.opened.insert n (v.fileStore n).close })))
  | .memory _ => throw .noSlot

/-- Clears a store in memory.  The answer is the number of trees before and after. -/
def clearStore (key : String) : Call (Nat × Nat) := do
  match ← openedIn key with
  | .memory n => Call.onVault (Vault.edit (fun v =>
      let cleared := v.putMemory n .empty
      (((v.memory n).trees.size, (cleared.memory n).trees.size), cleared)))
  | .file _ => throw .noSlot

/-! ## Calls -/

/-- A call on the store in a slot, or else on the current one of a cache. -/
def onStore {α : Type} (slot : Option String) (name : String)
    (call : Backend Vault → Act Vault α) : Call α := do
  let r ← storeAt slot name
  Call.onVault (call r.backend)

def tree? (slot : Option String) (name : String) (q : QueryKey) : Call (Option Entry) :=
  onStore slot name (fun b => b.tree? q)

def setTree (slot : Option String) (name : String) (q : QueryKey) (e : Entry) : Call Unit :=
  onStore slot name (fun b => b.setTree q e)

/-- Makes a cached result older.  The answer is whether there is one. -/
def ageTree (slot : Option String) (name : String) (q : QueryKey) (millis : Int) : Call Bool :=
  onStore slot name (fun b => do
    match ← b.tree? q with
    | none => pure false
    | some e =>
        b.setTree q (e.backdate millis)
        pure true)

def counts (slot : Option String) (name : String) : Call Counts :=
  onStore slot name Backend.counts

/-- Splits a result over the records of a store. -/
def absorb (slot : Option String) (name : String) (v : Value) (ids : IdIndex) (flaws : Journal)
    (requestor : Option QueryKey) : Call Normalize.Pass := do
  modify (fun s => s.report flaws)
  onStore slot name (fun b => b.absorb v ids requestor)

/-- The result that a skeleton stands for. -/
def project (slot : Option String) (name : String) (root : Skeleton) : Call Value :=
  onStore slot name (fun b => b.project root)

end Session
end EntityCache
