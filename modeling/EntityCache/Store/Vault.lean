import EntityCache.Retry
import EntityCache.Store.Directory
import EntityCache.Store.File
import EntityCache.Store.Memory

/-!
# All stores together

* `Vault`: a directory of store files, the stores in memory and the stores that have been opened.
  Several opened stores may share a file.
* `StoreRef`: one way of reaching a store, possibly through schedules of failing calls.  Equal
  references mean the same instance.
* `StoreRef.backend`: the calls on a store as calls on the vault.
* `Vault.isLog`, `Vault.isOpenable`: whether a store file can be opened beside those in use.
* `Vault.openFor`: a new store for a scope; `Vault.openAt`: one in a file of another name.
* `Vault.release`: opened stores that are not in use are closed, and the logs of files that no store
  is connected to any more are removed.
-/

namespace EntityCache

/-- Which calls fail, and how many there have been. -/
structure Schedule where
  /-- The failure of the `n`-th call, counted from one. -/
  plan : Nat → Option StoreError
  calls : Nat

namespace Schedule

def new (plan : Nat → Option StoreError) : Schedule :=
  ⟨plan, 0⟩

/-- The schedule after one more call. -/
def advance (s : Schedule) : Schedule :=
  { s with calls := s.calls + 1 }

/-- The failure of the latest call. -/
def failure? (s : Schedule) : Option StoreError :=
  s.plan s.calls

end Schedule

/-- Names a store. -/
inductive StoreId where
  | memory (n : Nat)
  | file (n : Nat)
  deriving DecidableEq

/-- One way of reaching a store. -/
structure StoreRef where
  /-- What the store was made for. -/
  scope : Scope
  store : StoreId
  /-- The schedules that each call passes, the first one first. -/
  guards : List Nat
  deriving DecidableEq

/-- Store files, stores and schedules, by number. -/
structure Vault where
  directory : Directory
  files : Dict Nat FileState
  memories : Dict Nat MemoryStore
  opened : Dict Nat FileStore
  schedules : Dict Nat Schedule
  /-- The least number that is not in use. -/
  next : Nat

namespace Vault

def empty (blocked : Bool) : Vault :=
  ⟨.empty blocked, .empty, .empty, .empty, .empty, 0⟩

/-! ## Parts -/

def memory (n : Nat) (v : Vault) : MemoryStore :=
  (v.memories.get? n).getD .empty

def putMemory (n : Nat) (v : Vault) (s : MemoryStore) : Vault :=
  { v with memories := v.memories.insert n s }

def fileStore (n : Nat) (v : Vault) : FileStore :=
  (v.opened.get? n).getD (.new 0)

def fileState (file : Nat) (v : Vault) : FileState :=
  (v.files.get? file).getD .fresh

def putFileState (file : Nat) (v : Vault) (s : FileState) : Vault :=
  { v with files := v.files.insert file s }

def tables (file : Nat) (v : Vault) : Tables :=
  (v.fileState file).tables

/-- An opened store with its file. -/
def connected (n : Nat) (v : Vault) : FileStore.Connected :=
  ⟨v.fileStore n, v.fileState (v.fileStore n).file⟩

def putConnected (n : Nat) (v : Vault) (c : FileStore.Connected) : Vault :=
  { v with
    opened := v.opened.insert n c.opened
    files := v.files.insert c.opened.file c.state }

theorem memory_putMemory (n : Nat) (v : Vault) (s : MemoryStore) :
    (v.putMemory n s).memory n = s := by
  simp [memory, putMemory]

theorem fileState_putFileState (file : Nat) (v : Vault) (s : FileState) :
    (v.putFileState file s).fileState file = s := by
  simp [fileState, putFileState]

theorem connected_putConnected (n : Nat) (v : Vault) (c : FileStore.Connected) :
    (v.putConnected n c).connected n = c := by
  simp [connected, putConnected, fileStore, fileState]

/-! ## Schedules -/

/-- One call passes a schedule or fails. -/
def pass (guard : Nat) : Act Vault Unit := fun w =>
  match w.store.schedules.get? guard with
  | none => (.ok (), w)
  | some s =>
      let s := s.advance
      let w := { w with store := { w.store with schedules := w.store.schedules.insert guard s } }
      match s.failure? with
      | some e => (.error e, w)
      | none => (.ok (), w)

/-- A new reference to the store of `r`, through one more schedule. -/
def guard (plan : Nat → Option StoreError) (r : StoreRef) (v : Vault) : StoreRef × Vault :=
  ({ r with guards := v.next :: r.guards },
    { v with schedules := v.schedules.insert v.next (.new plan), next := v.next + 1 })

end Vault

namespace StoreId

def backend : StoreId → Backend Vault
  | memory n => MemoryStore.backend.zoom (Vault.memory n) (Vault.putMemory n)
  | file n => FileStore.backend.zoom (Vault.connected n) (Vault.putConnected n)

end StoreId

namespace StoreRef

/-- The calls on the store, each after the schedules in between. -/
def backend (r : StoreRef) : Backend Vault :=
  r.guards.foldr (fun guard b => b.guarded (Vault.pass guard)) r.store.backend

def backing (r : StoreRef) : Backing :=
  r.backend.backing

/-- Whether holding `r` keeps `p` in use. -/
def reaches (r p : StoreRef) : Bool :=
  decide (r.store = p.store) && p.guards.isSuffixOf r.guards

theorem reaches_self (r : StoreRef) : r.reaches r = true := by
  simp [reaches]

end StoreRef

/-! ## Opening -/

namespace Vault

/-- Whether an opened store is connected to a file. -/
def isConnected (v : Vault) (file : Nat) : Bool :=
  v.opened.values.any (fun s => s.file == file && !s.closed)

/-- The log of the store file at a location; absent if there is no such file. -/
def logAt (v : Vault) (l : Location) : ChangeLog :=
  match v.directory.entries.get? l with
  | some (.store file) => (v.fileState file).log
  | _ => .absent

/-- Whether a location is taken by the log of a file in use, or by the index of the log.  A log takes
its place only with the first change. -/
def isLog (v : Vault) (l : Location) : Bool :=
  v.directory.entries.keys.any (fun k =>
    match v.logAt k with
    | .absent => false
    | .blank => k.beside Directory.indexSuffix == l
    | .written => k.beside Directory.indexSuffix == l || k.beside Directory.logSuffix == l)

/-- Whether the file at a location is in use while another one lies at the place of its journal. -/
def hasForeignJournal (v : Vault) (l : Location) : Bool :=
  v.logAt l != .absent && v.directory.entries.contains (l.beside Directory.journalSuffix)

/-- Whether a store file can be opened, or made, at a location. -/
def isOpenable (v : Vault) (l : Location) : Bool :=
  v.directory.isOpenable l && !v.isLog l && !v.hasForeignJournal l

/-- The number of the store file at a location, which is made if there is none. -/
def fileAt (v : Vault) (l : Location) : Nat × Vault :=
  match v.directory.entries.get? l with
  | some (.store file) => (file, v)
  | _ =>
      (v.next,
        { v with
          directory := v.directory.put l (.store v.next)
          files := v.files.insert v.next .fresh
          next := v.next + 1 })

/-- A new store in the file at a location.  Missing tables are made anew, and a journal that another
file left is removed. -/
def addFileStore (scope : Scope) (l : Location) (v : Vault) : StoreRef × Vault :=
  let (file, v) := v.fileAt l
  (⟨scope, .file v.next, []⟩,
    { v with
      directory := v.directory.withoutBeside l [Directory.journalSuffix]
      files := v.files.insert file (v.fileState file).connect
      opened := v.opened.insert v.next (.new file)
      next := v.next + 1 })

def addMemoryStore (scope : Scope) (v : Vault) : StoreRef × Vault :=
  (⟨scope, .memory v.next, []⟩,
    { v with memories := v.memories.insert v.next .empty, next := v.next + 1 })

/-- A change of the vault with a result. -/
def edit {α : Type} (f : Vault → α × Vault) : Act Vault α := fun w =>
  let (a, v) := f w.store
  (.ok a, { w with store := v })

/-- The log of the store file at a location goes when no store is connected to the file. -/
def releaseLog (v : Vault) (l : Location) : Vault :=
  match v.directory.entries.get? l with
  | some (.store file) =>
      if v.isConnected file || (v.fileState file).log = .absent then v
      else
        { v with
          directory := v.directory.withoutBeside l [Directory.logSuffix, Directory.indexSuffix]
          files := v.files.insert file (v.fileState file).disconnect }
  | _ => v

/-- Opened stores that are not in use are closed for good. -/
def release (v : Vault) (inUse : StoreId → Bool) : Vault :=
  let v := { v with opened := v.opened.filter (fun n _ => inUse (.file n)) }
  v.directory.entries.keys.foldl releaseLog v

/-- A change of the directory with a result. -/
def editDirectory {α : Type} (f : Directory → α × Directory) : Act Vault α :=
  edit (fun v =>
    let (a, d) := f v.directory
    (a, { v with directory := d }))

def noFile : StoreError :=
  .backend .noFile

/-- Attempts at opening the file at a path; every failed one but the last is reported. -/
def openFile (scope : Scope) (path : String) (policy : Retry.Policy) : Act Vault StoreRef := do
  let w ← Act.world
  let place := w.store.directory.locate? path
  -- Nothing else uses the directory meanwhile, so every attempt ends alike.
  let attempt : Nat → Except StoreError Location := fun _ =>
    match place.filter w.store.isOpenable with
    | some l => .ok l
    | none => .error noFile
  let run := Retry.run policy attempt
  .report (run.pauses.map (fun _ => .notice .retrying))
  editDirectory (fun d => ((), (place.map d.afterAttempt).getD d))
  let l ← .ofExcept (run.outcome.getD (.error noFile))
  edit (addFileStore scope l)

/-- A new store for a scope.  Without a directory for store files nothing is attempted. -/
def openFor (scope : Scope) (policy : Retry.Policy) : Act Vault StoreRef :=
  match scope.backing with
  | .memory => edit (addMemoryStore scope)
  | .persistent => do
      let w ← Act.world
      if w.store.directory.blocked then .fail noFile else openFile scope scope.fileName policy

/-- A new store for a scope, in the file at a path.  A store in memory has no file. -/
def openAt (scope : Scope) (path : String) (policy : Retry.Policy) : Act Vault StoreRef :=
  match scope.backing with
  | .memory => edit (addMemoryStore scope)
  | .persistent => openFile scope path policy

end Vault
end EntityCache
