import EntityCache.Session.Stores

/-!
# Steps on store files

* `Session.countFiles`: the store files in the directory.
* `Session.obstruct`, `Session.clearPath`: what lies at the path of a scope.
* `Session.fileOf`, `Session.tablesAt`, `Session.editTables`: the tables of a store, past the store.
-/

namespace EntityCache
namespace Session

/-! ## Paths -/

def countFiles : Call Nat := do
  let s ← get
  pure s.world.store.directory.countStores

def obstruct (scope : Scope) (obstacle : PathState) : Call Bool :=
  Call.onVault (Vault.editDirectory (fun d => d.obstruct [scope.fileName] obstacle))

def clearPath (scope : Scope) : Call Bool :=
  Call.onVault (Vault.editDirectory (fun d => d.clear [scope.fileName]))

/-! ## Tables -/

/-- The number of the file of a store. -/
def fileOf (slot : Option String) (name : String) : Call Nat := do
  let r ← storeAt slot name
  let s ← get
  match r.store with
  | .file n => pure (s.world.store.fileStore n).file
  | .memory _ => throw (.failed (.backend .noFile))

def tablesAt (slot : Option String) (name : String) : Call Tables := do
  let file ← fileOf slot name
  let s ← get
  pure (s.world.store.tables file)

/-- Changes the tables of a store, even where it is closed. -/
def editTables (slot : Option String) (name : String) (f : Tables → Option Tables) :
    Call Unit := do
  let file ← fileOf slot name
  let s ← get
  match f (s.world.store.tables file) with
  | none => throw (.failed (.backend .noTable))
  | some tables =>
      Call.onVault (Vault.edit (fun v =>
        ((), v.putFileState file ((v.fileState file).put tables))))

end Session
end EntityCache
