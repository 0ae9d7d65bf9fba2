import EntityCache.Session.Stores

/-!
# Steps on records

* `Session.entity`, `Session.batch`, `Session.stored`: records of a store.
* `Session.addRecord`, `Session.setField`, `Session.saveRecord`: records that are held under a name.
* `Session.compare`: whether two held records are the same one, and whether they are equal.
-/

namespace EntityCache
namespace Session

/-- The record behind a handle. -/
def recordOf (h : Handle) : Call Record := do
  let s ← get
  match s.world.pool.get? h with
  | some r => pure r
  | none => throw .noRecord

/-- Each guid with its record. -/
def recordsOf (found : Dict Guid Handle) : Call (List (Guid × Record)) := do
  let s ← get
  pure (found.bindings.filterMap (fun b => (s.world.pool.get? b.2).map (fun r => (b.1, r))))

/-- The held record of a name. -/
def heldAs (key : String) : Call Handle := do
  let s ← get
  match s.records.get? key with
  | some h => pure h
  | none => throw .noRecord

def keep (key : String) (h : Handle) : Call Unit :=
  modify (fun s => { s with records := s.records.insert key h })

/-! ## Records of a store -/

/-- The record of an entity, held from here on if a name is given. -/
def entity (slot : Option String) (name : String) (guid : Guid) (key : Option String) :
    Call Record := do
  let h ← onStore slot name (fun b => b.entity guid)
  match key with
  | some key => keep key h
  | none => pure ()
  recordOf h

def batch (slot : Option String) (name : String) (guids : KeySet Guid) :
    Call (List (Guid × Record)) := do
  recordsOf (← onStore slot name (fun b => b.batch guids))

def stored (slot : Option String) (name : String) (guids : KeySet Guid) :
    Call (List (Guid × Record)) := do
  recordsOf (← onStore slot name (fun b => b.stored guids))

/-! ## Held records -/

/-- A record from its stored form, with dependents. -/
def addRecord (key : String) (text : String) (dependents : KeySet QueryKey) : Call Unit := do
  let snapshot ← Call.ofReading (Snapshot.ofText? text)
  let h ← Call.onVault (Act.allocate (.restore snapshot dependents))
  keep key h

def heldRecord (key : String) : Call Record := do
  recordOf (← heldAs key)

/-- Overwrites a field.  The answer is the dependents after it. -/
def setField (key : String) (field : String) (v : Value) (requestor : Option QueryKey) :
    Call (KeySet QueryKey) := do
  let h ← heldAs key
  modify (fun s =>
    { s with
      world := { s.world with
        pool := s.world.pool.modify h (fun r => r.put field v requestor) } })
  let r ← recordOf h
  pure r.dependents

def saveRecord (slot : Option String) (name : String) (key : String) : Call Unit := do
  let h ← heldAs key
  onStore slot name (fun b => b.save h)

/-- Whether two held records are the same one, and whether they are equal. -/
def compare (key other : String) : Call (Bool × Bool) := do
  let h ← heldAs key
  let k ← heldAs other
  let r ← recordOf h
  let s ← recordOf k
  pure (h == k, r.same s)

/-- Lets a record go.  The answer is whether one was held. -/
def dropRecord (key : String) : Call Bool := do
  let s ← get
  set { s with records := s.records.erase key }
  pure (s.records.contains key)

end Session
end EntityCache
