import EntityCache.Data.Dict
import EntityCache.Value.Text

/-!
# Entity records

* `Record`: the fields of one entity and the queries whose cached results show it.
* `Record.put`: overwriting a field; `Record.addDependent`: one more dependent.
* `Snapshot`: the stored form, without dependents, with `Snapshot.text` and `Snapshot.read`.
* `Pool`: the records that exist, shared through handles.  Equal handles mean the same record.
-/

namespace EntityCache

open Json (Symbols Scan Fault)

/-- One entity. -/
structure Record where
  guid : Guid
  fields : Dict String Value
  dependents : KeySet QueryKey

/-- What is stored of a record beside its dependents. -/
structure Snapshot where
  guid : Guid
  fields : Dict String Value

namespace Record

/-- A record that knows nothing but its id. -/
def fresh (guid : Guid) : Record :=
  ⟨guid, .empty, .empty⟩

def restore (s : Snapshot) (dependents : KeySet QueryKey) : Record :=
  ⟨s.guid, s.fields, dependents⟩

def snapshot (r : Record) : Snapshot :=
  ⟨r.guid, r.fields⟩

def addDependent (r : Record) (q : QueryKey) : Record :=
  { r with dependents := r.dependents.add q }

/-- Registers the query, if there is one. -/
def enroll (r : Record) (requestor : Option QueryKey) : Record :=
  match requestor with
  | some q => r.addDependent q
  | none => r

/-- Overwrites a field and registers the requestor. -/
def put (r : Record) (name : String) (v : Value) (requestor : Option QueryKey) : Record :=
  { r with fields := r.fields.insert name v }.enroll requestor

def read (r : Record) (name : String) : Option Value :=
  r.fields.get? name

/-- Equality of id and fields; dependents do not count. -/
def same (r s : Record) : Bool :=
  r.guid == s.guid && Value.sameFields r.fields.bindings s.fields.bindings

/-! ## What the operations keep -/

@[simp] theorem guid_enroll (r : Record) (q : Option QueryKey) : (r.enroll q).guid = r.guid := by
  cases q <;> rfl

@[simp] theorem fields_enroll (r : Record) (q : Option QueryKey) :
    (r.enroll q).fields = r.fields := by
  cases q <;> rfl

@[simp] theorem guid_put (r : Record) (name : String) (v : Value) (q : Option QueryKey) :
    (r.put name v q).guid = r.guid := by
  simp [put]

@[simp] theorem fields_put (r : Record) (name : String) (v : Value) (q : Option QueryKey) :
    (r.put name v q).fields = r.fields.insert name v := by
  simp [put]

end Record

/-! ## Stored form -/

namespace Snapshot

def chars (s : Snapshot) : List Char :=
  objectChars
    [("guid", quoted s.guid), ("fields", objectChars (Value.fieldChars s.fields.bindings))]

def text (s : Snapshot) : String :=
  String.ofList s.chars

def fieldNames : List String :=
  ["guid", "fields"]

/-- What has been read of a snapshot. -/
structure Draft where
  guid : Option Guid
  fields : List (String × Value)

def readField (room : Nat) (name : String) (d : Draft) (s : Symbols) : Scan Draft :=
  if name = "guid" then (Json.readText s).map (fun (guid, rest) => ({ d with guid := guid }, rest))
  else
    (Json.readNamed (room - 1) (Value.read (room - 2)) s).map
      (fun (fields, rest) => ({ d with fields := fields }, rest))

/-- The id is required, the fields are not. -/
def finish (d : Draft) : Except Fault Snapshot :=
  match d.guid with
  | some guid => .ok ⟨guid, .ofList d.fields⟩
  | none => .error .unexpected

def read (room : Nat) (s : Symbols) : Scan Snapshot :=
  Json.readRecord fieldNames room (readField room) ⟨none, []⟩ finish s

def ofSymbols? (s : Symbols) : Except Fault Snapshot :=
  Json.document (read Json.maxRoom) s

def ofText? (text : String) : Except Fault Snapshot :=
  ofSymbols? (Json.symbolsOf text)

end Snapshot

/-! ## Shared records -/

/-- Names a record in a pool. -/
abbrev Handle : Type := Nat

/-- Records that exist, by handle. -/
structure Pool where
  cells : Array Record

namespace Pool

def empty : Pool :=
  ⟨#[]⟩

instance : Inhabited Pool := ⟨empty⟩

def get? (p : Pool) (h : Handle) : Option Record :=
  p.cells[h]?

/-- A new record and its handle. -/
def add (p : Pool) (r : Record) : Handle × Pool :=
  (p.cells.size, ⟨p.cells.push r⟩)

/-- Changes the record behind a handle. -/
def modify (p : Pool) (h : Handle) (f : Record → Record) : Pool :=
  ⟨p.cells.modify h f⟩

theorem get?_add (p : Pool) (r : Record) (h : Handle) :
    (p.add r).2.get? h = if h = (p.add r).1 then some r else p.get? h := by
  simp only [add, get?, Array.getElem?_push]
  rfl

theorem get?_modify (p : Pool) (h h' : Handle) (f : Record → Record) :
    (p.modify h f).get? h' = if h = h' then (p.get? h').map f else p.get? h' := by
  simp only [modify, get?, Array.getElem?_modify]

end Pool
end EntityCache
