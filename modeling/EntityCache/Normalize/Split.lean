import EntityCache.IdIndex
import EntityCache.Skeleton

/-!
# Splitting results

A result is split into a skeleton and a list of effects on records, in the order of one walk:
fields ascending, list elements by position.  For each field of an object:

| value                       | object with an id       | any other object |
|-----------------------------|-------------------------|------------------|
| object                      | nested skeleton         | nested skeleton  |
| list of objects             | list of skeletons       | list of skeletons|
| list without objects        | field of the record     | scalar in place  |
| list of objects and others  | field of the record     | scalar in place  |
| empty list                  | field of the record     | dropped          |
| scalar                      | field of the record     | scalar in place  |

* `objectId?`: the id of an object, from the index or else from its own fields.
* `Effect`: what happens to the record of an object.
* `split?`: skeleton and effects of a result; `none` if the result is no object.
* `idsWithin`: every id in a result, also below lists within lists, where the walk does not go.
-/

namespace EntityCache
namespace Normalize

/-- The id of the object with the given fields at `p`. -/
def objectId? (ids : IdIndex) (p : Path) (fields : List (String × Value)) : Option Guid :=
  (ids.get? p).or (Value.idAmong fields)

/-- What the walk does to the record that is kept under a guid. -/
inductive Effect where
  /-- An object of this entity is entered; its record exists from here on. -/
  | visit (guid : Guid)
  /-- A field is overwritten. -/
  | put (guid : Guid) (name : String) (v : Value)
  /-- The object is left; the requestor becomes a dependent. -/
  | leave (guid : Guid)

/-! ## Fields of one object -/

/-- What the fields of an object split into. -/
structure Parts where
  scalars : List (String × Value)
  refs : List (String × Skeleton)
  lists : List (String × List Skeleton)
  effects : List Effect

/-- What the elements of a list split into. -/
structure Items where
  /-- The skeletons of the elements that are objects. -/
  objects : List Skeleton
  /-- How many elements are none. -/
  others : Nat
  effects : List Effect

namespace Parts

def empty : Parts :=
  ⟨[], [], [], []⟩

/-- A value kept as a whole: on the record, if there is one, or else in place. -/
def store (backing : Option Guid) (k : String) (v : Value) (rest : Parts) : Parts :=
  match backing with
  | some guid => { rest with effects := .put guid k v :: rest.effects }
  | none => { rest with scalars := (k, v) :: rest.scalars }

/-- A nested object. -/
def nest (k : String) (child : Skeleton) (effects : List Effect) (rest : Parts) : Parts :=
  { rest with refs := (k, child) :: rest.refs, effects := effects ++ rest.effects }

/-- A list, according to what its elements are. -/
def series (backing : Option Guid) (k : String) (items : List Value) (parts : Items)
    (rest : Parts) : Parts :=
  let stored :=
    if parts.objects.isEmpty then
      if parts.others = 0 && backing.isNone then rest else rest.store backing k (.list items)
    else if parts.others = 0 then { rest with lists := (k, parts.objects) :: rest.lists }
    else rest.store backing k (.list items)
  { stored with effects := parts.effects ++ stored.effects }

/-- The skeleton of an object from its parts.  `own` gives the id that the record kept under a guid
calls its own. -/
def skeleton (own : Guid → Guid) (backing : Option Guid) (parts : Parts) : Skeleton :=
  ⟨backing.map own, parts.scalars, parts.refs, parts.lists⟩

/-- The effects of a whole object. -/
def enclosed (backing : Option Guid) (parts : Parts) : List Effect :=
  match backing with
  | some guid => .visit guid :: (parts.effects ++ [.leave guid])
  | none => parts.effects

end Parts

/-! ## The walk -/

mutual

/-- The fields of an object at `p`, kept on the record of `backing`. -/
def splitFields (ids : IdIndex) (own : Guid → Guid) (p : Path) (backing : Option Guid) :
    List (String × Value) → Parts
  | [] => .empty
  | (k, .map fields) :: rest =>
      let q := p.field k
      let inner := objectId? ids q fields
      let parts := splitFields ids own q inner fields
      (splitFields ids own p backing rest).nest k (parts.skeleton own inner) (parts.enclosed inner)
  | (k, .list items) :: rest =>
      (splitFields ids own p backing rest).series backing k items
        (splitItems ids own (p.field k) 0 items)
  | (k, v) :: rest =>
      (splitFields ids own p backing rest).store backing k v

/-- The elements of a list at `p`, the first one at position `i`.  Only elements that are objects
themselves are walked. -/
def splitItems (ids : IdIndex) (own : Guid → Guid) (p : Path) (i : Nat) : List Value → Items
  | [] => ⟨[], 0, []⟩
  | .map fields :: rest =>
      let q := p.index i
      let inner := objectId? ids q fields
      let parts := splitFields ids own q inner fields
      let later := splitItems ids own p (i + 1) rest
      ⟨parts.skeleton own inner :: later.objects, later.others,
        parts.enclosed inner ++ later.effects⟩
  | _ :: rest =>
      let later := splitItems ids own p (i + 1) rest
      { later with others := later.others + 1 }

end

/-- Skeleton and effects of a result. -/
def split? (ids : IdIndex) (own : Guid → Guid) : Value → Option (Skeleton × List Effect)
  | .map fields =>
      let backing := objectId? ids Path.root fields
      let parts := splitFields ids own Path.root backing fields
      some (parts.skeleton own backing, parts.enclosed backing)
  | _ => none

/-! ## All ids -/

mutual

/-- The ids of all objects in a value at `p`. -/
def idsAt (ids : IdIndex) (p : Path) : Value → List Guid
  | .map fields => (objectId? ids p fields).toList ++ idsInFields ids p fields
  | .list items => idsInItems ids p 0 items
  | _ => []

def idsInFields (ids : IdIndex) (p : Path) : List (String × Value) → List Guid
  | [] => []
  | (k, v) :: rest => idsAt ids (p.field k) v ++ idsInFields ids p rest

def idsInItems (ids : IdIndex) (p : Path) (i : Nat) : List Value → List Guid
  | [] => []
  | v :: rest => idsAt ids (p.index i) v ++ idsInItems ids p (i + 1) rest

end

/-- Every id in a result. -/
def idsWithin (ids : IdIndex) (v : Value) : KeySet Guid :=
  .ofKeys (idsAt ids Path.root v)

end Normalize
end EntityCache
