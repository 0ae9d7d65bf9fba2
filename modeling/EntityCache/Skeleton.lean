import EntityCache.Data.Dict
import EntityCache.Value.Text

/-!
# Skeletons

* `Skeleton`: one object of a result without what its entity record holds.  An object with a
  `guid` is backed by that record; any other object keeps its scalars itself.
* `Skeleton.guids`: every entity named in a skeleton.
* `Skeleton.text`, `Skeleton.read`: the stored form, which leaves out an absent id and empty maps.
* `Skeleton.same`: equality, with number equality at the leaves.
-/

namespace EntityCache

open Json (Symbols Scan Fault)

/-- One object of a result. -/
structure Skeleton where
  /-- The record that holds the scalars. -/
  guid : Option Guid
  /-- Scalars kept in place. -/
  scalars : List (String × Value)
  /-- Fields that hold an object. -/
  refs : List (String × Skeleton)
  /-- Fields that hold a list of objects. -/
  lists : List (String × List Skeleton)

namespace Skeleton

/-- An object without fields that no record backs. -/
def empty : Skeleton :=
  ⟨none, [], [], []⟩

instance : Inhabited Skeleton := ⟨empty⟩

def isBacked (n : Skeleton) : Bool :=
  n.guid.isSome

/-! ## Entities -/

mutual

/-- The ids in a skeleton, as often as they occur. -/
def guidList : Skeleton → List Guid
  | ⟨guid, _, refs, lists⟩ => guid.toList ++ refGuids refs ++ listGuids lists

def refGuids : List (String × Skeleton) → List Guid
  | [] => []
  | (_, child) :: rest => guidList child ++ refGuids rest

def listGuids : List (String × List Skeleton) → List Guid
  | [] => []
  | (_, items) :: rest => itemGuids items ++ listGuids rest

def itemGuids : List Skeleton → List Guid
  | [] => []
  | child :: rest => guidList child ++ itemGuids rest

end

/-- Every entity named in a skeleton. -/
def guids (n : Skeleton) : KeySet Guid :=
  .ofKeys n.guidList

/-! ## Equality -/

mutual

def same : Skeleton → Skeleton → Bool
  | ⟨g, ss, rs, ls⟩, ⟨g', ss', rs', ls'⟩ =>
      g == g' && Value.sameFields ss ss' && sameRefs rs rs' && sameLists ls ls'

def sameRefs : List (String × Skeleton) → List (String × Skeleton) → Bool
  | [], [] => true
  | (k, x) :: xs, (l, y) :: ys => k == l && same x y && sameRefs xs ys
  | _, _ => false

def sameLists : List (String × List Skeleton) → List (String × List Skeleton) → Bool
  | [], [] => true
  | (k, x) :: xs, (l, y) :: ys => k == l && sameItems x y && sameLists xs ys
  | _, _ => false

def sameItems : List Skeleton → List Skeleton → Bool
  | [], [] => true
  | x :: xs, y :: ys => same x y && sameItems xs ys
  | _, _ => false

end

/-! ## Stored form -/

/-- A member of the stored form, left out if there is nothing to hold. -/
def member (name : String) (members : List (String × List Char)) : List (String × List Char) :=
  if members.isEmpty then [] else [(name, objectChars members)]

def guidMember : Option Guid → List (String × List Char)
  | some guid => [("guid", quoted guid)]
  | none => []

mutual

def chars : Skeleton → List Char
  | ⟨guid, scalars, refs, lists⟩ =>
      objectChars
        (guidMember guid ++ member "scalars" (Value.fieldChars scalars) ++
          member "refs" (refChars refs) ++ member "lists" (listChars lists))

def refChars : List (String × Skeleton) → List (String × List Char)
  | [] => []
  | (k, child) :: rest => (k, chars child) :: refChars rest

def listChars : List (String × List Skeleton) → List (String × List Char)
  | [] => []
  | (k, items) :: rest => (k, arrayChars (itemChars items)) :: listChars rest

def itemChars : List Skeleton → List (List Char)
  | [] => []
  | child :: rest => chars child :: itemChars rest

end

def text (n : Skeleton) : String :=
  String.ofList n.chars

def fieldNames : List String :=
  ["guid", "scalars", "refs", "lists"]

/-- One field of a skeleton whose nested skeletons are read by `child`, given the room left for
each. -/
def readField (child : Nat → Symbols → Scan Skeleton) (room : Nat) (name : String) (n : Skeleton)
    (s : Symbols) : Scan Skeleton :=
  if name = "guid" then
    (Json.readOptional Json.readText s).map (fun (guid, rest) => ({ n with guid := guid }, rest))
  else if name = "scalars" then
    (Json.readNamed (room - 1) (Value.read (room - 2)) s).map
      (fun (scalars, rest) => ({ n with scalars := scalars }, rest))
  else if name = "refs" then
    (Json.readNamed (room - 1) (child (room - 2)) s).map
      (fun (refs, rest) => ({ n with refs := refs }, rest))
  else
    (Json.readNamed (room - 1) (Json.readSeries (room - 2) (child (room - 3))) s).map
      (fun (lists, rest) => ({ n with lists := lists }, rest))

/-- A skeleton with room for `room` more open containers.  Each nesting takes at least two of
them, so `fuel` never runs out before the room does. -/
def readFrom : (fuel : Nat) → (room : Nat) → Symbols → Scan Skeleton
  | 0, _, _ => .error .malformed
  | fuel + 1, room, s =>
      Json.readRecord fieldNames room (readField (readFrom fuel) room) empty .ok s

def read (room : Nat) (s : Symbols) : Scan Skeleton :=
  readFrom (room + 1) room s

/-- The skeleton of a whole text. -/
def ofText? (text : String) : Except Fault Skeleton :=
  Json.document (read Json.maxRoom) (Json.symbolsOf text)

end Skeleton
end EntityCache
