import EntityCache.Data.Assoc
import EntityCache.Numeric.Binary64

/-!
# Values

What a query result is made of:

* `Number`: an integer or a binary floating-point number.  The two never equal each other.
* `Value`: JSON data with one addition, `Value.id`, a string that the caller has marked as the
  global id of an entity.  The mark is lost in text.
* `Value.same`: equality of values, with number equality at the leaves.
* `Value.plain`: the value with every mark replaced by the plain string.
* `Value.inlineId?`: the id that an object carries among its own fields.
-/

namespace EntityCache

/-- Names an entity. -/
abbrev Guid : Type := String

/-- Names a cached query result. -/
abbrev QueryKey : Type := String

inductive Number where
  | int (n : Int)
  | float (x : Numeric.Binary64)
  deriving DecidableEq

/-- Number equality: an integer never equals a float. -/
def Number.same : Number → Number → Bool
  | .int m, .int n => decide (m = n)
  | .float x, .float y => x.same y
  | _, _ => false

/-- Data of a result.  The fields of a `map` stand in key order. -/
inductive Value where
  | null
  | bool (b : Bool)
  | num (n : Number)
  | str (s : String)
  | id (guid : Guid)
  | list (items : List Value)
  | map (fields : List (String × Value))

namespace Value

instance : Inhabited Value := ⟨.null⟩

def isMap : Value → Bool
  | .map _ => true
  | _ => false

def fields? : Value → Option (List (String × Value))
  | .map fields => some fields
  | _ => none

/-- The text of a string, marked as an id or not. -/
def text? : Value → Option String
  | .str s => some s
  | .id s => some s
  | _ => none

/-- The field `key` of an object. -/
def field? (v : Value) (key : String) : Option Value :=
  v.fields?.bind (Assoc.get? key)

/-- The id among the given fields, the first one in key order. -/
def idAmong : List (String × Value) → Option Guid
  | [] => none
  | (_, .id guid) :: _ => some guid
  | _ :: rest => idAmong rest

def inlineId? (v : Value) : Option Guid :=
  v.fields?.bind idAmong

/-! ## Equality -/

mutual

/-- Whether two values are equal.  A marked id differs from the plain string. -/
def same : Value → Value → Bool
  | .null, .null => true
  | .bool a, .bool b => a == b
  | .num m, .num n => m.same n
  | .str s, .str t => s == t
  | .id s, .id t => s == t
  | .list xs, .list ys => sameItems xs ys
  | .map xs, .map ys => sameFields xs ys
  | _, _ => false

def sameItems : List Value → List Value → Bool
  | [], [] => true
  | x :: xs, y :: ys => same x y && sameItems xs ys
  | _, _ => false

def sameFields : List (String × Value) → List (String × Value) → Bool
  | [], [] => true
  | (k, x) :: xs, (l, y) :: ys => k == l && same x y && sameFields xs ys
  | _, _ => false

end

/-! ## Marks -/

mutual

/-- The value without marks: every id is a plain string. -/
def plain : Value → Value
  | .id s => .str s
  | .list items => .list (plainItems items)
  | .map fields => .map (plainFields fields)
  | v => v

def plainItems : List Value → List Value
  | [] => []
  | v :: rest => plain v :: plainItems rest

def plainFields : List (String × Value) → List (String × Value)
  | [] => []
  | (k, v) :: rest => (k, plain v) :: plainFields rest

end

mutual

/-- The value in which every object of the form `(marker : text)`, with no other field, has become
the id with that text. -/
def marked (marker : String) : Value → Value
  | .list items => .list (markedItems marker items)
  | .map [(k, .str s)] => if k = marker then .id s else .map [(k, .str s)]
  | .map fields => .map (markedFields marker fields)
  | v => v

def markedItems (marker : String) : List Value → List Value
  | [] => []
  | v :: rest => marked marker v :: markedItems marker rest

def markedFields (marker : String) : List (String × Value) → List (String × Value)
  | [] => []
  | (k, v) :: rest => (k, marked marker v) :: markedFields marker rest

end

end Value
end EntityCache
