import EntityCache.Normalize.Split
import EntityCache.Proofs.Data.Bindings

/-!
# The walk over a result

What a walk over a result visits and writes, said without the skeleton that it builds:

* `Value.isKept`: the field values that are kept as a whole; the others are objects and lists of
  objects.
* `Value.Ordered`: the keys of every object in a value are ascending.
* `Value.Hereditary`: a property that the parts of a value share with it.
* `visits`: the objects that the walk visits, each with its path.
* `assignments`: the record fields that it writes, in order.
* `walk_induction`: induction along the walk.
* `mem_assignmentsFrom`: the walk writes exactly what the visited objects keep on records.
* `mem_idsWithin`: the ids of visited objects are among all ids of a result.
* `visit_of_hereditary`: visited objects share what the parts of a value share with it.
-/

namespace EntityCache

/-! ## Values along the walk -/

namespace Value

/-- Neither an object nor a list. -/
def isLeaf : Value → Bool
  | .map _ => false
  | .list _ => false
  | _ => true

/-- Kept as a whole, on a record or in place. -/
def isKept : Value → Bool
  | .map _ => false
  | .list items => items.isEmpty || !items.all isMap
  | _ => true

mutual

/-- Keys strictly ascending in every object. -/
def Ordered : Value → Prop
  | .list items => OrderedItems items
  | .map fields => Assoc.Sorted fields ∧ OrderedFields fields
  | _ => True

def OrderedItems : List Value → Prop
  | [] => True
  | v :: rest => Ordered v ∧ OrderedItems rest

def OrderedFields : List (String × Value) → Prop
  | [] => True
  | (_, v) :: rest => Ordered v ∧ OrderedFields rest

end

theorem isKept_of_isLeaf {v : Value} (h : v.isLeaf = true) : v.isKept = true := by
  cases v <;> simp_all [isLeaf, isKept]

theorem orderedFields_iff {fields : List (String × Value)} :
    OrderedFields fields ↔ ∀ b ∈ fields, b.2.Ordered := by
  induction fields with
  | nil =>
      simp [OrderedFields]
  | cons b rest ih =>
      rcases b with ⟨k, v⟩
      simp only [OrderedFields, ih, List.forall_mem_cons]

theorem orderedItems_iff {items : List Value} : OrderedItems items ↔ ∀ v ∈ items, v.Ordered := by
  induction items with
  | nil =>
      simp [OrderedItems]
  | cons v rest ih =>
      simp only [OrderedItems, ih, List.forall_mem_cons]

/-- Fields and elements share the property with the object or list that they are in. -/
structure Hereditary (Q : Value → Prop) : Prop where
  field : ∀ {fields}, Q (.map fields) → ∀ b ∈ fields, Q b.2
  item : ∀ {items}, Q (.list items) → ∀ v ∈ items, Q v

theorem hereditary_ordered : Hereditary Ordered where
  field h := orderedFields_iff.mp h.2
  item h := orderedItems_iff.mp h

end Value

/-- What is said of the fields of an object (`P`) and of the elements of a list (`Q`), as one
statement about values. -/
def Value.Within (P : List (String × Value) → Prop) (Q : List Value → Prop) : Value → Prop
  | .map fields => P fields
  | .list items => Q items
  | _ => True

/-- Induction along the walk: over the fields of an object (`P`) and over the elements of a list
(`Q`).  Elements that are no objects are passed over, so nothing is known of what they hold. -/
theorem walk_induction {P : List (String × Value) → Prop} {Q : List Value → Prop}
    (nil : P [])
    (object : ∀ k fields rest, P fields → P rest → P ((k, .map fields) :: rest))
    (series : ∀ k items rest, Q items → P rest → P ((k, .list items) :: rest))
    (leaf : ∀ k v rest, v.isLeaf = true → P rest → P ((k, v) :: rest))
    (noItem : Q [])
    (objectItem : ∀ fields rest, P fields → Q rest → Q (.map fields :: rest))
    (otherItem : ∀ v rest, v.isMap = false → Q rest → Q (v :: rest)) :
    (∀ fields, P fields) ∧ (∀ items, Q items) := by
  -- A field and an element split by their value: what the value holds has its statement already.
  have field : ∀ (b : String × Value) rest, b.2.Within P Q → P rest → P (b :: rest) := by
    rintro ⟨k, v⟩ rest hv hrest
    cases v with
    | map fields =>
        exact object k fields rest hv hrest
    | list items =>
        exact series k items rest hv hrest
    | _ =>
        exact leaf k _ rest rfl hrest
  have item : ∀ (v : Value) rest, v.Within P Q → Q rest → Q (v :: rest) := by
    intro v rest hv hrest
    cases v with
    | map fields =>
        exact objectItem fields rest hv hrest
    | _ =>
        exact otherItem _ rest rfl hrest
  -- The recursor of values, with one motive for each kind of nested data.
  have value : ∀ v : Value, v.Within P Q :=
    @Value.rec (Value.Within P Q) Q P (fun b => b.2.Within P Q)
      trivial (fun _ => trivial) (fun _ => trivial) (fun _ => trivial) (fun _ => trivial)
      (fun _ h => h) (fun _ h => h) noItem item nil field (fun _ _ h => h)
  exact ⟨fun fields => value (.map fields), fun items => value (.list items)⟩

namespace Normalize

/-! ## Visited objects -/

/-- An object that the walk visits. -/
structure Visit where
  path : Path
  fields : List (String × Value)

/-- The entity of a visited object. -/
def Visit.guid? (ids : IdIndex) (o : Visit) : Option Guid :=
  objectId? ids o.path o.fields

mutual

/-- The objects below an object at `p`. -/
def visitsIn (p : Path) : List (String × Value) → List Visit
  | [] => []
  | (k, .map fields) :: rest =>
      ⟨p.field k, fields⟩ :: (visitsIn (p.field k) fields ++ visitsIn p rest)
  | (k, .list items) :: rest => visitsAmong (p.field k) 0 items ++ visitsIn p rest
  | _ :: rest => visitsIn p rest

/-- The objects among the elements of a list at `p`, the first one at position `i`. -/
def visitsAmong (p : Path) (i : Nat) : List Value → List Visit
  | [] => []
  | .map fields :: rest =>
      ⟨p.index i, fields⟩ :: (visitsIn (p.index i) fields ++ visitsAmong p (i + 1) rest)
  | _ :: rest => visitsAmong p (i + 1) rest

end

/-- An object at `p` and the objects below it. -/
def visitsFrom (p : Path) (fields : List (String × Value)) : List Visit :=
  ⟨p, fields⟩ :: visitsIn p fields

/-- The objects that the walk over a result visits. -/
def visits : Value → List Visit
  | .map fields => visitsFrom Path.root fields
  | _ => []

/-! ## Written fields -/

/-- A field of an entity with the value that it gets. -/
abbrev Assignment : Type := (Guid × String) × Value

/-- What keeping a value as a whole writes on a record. -/
def assigned (backing : Option Guid) (k : String) (v : Value) : List Assignment :=
  (backing.map (fun guid => ((guid, k), v))).toList

mutual

/-- What an object at `p`, backed by a record or not, and the objects below it write. -/
def assignmentsIn (ids : IdIndex) (p : Path) (backing : Option Guid) :
    List (String × Value) → List Assignment
  | [] => []
  | (k, .map fields) :: rest =>
      assignmentsIn ids (p.field k) (objectId? ids (p.field k) fields) fields ++
        assignmentsIn ids p backing rest
  | (k, .list items) :: rest =>
      assignmentsAmong ids (p.field k) 0 items ++
        ((if (Value.list items).isKept then assigned backing k (.list items) else []) ++
          assignmentsIn ids p backing rest)
  | (k, v) :: rest => assigned backing k v ++ assignmentsIn ids p backing rest

/-- What the objects among the elements of a list write. -/
def assignmentsAmong (ids : IdIndex) (p : Path) (i : Nat) : List Value → List Assignment
  | [] => []
  | .map fields :: rest =>
      assignmentsIn ids (p.index i) (objectId? ids (p.index i) fields) fields ++
        assignmentsAmong ids p (i + 1) rest
  | _ :: rest => assignmentsAmong ids p (i + 1) rest

end

/-- What an object at `p` and the objects below it write. -/
def assignmentsFrom (ids : IdIndex) (p : Path) (fields : List (String × Value)) :
    List Assignment :=
  assignmentsIn ids p (objectId? ids p fields) fields

/-- The record fields that the walk over a result writes: fields ascending, list elements by
position, and the elements of a list before the list itself. -/
def assignments (ids : IdIndex) : Value → List Assignment
  | .map fields => assignmentsFrom ids Path.root fields
  | _ => []

section Forall

variable {Q : Visit → Prop}

/-- What holds of all visited objects holds of an object, of those below it and of those beside
it. -/
theorem forall_visits_object {o : Visit} {below beside : List Visit} :
    (∀ o' ∈ o :: (below ++ beside), Q o') ↔
      (∀ o' ∈ [o], Q o') ∧ (∀ o' ∈ below, Q o') ∧ ∀ o' ∈ beside, Q o' := by
  rw [List.forall_mem_cons, List.forall_mem_append, List.forall_mem_singleton]

theorem forall_visitsFrom {p : Path} {fields : List (String × Value)} :
    (∀ o ∈ visitsFrom p fields, Q o) ↔
      (∀ o ∈ [(⟨p, fields⟩ : Visit)], Q o) ∧ ∀ o ∈ visitsIn p fields, Q o := by
  rw [visitsFrom, List.forall_mem_cons, List.forall_mem_singleton]

end Forall

section Leaves

variable {v : Value} (ids : IdIndex) (own : Guid → Guid) (p : Path) (backing : Option Guid)
  (k : String) (i : Nat)

theorem visitsIn_leaf (h : v.isLeaf = true) (rest : List (String × Value)) :
    visitsIn p ((k, v) :: rest) = visitsIn p rest := by
  cases v <;> simp_all [visitsIn, Value.isLeaf]

theorem visitsAmong_other (h : v.isMap = false) (rest : List Value) :
    visitsAmong p i (v :: rest) = visitsAmong p (i + 1) rest := by
  cases v <;> simp_all [visitsAmong, Value.isMap]

theorem assignmentsIn_leaf (h : v.isLeaf = true) (rest : List (String × Value)) :
    assignmentsIn ids p backing ((k, v) :: rest) =
      assigned backing k v ++ assignmentsIn ids p backing rest := by
  cases v <;> simp_all [assignmentsIn, Value.isLeaf]

theorem assignmentsAmong_other (h : v.isMap = false) (rest : List Value) :
    assignmentsAmong ids p i (v :: rest) = assignmentsAmong ids p (i + 1) rest := by
  cases v <;> simp_all [assignmentsAmong, Value.isMap]

theorem splitFields_leaf (h : v.isLeaf = true) (rest : List (String × Value)) :
    splitFields ids own p backing ((k, v) :: rest) =
      (splitFields ids own p backing rest).store backing k v := by
  cases v <;> simp_all [splitFields, Value.isLeaf]

theorem splitItems_other (h : v.isMap = false) (rest : List Value) :
    splitItems ids own p i (v :: rest) =
      { splitItems ids own p (i + 1) rest with
        others := (splitItems ids own p (i + 1) rest).others + 1 } := by
  cases v <;> simp_all [splitItems, Value.isMap]

end Leaves

/-! ## Who writes what -/

theorem mem_assigned {backing : Option Guid} {k k' : String} {v v' : Value} {guid : Guid} :
    ((guid, k), v) ∈ assigned backing k' v' ↔ backing = some guid ∧ k = k' ∧ v = v' := by
  cases backing with
  | none =>
      simp [assigned]
  | some g =>
      simp only [assigned, Option.map_some, Option.toList_some, List.mem_singleton,
        Prod.mk.injEq, Option.some.injEq]
      constructor
      · rintro ⟨⟨rfl, rfl⟩, rfl⟩
        exact ⟨rfl, rfl, rfl⟩
      · rintro ⟨rfl, rfl, rfl⟩
        exact ⟨⟨rfl, rfl⟩, rfl⟩

/-- An object keeps a value on the record of an entity. -/
def Visit.Keeps (ids : IdIndex) (guid : Guid) (k : String) (v : Value) (o : Visit) : Prop :=
  o.guid? ids = some guid ∧ (k, v) ∈ o.fields ∧ v.isKept = true

theorem mem_assignments_walk (ids : IdIndex) (guid : Guid) (k : String) (v : Value) :
    (∀ fields p backing, ((guid, k), v) ∈ assignmentsIn ids p backing fields ↔
      (backing = some guid ∧ (k, v) ∈ fields ∧ v.isKept = true) ∨
        ∃ o ∈ visitsIn p fields, o.Keeps ids guid k v) ∧
    (∀ items p i, ((guid, k), v) ∈ assignmentsAmong ids p i items ↔
      ∃ o ∈ visitsAmong p i items, o.Keeps ids guid k v) := by
  refine walk_induction ?nil ?object ?series ?leaf ?noItem ?objectItem ?otherItem
  case nil =>
    intro p backing
    simp [assignmentsIn, visitsIn]
  case object =>
    intro k' fields rest ihFields ihRest p backing
    -- An object is never kept as a whole, so the field itself writes nothing.
    have hv : ¬ (v = .map fields ∧ v.isKept = true) := by
      rintro ⟨rfl, h⟩
      simp [Value.isKept] at h
    simp only [assignmentsIn, visitsIn, List.mem_append, ihFields, ihRest, List.mem_cons,
      or_and_right, exists_or, Prod.mk.injEq]
    simp only [Visit.Keeps, Visit.guid?]
    grind
  case series =>
    intro k' items rest ihItems ihRest p backing
    simp only [assignmentsIn, visitsIn, List.mem_append, ihItems, ihRest, List.mem_cons,
      or_and_right, exists_or, Prod.mk.injEq]
    -- The list itself is written only where it is kept.
    split
    · simp only [mem_assigned]
      grind
    · simp only [List.not_mem_nil]
      grind
  case leaf =>
    intro k' w rest hw ihRest p backing
    have hkept := Value.isKept_of_isLeaf hw
    simp only [assignmentsIn_leaf ids p backing k' hw, visitsIn_leaf p k' hw]
    simp only [List.mem_append, ihRest, List.mem_cons, Prod.mk.injEq, mem_assigned]
    grind
  case noItem =>
    intro p i
    simp [assignmentsAmong, visitsAmong]
  case objectItem =>
    intro fields rest ihFields ihRest p i
    simp only [assignmentsAmong, visitsAmong, List.mem_append, ihFields, ihRest, List.mem_cons,
      or_and_right, exists_or]
    simp only [Visit.Keeps, Visit.guid?]
    grind
  case otherItem =>
    intro w rest hw ihRest p i
    simp only [assignmentsAmong_other ids p i hw, visitsAmong_other p i hw]
    exact ihRest p (i + 1)

/-- The walk writes exactly the values that visited objects keep on records. -/
theorem mem_assignmentsFrom {ids : IdIndex} {p : Path} {fields : List (String × Value)}
    {guid : Guid} {k : String} {v : Value} :
    ((guid, k), v) ∈ assignmentsFrom ids p fields ↔
      ∃ o ∈ visitsFrom p fields, o.Keeps ids guid k v := by
  simp only [assignmentsFrom, (mem_assignments_walk ids guid k v).1]
  simp [visitsFrom, Visit.Keeps, Visit.guid?]

/-- What the walk writes last to a field is kept there by a visited object. -/
theorem exists_keeps_of_last {ids : IdIndex} {p : Path} {fields : List (String × Value)}
    {guid : Guid} {k : String} {v : Value}
    (h : Assoc.get? (guid, k) (assignmentsFrom ids p fields).reverse = some v) :
    ∃ o ∈ visitsFrom p fields, o.Keeps ids guid k v :=
  mem_assignmentsFrom.mp (Assoc.mem_of_get?_reverse h)

/-- To a field that a visited object keeps something is written last. -/
theorem exists_last_of_keeps {ids : IdIndex} {p : Path} {fields : List (String × Value)}
    {guid : Guid} {k : String} {v : Value} {o : Visit} (ho : o ∈ visitsFrom p fields)
    (hkeeps : o.Keeps ids guid k v) :
    ∃ w, Assoc.get? (guid, k) (assignmentsFrom ids p fields).reverse = some w := by
  have hmem : ((guid, k), v) ∈ (assignmentsFrom ids p fields).reverse :=
    List.mem_reverse.mpr (mem_assignmentsFrom.mpr ⟨o, ho, hkeeps⟩)
  exact Option.isSome_iff_exists.mp (Assoc.isSome_get?_iff.mpr ⟨v, hmem⟩)

/-! ## All ids -/

theorem mem_ids_walk (ids : IdIndex) (guid : Guid) :
    (∀ fields p, ∀ o ∈ visitsIn p fields, o.guid? ids = some guid →
      guid ∈ idsInFields ids p fields) ∧
    (∀ items p i, ∀ o ∈ visitsAmong p i items, o.guid? ids = some guid →
      guid ∈ idsInItems ids p i items) := by
  refine walk_induction ?nil ?object ?series ?leaf ?noItem ?objectItem ?otherItem
  case nil =>
    intro p o ho
    simp [visitsIn] at ho
  case object =>
    intro k fields rest ihFields ihRest p o ho hguid
    simp only [visitsIn] at ho
    simp only [idsInFields, idsAt, List.mem_append, Option.mem_toList]
    -- The visited object is the field itself, is below it, or belongs to a later field.
    rcases List.mem_cons.mp ho with rfl | ho
    · exact Or.inl (Or.inl hguid)
    · rcases List.mem_append.mp ho with ho | ho
      · exact Or.inl (Or.inr (ihFields _ o ho hguid))
      · exact Or.inr (ihRest p o ho hguid)
  case series =>
    intro k items rest ihItems ihRest p o ho hguid
    simp only [visitsIn] at ho
    simp only [idsInFields, idsAt, List.mem_append]
    rcases List.mem_append.mp ho with ho | ho
    · exact Or.inl (ihItems _ 0 o ho hguid)
    · exact Or.inr (ihRest p o ho hguid)
  case leaf =>
    intro k v rest hv ihRest p o ho hguid
    simp only [visitsIn_leaf p k hv] at ho
    exact List.mem_append_right _ (ihRest p o ho hguid)
  case noItem =>
    intro p i o ho
    simp [visitsAmong] at ho
  case objectItem =>
    intro fields rest ihFields ihRest p i o ho hguid
    simp only [visitsAmong] at ho
    simp only [idsInItems, idsAt, List.mem_append, Option.mem_toList]
    rcases List.mem_cons.mp ho with rfl | ho
    · exact Or.inl (Or.inl hguid)
    · rcases List.mem_append.mp ho with ho | ho
      · exact Or.inl (Or.inr (ihFields _ o ho hguid))
      · exact Or.inr (ihRest p _ o ho hguid)
  case otherItem =>
    intro v rest hv ihRest p i o ho hguid
    -- An element that is no object may hold ids, but it is not visited.
    simp only [visitsAmong_other p i hv] at ho
    exact List.mem_append_right _ (ihRest p _ o ho hguid)

/-- The id of a visited object is among all ids of the result. -/
theorem mem_idsWithin {ids : IdIndex} {fields : List (String × Value)} {guid : Guid} {o : Visit} :
    o ∈ visitsFrom Path.root fields → o.guid? ids = some guid →
      (idsWithin ids (.map fields)).mem guid = true := by
  intro ho hguid
  simp only [idsWithin, KeySet.mem_ofKeys, decide_eq_true_eq, idsAt, List.mem_append]
  rcases List.mem_cons.mp ho with rfl | ho
  · exact Or.inl (Option.mem_toList.mpr hguid)
  · exact Or.inr ((mem_ids_walk ids guid).1 fields _ o ho hguid)

/-! ## What visited objects inherit -/

section Inherited

variable {Q : Value → Prop}

theorem inherited_walk (hQ : Value.Hereditary Q) :
    (∀ fields, (∀ b ∈ fields, Q b.2) → ∀ p, ∀ o ∈ visitsIn p fields, Q (.map o.fields)) ∧
    (∀ items, (∀ v ∈ items, Q v) → ∀ p i, ∀ o ∈ visitsAmong p i items, Q (.map o.fields)) := by
  refine walk_induction ?nil ?object ?series ?leaf ?noItem ?objectItem ?otherItem
  case nil =>
    intro _ p o ho
    simp only [visitsIn, List.not_mem_nil] at ho
  case object =>
    intro k fields rest ihFields ihRest h p o ho
    rcases List.forall_mem_cons.mp h with ⟨hobject, hrest⟩
    -- The object itself, one below it, or one beside it.
    simp only [visitsIn] at ho
    rcases List.mem_cons.mp ho with rfl | ho
    · exact hobject
    · rcases List.mem_append.mp ho with ho | ho
      · exact ihFields (hQ.field hobject) _ o ho
      · exact ihRest hrest p o ho
  case series =>
    intro k items rest ihItems ihRest h p o ho
    rcases List.forall_mem_cons.mp h with ⟨hlist, hrest⟩
    simp only [visitsIn] at ho
    rcases List.mem_append.mp ho with ho | ho
    · exact ihItems (hQ.item hlist) _ _ o ho
    · exact ihRest hrest p o ho
  case leaf =>
    intro k v rest hleaf ihRest h p o ho
    simp only [visitsIn_leaf p k hleaf] at ho
    exact ihRest (List.forall_mem_cons.mp h).2 p o ho
  case noItem =>
    intro _ p i o ho
    simp only [visitsAmong, List.not_mem_nil] at ho
  case objectItem =>
    intro fields rest ihFields ihRest h p i o ho
    rcases List.forall_mem_cons.mp h with ⟨hobject, hrest⟩
    simp only [visitsAmong] at ho
    rcases List.mem_cons.mp ho with rfl | ho
    · exact hobject
    · rcases List.mem_append.mp ho with ho | ho
      · exact ihFields (hQ.field hobject) _ o ho
      · exact ihRest hrest p _ o ho
  case otherItem =>
    intro v rest hv ihRest h p i o ho
    simp only [visitsAmong_other p i hv] at ho
    exact ihRest (List.forall_mem_cons.mp h).2 p _ o ho

/-- Every visited object has a property that parts share. -/
theorem visit_of_hereditary (hQ : Value.Hereditary Q) {p : Path}
    {fields : List (String × Value)} (h : Q (.map fields)) :
    ∀ o ∈ visitsFrom p fields, Q (.map o.fields) := by
  intro o ho
  rcases List.mem_cons.mp ho with rfl | ho
  · exact h
  · exact (inherited_walk hQ).1 fields (hQ.field h) p o ho

end Inherited

end Normalize
end EntityCache
