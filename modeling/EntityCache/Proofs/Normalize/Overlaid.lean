import EntityCache.Normalize.Assemble
import EntityCache.Proofs.Normalize.Effects

/-!
# What a split result shows

A result that was split over records shows what the records have by now, and over that what is
nested in it:

* `overlaid`: a result as it shows over records: an object with a record shows the fields of the
  record, any other object its own values that stay in place, and either shows its nested objects
  and lists of objects over these.
* `get?_overlaidAt`: the fields of an object that shows so, one by one.
* `assemble_objectAt`: assembling the skeleton of an object gives just that, whatever the records
  show.
-/

namespace EntityCache

/-- Kept in place by an object without record: kept as a whole, and no empty list. -/
def Value.isInline : Value → Bool
  | .list [] => false
  | v => v.isKept

namespace Normalize

/-! ## Results over records -/

/-- What an object shows where nothing is nested: the fields of its record, or else its own values
that stay in place. -/
def ground (view : FieldView) (backing : Option Guid) (fields : List (String × Value)) :
    List (String × Value) :=
  match backing with
  | some guid => (view guid).getD []
  | none => fields.filter (fun b => b.2.isInline)

mutual

/-- What is nested in the fields of an object at `p`, each part over its own record. -/
def nestedIn (view : FieldView) (ids : IdIndex) (p : Path) :
    List (String × Value) → List (String × Value)
  | [] => []
  | (k, .map fields) :: rest =>
      (k, .map (Assoc.union (ground view (objectId? ids (p.field k) fields) fields)
        (nestedIn view ids (p.field k) fields))) :: nestedIn view ids p rest
  | (k, .list items) :: rest =>
      let later := nestedIn view ids p rest
      if (Value.list items).isKept then later
      else (k, .list (nestedAmong view ids (p.field k) 0 items)) :: later
  | _ :: rest => nestedIn view ids p rest

/-- The elements of a list of objects at `p`, the first one at position `i`. -/
def nestedAmong (view : FieldView) (ids : IdIndex) (p : Path) (i : Nat) : List Value → List Value
  | [] => []
  | .map fields :: rest =>
      .map (Assoc.union (ground view (objectId? ids (p.index i) fields) fields)
        (nestedIn view ids (p.index i) fields)) :: nestedAmong view ids p (i + 1) rest
  | v :: rest => v :: nestedAmong view ids p (i + 1) rest

end

/-- An object at `p` over its record: what is nested hides what is not. -/
def overlaidAt (view : FieldView) (ids : IdIndex) (p : Path) (fields : List (String × Value)) :
    Value :=
  .map (Assoc.union (ground view (objectId? ids p fields) fields) (nestedIn view ids p fields))

/-- A result over records that show `view`. -/
def overlaid (view : FieldView) (ids : IdIndex) : Value → Value
  | .map fields => overlaidAt view ids Path.root fields
  | v => v

/-- The records show their fields in order. -/
def OrderedView (view : FieldView) : Prop :=
  ∀ guid, Assoc.Sorted ((view guid).getD [])

section Overlaid

variable (view : FieldView) (ids : IdIndex) (p : Path)

/-- One field of an object at `p`, if something is nested in it. -/
def nestedField (k : String) : Value → Option Value
  | .map fields => some (overlaidAt view ids (p.field k) fields)
  | .list items =>
      if (Value.list items).isKept then none
      else some (.list (nestedAmong view ids (p.field k) 0 items))
  | _ => none

theorem nestedField_of_kept (k : String) {v : Value} (hkept : v.isKept = true) :
    nestedField view ids p k v = none := by
  cases v with
  | map fields =>
      cases hkept
  | list items =>
      simp [nestedField, hkept]
  | _ =>
      rfl

theorem nestedIn_eq (fields : List (String × Value)) :
    nestedIn view ids p fields = Assoc.filterMap (nestedField view ids p) fields := by
  induction fields with
  | nil =>
      simp [nestedIn, Assoc.filterMap]
  | cons b rest ih =>
      rcases b with ⟨k, v⟩
      rw [Assoc.filterMap_cons, ← ih]
      cases v with
      | list items =>
          simp only [nestedIn, nestedField]
          split <;> rfl
      | _ =>
          simp only [nestedIn, nestedField]
          rfl

variable {view}

theorem sorted_ground (hview : OrderedView view) (backing : Option Guid)
    {fields : List (String × Value)} (h : Assoc.Sorted fields) :
    Assoc.Sorted (ground view backing fields) := by
  cases backing with
  | none =>
      exact List.Pairwise.filter _ h
  | some guid =>
      exact hview guid

/-- Look-up in an object over its record. -/
theorem get?_overlaidAt (hview : OrderedView view) {fields : List (String × Value)}
    (h : Assoc.Sorted fields) :
    ∃ shown, overlaidAt view ids p fields = .map shown ∧ Assoc.Sorted shown ∧
      ∀ k, Assoc.get? k shown =
        ((Assoc.get? k fields).bind (nestedField view ids p k)).or
          (Assoc.get? k (ground view (objectId? ids p fields) fields)) := by
  refine ⟨_, rfl, (sorted_ground hview _ h).union _, ?_⟩
  intro k
  have hnested := h.filterMap (nestedField view ids p)
  rw [nestedIn_eq, Assoc.get?_union_of_sorted hnested, Assoc.get?_filterMap h]

theorem get?_ground_none {fields : List (String × Value)} (h : Assoc.Sorted fields) (k : String) :
    Assoc.get? k (ground view none fields) = (Assoc.get? k fields).filter Value.isInline :=
  Assoc.get?_filter h (fun _ v => v.isInline) k

end Overlaid

/-! ## Skeletons field by field -/

section Parts

variable (ids : IdIndex) (own : Guid → Guid) (p : Path) (backing : Option Guid)

/-- The skeleton of a field that is an object. -/
def refOf (k : String) : Value → Option Skeleton
  | .map fields => some (objectAt ids own (p.field k) fields).1
  | _ => none

/-- The skeletons of a field that is a list of objects. -/
def seriesOf (k : String) : Value → Option (List Skeleton)
  | .list items =>
      if (Value.list items).isKept then none
      else some (splitItems ids own (p.field k) 0 items).objects
  | _ => none

/-- A field that stays in place. -/
def scalarOf (v : Value) : Option Value :=
  match backing, v with
  | some _, _ => none
  | none, .list [] => none
  | none, v => if v.isKept then some v else none

theorem splitFields_eq (fields : List (String × Value)) :
    (splitFields ids own p backing fields).refs = Assoc.filterMap (refOf ids own p) fields ∧
      (splitFields ids own p backing fields).lists = Assoc.filterMap (seriesOf ids own p) fields ∧
      (splitFields ids own p backing fields).scalars =
        Assoc.filterMap (fun _ => scalarOf backing) fields := by
  induction fields with
  | nil =>
      simp [splitFields, Parts.empty, Assoc.filterMap]
  | cons b rest ih =>
      rcases b with ⟨k, v⟩
      rcases ih with ⟨hrefs, hlists, hscalars⟩
      simp only [Assoc.filterMap_cons]
      -- Each value goes to one of the three parts at most, and the record takes the rest.
      cases v with
      | map fields =>
          simp only [splitFields_map]
          simp [Parts.nest, refOf, seriesOf, scalarOf, Value.isKept, hrefs, hlists, hscalars]
          cases backing <;> rfl
      | list items =>
          simp only [splitFields_list]
          cases items with
          | nil =>
              cases backing <;>
                simp [Value.isKept, refOf, seriesOf, scalarOf, Parts.store, hrefs, hlists, hscalars]
          | cons v items =>
              cases hkept : (Value.list (v :: items)).isKept <;> cases backing <;>
                simp [hkept, refOf, seriesOf, scalarOf, Parts.store, hrefs, hlists, hscalars]
      | _ =>
          rw [splitFields_leaf _ _ _ _ _ rfl]
          cases backing <;>
            simp [Parts.store, refOf, seriesOf, scalarOf, Value.isKept, hrefs, hlists, hscalars]

theorem scalarOf_none (v : Value) : scalarOf none v = if v.isInline then some v else none := by
  cases v with
  | list items =>
      cases items <;> rfl
  | _ =>
      rfl

end Parts

/-! ## Assembling -/

section Assembling

variable (view : FieldView) (ids : IdIndex)

theorem assembleRefs_eq (refs : List (String × Skeleton)) :
    assembleRefs view refs = Assoc.filterMap (fun _ child => some (assemble view child)) refs := by
  induction refs with
  | nil =>
      simp [assembleRefs, Assoc.filterMap]
  | cons b rest ih =>
      rcases b with ⟨k, child⟩
      simp [assembleRefs, Assoc.filterMap_cons, ih]

theorem assembleLists_eq (lists : List (String × List Skeleton)) :
    assembleLists view lists =
      Assoc.filterMap (fun _ items => some (.list (assembleItems view items))) lists := by
  induction lists with
  | nil =>
      simp [assembleLists, Assoc.filterMap]
  | cons b rest ih =>
      rcases b with ⟨k, items⟩
      simp [assembleLists, Assoc.filterMap_cons, ih]

/-- Look-up in an assembled object: lists of objects hide nested objects, these hide the rest. -/
theorem get?_assembled {n : Skeleton} (hrefs : Assoc.Sorted n.refs)
    (hlists : Assoc.Sorted n.lists) :
    ∃ shown, assemble view n = .map shown ∧ Assoc.Sorted shown ∧ ∀ k, Assoc.get? k shown =
      ((Assoc.get? k n.lists).map (fun items => .list (assembleItems view items))).or
        (((Assoc.get? k n.refs).map (assemble view)).or
          (Assoc.get? k (ownFields view n).reverse)) := by
  rcases n with ⟨guid, scalars, refs, lists⟩
  refine ⟨_, rfl, ((Assoc.sorted_ofList _).union _).union _, ?_⟩
  intro k
  simp only at hrefs hlists
  -- Assembling the parts keeps their keys, so they stay sorted.
  have hrefs' := hrefs.filterMap (fun _ child => some (assemble view child))
  have hlists' := hlists.filterMap (fun _ items => some (Value.list (assembleItems view items)))
  rw [assembleRefs_eq, assembleLists_eq, Assoc.get?_union_of_sorted hlists',
    Assoc.get?_union_of_sorted hrefs', Assoc.get?_filterMap hlists, Assoc.get?_filterMap hrefs,
    Assoc.get?_ofList]
  simp only [Option.map_eq_bind]
  rfl

/-- What is nested in a field of an object at `p` is assembled to what it shows. -/
def NestedShown (p : Path) (k : String) (v : Value) : Prop :=
  (∀ fields, v = .map fields →
    assemble view (objectAt ids (fun guid => guid) (p.field k) fields).1 =
      overlaidAt view ids (p.field k) fields) ∧
  (∀ items, v = .list items → v.isKept = false →
    assembleItems view (splitItems ids (fun guid => guid) (p.field k) 0 items).objects =
      nestedAmong view ids (p.field k) 0 items)

variable {view}

/-- The fields in place are those that show where nothing is nested. -/
theorem get?_ownFields (hview : OrderedView view) {fields : List (String × Value)}
    (hfields : Assoc.Sorted fields) {n : Skeleton} {backing : Option Guid} (hn : n.guid = backing)
    (hscalars : n.scalars = Assoc.filterMap (fun _ => scalarOf backing) fields) (k : String) :
    Assoc.get? k (ownFields view n).reverse = Assoc.get? k (ground view backing fields) := by
  simp only [ownFields, hn]
  cases backing with
  | none =>
      have hsorted := hfields.filterMap (fun _ => scalarOf none)
      simp only [hscalars, Assoc.get?_reverse hsorted, Assoc.get?_filterMap hfields,
        get?_ground_none hfields]
      cases Assoc.get? k fields with
      | none =>
          rfl
      | some v =>
          simp only [Option.bind_some, scalarOf_none, Option.filter]
  | some guid =>
      exact Assoc.get?_reverse (hview guid) k

theorem assemble_objectAt_of_nested (hview : OrderedView view) {p : Path}
    {fields : List (String × Value)} (hfields : Assoc.Sorted fields)
    (hnested : ∀ k v, (k, v) ∈ fields → NestedShown view ids p k v) :
    assemble view (objectAt ids (fun guid => guid) p fields).1 = overlaidAt view ids p fields := by
  let node := (objectAt ids (fun guid => guid) p fields).1
  -- What the skeleton of the object is made of, part by part.
  obtain ⟨hrefs, hlists, hscalars⟩ : node.refs = Assoc.filterMap (refOf ids _ p) fields ∧
      node.lists = Assoc.filterMap (seriesOf ids _ p) fields ∧
      node.scalars = Assoc.filterMap (fun _ => scalarOf (objectId? ids p fields)) fields :=
    splitFields_eq ids (fun guid => guid) p (objectId? ids p fields) fields
  have hguid : node.guid = objectId? ids p fields := by
    simp [node, objectAt, Parts.skeleton]
  rcases get?_assembled view (n := node)
    (by rw [hrefs]; exact hfields.filterMap _) (by rw [hlists]; exact hfields.filterMap _) with
    ⟨assembled, hassembled, hsorted, hget⟩
  rcases get?_overlaidAt ids p hview hfields with ⟨shown, hshown, hsorted', hget'⟩
  rw [hassembled, hshown]
  refine congrArg Value.map (Assoc.eq_of_get?_eq hsorted hsorted' fun k => ?_)
  -- Both sides have the same fields, so it is enough to look each one up.
  rw [hget, hget', get?_ownFields hview hfields hguid hscalars k, hrefs, hlists,
    Assoc.get?_filterMap hfields, Assoc.get?_filterMap hfields, ← Option.or_assoc]
  congr 1
  cases hv : Assoc.get? k fields with
  | none =>
      rfl
  | some v =>
      rcases hnested k v (Assoc.mem_of_get? hv) with ⟨hmap, hlist⟩
      -- An object is in one part of the skeleton, a list of objects in another, the rest in none.
      cases v with
      | map inner =>
          simp [refOf, seriesOf, nestedField, hmap inner rfl]
      | list items =>
          cases hk : (Value.list items).isKept with
          | false =>
              simp [refOf, seriesOf, nestedField, hk, hlist items rfl hk]
          | true =>
              simp [refOf, seriesOf, nestedField, hk]
      | _ =>
          rfl

theorem assemble_walk (hview : OrderedView view) :
    (∀ fields, Value.OrderedFields fields → ∀ p, ∀ k v, (k, v) ∈ fields →
      NestedShown view ids p k v) ∧
    (∀ items, Value.OrderedItems items → ∀ p i, items.all Value.isMap = true →
      assembleItems view (splitItems ids (fun guid => guid) p i items).objects =
        nestedAmong view ids p i items) := by
  refine walk_induction ?nil ?object ?series ?leaf ?noItem ?objectItem ?otherItem
  case nil =>
    intro _ p k v hv
    cases hv
  case object =>
    intro k fields rest ihFields ihRest hordered p k' v hv
    rcases hordered with ⟨⟨hsorted, hfields⟩, hrest⟩
    -- The field is the object itself, or one of those behind it.
    rcases List.mem_cons.mp hv with e | hv
    · cases e
      refine ⟨?_, ?_⟩
      · rintro _ ⟨⟩
        exact assemble_objectAt_of_nested ids hview hsorted (ihFields hfields (p.field k))
      · rintro _ ⟨⟩
    · exact ihRest hrest p k' v hv
  case series =>
    intro k items rest ihItems ihRest hordered p k' v hv
    rcases hordered with ⟨hitems, hrest⟩
    rcases List.mem_cons.mp hv with e | hv
    · cases e
      refine ⟨?_, ?_⟩
      · rintro _ ⟨⟩
      · rintro _ ⟨⟩ hkept
        -- A list that is not kept holds only objects, so none of its elements is passed over.
        have hall : items.all Value.isMap = true := by
          cases hall : items.all Value.isMap with
          | true => rfl
          | false => simp [Value.isKept, hall] at hkept
        exact ihItems hitems (p.field k) 0 hall
    · exact ihRest hrest p k' v hv
  case leaf =>
    intro k v rest hleaf ihRest hordered p k' v' hv
    rcases List.mem_cons.mp hv with e | hv
    · cases e
      refine ⟨?_, ?_⟩
      · rintro _ rfl
        cases hleaf
      · rintro _ rfl
        cases hleaf
    · exact ihRest hordered.2 p k' v' hv
  case noItem =>
    intro _ p i _
    simp [splitItems, assembleItems, nestedAmong]
  case objectItem =>
    intro fields rest ihFields ihRest hordered p i hall
    rcases hordered with ⟨⟨hsorted, hfields⟩, hrest⟩
    have hobject := assemble_objectAt_of_nested ids hview hsorted (ihFields hfields (p.index i))
    have hlater := ihRest hrest p (i + 1) (by simpa [Value.isMap] using hall)
    simp only [splitItems_map, assembleItems, hobject, hlater, nestedAmong, overlaidAt]
  case otherItem =>
    intro v rest hv _ _ p i hall
    simp [hv] at hall

/-- The skeleton of an object is assembled to the object over the records. -/
theorem assemble_objectAt (hview : OrderedView view) {p : Path} {fields : List (String × Value)}
    (hordered : (Value.map fields).Ordered) :
    assemble view (objectAt ids (fun guid => guid) p fields).1 = overlaidAt view ids p fields :=
  assemble_objectAt_of_nested ids hview hordered.1
    ((assemble_walk ids hview).1 fields hordered.2 p)

end Assembling

end Normalize
end EntityCache
