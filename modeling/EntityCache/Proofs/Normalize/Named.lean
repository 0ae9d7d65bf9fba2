import EntityCache.Proofs.Normalize.Passes

/-!
# The nodes of a skeleton and the entities that it names

The walk over a result visits more objects than its skeleton has nodes for: a list of objects and
other values is kept as a whole, although the objects in it are visited.

* `placed`: the objects of a result that its skeleton has nodes for.
* `placedFrom_sublist`: they are among the objects that the walk visits.
* `Skeleton.nodesFrom`: all nodes of a skeleton with their paths.
* `nodesFrom_perm`: the skeleton of a result has one for each placed object.
* `guidList_perm`: it names the entities of these objects, and no others.
-/

namespace EntityCache
namespace Normalize

mutual

/-- The objects below an object at `p` that are in no list that is kept as a whole. -/
def placedIn (p : Path) : List (String × Value) → List Visit
  | [] => []
  | (k, .map fields) :: rest =>
      ⟨p.field k, fields⟩ :: (placedIn (p.field k) fields ++ placedIn p rest)
  | (k, .list items) :: rest =>
      (if (Value.list items).isKept then [] else placedAmong (p.field k) 0 items) ++
        placedIn p rest
  | _ :: rest => placedIn p rest

/-- The same for the elements of a list at `p`, the first one at position `i`. -/
def placedAmong (p : Path) (i : Nat) : List Value → List Visit
  | [] => []
  | .map fields :: rest =>
      ⟨p.index i, fields⟩ :: (placedIn (p.index i) fields ++ placedAmong p (i + 1) rest)
  | _ :: rest => placedAmong p (i + 1) rest

end

/-- An object at `p` and the objects below it that are in no list that is kept as a whole. -/
def placedFrom (p : Path) (fields : List (String × Value)) : List Visit :=
  ⟨p, fields⟩ :: placedIn p fields

/-- The objects of a result that its skeleton has nodes for. -/
def placed : Value → List Visit
  | .map fields => placedFrom Path.root fields
  | _ => []

theorem placedIn_map (p : Path) (k : String) (fields rest : List (String × Value)) :
    placedIn p ((k, .map fields) :: rest) =
      placedFrom (p.field k) fields ++ placedIn p rest := by
  simp only [placedIn, placedFrom, List.cons_append]

theorem placedAmong_map (p : Path) (i : Nat) (fields : List (String × Value))
    (rest : List Value) :
    placedAmong p i (.map fields :: rest) =
      placedFrom (p.index i) fields ++ placedAmong p (i + 1) rest := by
  simp only [placedAmong, placedFrom, List.cons_append]

theorem placedIn_leaf {v : Value} (p : Path) (k : String) (h : v.isLeaf = true)
    (rest : List (String × Value)) : placedIn p ((k, v) :: rest) = placedIn p rest := by
  cases v <;> simp_all [placedIn, Value.isLeaf]

theorem placedAmong_other {v : Value} (p : Path) (i : Nat) (h : v.isMap = false)
    (rest : List Value) : placedAmong p i (v :: rest) = placedAmong p (i + 1) rest := by
  cases v <;> simp_all [placedAmong, Value.isMap]

/-- What is placed is visited, in the same order. -/
theorem placed_sublist_walk :
    (∀ fields p, (placedIn p fields).Sublist (visitsIn p fields)) ∧
    (∀ items p i, (placedAmong p i items).Sublist (visitsAmong p i items)) := by
  refine walk_induction ?nil ?object ?series ?leaf ?noItem ?objectItem ?otherItem
  case nil =>
    intro p
    simp only [placedIn, visitsIn]
    exact .refl _
  case object =>
    intro k fields rest ihFields ihRest p
    simp only [placedIn, visitsIn]
    exact ((ihFields (p.field k)).append (ihRest p)).cons_cons _
  case series =>
    intro k items rest ihItems ihRest p
    simp only [placedIn, visitsIn]
    refine List.Sublist.append ?_ (ihRest p)
    -- The objects of a list that is kept as a whole are visited and not placed.
    split
    · exact List.nil_sublist _
    · exact ihItems (p.field k) 0
  case leaf =>
    intro k v rest hv ihRest p
    rw [placedIn_leaf p k hv, visitsIn_leaf p k hv]
    exact ihRest p
  case noItem =>
    intro p i
    simp only [placedAmong, visitsAmong]
    exact .refl _
  case objectItem =>
    intro fields rest ihFields ihRest p i
    simp only [placedAmong, visitsAmong]
    exact ((ihFields (p.index i)).append (ihRest p (i + 1))).cons_cons _
  case otherItem =>
    intro v rest hv ihRest p i
    rw [placedAmong_other p i hv, visitsAmong_other p i hv]
    exact ihRest p (i + 1)

theorem placedFrom_sublist (p : Path) (fields : List (String × Value)) :
    (placedFrom p fields).Sublist (visitsFrom p fields) :=
  (placed_sublist_walk.1 fields p).cons_cons _

/-! ## All nodes -/

end Normalize

namespace Skeleton

mutual

/-- The nodes of a skeleton at `p`, itself first. -/
def nodesFrom (p : Path) : Skeleton → List (Path × Skeleton)
  | ⟨guid, scalars, refs, lists⟩ =>
      (p, ⟨guid, scalars, refs, lists⟩) :: (refNodes p refs ++ listNodes p lists)

/-- The nodes of the fields that hold an object. -/
def refNodes (p : Path) : List (String × Skeleton) → List (Path × Skeleton)
  | [] => []
  | (k, child) :: rest => nodesFrom (p.field k) child ++ refNodes p rest

/-- The nodes of the fields that hold a list of objects. -/
def listNodes (p : Path) : List (String × List Skeleton) → List (Path × Skeleton)
  | [] => []
  | (k, items) :: rest => itemNodes (p.field k) 0 items ++ listNodes p rest

/-- The nodes of the elements of a list, the first one at position `i`. -/
def itemNodes (p : Path) (i : Nat) : List Skeleton → List (Path × Skeleton)
  | [] => []
  | child :: rest => nodesFrom (p.index i) child ++ itemNodes p (i + 1) rest

end

mutual

/-- The entities that a skeleton names are those of its nodes. -/
theorem guidList_eq : ∀ (n : Skeleton) (p : Path),
    n.guidList = (n.nodesFrom p).filterMap fun node => node.2.guid
  | ⟨guid, scalars, refs, lists⟩, p => by
      simp only [guidList, nodesFrom, List.filterMap_cons, List.filterMap_append,
        ← refGuids_eq refs p, ← listGuids_eq lists p]
      cases guid with
      | none =>
          rfl
      | some guid =>
          rfl

theorem refGuids_eq : ∀ (refs : List (String × Skeleton)) (p : Path),
    refGuids refs = (refNodes p refs).filterMap fun node => node.2.guid
  | [], p => rfl
  | (k, child) :: rest, p => by
      simp only [refGuids, refNodes, List.filterMap_append, ← guidList_eq child (p.field k),
        ← refGuids_eq rest p]

theorem listGuids_eq : ∀ (lists : List (String × List Skeleton)) (p : Path),
    listGuids lists = (listNodes p lists).filterMap fun node => node.2.guid
  | [], p => rfl
  | (k, items) :: rest, p => by
      simp only [listGuids, listNodes, List.filterMap_append, ← itemGuids_eq items (p.field k) 0,
        ← listGuids_eq rest p]

theorem itemGuids_eq : ∀ (items : List Skeleton) (p : Path) (i : Nat),
    itemGuids items = (itemNodes p i items).filterMap fun node => node.2.guid
  | [], p, i => rfl
  | child :: rest, p, i => by
      simp only [itemGuids, itemNodes, List.filterMap_append, ← guidList_eq child (p.index i),
        ← itemGuids_eq rest p (i + 1)]

end

end Skeleton

namespace Normalize

/-- The node of a visited object. -/
def nodeOf (ids : IdIndex) (o : Visit) : Skeleton :=
  (objectAt ids (fun guid => guid) o.path o.fields).1

/-- A node and its path. -/
def Visit.placedNode (ids : IdIndex) (o : Visit) : Path × Skeleton :=
  (o.path, nodeOf ids o)

/-- What an object splits into has the nodes of the objects placed below it. -/
def HasPlaced (ids : IdIndex) (fields : List (String × Value)) : Prop :=
  ∀ p backing,
    (Skeleton.refNodes p (splitFields ids (fun guid => guid) p backing fields).refs ++
      Skeleton.listNodes p (splitFields ids (fun guid => guid) p backing fields).lists).Perm
    ((placedIn p fields).map (Visit.placedNode ids))

theorem HasPlaced.objectAt {ids : IdIndex} {fields : List (String × Value)}
    (h : HasPlaced ids fields) (p : Path) :
    ((objectAt ids (fun guid => guid) p fields).1.nodesFrom p).Perm
      ((placedFrom p fields).map (Visit.placedNode ids)) := by
  simp only [Normalize.objectAt, Parts.skeleton, Skeleton.nodesFrom, placedFrom, List.map_cons]
  exact (h p _).cons _

theorem hasPlaced_walk (ids : IdIndex) :
    (∀ fields, HasPlaced ids fields) ∧
    (∀ items p i, items.all Value.isMap = true →
      (Skeleton.itemNodes p i (splitItems ids (fun guid => guid) p i items).objects).Perm
        ((placedAmong p i items).map (Visit.placedNode ids))) := by
  refine walk_induction ?nil ?object ?series ?leaf ?noItem ?objectItem ?otherItem
  case nil =>
    intro p backing
    simp only [splitFields, Parts.empty, Skeleton.refNodes, Skeleton.listNodes, placedIn,
      List.map_nil, List.append_nil]
    exact .refl _
  case object =>
    intro k fields rest ihFields ihRest p backing
    simp only [splitFields_map, Parts.nest, Skeleton.refNodes, List.append_assoc, placedIn_map,
      List.map_append]
    exact (ihFields.objectAt (p.field k)).append (ihRest p backing)
  case series =>
    intro k items rest ihItems ihRest p backing
    simp only [splitFields_list, placedIn, List.map_append]
    cases hkept : (Value.list items).isKept with
    -- A list that is kept as a whole has no nodes.
    | true =>
        simp only [if_true, List.map_nil, List.nil_append]
        split
        · exact ihRest p backing
        · cases backing with
          | none =>
              exact ihRest p none
          | some guid =>
              exact ihRest p (some guid)
    | false =>
        have hall : items.all Value.isMap = true := by
          simp only [Value.isKept, Bool.or_eq_false_iff, Bool.not_eq_false'] at hkept
          exact hkept.2
        simp only [Bool.false_eq_true, if_false, Skeleton.listNodes]
        -- The nodes of nested objects come first, whatever the order of the fields.
        refine List.perm_append_comm_assoc _ _ _ |>.trans ?_
        exact (ihItems (p.field k) 0 hall).append (ihRest p backing)
  case leaf =>
    intro k v rest hv ihRest p backing
    simp only [splitFields_leaf ids _ p backing k hv, placedIn_leaf p k hv]
    cases backing with
    | none =>
        exact ihRest p none
    | some guid =>
        exact ihRest p (some guid)
  case noItem =>
    intro p i _
    simp only [splitItems, Skeleton.itemNodes, placedAmong, List.map_nil]
    exact .refl _
  case objectItem =>
    intro fields rest ihFields ihRest p i hall
    have hrest : rest.all Value.isMap = true := by
      rw [List.all_cons, Bool.and_eq_true] at hall
      exact hall.2
    simp only [splitItems_map, Skeleton.itemNodes, placedAmong_map, List.map_append]
    exact (ihFields.objectAt (p.index i)).append (ihRest p (i + 1) hrest)
  case otherItem =>
    intro v rest hv ihRest p i hall
    rw [List.all_cons, hv, Bool.false_and] at hall
    cases hall

theorem guid_nodeOf (ids : IdIndex) (o : Visit) : (nodeOf ids o).guid = o.guid? ids :=
  Option.map_id_apply

/-- The skeleton of an object has one node for each object that is placed. -/
theorem nodesFrom_perm (ids : IdIndex) (fields : List (String × Value)) :
    ((skeletonOf ids fields).nodesFrom Path.root).Perm
      ((placed (.map fields)).map (Visit.placedNode ids)) :=
  ((hasPlaced_walk ids).1 fields).objectAt Path.root

/-! ## The entities -/

/-- One of the objects is one of the entity. -/
def HasEntity (ids : IdIndex) (guid : Guid) (objects : List Visit) : Prop :=
  ∃ o ∈ objects, o.guid? ids = some guid

instance (ids : IdIndex) (guid : Guid) (objects : List Visit) :
    Decidable (HasEntity ids guid objects) :=
  inferInstanceAs (Decidable (∃ o ∈ objects, _))

/-- A skeleton names the entities of the objects that it has nodes for. -/
theorem guidList_perm (ids : IdIndex) (fields : List (String × Value)) :
    (skeletonOf ids fields).guidList.Perm
      ((placed (.map fields)).filterMap (Visit.guid? ids)) := by
  have hnodes := (nodesFrom_perm ids fields).filterMap fun node => node.2.guid
  rw [List.filterMap_map] at hnodes
  simp only [Function.comp_def, Visit.placedNode, guid_nodeOf] at hnodes
  rwa [Skeleton.guidList_eq _ Path.root]

theorem mem_guidList_skeletonOf {ids : IdIndex} {fields : List (String × Value)} {guid : Guid} :
    guid ∈ (skeletonOf ids fields).guidList ↔ HasEntity ids guid (placed (.map fields)) := by
  rw [(guidList_perm ids fields).mem_iff, List.mem_filterMap]
  exact Iff.rfl

/-- Every entity that the skeleton names is one of the result. -/
theorem mem_entitiesOf_of_mem_skeletonOf {ids : IdIndex} {fields : List (String × Value)}
    {guid : Guid} : guid ∈ (skeletonOf ids fields).guidList → guid ∈ entitiesOf ids fields := by
  intro hguid
  rcases mem_guidList_skeletonOf.mp hguid with ⟨o, ho, hsome⟩
  exact mem_entitiesOf.mpr ⟨o, (placedFrom_sublist Path.root fields).subset ho, hsome⟩

end Normalize
end EntityCache
