import EntityCache.Proofs.Normalize.Inherited

/-!
# Where the nodes of a skeleton show

Each node of a skeleton has a path, and an assembled result shows at that path what the node stands
for:

* `Value.at?`: the part of a value at a path.
* `Skeleton.NodeAt`: the node of a skeleton at a path; `Skeleton.mem_guidList_iff`: every entity
  that a skeleton names has one.
* `Skeleton.Separate`: no field of a node is nested in two ways; so in every skeleton of a result.
* `Normalize.at?_assemble`: what an assembled result shows at the path of a node.
* `Normalize.at?_field`, `Normalize.at?_nested`: a field of a node that an entity backs is that of
  its record, unless something is nested in the node there.
-/

namespace EntityCache

/-! ## Parts of values -/

namespace Value

/-- One step from a value to one of its parts. -/
def step? : Value → Path.Step → Option Value
  | .map fields, .field k => Assoc.get? k fields
  | .list items, .index i => items[i]?
  | _, _ => none

/-- The part of a value at a path. -/
def at? (v : Value) (p : Path) : Option Value :=
  p.foldlM step? v

/-- An object, or a list of nothing but objects. -/
def isNested : Value → Bool
  | .map _ => true
  | .list items => items.all isMap
  | _ => false

theorem step?_list (items : List Value) (i : Nat) : (list items).step? (.index i) = items[i]? := rfl

theorem at?_cons (v : Value) (s : Path.Step) (p : Path) :
    v.at? (s :: p) = (v.step? s).bind (fun part => part.at? p) := by
  simp only [at?, List.foldlM_cons]
  rfl

theorem at?_append (v : Value) (p q : Path) :
    v.at? (p ++ q) = (v.at? p).bind (fun part => part.at? q) := by
  simp only [at?, List.foldlM_append]
  rfl

/-- A field of the part at a path. -/
theorem at?_field {v part : Value} {p : Path} (h : v.at? p = some part) (k : String) :
    v.at? (p.field k) = part.step? (.field k) := by
  simp only [Path.field, at?_append, h, Option.bind_some, at?_cons]
  cases part.step? (.field k) <;> rfl

theorem get?_plainFields (k : String) (fields : List (String × Value)) :
    Assoc.get? k (plainFields fields) = (Assoc.get? k fields).map plain := by
  induction fields with
  | nil =>
      rfl
  | cons b rest ih =>
      rcases b with ⟨k', v⟩
      simp only [plainFields, Assoc.get?_cons, ih]
      split <;> rfl

theorem plainItems_eq (items : List Value) : plainItems items = items.map plain := by
  induction items with
  | nil =>
      rfl
  | cons v rest ih =>
      simp only [plainItems, ih, List.map_cons]

theorem step?_plain (v : Value) (s : Path.Step) : v.plain.step? s = (v.step? s).map plain := by
  cases v with
  | map fields =>
      cases s with
      | field k =>
          exact get?_plainFields k fields
      | index i =>
          rfl
  | list items =>
      cases s with
      | field k =>
          rfl
      | index i =>
          simp only [plain, step?, plainItems_eq, List.getElem?_map]
  | _ =>
      rfl

/-- The parts of a value without its marks are its parts without theirs. -/
theorem at?_plain (v : Value) (p : Path) : v.plain.at? p = (v.at? p).map plain := by
  induction p generalizing v with
  | nil =>
      rfl
  | cons s p ih =>
      simp only [at?_cons, step?_plain]
      cases v.step? s with
      | none =>
          rfl
      | some part =>
          exact ih part

theorem isMap_plain (v : Value) : v.plain.isMap = v.isMap := by
  cases v <;> rfl

theorem isNested_plain (v : Value) : v.plain.isNested = v.isNested := by
  cases v with
  | list items =>
      simp only [plain, isNested, plainItems_eq, List.all_map]
      exact List.all_congr rfl (fun v => isMap_plain v)
  | _ =>
      rfl

end Value

/-! ## Nodes of skeletons -/

namespace Skeleton

/-- The node of a skeleton at a path: itself at the root, the others by the fields and the
positions that they are nested in. -/
inductive NodeAt : Skeleton → Path → Skeleton → Prop where
  | root (n : Skeleton) :
      NodeAt n Path.root n
  | ref {n child node : Skeleton} {k : String} {p : Path} :
      Assoc.get? k n.refs = some child → NodeAt child p node → NodeAt n (.field k :: p) node
  | item {n child node : Skeleton} {k : String} {items : List Skeleton} {i : Nat} {p : Path} :
      Assoc.get? k n.lists = some items → items[i]? = some child → NodeAt child p node →
        NodeAt n (.field k :: .index i :: p) node

/-- Something is nested in a field of a node. -/
def Nests (n : Skeleton) (k : String) : Prop :=
  (Assoc.get? k n.refs).isSome ∨ (Assoc.get? k n.lists).isSome

instance (n : Skeleton) (k : String) : Decidable (n.Nests k) :=
  inferInstanceAs (Decidable (_ ∨ _))

/-- The members of a node are ordered, and none of its fields is nested in two ways. -/
structure Separate (n : Skeleton) : Prop extends InOrder n where
  apart : ∀ k, (Assoc.get? k n.refs).isSome → Assoc.get? k n.lists = none

variable {P : Skeleton → Prop}

theorem everyRef_iff {refs : List (String × Skeleton)} :
    EveryRef P refs ↔ ∀ b ∈ refs, b.2.Every P := by
  induction refs with
  | nil =>
      simp [EveryRef]
  | cons b rest ih =>
      rcases b with ⟨k, child⟩
      simp only [EveryRef, ih, List.forall_mem_cons]

theorem everyItem_iff {items : List Skeleton} :
    EveryItem P items ↔ ∀ child ∈ items, child.Every P := by
  induction items with
  | nil =>
      simp [EveryItem]
  | cons child rest ih =>
      simp only [EveryItem, ih, List.forall_mem_cons]

theorem everyList_iff {lists : List (String × List Skeleton)} :
    EveryList P lists ↔ ∀ b ∈ lists, ∀ child ∈ b.2, child.Every P := by
  induction lists with
  | nil =>
      simp [EveryList]
  | cons b rest ih =>
      rcases b with ⟨k, items⟩
      simp only [EveryList, ih, everyItem_iff, List.forall_mem_cons]

namespace Every

variable {n child : Skeleton}

theorem here (h : n.Every P) : P n := by
  rcases n with ⟨guid, scalars, refs, lists⟩
  exact h.1

theorem ref (h : n.Every P) {k : String} : Assoc.get? k n.refs = some child → child.Every P := by
  intro hchild
  rcases n with ⟨guid, scalars, refs, lists⟩
  exact everyRef_iff.mp h.2.1 _ (Assoc.mem_of_get? hchild)

theorem item (h : n.Every P) {k : String} {items : List Skeleton} {i : Nat} :
    Assoc.get? k n.lists = some items → items[i]? = some child → child.Every P := by
  intro hitems hchild
  rcases n with ⟨guid, scalars, refs, lists⟩
  exact everyList_iff.mp h.2.2 _ (Assoc.mem_of_get? hitems) _ (List.mem_of_getElem? hchild)

/-- What every node has, the node at a path has. -/
theorem node (h : n.Every P) {p : Path} {node : Skeleton} : n.NodeAt p node → P node := by
  intro hnode
  induction hnode with
  | root n =>
      exact h.here
  | ref hchild _ ih =>
      exact ih (h.ref hchild)
  | item hitems hchild _ ih =>
      exact ih (h.item hitems hchild)

end Every

/-! ## Entities and their nodes -/

theorem mem_itemGuids {guid : Guid} {items : List Skeleton} :
    guid ∈ itemGuids items ↔ ∃ child ∈ items, guid ∈ child.guidList := by
  induction items with
  | nil =>
      simp [itemGuids]
  | cons child rest ih =>
      simp [itemGuids, ih]

theorem mem_guidList_cases {guid : Guid} {n : Skeleton} :
    guid ∈ n.guidList ↔ n.guid = some guid ∨ (∃ b ∈ n.refs, guid ∈ b.2.guidList) ∨
      ∃ b ∈ n.lists, ∃ child ∈ b.2, guid ∈ child.guidList := by
  rcases n with ⟨own, scalars, refs, lists⟩
  simp only [guidList, List.mem_append, Option.mem_toList, mem_refGuids, mem_listGuids,
    mem_itemGuids, or_assoc]

/-- The nodes that back entities are those of the entities that a skeleton names. -/
theorem mem_guidList_of_node {n node : Skeleton} {p : Path} {guid : Guid} :
    n.NodeAt p node → node.guid = some guid → guid ∈ n.guidList := by
  intro hnode hguid
  induction hnode with
  | root n =>
      exact mem_guidList_cases.mpr (Or.inl hguid)
  | ref hchild _ ih =>
      exact mem_guidList_cases.mpr (Or.inr (Or.inl ⟨_, Assoc.mem_of_get? hchild, ih hguid⟩))
  | item hitems hchild _ ih =>
      exact mem_guidList_cases.mpr (Or.inr (Or.inr
        ⟨_, Assoc.mem_of_get? hitems, _, List.mem_of_getElem? hchild, ih hguid⟩))

section Placed

variable {guid : Guid}

mutual

theorem exists_node : ∀ n : Skeleton, n.Every Separate → guid ∈ n.guidList →
    ∃ p node, n.NodeAt p node ∧ node.guid = some guid
  | ⟨own, scalars, refs, lists⟩ => by
      intro h hguid
      rcases mem_guidList_cases.mp hguid with hown | ⟨⟨k, child⟩, hb, hchild⟩ |
        ⟨⟨k, items⟩, hb, child, hmem, hchild⟩
      · exact ⟨Path.root, _, .root _, hown⟩
      · rcases exists_node_refs refs h.2.1 _ hb hchild with ⟨p, node, hnode, hbacked⟩
        have hget := (Assoc.get?_eq_some_iff h.1.refs).mpr hb
        exact ⟨_, node, .ref hget hnode, hbacked⟩
      · rcases exists_node_lists lists h.2.2 _ hb _ hmem hchild with ⟨p, node, hnode, hbacked⟩
        have hget := (Assoc.get?_eq_some_iff h.1.lists).mpr hb
        rcases List.getElem?_of_mem hmem with ⟨i, hi⟩
        exact ⟨_, node, .item hget hi hnode, hbacked⟩

theorem exists_node_refs : ∀ refs : List (String × Skeleton), EveryRef Separate refs →
    ∀ b ∈ refs, guid ∈ b.2.guidList → ∃ p node, b.2.NodeAt p node ∧ node.guid = some guid
  | [] => by
      intro _ b hb
      cases hb
  | (k, child) :: rest => by
      intro h b hb
      rcases List.mem_cons.mp hb with hfirst | hrest
      · simp only [hfirst]
        exact exists_node child h.1
      · exact exists_node_refs rest h.2 b hrest

theorem exists_node_lists : ∀ lists : List (String × List Skeleton), EveryList Separate lists →
    ∀ b ∈ lists, ∀ child ∈ b.2, guid ∈ child.guidList →
      ∃ p node, child.NodeAt p node ∧ node.guid = some guid
  | [] => by
      intro _ b hb
      cases hb
  | (k, items) :: rest => by
      intro h b hb
      rcases List.mem_cons.mp hb with hfirst | hrest
      · simp only [hfirst]
        exact exists_node_items items h.1
      · exact exists_node_lists rest h.2 b hrest

theorem exists_node_items : ∀ items : List Skeleton, EveryItem Separate items →
    ∀ child ∈ items, guid ∈ child.guidList → ∃ p node, child.NodeAt p node ∧ node.guid = some guid
  | [] => by
      intro _ child hchild
      cases hchild
  | first :: rest => by
      intro h child hchild
      rcases List.mem_cons.mp hchild with hfirst | hrest
      · simp only [hfirst]
        exact exists_node first h.1
      · exact exists_node_items rest h.2 child hrest

end

/-- A skeleton names the entities that back its nodes. -/
theorem mem_guidList_iff {n : Skeleton} (h : n.Every Separate) :
    guid ∈ n.guidList ↔ ∃ p node, n.NodeAt p node ∧ node.guid = some guid := by
  refine ⟨exists_node n h, ?_⟩
  intro ⟨p, node, hnode, hguid⟩
  exact mem_guidList_of_node hnode hguid

end Placed

end Skeleton

namespace Normalize

/-! ## Skeletons of results -/

/-- No field of an object is nested in two ways. -/
theorem separate_objectAt (ids : IdIndex) (p : Path) {fields : List (String × Value)}
    (h : (Value.map fields).Ordered) :
    (objectAt ids (fun guid => guid) p fields).1.Separate := by
  refine ⟨inOrder_objectAt ids p h, ?_⟩
  intro k href
  have hsorted : Assoc.Sorted fields := h.1
  rcases splitFields_eq ids (fun guid => guid) p (objectId? ids p fields) fields with
    ⟨hrefs, hlists, -⟩
  have hrefs' : (objectAt ids (fun guid => guid) p fields).1.refs = _ := hrefs
  have hlists' : (objectAt ids (fun guid => guid) p fields).1.lists = _ := hlists
  simp only [hrefs', Assoc.get?_filterMap hsorted] at href
  simp only [hlists', Assoc.get?_filterMap hsorted]
  -- A field that is an object is no list.
  cases hv : Assoc.get? k fields with
  | none =>
      rfl
  | some v =>
      simp only [hv, Option.bind_some] at href ⊢
      cases v with
      | list items =>
          cases href
      | _ =>
          rfl

theorem separate_skeletonOf (ids : IdIndex) {fields : List (String × Value)}
    (h : (Value.map fields).Ordered) : (skeletonOf ids fields).Every Skeleton.Separate :=
  every_of_hereditary Value.hereditary_ordered (fun p _ => separate_objectAt ids p) h

/-! ## Assembled nodes -/

section Assembled

variable {view : FieldView}

theorem assembleItems_eq (items : List Skeleton) :
    assembleItems view items = items.map (assemble view) := by
  induction items with
  | nil =>
      rfl
  | cons child rest ih =>
      simp only [assembleItems, ih, List.map_cons]

/-- Look-up in an assembled object, no field of which is nested in two ways. -/
theorem step?_assemble {n : Skeleton} (h : n.Separate) (k : String) :
    (assemble view n).step? (.field k) =
      ((Assoc.get? k n.refs).map (assemble view)).or
        (((Assoc.get? k n.lists).map (fun items => .list (items.map (assemble view)))).or
          (Assoc.get? k (ownFields view n).reverse)) := by
  rcases get?_assembled view h.refs h.lists with ⟨fields, hassemble, -, hget⟩
  simp only [hassemble, Value.step?, hget, assembleItems_eq]
  cases href : Assoc.get? k n.refs with
  | none =>
      rfl
  | some child =>
      simp only [h.apart k (Option.isSome_of_eq_some href), Option.map_none, Option.none_or]

/-- At the path of a node an assembled result shows what the node stands for. -/
theorem at?_assemble {n node : Skeleton} {p : Path} (h : n.Every Skeleton.Separate) :
    n.NodeAt p node → (assemble view n).at? p = some (assemble view node) := by
  intro hnode
  induction hnode with
  | root n =>
      rfl
  | ref hchild _ ih =>
      simp only [Value.at?_cons, step?_assemble h.here, hchild, Option.map_some, Option.some_or,
        Option.bind_some]
      exact ih (h.ref hchild)
  | @item n child node k items i p hitems hchild _ ih =>
      have href : Assoc.get? k n.refs = none := by
        refine Option.not_isSome_iff_eq_none.mp fun hsome => ?_
        simp only [h.here.apart k hsome] at hitems
        cases hitems
      simp only [Value.at?_cons, step?_assemble h.here, href, hitems, Option.map_none,
        Option.none_or, Option.map_some, Option.some_or, Option.bind_some, Value.step?_list,
        List.getElem?_map, hchild]
      exact ih (h.item hitems hchild)

variable {n node : Skeleton} {p : Path} {k : String}

/-- A field in which nothing is nested is that of the record. -/
theorem at?_field (hview : OrderedView view) (h : n.Every Skeleton.Separate)
    (hnode : n.NodeAt p node) {guid : Guid} (hguid : node.guid = some guid) :
    ¬ node.Nests k →
      (assemble view n).at? (p.field k) = Assoc.get? k ((view guid).getD []) := by
  intro hnests
  simp only [Skeleton.Nests, not_or, Option.not_isSome_iff_eq_none] at hnests
  have hown : ownFields view node = (view guid).getD [] := by
    simp only [ownFields, hguid]
  calc (assemble view n).at? (p.field k)
      = (assemble view node).step? (.field k) := Value.at?_field (at?_assemble h hnode) k
    _ = Assoc.get? k ((view guid).getD []).reverse := by
        simp only [step?_assemble (h.node hnode), hnests.1, hnests.2, Option.map_none,
          Option.none_or, hown]
    _ = Assoc.get? k ((view guid).getD []) := Assoc.get?_reverse (hview guid) k

variable (view) in
/-- What is nested in a field hides that of the record. -/
theorem at?_nested (h : n.Every Skeleton.Separate) (hnode : n.NodeAt p node) :
    node.Nests k → ∃ v, (assemble view n).at? (p.field k) = some v ∧ v.isNested = true := by
  intro hnests
  have hmap : ∀ child : Skeleton, (assemble view child).isMap = true := by
    intro child
    rcases child with ⟨guid, scalars, refs, lists⟩
    rfl
  have hshown : (assemble view n).at? (p.field k) = (assemble view node).step? (.field k) :=
    Value.at?_field (at?_assemble h hnode) k
  simp only [step?_assemble (h.node hnode)] at hshown
  -- A list of objects hides a nested object, and both hide the record.
  cases href : Assoc.get? k node.refs with
  | some child =>
      simp only [href, Option.map_some, Option.some_or] at hshown
      refine ⟨_, hshown, ?_⟩
      rcases child with ⟨guid, scalars, refs, lists⟩
      rfl
  | none =>
      simp only [Skeleton.Nests, href, Option.isSome_none, Bool.false_eq_true, false_or] at hnests
      rcases Option.isSome_iff_exists.mp hnests with ⟨items, hitems⟩
      simp only [href, hitems, Option.map_none, Option.none_or, Option.map_some,
        Option.some_or] at hshown
      refine ⟨_, hshown, ?_⟩
      simp only [Value.isNested, List.all_map, List.all_eq_true]
      intro child _
      exact hmap child

end Assembled

end Normalize
end EntityCache
