import EntityCache.Proofs.Codec.Plain
import EntityCache.Proofs.Normalize.Merged
import EntityCache.Proofs.Normalize.Restored

/-!
# What parts of a result inherit

A property that the parts of a value share with it:

* `assigned_of_hereditary`, `every_of_hereditary`: the values written to records and the skeletons
  have it too.
* `everyStable_skeletonOf`, `everyNumber_skeletonOf`: so for stable results, and for the numbers of
  a result.
* `assemble_plain`: without its marks a skeleton shows the same but for marks.
-/

namespace EntityCache

theorem Value.hereditary_stable : Value.Hereditary Value.Stable where
  field h := h.field
  item h := h.item

theorem Value.hereditary_everyNumber (P : Number → Prop) :
    Value.Hereditary (fun v => v.EveryNumber P) where
  field h := Value.everyNumberFields_iff.mp h
  item h := Value.everyNumberItems_iff.mp h

namespace Normalize

variable {Q : Value → Prop}

/-! ## Records -/

/-- Every value that is written to a record has the property. -/
theorem assigned_of_hereditary (hQ : Value.Hereditary Q) {ids : IdIndex} {p : Path}
    {fields : List (String × Value)} (h : Q (.map fields)) {a : Assignment} :
    a ∈ assignmentsFrom ids p fields → Q a.2 := by
  intro ha
  rcases a with ⟨⟨guid, k⟩, v⟩
  rcases mem_assignmentsFrom.mp ha with ⟨o, ho, -, hfield, -⟩
  exact hQ.field (visit_of_hereditary hQ h o ho) (k, v) hfield

/-- Every field of a merged record has the property. -/
theorem merged_of_hereditary (hQ : Value.Hereditary Q) {ids : IdIndex}
    {fields : List (String × Value)} {requestor : Option QueryKey} {r : Record}
    (hr : ∀ b ∈ r.fields.bindings, Q b.2) (h : Q (.map fields)) :
    ∀ b ∈ (r.merged ids fields requestor).fields.bindings, Q b.2 := by
  intro b hb
  rcases Record.mem_fields_merged ids fields requestor r hb with hold | hnew
  · exact hr b hold
  · exact assigned_of_hereditary hQ h hnew

/-! ## Skeletons -/

/-- If an object with the property leaves a skeleton such as `P` says, so do the objects in it. -/
theorem nested_of_hereditary (hQ : Value.Hereditary Q) {ids : IdIndex} {own : Guid → Guid}
    {P : Skeleton → Prop} (hP : ∀ p fields, Q (.map fields) → P (objectAt ids own p fields).1) :
    (∀ fields, (∀ b ∈ fields, Q b.2) → ∀ p backing,
      Skeleton.EveryRef P (splitFields ids own p backing fields).refs ∧
        Skeleton.EveryList P (splitFields ids own p backing fields).lists) ∧
    (∀ items, (∀ v ∈ items, Q v) → ∀ p i,
      Skeleton.EveryItem P (splitItems ids own p i items).objects) := by
  refine walk_induction ?nil ?object ?series ?leaf ?noItem ?objectItem ?otherItem
  case nil =>
    intro _ p backing
    simp only [splitFields]
    exact ⟨trivial, trivial⟩
  case object =>
    intro k fields rest ihFields ihRest h p backing
    rcases List.forall_mem_cons.mp h with ⟨hobject, hrest⟩
    rcases ihRest hrest p backing with ⟨hrefs, hlists⟩
    simp only [splitFields_map, Parts.nest]
    -- The nested object is one skeleton more.
    have hinner := ihFields (hQ.field hobject) (p.field k) (objectId? ids (p.field k) fields)
    exact ⟨⟨⟨hP _ _ hobject, hinner⟩, hrefs⟩, hlists⟩
  case series =>
    intro k items rest ihItems ihRest h p backing
    rcases List.forall_mem_cons.mp h with ⟨hlist, hrest⟩
    rcases ihRest hrest p backing with ⟨hrefs, hlists⟩
    have hitems := ihItems (hQ.item hlist) (p.field k) 0
    rw [splitFields_list]
    simp only
    split
    · split
      · exact ⟨hrefs, hlists⟩
      · cases backing <;> exact ⟨hrefs, hlists⟩
    · exact ⟨hrefs, hitems, hlists⟩
  case leaf =>
    intro k v rest hleaf ihRest h p backing
    rcases ihRest (List.forall_mem_cons.mp h).2 p backing with ⟨hrefs, hlists⟩
    simp only [splitFields_leaf ids own p backing k hleaf]
    cases backing <;> exact ⟨hrefs, hlists⟩
  case noItem =>
    intro _ p i
    simp only [splitItems]
    trivial
  case objectItem =>
    intro fields rest ihFields ihRest h p i
    rcases List.forall_mem_cons.mp h with ⟨hobject, hrest⟩
    have hinner := ihFields (hQ.field hobject) (p.index i) (objectId? ids (p.index i) fields)
    simp only [splitItems_map]
    exact ⟨⟨hP _ _ hobject, hinner⟩, ihRest hrest p (i + 1)⟩
  case otherItem =>
    intro v rest hv ihRest h p i
    simp only [splitItems_other ids own p i hv]
    exact ihRest (List.forall_mem_cons.mp h).2 p (i + 1)

theorem every_of_hereditary (hQ : Value.Hereditary Q) {ids : IdIndex} {P : Skeleton → Prop}
    (hP : ∀ p fields, Q (.map fields) → P (objectAt ids (fun guid => guid) p fields).1)
    {fields : List (String × Value)} (h : Q (.map fields)) : (skeletonOf ids fields).Every P :=
  ⟨hP Path.root fields h, (nested_of_hereditary hQ hP).1 fields (hQ.field h) Path.root _⟩

/-- A scalar that stays in place is a field of the object. -/
theorem mem_of_mem_scalars {ids : IdIndex} {p : Path} {fields : List (String × Value)}
    {b : String × Value} :
    b ∈ (objectAt ids (fun guid => guid) p fields).1.scalars → b ∈ fields := by
  intro hb
  have hscalars : (objectAt ids (fun guid => guid) p fields).1.scalars =
      Assoc.filterMap (fun _ => scalarOf (objectId? ids p fields)) fields :=
    (splitFields_eq ids (fun guid => guid) p _ fields).2.2
  simp only [hscalars, Assoc.filterMap] at hb
  rcases List.mem_filterMap.mp hb with ⟨⟨k, v⟩, hmem, hsome⟩
  rcases Option.map_eq_some_iff.mp hsome with ⟨w, hw, rfl⟩
  -- What stays in place is the value itself.
  have hsame : w = v := by
    simp only [scalarOf] at hw
    split at hw
    · cases hw
    · cases hw
    · split at hw
      · exact (Option.some.inj hw).symm
      · cases hw
  simp only [hsame]
  exact hmem

/-- An ordered object leaves an ordered skeleton. -/
theorem inOrder_objectAt (ids : IdIndex) (p : Path) {fields : List (String × Value)}
    (h : (Value.map fields).Ordered) :
    (objectAt ids (fun guid => guid) p fields).1.InOrder := by
  have hsorted : Assoc.Sorted fields := h.1
  rcases splitFields_eq ids (fun guid => guid) p (objectId? ids p fields) fields with
    ⟨hrefs, hlists, hscalars⟩
  exact
    { scalars := by
        show Assoc.Sorted (splitFields ids (fun guid => guid) p _ fields).scalars
        simp only [hscalars]
        exact hsorted.filterMap _
      refs := by
        show Assoc.Sorted (splitFields ids (fun guid => guid) p _ fields).refs
        simp only [hrefs]
        exact hsorted.filterMap _
      lists := by
        show Assoc.Sorted (splitFields ids (fun guid => guid) p _ fields).lists
        simp only [hlists]
        exact hsorted.filterMap _ }

theorem everyInOrder_skeletonOf (ids : IdIndex) {fields : List (String × Value)}
    (h : (Value.map fields).Ordered) : (skeletonOf ids fields).Every Skeleton.InOrder :=
  every_of_hereditary Value.hereditary_ordered (fun p _ => inOrder_objectAt ids p) h

/-- A stable result leaves a skeleton that reads back but for its marks. -/
theorem everyStable_skeletonOf (ids : IdIndex) {fields : List (String × Value)}
    (h : (Value.map fields).Stable) : (skeletonOf ids fields).Every Skeleton.Stable := by
  refine every_of_hereditary Value.hereditary_stable ?_ h
  intro p fields hfields
  exact
    { toInOrder := inOrder_objectAt ids p hfields.ordered
      values := fun b hb => hfields.field b (mem_of_mem_scalars hb) }

/-- The numbers of a skeleton are among those of the result. -/
theorem everyNumber_skeletonOf (ids : IdIndex) {P : Number → Prop}
    {fields : List (String × Value)} (h : Value.EveryNumberFields P fields) :
    (skeletonOf ids fields).Every (Skeleton.HasNumbers P) := by
  have hnumbers : (Value.map fields).EveryNumber P := h
  refine every_of_hereditary (Value.hereditary_everyNumber P) ?_ hnumbers
  intro p fields hfields
  refine Value.everyNumberFields_iff.mpr ?_
  intro b hb
  exact Value.everyNumberFields_iff.mp hfields b (mem_of_mem_scalars hb)

/-! ## Marks -/

section Marks

variable {view view' : FieldView}

mutual

/-- Where the records show the same but for marks, so does a skeleton without its marks. -/
theorem assemble_plain
    (hview : ∀ guid, (view' guid).getD [] = Value.plainFields ((view guid).getD [])) :
    ∀ n : Skeleton, assemble view' n.plain = (assemble view n).plain
  | ⟨guid, scalars, refs, lists⟩ => by
      have hown : ownFields view' (Skeleton.plain ⟨guid, scalars, refs, lists⟩) =
          Value.plainFields (ownFields view ⟨guid, scalars, refs, lists⟩) := by
        cases guid with
        | none =>
            simp only [Skeleton.plain, ownFields]
        | some g =>
            simp only [Skeleton.plain, ownFields]
            exact hview g
      have hfields : Assoc.ofList (ownFields view' (Skeleton.plain ⟨guid, scalars, refs, lists⟩)) =
          Value.plainFields (Assoc.ofList (ownFields view ⟨guid, scalars, refs, lists⟩)) := by
        simp only [hown, Assoc.ofList, Value.plainFields_union]
        rfl
      simp only [Skeleton.plain] at hfields
      simp only [Skeleton.plain, assemble, Value.plain, Value.plainFields_union, hfields,
        assembleRefs_plain hview refs, assembleLists_plain hview lists]

theorem assembleRefs_plain
    (hview : ∀ guid, (view' guid).getD [] = Value.plainFields ((view guid).getD [])) :
    ∀ refs : List (String × Skeleton),
      assembleRefs view' (Skeleton.plainRefs refs) = Value.plainFields (assembleRefs view refs)
  | [] => rfl
  | (k, child) :: rest => by
      simp only [Skeleton.plainRefs, assembleRefs, Value.plainFields, assemble_plain hview child,
        assembleRefs_plain hview rest]

theorem assembleLists_plain
    (hview : ∀ guid, (view' guid).getD [] = Value.plainFields ((view guid).getD [])) :
    ∀ lists : List (String × List Skeleton),
      assembleLists view' (Skeleton.plainLists lists) = Value.plainFields (assembleLists view lists)
  | [] => rfl
  | (k, items) :: rest => by
      simp only [Skeleton.plainLists, assembleLists, Value.plainFields, Value.plain,
        assembleItems_plain hview items, assembleLists_plain hview rest]

theorem assembleItems_plain
    (hview : ∀ guid, (view' guid).getD [] = Value.plainFields ((view guid).getD [])) :
    ∀ items : List Skeleton,
      assembleItems view' (Skeleton.plainItems items) = Value.plainItems (assembleItems view items)
  | [] => rfl
  | child :: rest => by
      simp only [Skeleton.plainItems, assembleItems, Value.plainItems, assemble_plain hview child,
        assembleItems_plain hview rest]

end

end Marks

end Normalize
end EntityCache
