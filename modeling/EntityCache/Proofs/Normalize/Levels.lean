import EntityCache.Proofs.Normalize.Inherited

/-!
# Levels of a split result

How many levels the stored forms of a result have, compared with the result itself:

* `nesting_skeletonOf_le`: a skeleton has no more than twice as many.
* `nestingFields_merged_le`: the fields of a record have fewer.
-/

namespace EntityCache

namespace Value

theorem nestingFields_le_iff {fields : List (String × Value)} {n : Nat} :
    nestingFields fields ≤ n ↔ ∀ b ∈ fields, b.2.nesting ≤ n := by
  induction fields with
  | nil =>
      simp [nestingFields]
  | cons b rest ih =>
      rcases b with ⟨k, v⟩
      simp only [nestingFields, Nat.max_le, ih, List.forall_mem_cons]

theorem nestingItems_le_iff {items : List Value} {n : Nat} :
    nestingItems items ≤ n ↔ ∀ v ∈ items, v.nesting ≤ n := by
  induction items with
  | nil =>
      simp [nestingItems]
  | cons v rest ih =>
      simp only [nestingItems, Nat.max_le, ih, List.forall_mem_cons]

/-- What has few levels has parts of few levels. -/
theorem hereditary_nesting_le (n : Nat) : Hereditary (fun v => v.nesting ≤ n) where
  field h := nestingFields_le_iff.mp (Nat.le_of_succ_le h)
  item h := nestingItems_le_iff.mp (Nat.le_of_succ_le h)

end Value

/-- The members of a skeleton decide its levels. -/
theorem Skeleton.nesting_le {n : Skeleton} {d : Nat} (hscalars : Value.nestingFields n.scalars ≤ d)
    (hrefs : nestingRefs n.refs ≤ 2 * d) (hlists : nestingLists n.lists ≤ 2 * d) :
    n.nesting ≤ 2 * d + 2 := by
  have hmember : ∀ {α : Type} (members : List α) (inner : Nat),
      memberNesting members inner ≤ inner + 1 := by
    intro α members inner
    simp only [memberNesting]
    split <;> omega
  rcases n with ⟨guid, scalars, refs, lists⟩
  simp only at hscalars hrefs hlists
  have hscalars' := hmember scalars (Value.nestingFields scalars)
  have hrefs' := hmember refs (nestingRefs refs)
  have hlists' := hmember lists (nestingLists lists)
  simp only [nesting]
  omega

namespace Normalize

variable (ids : IdIndex)

theorem nesting_objectAt_le {p : Path} {fields : List (String × Value)}
    (hrefs : Skeleton.nestingRefs (objectAt ids (fun guid => guid) p fields).1.refs ≤
      2 * Value.nestingFields fields)
    (hlists : Skeleton.nestingLists (objectAt ids (fun guid => guid) p fields).1.lists ≤
      2 * Value.nestingFields fields) :
    (objectAt ids (fun guid => guid) p fields).1.nesting ≤ 2 * Value.nestingFields fields + 2 := by
  have hscalars : Value.nestingFields (objectAt ids (fun guid => guid) p fields).1.scalars ≤
      Value.nestingFields fields := by
    refine Value.nestingFields_le_iff.mpr fun b hb => ?_
    exact Value.nestingFields_le_iff.mp (Nat.le_refl _) b (mem_of_mem_scalars hb)
  exact Skeleton.nesting_le hscalars hrefs hlists

/-- A nested object takes two levels of a skeleton for one of the result, a list of objects three
for two. -/
theorem nesting_walk :
    (∀ fields : List (String × Value), ∀ p backing,
      Skeleton.nestingRefs (splitFields ids (fun guid => guid) p backing fields).refs ≤
          2 * Value.nestingFields fields ∧
        Skeleton.nestingLists (splitFields ids (fun guid => guid) p backing fields).lists ≤
          2 * Value.nestingFields fields) ∧
    (∀ items : List Value, ∀ p i,
      Skeleton.nestingItems (splitItems ids (fun guid => guid) p i items).objects ≤
        2 * Value.nestingItems items) := by
  refine walk_induction ?nil ?object ?series ?leaf ?noItem ?objectItem ?otherItem
  case nil =>
    intro p backing
    simp only [splitFields]
    exact ⟨Nat.zero_le _, Nat.zero_le _⟩
  case object =>
    intro k fields rest ihFields ihRest p backing
    rcases ihRest p backing with ⟨hrefs, hlists⟩
    rcases ihFields (p.field k) (objectId? ids (p.field k) fields) with ⟨hinnerRefs, hinnerLists⟩
    have hinner := nesting_objectAt_le ids (p := p.field k) hinnerRefs hinnerLists
    simp only [splitFields_map, Parts.nest, Skeleton.nestingRefs, Value.nestingFields,
      Value.nesting]
    omega
  case series =>
    intro k items rest ihItems ihRest p backing
    rcases ihRest p backing with ⟨hrefs, hlists⟩
    have hinner := ihItems (p.field k) 0
    have hlevels : Value.nestingFields rest ≤ Value.nestingFields ((k, .list items) :: rest) :=
      Nat.le_max_right _ _
    rw [splitFields_list]
    simp only
    -- A list that is kept adds no level to the skeleton.
    split
    · split
      · exact ⟨by omega, by omega⟩
      · cases backing <;>
          exact ⟨by simp only [Parts.store]; omega, by simp only [Parts.store]; omega⟩
    · simp only [Skeleton.nestingLists, Value.nestingFields, Value.nesting]
      omega
  case leaf =>
    intro k v rest hleaf ihRest p backing
    rcases ihRest p backing with ⟨hrefs, hlists⟩
    have hlevels : Value.nestingFields rest ≤ Value.nestingFields ((k, v) :: rest) :=
      Nat.le_max_right _ _
    simp only [splitFields_leaf ids _ p backing k hleaf]
    cases backing <;> exact ⟨by simp only [Parts.store]; omega, by simp only [Parts.store]; omega⟩
  case noItem =>
    intro p i
    simp only [splitItems]
    exact Nat.zero_le _
  case objectItem =>
    intro fields rest ihFields ihRest p i
    have hrest := ihRest p (i + 1)
    rcases ihFields (p.index i) (objectId? ids (p.index i) fields) with ⟨hinnerRefs, hinnerLists⟩
    have hinner := nesting_objectAt_le ids (p := p.index i) hinnerRefs hinnerLists
    simp only [splitItems_map, Skeleton.nestingItems, Value.nestingItems, Value.nesting]
    omega
  case otherItem =>
    intro v rest hv ihRest p i
    have hrest := ihRest p (i + 1)
    simp only [splitItems_other ids _ p i hv, Value.nestingItems]
    omega

theorem nesting_skeletonOf_le (fields : List (String × Value)) :
    (skeletonOf ids fields).nesting ≤ 2 * (Value.map fields).nesting := by
  rcases (nesting_walk ids).1 fields Path.root (objectId? ids Path.root fields) with
    ⟨hrefs, hlists⟩
  exact nesting_objectAt_le ids hrefs hlists

/-- The fields that an object writes are nested in it. -/
theorem nestingFields_merged_le {fields : List (String × Value)} {requestor : Option QueryKey}
    {r : Record} {n : Nat} (hr : Value.nestingFields r.fields.bindings ≤ n)
    (hfields : (Value.map fields).nesting ≤ n) :
    Value.nestingFields (r.merged ids fields requestor).fields.bindings ≤ n :=
  Value.nestingFields_le_iff.mpr (merged_of_hereditary (Value.hereditary_nesting_le n)
    (Value.nestingFields_le_iff.mp hr) hfields)

end Normalize
end EntityCache
