import EntityCache.Proofs.Normalize.Passes

/-!
# What a skeleton shows

* `get?_view`: the fields that the records of a set show, one by one.
* `view_congr`: records with the same fields show the same.
* `assemble_congr`: what a skeleton shows depends on the entities in it alone.
-/

namespace EntityCache
namespace Normalize

theorem get?_view (records : RecordSet) (guid : Guid) (k : String) :
    Assoc.get? k ((records.view guid).getD []) = records.field? guid k := by
  simp only [RecordSet.view, RecordSet.field?]
  cases records.get? guid with
  | none =>
      rfl
  | some r =>
      rfl

theorem sorted_view (records : RecordSet) (guid : Guid) :
    Assoc.Sorted ((records.view guid).getD []) := by
  simp only [RecordSet.view]
  cases records.get? guid with
  | none =>
      exact Assoc.sorted_nil
  | some r =>
      exact r.fields.sorted

theorem view_congr {records records' : RecordSet} {guid : Guid} :
    (∀ k, records.field? guid k = records'.field? guid k) →
      (records.view guid).getD [] = (records'.view guid).getD [] := by
  intro h
  refine Assoc.eq_of_get?_eq (sorted_view records guid) (sorted_view records' guid) ?_
  intro k
  simp only [get?_view, h k]

/-! ## Skeletons -/

mutual

/-- Two views that agree on the entities of a skeleton show the same. -/
theorem assemble_congr {view view' : FieldView} : ∀ n : Skeleton,
    (∀ guid ∈ n.guidList, (view guid).getD [] = (view' guid).getD []) →
      assemble view n = assemble view' n
  | ⟨guid, scalars, refs, lists⟩ => by
      intro h
      simp only [Skeleton.guidList, List.mem_append, Option.mem_toList] at h
      -- The guids of a skeleton are its own one, those of its objects and those of its lists.
      have hrefs := assembleRefs_congr refs fun g hg => h g (Or.inl (Or.inr hg))
      have hlists := assembleLists_congr lists fun g hg => h g (Or.inr hg)
      have hown : ownFields view ⟨guid, scalars, refs, lists⟩ =
          ownFields view' ⟨guid, scalars, refs, lists⟩ := by
        cases guid with
        | none =>
            rfl
        | some g =>
            exact h g (Or.inl (Or.inl rfl))
      simp only [assemble, hown, hrefs, hlists]

theorem assembleRefs_congr {view view' : FieldView} : ∀ refs : List (String × Skeleton),
    (∀ guid ∈ Skeleton.refGuids refs, (view guid).getD [] = (view' guid).getD []) →
      assembleRefs view refs = assembleRefs view' refs
  | [] => by
      intro _
      rfl
  | (k, child) :: rest => by
      intro h
      simp only [Skeleton.refGuids, List.mem_append] at h
      simp only [assembleRefs, assemble_congr child fun g hg => h g (Or.inl hg),
        assembleRefs_congr rest fun g hg => h g (Or.inr hg)]

theorem assembleLists_congr {view view' : FieldView} : ∀ lists : List (String × List Skeleton),
    (∀ guid ∈ Skeleton.listGuids lists, (view guid).getD [] = (view' guid).getD []) →
      assembleLists view lists = assembleLists view' lists
  | [] => by
      intro _
      rfl
  | (k, items) :: rest => by
      intro h
      simp only [Skeleton.listGuids, List.mem_append] at h
      rw [assembleLists, assembleLists, assembleItems_congr items fun g hg => h g (Or.inl hg),
        assembleLists_congr rest fun g hg => h g (Or.inr hg)]

theorem assembleItems_congr {view view' : FieldView} : ∀ items : List Skeleton,
    (∀ guid ∈ Skeleton.itemGuids items, (view guid).getD [] = (view' guid).getD []) →
      assembleItems view items = assembleItems view' items
  | [] => by
      intro _
      rfl
  | child :: rest => by
      intro h
      simp only [Skeleton.itemGuids, List.mem_append] at h
      simp only [assembleItems, assemble_congr child fun g hg => h g (Or.inl hg),
        assembleItems_congr rest fun g hg => h g (Or.inr hg)]

end

end Normalize
end EntityCache
