import EntityCache.Proofs.Normalize.Restored
import EntityCache.Proofs.Normalize.Views
import Mathlib.Data.List.Pairwise

/-!
# Splitting and assembling

A result is split over records and assembled from the records after the pass.

* `Agreeing`: no two visited objects keep different values in one field of one entity.
* `assemble_pass`: what comes back is the result, completed by the records and without the empty
  lists of objects that have no record; over records without fields, and if no entity occurs twice,
  nothing is added.
-/

namespace EntityCache
namespace Normalize

/-! ## Results that agree with themselves -/

/-- Whatever visited objects keep in one field of one entity is the same. -/
def Agreeing (ids : IdIndex) (visited : List Visit) : Prop :=
  ∀ o ∈ visited, ∀ o' ∈ visited, ∀ guid k v v',
    o.Keeps ids guid k v → o'.Keeps ids guid k v' → v = v'

/-- No record of the set has a field. -/
def RecordSet.Vacant (records : RecordSet) : Prop :=
  ∀ guid k, records.field? guid k = none

theorem sorted_of_mem_visitsFrom {p : Path} {fields : List (String × Value)} {o : Visit} :
    (Value.map fields).Ordered → o ∈ visitsFrom p fields → Assoc.Sorted o.fields := by
  intro hordered ho
  exact (visit_of_hereditary Value.hereditary_ordered hordered o ho).1

/-- Of elements with different images there is only one for each image. -/
theorem eq_of_nodup_filterMap {α β : Type} {f : α → Option β} {b : β} {l : List α}
    (hnodup : (l.filterMap f).Nodup) {x y : α} (hx : x ∈ l) (hy : y ∈ l) (hfx : f x = some b)
    (hfy : f y = some b) : x = y := by
  by_contra hne
  have hpairs : l.Pairwise fun a a' => ∀ b, f a = some b → ∀ b', f a' = some b' → b ≠ b' :=
    List.pairwise_filterMap.mp hnodup
  have hsymm : Std.Symm fun a a' => ∀ b, f a = some b → ∀ b', f a' = some b' → b ≠ b' :=
    ⟨fun a a' h b hb b' hb' => (h b' hb' b hb).symm⟩
  exact hpairs.forall hx hy hne b hfx b hfy rfl

theorem agreeing_of_nodup {ids : IdIndex} {fields : List (String × Value)} :
    (Value.map fields).Ordered → (entitiesOf ids fields).Nodup →
      Agreeing ids (visitsFrom Path.root fields) := by
  rintro hordered hnodup o ho o' ho' guid k v v' ⟨hguid, hv, -⟩ ⟨hguid', hv', -⟩
  have hsame : o = o' := eq_of_nodup_filterMap hnodup ho ho' hguid hguid'
  -- It is one and the same object, and it has each field once.
  have hsorted := sorted_of_mem_visitsFrom hordered ho
  simp only [← hsame] at hv'
  have hget := (Assoc.get?_eq_some_iff hsorted).mpr hv
  simp only [(Assoc.get?_eq_some_iff hsorted).mpr hv'] at hget
  exact (Option.some.inj hget).symm

/-! ## Records after a pass -/

section Passes

variable {ids : IdIndex} {fields : List (String × Value)} {records : RecordSet}
  {requestor : Option QueryKey} {pass : Pass}

/-- After a pass the records show what the visited objects keep on them, if these agree. -/
theorem settled_of_describes :
    pass.Describes ids fields records requestor → Agreeing ids (visitsFrom Path.root fields) →
      Settled pass.records.view ids (visitsFrom Path.root fields) := by
  intro hpass hagree o ho guid k v hkeeps
  rcases hpass.held ho hkeeps with ⟨o', ho', w, hkeeps', hw⟩
  have hvalue : w = v := (hagree o ho o' ho' guid k v w hkeeps hkeeps').symm
  calc
    Assoc.get? k ((pass.records.view guid).getD []) = pass.records.field? guid k := get?_view _ _ _
    _ = some w := hw
    _ = some v := by rw [hvalue]

/-- After a pass over records without fields they show only what visited objects keep on them. -/
theorem exact_of_describes :
    pass.Describes ids fields records requestor → (Value.map fields).Ordered →
      records.Vacant → (entitiesOf ids fields).Nodup →
      Exact pass.records.view ids (visitsFrom Path.root fields) := by
  intro hpass hordered hvacant hnodup o ho guid hguid k hk
  rw [get?_view, hpass.field?, hvacant, Option.or_none]
  cases hw : Assoc.get? (guid, k) (assignmentsFrom ids Path.root fields).reverse with
  | none =>
      rfl
  | some w =>
      -- Whoever wrote the field has the entity, so it is the same object, and has no such field.
      rcases exists_keeps_of_last hw with ⟨o', ho', hguid', hmem, -⟩
      have hsame : o = o' := eq_of_nodup_filterMap hnodup ho ho' hguid hguid'
      have hsorted := sorted_of_mem_visitsFrom hordered ho
      simp only [← hsame, ← Assoc.get?_eq_some_iff hsorted, hk] at hmem
      cases hmem

end Passes

/-- A pass over an object succeeds.  If what the object keeps on records agrees, assembling the
skeleton from the records after the pass gives the object completed by them; over records without
fields, and if no entity occurs twice, it gives nothing but the object. -/
theorem assemble_pass (ids : IdIndex) (fields : List (String × Value)) (records : RecordSet)
    (requestor : Option QueryKey) (hordered : (Value.map fields).Ordered)
    (hkeyed : records.Keyed) :
    ∃ pass, Pass.run? (.map fields) ids records requestor = some pass ∧
      (Agreeing ids (visits (.map fields)) →
        assemble pass.records.view pass.root = restored pass.records.view ids (.map fields)) ∧
      (records.Vacant → ((visits (.map fields)).filterMap (Visit.guid? ids)).Nodup →
        assemble pass.records.view pass.root = pruned ids (.map fields)) := by
  rcases Pass.run?_map ids fields hkeyed requestor with ⟨pass, hrun, hpass⟩
  have hview : OrderedView pass.records.view := sorted_view pass.records
  have hrestored : Agreeing ids (visitsFrom Path.root fields) →
      assemble pass.records.view pass.root = restoredAt pass.records.view ids Path.root fields := by
    intro hagree
    simp only [hpass.root_eq, skeletonOf]
    exact assemble_skeletonAt ids hview hordered (settled_of_describes hpass hagree)
  refine ⟨pass, hrun, hrestored, ?_⟩
  intro hvacant hnodup
  have hexact := exact_of_describes hpass hordered hvacant hnodup
  calc assemble pass.records.view pass.root
      = restoredAt pass.records.view ids Path.root fields :=
        hrestored (agreeing_of_nodup hordered hnodup)
    _ = pruned ids (.map fields) := restoredAt_eq_pruned ids hview hordered hexact

/-! A concrete round trip -/

theorem agreeing_of_assignments {ids : IdIndex} {fields : List (String × Value)} :
    (∀ a ∈ assignmentsFrom ids Path.root fields,
      Assoc.get? a.1 (assignmentsFrom ids Path.root fields) = some a.2) →
      Agreeing ids (visitsFrom Path.root fields) := by
  intro hfirst o ho o' ho' guid k v v' hkeeps hkeeps'
  have hv := hfirst _ (mem_assignmentsFrom.mpr ⟨o, ho, hkeeps⟩)
  have hv' := hfirst _ (mem_assignmentsFrom.mpr ⟨o', ho', hkeeps'⟩)
  simp only [hv'] at hv
  exact (Option.some.inj hv).symm

/-- One author behind three objects, one of them in a list that is kept as a whole. -/
def sharedFields : List (String × Value) :=
  [("author", .map [("id", .id "U1"), ("name", .str "Ada")]),
    ("drafts", .list []),
    ("items", .list
      [.map [("author", .map [("id", .id "U1"), ("tags", .list [])]), ("id", .id "P1")]]),
    ("log", .list [.map [("id", .id "U1"), ("name", .str "Ada")], .null])]

/-- Two objects with different ids, each with an empty list, as is their parent. -/
def distinctFields : List (String × Value) :=
  [("drafts", .list []),
    ("items", .list
      [.map [("author", .map [("id", .id "U1"), ("tags", .list [])]), ("id", .id "P1")]])]

/-- A record with a field that the result nests and with one that the result does not have. -/
def sharedRecords : RecordSet :=
  RecordSet.empty.add "P1"
    ⟨"P1", .ofList [("author", .null), ("price", .num (.int 3))], .empty⟩

theorem keyed_sharedRecords : sharedRecords.Keyed :=
  (RecordSet.keyed_of_index_empty rfl).add
    ⟨"P1", .ofList [("author", .null), ("price", .num (.int 3))], .empty⟩

theorem ordered_sharedFields : (Value.map sharedFields).Ordered := by
  simp only [Value.Ordered, Value.OrderedFields, Value.OrderedItems, sharedFields, Assoc.Sorted,
    and_true, true_and]
  decide

theorem ordered_distinctFields : (Value.map distinctFields).Ordered := by
  simp only [Value.Ordered, Value.OrderedFields, Value.OrderedItems, distinctFields, Assoc.Sorted,
    and_true, true_and]
  decide

theorem agreeing_sharedFields : Agreeing .empty (visits (.map sharedFields)) := by
  refine agreeing_of_assignments ?_
  simp [assignmentsFrom, assignmentsIn, assignmentsAmong, sharedFields, objectId?, Value.idAmong,
    IdIndex.get?, IdIndex.empty, Value.isKept, assigned, Value.isMap, Assoc.get?_cons]

/-- The author comes back complete wherever he stands, and what is new on `P1` is its price. -/
theorem assemble_pass_shared :
    (Value.map sharedFields).Ordered ∧ sharedRecords.Keyed ∧
      Agreeing .empty (visits (.map sharedFields)) ∧
      (∃ pass, Pass.run? (.map sharedFields) .empty sharedRecords (some "q") = some pass ∧
        assemble pass.records.view pass.root =
          restored pass.records.view .empty (.map sharedFields)) ∧
      ∃ pass, Pass.run? (.map distinctFields) .empty .empty none = some pass ∧
        assemble pass.records.view pass.root =
          .map [("items", .list
            [.map [("author", .map [("id", .id "U1"), ("tags", .list [])]),
              ("id", .id "P1")]])] := by
  rcases assemble_pass .empty sharedFields sharedRecords (some "q")
    ordered_sharedFields keyed_sharedRecords with ⟨pass, hrun, hrestored, -⟩
  rcases assemble_pass .empty distinctFields .empty none
    ordered_distinctFields (by intro guid h hh; cases hh) with ⟨pass', hrun', -, hpruned⟩
  refine ⟨ordered_sharedFields, keyed_sharedRecords, agreeing_sharedFields,
    ⟨pass, hrun, hrestored agreeing_sharedFields⟩, pass', hrun', ?_⟩
  have hdistinct : ((visits (.map distinctFields)).filterMap (Visit.guid? .empty)).Nodup := by
    simp [visits, visitsFrom, visitsIn, visitsAmong, distinctFields, Visit.guid?, objectId?,
      Value.idAmong, IdIndex.get?, IdIndex.empty]
  simp only [hpruned (fun guid k => rfl) hdistinct]
  simp [pruned, prunedFields, prunedItems, distinctFields, objectId?, Value.idAmong, IdIndex.get?,
    IdIndex.empty, Value.isKept, Value.isMap]

end Normalize
end EntityCache
