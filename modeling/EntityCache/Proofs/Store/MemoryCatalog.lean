import EntityCache.Proofs.Store.Catalog
import EntityCache.Proofs.Store.Memory

/-!
# The catalog of a store in memory

* `MemoryStore.catalog`: what a store in memory has to show.
* `MemoryStore.serves`: its calls do to the catalog what they should, as long as every record is
  kept under its own guid.
-/

namespace EntityCache

open Normalize

namespace MemoryStore

/-- What a store in memory has to show.  Its records need no decoding. -/
def catalog (w : World MemoryStore) : Catalog where
  skeleton? q := (w.store.trees.get? q).bind (fun e => e.root?.toOption)
  fields? guid := some ((w.records.view guid).getD [])
  Lists guid q := (w.records.dependentsAt guid).mem q = true

/-- Only records and skeletons matter. -/
theorem catalog_congr {w w' : World MemoryStore} (hrecords : w'.records = w.records)
    (htrees : ∀ q, (w'.store.trees.get? q).bind (fun e => e.root?.toOption) =
      (w.store.trees.get? q).bind (fun e => e.root?.toOption)) : catalog w' = catalog w := by
  simp only [catalog, hrecords, htrees]

theorem shown_catalog (q : QueryKey) (w : World MemoryStore) :
    (catalog w).shown q = (w.store.trees.get? q).bind (fun e =>
      e.root?.toOption.map (fun n => (assemble w.records.view n).plain)) := by
  have hview : ∀ n, assemble (catalog w).fields? n = assemble w.records.view n :=
    fun n => assemble_congr n fun guid _ => rfl
  simp only [Catalog.shown]
  cases htree : w.store.trees.get? q with
  | none =>
      simp [catalog, htree]
  | some e =>
      cases hroot : e.root?.toOption with
      | none =>
          simp [catalog, htree, hroot]
      | some n =>
          have hskeleton : (catalog w).skeleton? q = some n := by
            simp [catalog, htree, hroot]
          -- No record has to be decoded, so none is in the way.
          have hall : n.guidList.all (fun guid => ((catalog w).fields? guid).isSome) = true := by
            simp [catalog]
          simp only [hskeleton, Option.bind_some, if_pos hall, hview, hroot]
          rfl

/-! ## Changes -/

theorem grows_of_absorbs {w w' : World MemoryStore} {fields : List (String × Value)} {ids : IdIndex}
    {requestor : Option QueryKey}
    (h : RecordSet.Absorbs (.map fields) ids requestor w.records w'.records)
    (htrees : w'.store.trees = w.store.trees) :
    Catalog.Grows (entitiesOf ids fields) (catalog w) (catalog w') where
  skeleton? q := by
    simp only [catalog, htrees]
  fields? := by
    intro guid hguid
    refine congrArg some (view_congr fun k => ?_)
    simp only [h.field?, get?_assignments_of_not_mem hguid, Option.none_or]
  lists hlists := (h.mem_dependentsAt _ _).mpr (Or.inl hlists)

theorem enrolls_of_absorbs {w w' : World MemoryStore} {fields : List (String × Value)}
    {ids : IdIndex} {requestor : Option QueryKey}
    (h : RecordSet.Absorbs (.map fields) ids requestor w.records w'.records) :
    Catalog.Enrolls (entitiesOf ids fields) requestor (catalog w') := by
  intro guid hguid q hq
  exact (h.mem_dependentsAt guid q).mpr (Or.inr ⟨hq, mem_entitiesOf.mp hguid⟩)

/-- What is no object leaves no more than fresh records behind. -/
theorem grows_of_other {w w' : World MemoryStore} {v : Value} {ids : IdIndex}
    {requestor : Option QueryKey} (hv : v.isMap = false)
    (h : RecordSet.Absorbs v ids requestor w.records w'.records)
    (htrees : w'.store.trees = w.store.trees) : Catalog.Grows [] (catalog w) (catalog w') where
  skeleton? q := by
    simp only [catalog, htrees]
  fields? := by
    intro guid _
    refine congrArg some (view_congr fun k => ?_)
    simp only [h.field?, assignments_of_other ids hv]
    rfl
  lists hlists := (h.mem_dependentsAt _ _).mpr (Or.inl hlists)

/-! ## Calls -/

/-- The calls of a store in memory do to its catalog what they should. -/
theorem serves : backend.Serves (fun w => w.records.Keyed) catalog where
  counts _ := ⟨_, rfl⟩
  report _ hw := hw
  catalog_report _ _ := rfl
  time _ hw := hw
  catalog_time _ _ := rfl
  tree? := by
    intro q w hw
    rcases tree?_apply q w with ⟨-, hcall⟩ | ⟨e, htree, hcall⟩
    · rw [hcall]
      exact ⟨hw, rfl⟩
    · simp only [hcall]
      refine ⟨hw, catalog_congr rfl fun q' => ?_⟩
      show ((w.store.trees.insert q (e.touch w.now)).get? q').bind _ = _
      simp only [Dict.get?_insert]
      split
      · next hq =>
          simp only [hq, htree]
          rfl
      · rfl
  project := by
    intro root w hw
    rcases project_eq root w with ⟨signals, hproject⟩
    simp only [hproject]
    exact ⟨hw, rfl⟩
  read := by
    intro q w _
    rcases read_apply q w with ⟨w', hread, -⟩
    simp only [hread, resultOf, shown_catalog]
    cases w.store.trees.get? q with
    | none =>
        rfl
    | some e =>
        simp only [Option.bind_some, Option.map_map]
        rfl
  batch := by
    intro guids w _
    rcases batch_apply guids w with ⟨index, hbatch, -⟩
    exact ⟨index, _, hbatch⟩
  absorb := by
    intro fields ids requestor w hw
    rcases absorb_map hw fields ids requestor with
      ⟨pass, w', habsorb, habsorbs, htrees, -, hroot, himpacted, -⟩
    exact ⟨pass, w', habsorb, habsorbs.keyed, grows_of_absorbs habsorbs htrees,
      enrolls_of_absorbs habsorbs, hroot, himpacted⟩
  refuse := by
    intro v ids requestor w hv hw
    rcases absorb_other hw ids requestor hv with ⟨e, w', habsorb, habsorbs, htrees, -⟩
    exact ⟨e, w', habsorb, habsorbs.keyed, grows_of_other hv habsorbs htrees⟩
  stop := by
    intro fields ids requestor index pass k w w₁ w₂ w₃ hw hbatch hsplit hsaves
    rcases steps_map hw fields ids requestor with
      ⟨_, _, _, _, hbatch', hsplit', habsorbs, htrees, -, -, -, htouched, -⟩
    cases hbatch.symm.trans hbatch'
    cases hsplit.symm.trans hsplit'
    -- The records are changed in place, so saving none of them makes no difference.
    have hsaved := each_save_apply habsorbs.keyed (pass.touched.values.take k)
      fun h hh => htouched h (List.mem_of_mem_take hh)
    cases hsaves.symm.trans hsaved
    exact ⟨habsorbs.keyed, grows_of_absorbs habsorbs htrees⟩
  setTree := by
    intro q n span w hw
    refine ⟨_, rfl, hw, ?_⟩
    let e := Entry.new q n.text span (some n) w.now
    have htrees : ∀ q', (catalog { w with store :=
        { w.store with trees := w.store.trees.insert q e } }).skeleton? q' =
          if q' = q then some n else (catalog w).skeleton? q' := by
      intro q'
      show ((w.store.trees.insert q e).get? q').bind _ = _
      simp only [Dict.get?_insert]
      split <;> rfl
    exact
      { other := by
          intro q' hq
          exact (htrees q').trans (if_neg hq)
        own := by
          intro n' hn' guid hguid
          have hsame := hn'.symm.trans ((htrees q).trans (if_pos rfl))
          cases hsame
          exact hguid
        fields? := rfl
        lists := fun hlists => hlists }

end MemoryStore
end EntityCache
