import EntityCache.Proofs.Codec.Skeletons
import EntityCache.Proofs.Store.File

/-!
# The catalog of a store in a file

* `FileStore.catalog`: what a store in a file has to show.
* `FileStore.Sound`: the store is open, no table is missing, every row holds the entity that it is
  found under, and nobody holds a record.
* `FileStore.serves`: the calls of a sound store do to its catalog what they should.
-/

namespace EntityCache

open Normalize

namespace FileStore

/-- The contents of a file.  A table that is missing has no rows. -/
def Connected.contents (c : Connected) : Contents :=
  ⟨c.state.tables.trees.getD .empty, c.state.tables.entities.getD .empty,
    c.state.tables.dependents.getD .empty⟩

/-- What a store in a file has to show. -/
def catalog (w : World Connected) : Catalog :=
  w.store.contents.catalog

/-- Between two calls of a cache. -/
structure Sound (w : World Connected) : Prop where
  held : w.held = []
  bounded : w.Bounded
  holds : ∃ t, w.Holds t ∧ t.Keyed

variable {w : World Connected} {t : Contents}

theorem catalog_of_holds (hw : w.Holds t) : catalog w = t.catalog := by
  simp only [catalog, Connected.contents, hw.2]
  rfl

/-! ## Reading -/

/-- The rows of a skeleton are looked up one after the other. -/
theorem recordsOf_eq (root : Skeleton) :
    backend.recordsOf root = Connected.findAll root.guids.toList .empty := by
  rw [Backend.recordsOf]
  split
  · next hempty =>
      have hnone : root.guids.toList = [] := by
        rw [List.eq_nil_iff_forall_not_mem]
        intro guid hguid
        simp only [← KeySet.mem_iff_mem_toList, KeySet.mem_of_isEmpty hempty] at hguid
        cases hguid
      simp only [hnone]
      rfl
  · rfl

theorem mem_guids_toList {n : Skeleton} {guid : Guid} :
    guid ∈ n.guids.toList ↔ guid ∈ n.guidList := by
  simp only [← KeySet.mem_iff_mem_toList, Skeleton.guids, KeySet.mem_ofKeys, decide_eq_true_eq]

/-- A skeleton is assembled unless one of its entities cannot be decoded. -/
theorem project_cases (hw : w.Holds t) (ht : t.Keyed) (hbounded : w.Bounded) (hheld : w.held = [])
    (root : Skeleton) : ∃ w', w'.Holds t ∧ w'.Bounded ∧ w'.held = [] ∧ w'.now = w.now ∧
      ((∃ e, backend.project root w = (.error e, w') ∧
          ∃ guid ∈ root.guidList, t.catalog.fields? guid = none) ∨
        (backend.project root w = (.ok (assemble t.catalog.fields? root), w') ∧
          ∀ guid ∈ root.guidList, (t.catalog.fields? guid).isSome = true)) := by
  rcases Connected.findAll_apply root.guids.toList .empty hw ht hbounded root.guids.nodup_toList
    fun guid _ => ⟨Connected.live?_of_held hheld guid, rfl⟩ with
    ⟨answer, w₁, hrun, hw₁, hloads, hlooked⟩
  have hbounded₁ := hloads.bounded hbounded
  simp only [← recordsOf_eq] at hrun
  cases hlooked with
  | @failed e guid hguid hbad =>
      refine ⟨{ w₁ with held := w.held }, hw₁, hbounded₁, hheld, hloads.now,
        Or.inl ⟨e, ?_, guid, ?_, ?_⟩⟩
      · exact Backend.project_of_failed hrun
      · exact mem_guids_toList.mp hguid
      · simp only [Contents.fields?_catalog, hbad]
        rfl
  -- The records that were found show what the rows say.
  | @done index hfound _ =>
      let view := RecordSet.view ⟨w₁.pool, index⟩
      have hfields : ∀ guid ∈ root.guidList,
          t.catalog.fields? guid = some ((view guid).getD []) := by
        intro guid hguid
        have hget : RecordSet.get? ⟨w₁.pool, index⟩ guid =
            (index.get? guid).bind w₁.pool.get? := rfl
        simp only [Contents.fields?_catalog, hfound guid (mem_guids_toList.mpr hguid)]
        simp only [view, RecordSet.view, hget, Except.toOption, Option.map_some]
      have hassemble : assemble view root = assemble t.catalog.fields? root :=
        assemble_congr root fun guid hguid => by simp only [hfields guid hguid]; rfl
      refine ⟨{ w₁.report (missingNotices view root) with held := w.held }, hw₁, hbounded₁, hheld,
        hloads.now, Or.inr ⟨?_, ?_⟩⟩
      · simp only [← hassemble]
        exact Backend.project_of_records hrun
      · intro guid hguid
        simp only [hfields guid hguid]
        rfl

/-- A cached result is shown as the file has it, and only the time of access changes. -/
theorem read_apply (hw : w.Holds t) (ht : t.Keyed) (hbounded : w.Bounded) (hheld : w.held = [])
    (q : QueryKey) : ∃ w', backend.read q w = (t.result? w.now q, w') ∧
      w'.Holds (t.accessed w.now q) ∧ w'.Bounded ∧ w'.held = [] := by
  rcases Connected.tree?_cases hw q with ⟨hentry, hcall⟩ | ⟨e, hentry, hcall⟩
  · have hresult : t.result? w.now q = none := by
      simp only [Contents.result?, hentry]
      rfl
    simp only [hresult, Contents.accessed_of_none hentry]
    rcases hcall with hcall | ⟨failed, hcall⟩
    · exact ⟨_, Backend.read_of_none (b := backend) hcall, hw, hbounded, hheld⟩
    · rcases Backend.read_of_failed (b := backend) hcall with ⟨signals, hread⟩
      exact ⟨_, hread, hw, hbounded, hheld⟩
  · have htouch : (e.touch w.now).root? = e.root? := rfl
    have hw₁ := hw.withContents (t.accessed w.now q)
    cases hroot : e.root? with
    | error f =>
        have hresult : t.result? w.now q = none := by
          simp only [Contents.result?, hentry, Option.bind_some, hroot]
          rfl
        rcases Backend.read_of_undecodable (b := backend) hcall (htouch.trans hroot) with
          ⟨signals, hread⟩
        simp only [hresult]
        exact ⟨_, hread, hw₁, hbounded, hheld⟩
    | ok n =>
        -- Assembling begins after the time of access was written.
        rcases project_cases hw₁ (ht.accessed w.now q) hbounded hheld n with
          ⟨w₂, hw₂, hbounded₂, hheld₂, hnow, hproject⟩
        simp only [Contents.catalog_accessed] at hproject
        simp only [show (w.withContents (t.accessed w.now q)).now = w.now from rfl] at hnow
        have hresult : t.result? w.now q =
            if n.guidList.all (fun guid => (t.catalog.fields? guid).isSome) then
              some ⟨q, (assemble t.catalog.fields? n).plain, e.isStaleAt w.now, e.ttl, e.cachedAt⟩
            else none := by
          simp only [Contents.result?, hentry, Option.bind_some, hroot]
          rfl
        rcases hproject with ⟨failure, hproject, guid, hguid, hbad⟩ | ⟨hproject, hall⟩
        · rcases Backend.read_of_unprojected (b := backend) hcall (htouch.trans hroot) hproject with
            ⟨signals, hread⟩
          rw [hresult, if_neg]
          · exact ⟨_, hread, hw₂, hbounded₂, hheld₂⟩
          · intro hall
            simp only [List.all_eq_true] at hall
            have hsome := hall guid hguid
            simp only [hbad] at hsome
            cases hsome
        · rcases Backend.read_of_entry (b := backend) hcall (htouch.trans hroot) hproject with
            ⟨signals, hread⟩
          simp only [hnow] at hread
          simp only [hresult, if_pos (List.all_eq_true.mpr hall)]
          exact ⟨_, hread, hw₂, hbounded₂, hheld₂⟩

/-! ## Writing -/

section Writing

variable {fields : List (String × Value)} {ids : IdIndex} {requestor : Option QueryKey}

/-- An object is split over one record for each of its entities, as the file has it. -/
theorem steps_map (hw : w.Holds t) (ht : t.Keyed) (hbounded : w.Bounded) (hheld : w.held = [])
    (fields : List (String × Value)) (ids : IdIndex) (requestor : Option QueryKey) :
    ∃ index w₁ pass w₂, backend.batch (idsWithin ids (.map fields)) w = (.ok index, w₁) ∧
      Backend.splitOver (.map fields) ids index requestor w₁ = (.ok pass, w₂) ∧
      w₂.Holds (t.makeAll (idsWithin ids (.map fields)).toList) ∧ w₂.Bounded ∧
      w₂.pool = pass.records.pool ∧
      pass.Describes ids fields ⟨w₁.pool, index⟩ requestor ∧
      w₂.now = w.now ∧ ∀ guid ∈ entitiesOf ids fields,
        RecordSet.get? ⟨w₁.pool, index⟩ guid = some (t.record guid) := by
  rcases Connected.batch_apply hw ht hbounded hheld (idsWithin ids (.map fields)) with
    ⟨index, w₁, hbatch, hw₁, hloads, hfound, hother⟩
  -- Each record was read from a row, or made, under the id that it is found by.
  have hkeyed : RecordSet.Keyed ⟨w₁.pool, index⟩ := by
    intro guid h hh
    have hget : index.get? guid = some h := hh
    cases hmem : (idsWithin ids (.map fields)).mem guid with
    | false =>
        simp only [hother guid hmem] at hget
        cases hget
    | true =>
        rcases hfound guid hmem with ⟨h', hh', hr⟩
        cases hget.symm.trans hh'
        exact ⟨_, hr, Contents.guid_record ht guid⟩
  rcases Pass.run?_map ids fields hkeyed requestor with ⟨pass, hrun, hpass⟩
  refine ⟨index, w₁, pass, _, hbatch, Backend.splitOver_of_run hrun, hw₁, ?_, rfl, hpass,
    hloads.now, ?_⟩
  · intro guid h hlive
    exact Nat.lt_of_lt_of_le (hloads.bounded hbounded guid h hlive) hpass.size_le
  · intro guid hguid
    rcases mem_entitiesOf.mp hguid with ⟨o, ho, hid⟩
    rcases hfound guid (mem_idsWithin ho hid) with ⟨h, hh, hr⟩
    exact (RecordSet.get?_of_handle? (s := ⟨w₁.pool, index⟩) hh).trans hr

/-- Saving some of the touched records changes nothing but the fields of the entities. -/
theorem saves_touched {records : RecordSet} {pass : Pass} {w₂ : World Connected} {t₁ : Contents}
    (hpass : pass.Describes ids fields records requestor) (hw₂ : w₂.Holds t₁)
    (hbounded : w₂.Bounded)
    (hpool : w₂.pool = pass.records.pool) (handles : List Handle)
    (hhandles : ∀ h ∈ handles, h ∈ pass.touched.values) : ∃ w₃,
      Act.each backend.save handles w₂ = (.ok (), w₃) ∧
      w₃.Holds (t₁.saveAll (handles.filterMap pass.records.pool.get?)) ∧ w₃.Bounded ∧
      w₃.now = w₂.now ∧ Catalog.Grows (entitiesOf ids fields) t₁.catalog
        (t₁.saveAll (handles.filterMap pass.records.pool.get?)).catalog := by
  -- Every touched handle stands for the record of an entity of the result.
  have hrecord : ∀ h ∈ handles, ∃ r, pass.records.pool.get? h = some r ∧
      r.guid ∈ entitiesOf ids fields := by
    intro h hh
    rcases hpass.guid_of_mem_touched (hhandles h hh) with ⟨guid, hguid, hhandle⟩
    rcases hpass.keyed guid h hhandle with ⟨r, hr, rfl⟩
    exact ⟨r, hr, hguid⟩
  obtain ⟨w₃, hsaves, hw₃, hbounded₃, -, hnow⟩ :=
    Connected.saves_apply handles hw₂ hbounded fun h hh => by
      rcases hrecord h hh with ⟨r, hr, -⟩
      simp only [hpool, hr]
      rfl
  simp only [hpool] at hw₃
  refine ⟨w₃, hsaves, hw₃, hbounded₃, hnow, Contents.grows_saveAll t₁ ?_⟩
  intro r hr
  rcases List.mem_filterMap.mp hr with ⟨h, hh, hget⟩
  rcases hrecord h hh with ⟨r', hr', hguid⟩
  cases hget.symm.trans hr'
  exact hguid

/-- Making entities changes nothing that a catalog shows, so it grows by what is saved after. -/
theorem grows_of_saved {w' : World Connected} {touched guids : List Guid} {records : List Record}
    (hw : w.Holds t) (hw' : w'.Holds ((t.makeAll guids).saveAll records))
    (hgrows : Catalog.Grows touched (t.makeAll guids).catalog
      ((t.makeAll guids).saveAll records).catalog) :
    Catalog.Grows touched (catalog w) (catalog w') := by
  simp only [catalog_of_holds hw, catalog_of_holds hw']
  exact ((Contents.grows_makeAll t guids).mono (List.nil_subset _)).trans hgrows

/-- Once all touched records are saved, the requestor is listed for their entities. -/
theorem enrolls_saved {records : RecordSet} {pass : Pass} (t₁ : Contents)
    (hpass : pass.Describes ids fields records requestor) :
    Catalog.Enrolls (entitiesOf ids fields) requestor
      (t₁.saveAll (pass.touched.values.filterMap pass.records.pool.get?)).catalog := by
  intro guid hguid q hq
  rcases hpass.mem_touched hguid with ⟨h, hh, hhandle⟩
  rcases hpass.keyed guid h hhandle with ⟨r, hr, rfl⟩
  have hdependents : r.dependents.mem q = true := by
    have hmem := (hpass.mem_dependentsAt r.guid q).mpr (Or.inr ⟨hq, hguid⟩)
    rwa [← RecordSet.dependents_eq hhandle, RecordSet.dependents, hr] at hmem
  exact Contents.lists_saveAll hdependents _ (List.mem_filterMap.mpr ⟨h, hh, hr⟩)

end Writing

/-- A skeleton that is stored reads back with the same entities, if at all. -/
theorem stores_inserted (t : Contents) (q : QueryKey) {n : Skeleton} {e : Entry}
    (hdata : e.data = n.text) : Catalog.Stores q n t.catalog (Contents.catalog
      { t with trees := t.trees.insert q ⟨e.lastAccessed, e.text.toUTF8⟩ }) where
  other := by
    intro q' hq
    simp only [Contents.skeleton?_catalog, Dict.get?_insert, if_neg hq]
  own := by
    intro n' hn' guid hguid
    have hentry := e.decode_text q
    simp only [Contents.skeleton?_catalog, Dict.get?_insert_self, Option.bind_some, hentry] at hn'
    -- The entry keeps the text of the skeleton, and that text adds no entity.
    rcases Option.bind_eq_some_iff.mp hn' with ⟨e', he', hroot⟩
    rcases Entry.data_reread he' with ⟨hsame, hnone⟩
    simp only [Entry.root?, hnone, hsame, hdata] at hroot
    cases hread : Skeleton.ofText? n.text with
    | error f =>
        simp only [hread] at hroot
        cases hroot
    | ok n'' =>
        simp only [hread] at hroot
        cases hroot
        exact Skeleton.guidList_ofText? hread hguid
  fields? := rfl
  lists h := h

/-! ## Calls -/

/-- The calls of a store in a file do to its catalog what they should. -/
theorem serves : backend.Serves Sound catalog where
  counts := Connected.counts_apply
  report _ hw := ⟨hw.held, hw.bounded, hw.holds⟩
  catalog_report _ _ := rfl
  time _ hw := ⟨hw.held, hw.bounded, hw.holds⟩
  catalog_time _ _ := rfl
  tree? := by
    intro q w hw
    rcases hw.holds with ⟨t, hholds, ht⟩
    rcases Connected.tree?_cases hholds q with ⟨-, hcall | ⟨e, hcall⟩⟩ | ⟨e, -, hcall⟩
    · rw [show backend.tree? q w = _ from hcall]
      exact ⟨hw, rfl⟩
    · rw [show backend.tree? q w = _ from hcall]
      exact ⟨hw, rfl⟩
    · have hholds' := hholds.withContents (t.accessed w.now q)
      simp only [show backend.tree? q w = _ from hcall]
      refine ⟨⟨hw.held, hw.bounded, _, hholds', ht.accessed w.now q⟩, ?_⟩
      simp only [catalog_of_holds hholds', catalog_of_holds hholds, Contents.catalog_accessed]
  project := by
    intro root w hw
    rcases hw.holds with ⟨t, hholds, ht⟩
    rcases project_cases hholds ht hw.bounded hw.held root with
      ⟨w', hholds', hbounded, hheld, -, hcases⟩
    have hkept : Sound w' ∧ catalog w' = catalog w :=
      ⟨⟨hheld, hbounded, t, hholds', ht⟩,
        (catalog_of_holds hholds').trans (catalog_of_holds hholds).symm⟩
    rcases hcases with ⟨e, hproject, -⟩ | ⟨hproject, -⟩
    · simp only [hproject]
      exact hkept
    · simp only [hproject]
      exact hkept
  read := by
    intro q w hw
    rcases hw.holds with ⟨t, hholds, ht⟩
    rcases read_apply hholds ht hw.bounded hw.held q with ⟨w', hread, -⟩
    simp only [catalog_of_holds hholds, hread, Contents.map_data_result?]
  batch := by
    intro guids w hw
    rcases hw.holds with ⟨t, hholds, ht⟩
    rcases Connected.batch_apply hholds ht hw.bounded hw.held guids with ⟨index, w', hbatch, -⟩
    exact ⟨index, w', hbatch⟩
  absorb := by
    intro fields ids requestor w hw
    rcases hw.holds with ⟨t, hholds, ht⟩
    rcases steps_map hholds ht hw.bounded hw.held fields ids requestor with
      ⟨index, w₁, pass, w₂, hbatch, hsplit, hw₂, hbounded₂, hpool, hpass, -, hrecord⟩
    rcases saves_touched hpass hw₂ hbounded₂ hpool pass.touched.values fun h hh => hh with
      ⟨w₃, hsaves, hw₃, hbounded₃, -, hgrows⟩
    refine ⟨pass, _, Backend.absorb_of_saved hbatch hsplit hsaves, ?_, ?_, ?_, hpass.root_eq, ?_⟩
    · exact ⟨hw.held, hbounded₃, _, hw₃, (ht.makeAll _).saveAll _⟩
    · exact grows_of_saved hholds hw₃ hgrows
    · show Catalog.Enrolls _ _ (catalog w₃)
      simp only [catalog_of_holds hw₃]
      exact enrolls_saved _ hpass
    · intro q
      simp only [catalog_of_holds hholds, hpass.mem_impacted]
      refine and_congr Iff.rfl (exists_congr fun guid => and_congr_right fun hguid => ?_)
      -- The record was read, or made, with the dependents that are listed.
      simp only [RecordSet.dependentsAt, hrecord guid hguid]
      exact Contents.mem_dependents_record guid q
  refuse := by
    intro v ids requestor w hv hw
    rcases hw.holds with ⟨t, hholds, ht⟩
    rcases Connected.batch_apply hholds ht hw.bounded hw.held (idsWithin ids v) with
      ⟨index, w₁, hbatch, hw₁, hloads, -, -⟩
    refine ⟨_, _, Backend.absorb_of_refused hbatch (Backend.splitOver_of_other hv), ?_, ?_⟩
    · exact ⟨hw.held, hloads.bounded hw.bounded, _, hw₁, ht.makeAll _⟩
    · show Catalog.Grows _ (catalog w) (catalog w₁)
      simp only [catalog_of_holds hholds, catalog_of_holds hw₁]
      exact Contents.grows_makeAll t _
  stop := by
    intro fields ids requestor index pass k w w₁ w₂ w₃ hw hbatch hsplit hsaves
    rcases hw.holds with ⟨t, hholds, ht⟩
    rcases steps_map hholds ht hw.bounded hw.held fields ids requestor with
      ⟨_, _, _, _, hbatch', hsplit', hw₂, hbounded₂, hpool, hpass, -, -⟩
    cases hbatch.symm.trans hbatch'
    cases hsplit.symm.trans hsplit'
    obtain ⟨_, hsaves', hw₃, hbounded₃, -, hgrows⟩ :=
      saves_touched hpass hw₂ hbounded₂ hpool (pass.touched.values.take k)
        fun h hh => List.mem_of_mem_take hh
    cases hsaves.symm.trans hsaves'
    -- The pass stopped after some of the records: these are saved and the rest is as it was.
    exact ⟨⟨hw.held, hbounded₃, _, hw₃, (ht.makeAll _).saveAll _⟩,
      grows_of_saved hholds hw₃ hgrows⟩
  setTree := by
    intro q n span w hw
    rcases hw.holds with ⟨t, hholds, ht⟩
    let e := Entry.new q n.text span (some n) w.now
    have hholds' := hholds.withContents
      { t with trees := t.trees.insert q ⟨e.lastAccessed, e.text.toUTF8⟩ }
    refine ⟨_, Connected.setTree_apply hholds q e, ⟨hw.held, hw.bounded, _, hholds', ht⟩, ?_⟩
    simp only [catalog_of_holds hholds, catalog_of_holds hholds']
    exact stores_inserted t q rfl

end FileStore
end EntityCache
