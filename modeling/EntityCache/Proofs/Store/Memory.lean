import EntityCache.Proofs.Normalize.Merged
import EntityCache.Proofs.Normalize.Reindex
import EntityCache.Proofs.Normalize.Views
import EntityCache.Proofs.Store.Calls
import EntityCache.Store.Memory

/-!
# Splitting and assembling in memory

A store in memory keeps the records themselves, so a pass over some of them is a pass over all:

* `World.records`: every record of the store.
* `RecordSet.Absorbs`: what a result leaves behind in records, refused or not.
* `MemoryStore.absorb_map`, `MemoryStore.absorb_other`: absorbing an object succeeds, and anything
  else is refused, with no more than fresh records left behind.
* `MemoryStore.project_eq`: a skeleton shows what the records of the store show.
-/

namespace EntityCache

open Normalize

namespace World

/-- The records of a store in memory. -/
def records (w : World MemoryStore) : RecordSet :=
  ⟨w.pool, w.store.entities⟩

/-- The world with other records in its store. -/
def withRecords (w : World MemoryStore) (s : RecordSet) : World MemoryStore :=
  { w with pool := s.pool, store := { w.store with entities := s.index } }

end World

/-- What a result leaves behind in records. -/
structure Normalize.RecordSet.Absorbs (v : Value) (ids : IdIndex) (requestor : Option QueryKey)
    (s s' : RecordSet) : Prop where
  keyed : s'.Keyed
  /-- The value written last counts. -/
  field? : ∀ guid k, s'.field? guid k =
    (Assoc.get? (guid, k) (assignments ids v).reverse).or (s.field? guid k)
  mem_dependentsAt : ∀ guid q, (s'.dependentsAt guid).mem q = true ↔
    (s.dependentsAt guid).mem q = true ∨
      (requestor = some q ∧ ∃ o ∈ visits v, o.guid? ids = some guid)

namespace MemoryStore

/-! ## Finding records -/

theorem entity_apply (guid : Guid) (w : World MemoryStore) :
    entity guid w =
      (.ok (w.records.fetch guid).1, w.withRecords (w.records.fetch guid).2) := by
  have hhandle : w.records.handle? guid = w.store.entities.get? guid := rfl
  simp only [entity, Act.bind_ok (a := Act.world) rfl, RecordSet.fetch, hhandle]
  cases w.store.entities.get? guid with
  | some h =>
      rfl
  | none =>
      rfl

theorem oneByOne_apply (guids : List Guid) :
    ∀ (found : Dict Guid Handle) (w : World MemoryStore), ∃ found',
      Backend.oneByOne entity guids found w =
        (.ok found', w.withRecords (w.records.fetchAll guids)) ∧
      ∀ guid, found'.get? guid =
        if guid ∈ guids then (w.records.fetchAll guids).handle? guid else found.get? guid := by
  induction guids with
  | nil =>
      intro found w
      exact ⟨found, rfl, by simp⟩
  | cons g rest ih =>
      intro found w
      rcases ih (found.insert g (w.records.fetch g).1)
        (w.withRecords (w.records.fetch g).2) with ⟨found', hrun, hget⟩
      refine ⟨found', ?_, ?_⟩
      · simp only [Backend.oneByOne, Act.bind_ok (entity_apply g w)]
        exact hrun
      · intro guid
        have hlater : (w.withRecords (w.records.fetch g).2).records.fetchAll rest =
            w.records.fetchAll (g :: rest) := rfl
        simp only [hget, hlater, Dict.get?_insert]
        by_cases hrest : guid ∈ rest
        · simp [hrest]
        · by_cases hg : guid = g
          -- The record of an earlier call is still there after the later ones.
          · subst hg
            have hnow : (w.records.fetchAll (guid :: rest)).handle? guid =
                some (w.records.fetch guid).1 :=
              RecordSet.handle?_fetchAll_of_isSome rest (RecordSet.handle?_fetch w.records guid)
            simp [hrest, hnow]
          · simp [hrest, hg]

theorem batch_apply (guids : KeySet Guid) (w : World MemoryStore) : ∃ found,
    backend.batch guids w = (.ok found, w.withRecords (w.records.fetchAll guids.toList)) ∧
      ∀ guid, found.get? guid =
        if guids.mem guid then (w.records.fetchAll guids.toList).handle? guid else none := by
  rcases oneByOne_apply guids.toList .empty w with ⟨found, hrun, hget⟩
  refine ⟨found, hrun, ?_⟩
  intro guid
  simp only [hget]
  by_cases hguid : guids.mem guid = true
  · simp only [if_pos hguid, if_pos ((KeySet.mem_iff_mem_toList _ _).mp hguid)]
  · simp only [if_neg hguid, if_neg fun h => hguid ((KeySet.mem_iff_mem_toList _ _).mpr h)]
    rfl

/-- The records of the store are saved already. -/
theorem each_save_apply {w : World MemoryStore} (hw : w.records.Keyed) (handles : List Handle) :
    (∀ h ∈ handles, ∃ guid, w.records.handle? guid = some h) →
      Act.each backend.save handles w = (.ok (), w) := by
  induction handles with
  | nil =>
      intro _
      rfl
  | cons h rest ih =>
      -- The record is the one that the store has under its guid, so there is nothing to adopt.
      intro hknown
      rcases hknown h List.mem_cons_self with ⟨guid, hguid⟩
      rcases hw guid h hguid with ⟨r, hr, rfl⟩
      have hsave : backend.save h w = (.ok (), w) := by
        have hpool : w.pool.get? h = some r := hr
        have hentity : w.store.entities.get? r.guid = some h := hguid
        show save h w = _
        simp only [save, Act.bind_ok (a := Act.world) rfl, hpool]
        simp [hentity]
      simp only [Act.each_cons rest hsave]
      exact ih fun h' hh' => hknown h' (List.mem_cons_of_mem _ hh')

/-! ## Absorbing -/

/-- Records that were only asked for show what they showed before. -/
theorem absorbs_fetchAll {s : RecordSet} (hs : s.Keyed) (guids : List Guid) {v : Value}
    (ids : IdIndex) (requestor : Option QueryKey) (hv : v.isMap = false) :
    RecordSet.Absorbs v ids requestor s (s.fetchAll guids) := by
  exact
    { keyed := hs.fetchAll guids
      field? := by
        intro guid k
        simp only [RecordSet.field?_fetchAll hs, assignments_of_other ids hv]
        rfl
      mem_dependentsAt := by
        intro guid q
        simp only [RecordSet.dependentsAt_fetchAll hs, visits_of_other hv]
        simp }

/-- What is no object is refused, after records were made for the ids in it. -/
theorem absorb_other {w : World MemoryStore} (hw : w.records.Keyed) {v : Value} (ids : IdIndex)
    (requestor : Option QueryKey) (hv : v.isMap = false) :
    ∃ e w', backend.absorb v ids requestor w = (.error e, w') ∧
      RecordSet.Absorbs v ids requestor w.records w'.records ∧
      w'.store.trees = w.store.trees ∧ w'.now = w.now ∧
      w'.records = w.records.fetchAll (idsWithin ids v).toList := by
  rcases batch_apply (idsWithin ids v) w with ⟨found, hbatch, -⟩
  exact ⟨_, _, Backend.absorb_of_refused hbatch (Backend.splitOver_of_other hv),
    absorbs_fetchAll hw _ ids requestor hv, rfl, rfl, rfl⟩

/-- The record of an entity after an object was split over the records of a store. -/
def recordAfter (s : RecordSet) (fields : List (String × Value)) (ids : IdIndex)
    (requestor : Option QueryKey) (guid : Guid) : Option Record :=
  if guid ∈ entitiesOf ids fields then
    some (((s.get? guid).getD (.fresh guid)).merged ids fields requestor)
  else (s.fetchAll (idsWithin ids (.map fields)).toList).get? guid

/-- An object is split over the records of the store: its skeleton is that over records under their
own guids, and the other queries that showed one of its entities are impacted. -/
theorem steps_map {w : World MemoryStore} (hw : w.records.Keyed) (fields : List (String × Value))
    (ids : IdIndex) (requestor : Option QueryKey) :
    ∃ index w₁ pass w₂, backend.batch (idsWithin ids (.map fields)) w = (.ok index, w₁) ∧
      Backend.splitOver (.map fields) ids index requestor w₁ = (.ok pass, w₂) ∧
      RecordSet.Absorbs (.map fields) ids requestor w.records w₂.records ∧
      w₂.store.trees = w.store.trees ∧ w₂.now = w.now ∧ pass.root = skeletonOf ids fields ∧
      (∀ q, pass.impacted.mem q = true ↔
        requestor ≠ some q ∧
          ∃ guid ∈ entitiesOf ids fields, (w.records.dependentsAt guid).mem q = true) ∧
      (∀ h ∈ pass.touched.values, ∃ guid, w₂.records.handle? guid = some h) ∧
      ∀ guid, w₂.records.get? guid = recordAfter w.records fields ids requestor guid := by
  rcases batch_apply (idsWithin ids (.map fields)) w with ⟨found, hbatch, hfound⟩
  -- All records of the store, and the part of them that the batch has found.
  let full := w.records.fetchAll (idsWithin ids (.map fields)).toList
  have hfull : full.Keyed := hw.fetchAll _
  have hpart : (full.reindex found).Keyed := by
    intro guid h hh
    have hget : found.get? guid = some h := hh
    simp only [hfound] at hget
    split at hget
    · exact hfull guid h hget
    · cases hget
  -- Every entity of the result is found through the index of the batch.
  have hknown : ∀ guid ∈ entitiesOf ids fields, ∃ h, full.handle? guid = some h ∧
      found.get? guid = some h := by
    intro guid hguid
    rcases mem_entitiesOf.mp hguid with ⟨o, ho, hid⟩
    have hmem := mem_idsWithin ho hid
    have hsome := RecordSet.isSome_handle?_fetchAll (s := w.records) _
      ((KeySet.mem_iff_mem_toList _ _).mp hmem)
    rcases Option.isSome_iff_exists.mp hsome with ⟨h, hh⟩
    refine ⟨h, hh, ?_⟩
    simp only [hfound, if_pos hmem]
    exact hh
  -- The pass over all records, seen through the part.
  rcases Pass.run?_map ids fields hfull requestor with ⟨pass, hrun, hpass⟩
  rcases Pass.run?_reindex hfull hpart hknown hrun with ⟨hrun', hindex⟩
  let w₁ := w.withRecords full
  let w₂ : World MemoryStore := { w₁ with pool := pass.records.pool }
  have hrecords : w₂.records = pass.records := by
    show RecordSet.mk pass.records.pool full.index = pass.records
    simp only [← hindex]
  have habsorbs : RecordSet.Absorbs (.map fields) ids requestor w.records w₂.records := by
    simp only [hrecords]
    exact
      { keyed := hpass.keyed
        field? := by
          intro guid k
          rw [hpass.field?, RecordSet.field?_fetchAll hw]
          rfl
        mem_dependentsAt := by
          intro guid q
          rw [hpass.mem_dependentsAt, RecordSet.dependentsAt_fetchAll hw, mem_entitiesOf]
          rfl }
  refine ⟨found, w₁, pass.reindex found, w₂, hbatch, Backend.splitOver_of_run hrun', habsorbs, rfl,
    rfl, hpass.root_eq, ?_, ?_, ?_⟩
  · intro q
    refine (hpass.mem_impacted q).trans ?_
    simp only [full, RecordSet.dependentsAt_fetchAll hw]
  · intro h hh
    rcases hpass.guid_of_mem_touched hh with ⟨guid, -, hguid⟩
    exact ⟨guid, by rwa [hrecords]⟩
  · intro guid
    simp only [hrecords, recordAfter]
    split
    · next hguid =>
        -- The record of an entity is there once all ids of the result were asked for.
        have hget : full.get? guid = some ((w.records.get? guid).getD (.fresh guid)) := by
          simp only [full, RecordSet.get?_fetchAll _ guid hw]
          exact if_pos (mem_idsWithin_of_mem_entitiesOf hguid)
        exact hpass.get?_of_mem hguid hget (hfull.guid_of_get? hget)
    · next hguid => exact hpass.frame guid hguid

/-- An object is absorbed. -/
theorem absorb_map {w : World MemoryStore} (hw : w.records.Keyed) (fields : List (String × Value))
    (ids : IdIndex) (requestor : Option QueryKey) :
    ∃ pass w', backend.absorb (.map fields) ids requestor w = (.ok pass, w') ∧
      RecordSet.Absorbs (.map fields) ids requestor w.records w'.records ∧
      w'.store.trees = w.store.trees ∧ w'.now = w.now ∧ pass.root = skeletonOf ids fields ∧
      (∀ q, pass.impacted.mem q = true ↔
        requestor ≠ some q ∧
          ∃ guid ∈ entitiesOf ids fields, (w.records.dependentsAt guid).mem q = true) ∧
      ∀ guid, w'.records.get? guid = recordAfter w.records fields ids requestor guid := by
  rcases steps_map hw fields ids requestor with
    ⟨index, w₁, pass, w₂, hbatch, hsplit, habsorbs, htrees, hnow, hroot, himpacted, htouched,
      hrecord⟩
  exact ⟨pass, _, Backend.absorb_of_saved hbatch hsplit (each_save_apply habsorbs.keyed _ htouched),
    habsorbs, htrees, hnow, hroot, himpacted, hrecord⟩

/-! ## Assembling -/

/-- The records of a skeleton show what all records of the store show. -/
theorem project_eq (root : Skeleton) (w : World MemoryStore) :
    ∃ signals, backend.project root w =
      (.ok (assemble w.records.view root), w.report signals) := by
  have hrecords : ∃ index, backend.recordsOf root w = (.ok index, w) ∧
      ∀ guid ∈ root.guidList, index.get? guid = w.store.entities.get? guid := by
    -- Without an entity no call is made, and then there is nothing to look up either.
    simp only [Backend.recordsOf]
    split
    · next hempty =>
        refine ⟨_, rfl, ?_⟩
        intro guid hguid
        have hmem : root.guids.mem guid = true := by
          simpa [Skeleton.guids, KeySet.mem_ofKeys] using hguid
        simp only [KeySet.mem_of_isEmpty hempty] at hmem
        cases hmem
    · refine ⟨_, rfl, ?_⟩
      intro guid hguid
      have hmem : root.guids.mem guid = true := by
        simpa [Skeleton.guids, KeySet.mem_ofKeys] using hguid
      simp only [Dict.get?_filter]
      cases w.store.entities.get? guid <;> simp [hmem]
  rcases hrecords with ⟨index, hrun, hindex⟩
  have hview : assemble (RecordSet.view ⟨w.pool, index⟩) root = assemble w.records.view root := by
    refine assemble_congr root ?_
    intro guid hguid
    have hget : RecordSet.get? ⟨w.pool, index⟩ guid = w.records.get? guid := by
      show (index.get? guid).bind _ = (w.store.entities.get? guid).bind _
      simp only [hindex guid hguid]
      rfl
    simp only [RecordSet.view, hget]
  refine ⟨missingNotices (RecordSet.view ⟨w.pool, index⟩) root, ?_⟩
  calc
    backend.project root w
        = (.ok (assemble (RecordSet.view ⟨w.pool, index⟩) root),
            w.report (missingNotices (RecordSet.view ⟨w.pool, index⟩) root)) :=
          Backend.project_of_records hrun
    _ = _ := by rw [hview]

/-! ## Reading -/

theorem tree?_apply (q : QueryKey) (w : World MemoryStore) :
    (w.store.trees.get? q = none ∧ backend.tree? q w = (.ok none, w)) ∨
      ∃ e, w.store.trees.get? q = some e ∧
        backend.tree? q w = (.ok (some (e.touch w.now)), { w with store :=
          { w.store with trees := w.store.trees.insert q (e.touch w.now) } }) := by
  cases htree : w.store.trees.get? q with
  | none =>
      refine Or.inl ⟨rfl, ?_⟩
      show tree? q w = _
      simp only [tree?, htree]
  | some e =>
      refine Or.inr ⟨e, rfl, ?_⟩
      show tree? q w = _
      simp only [tree?, htree]

/-- What a query shows, given the trees and records of a store. -/
def resultOf (trees : Dict QueryKey Entry) (view : FieldView) (now : Time) (q : QueryKey) :
    Option CachedResult :=
  (trees.get? q).bind (fun e => e.root?.toOption.map (fun n =>
    ⟨q, (assemble view n).plain, e.isStaleAt now, e.ttl, e.cachedAt⟩))

/-- The trees of a store once the cached result of a query was looked at. -/
def accessedTrees (trees : Dict QueryKey Entry) (now : Time) (q : QueryKey) : Dict QueryKey Entry :=
  match trees.get? q with
  | none => trees
  | some e => trees.insert q (e.touch now)

/-- A read through a store in memory shows what its records show, and only the time of access
changes. -/
theorem read_apply (q : QueryKey) (w : World MemoryStore) : ∃ w',
    backend.read q w = (resultOf w.store.trees w.records.view w.now q, w') ∧
      w'.records = w.records ∧ w'.store.trees = accessedTrees w.store.trees w.now q := by
  rcases tree?_apply q w with ⟨htree, hcall⟩ | ⟨e, htree, hcall⟩
  · simp only [resultOf, accessedTrees, htree]
    exact ⟨_, Backend.read_of_none hcall, rfl, rfl⟩
  -- The time of access is no part of what is shown.
  · have htouch : (e.touch w.now).root? = e.root? := rfl
    simp only [resultOf, accessedTrees, htree, Option.bind_some]
    cases hroot : e.root? with
    | error f =>
        rcases Backend.read_of_undecodable hcall (htouch.trans hroot) with ⟨signals, hread⟩
        exact ⟨_, hread, rfl, rfl⟩
    | ok n =>
        rcases project_eq n { w with store :=
          { w.store with trees := w.store.trees.insert q (e.touch w.now) } } with
          ⟨signals, hproject⟩
        rcases Backend.read_of_entry hcall (htouch.trans hroot) hproject with ⟨signals', hread⟩
        exact ⟨_, hread, rfl, rfl⟩

end MemoryStore
end EntityCache
