import EntityCache.Proofs.Normalize.FanOut
import EntityCache.Proofs.Store.Dependents
import EntityCache.Proofs.Store.Seeded

/-!
# What a result makes new

Before a result is split, the store is asked for a record of every object within it that has an id.
The pass over the result does not come to the objects in lists within lists, so records of these may
be new that nothing was written to:

* `Normalize.BuriedId`: the id of an object that the pass does not come to.
* `Normalize.Pass.Creates`: which entities are stored afterwards that were not before.
* `creates_visited_or_buried`: these, for stores of both kinds.
-/

namespace EntityCache

open Normalize

/-! ## Touched and buried -/

/-- An object with this id is in a list within a list. -/
def Normalize.BuriedId (ids : IdIndex) (fields : List (String × Value)) (guid : Guid) : Prop :=
  ∃ p inner, Buried Path.root fields p inner ∧ objectId? ids p inner = some guid

namespace Normalize.Pass

variable {ids : IdIndex} {fields : List (String × Value)} {records : RecordSet}
  {requestor : Option QueryKey} {pass : Pass} {ρ : Type} {fresh : Guid → ρ} {known : Guid → Prop}
  {before after : Guid → Option ρ}

/-- How what is stored of each entity changes as an object is split.  Some entities may be known
without being looked up. -/
structure Creates (ids : IdIndex) (fields : List (String × Value)) (pass : Pass) (fresh : Guid → ρ)
    (known : Guid → Prop) (before after : Guid → Option ρ) : Prop where
  /-- The entities of the visited objects are touched, and no other ones. -/
  touched : ∀ guid, pass.Touched guid ↔
    ∃ p inner, Visited Path.root fields p inner ∧ objectId? ids p inner = some guid
  /-- What is new was touched or is buried. -/
  created : ∀ guid, before guid = none →
    ((after guid).isSome = true ↔ pass.Touched guid ∨ BuriedId ids fields guid ∧ ¬ known guid)
  /-- If it was not touched, there is nothing to it. -/
  empty : ∀ guid r, before guid = none → ¬ pass.Touched guid → after guid = some r → r = fresh guid
  /-- What was not touched and not new is as before. -/
  frame : ∀ guid r, before guid = some r → ¬ pass.Touched guid → after guid = some r

/-- The ids within an object are those of touched entities and of buried objects. -/
theorem Describes.mem_idsWithin_iff (hpass : pass.Describes ids fields records requestor)
    {guid : Guid} : (idsWithin ids (.map fields)).mem guid = true ↔
      pass.Touched guid ∨ BuriedId ids fields guid := by
  rw [mem_idsWithin_map_iff, hpass.touched_iff_visited]
  rfl

/-- It is enough that touched entities are stored, and that of the other ones those have a fresh
record that were asked for. -/
theorem Describes.creates (hpass : pass.Describes ids fields records requestor) (asked : List Guid)
    (hasked : ∀ guid, guid ∈ asked ↔
      (idsWithin ids (.map fields)).mem guid = true ∧ ¬ known guid)
    (hstored : ∀ guid, pass.Touched guid → (after guid).isSome = true)
    (hother : ∀ guid, ¬ pass.Touched guid → after guid =
      if guid ∈ asked then some ((before guid).getD (fresh guid)) else before guid) :
    pass.Creates ids fields fresh known before after where
  touched _ := hpass.touched_iff_visited
  created guid hnone := by
    by_cases htouched : pass.Touched guid
    · exact iff_of_true (hstored guid htouched) (Or.inl htouched)
    · have hmem : guid ∈ asked ↔ BuriedId ids fields guid ∧ ¬ known guid := by
        rw [hasked, hpass.mem_idsWithin_iff, or_iff_right htouched]
      rw [hother guid htouched, hnone, or_iff_right htouched, ← hmem]
      split
      · next hguid => exact iff_of_true rfl hguid
      · next hguid => exact iff_of_false Bool.false_ne_true hguid
  empty guid r hnone htouched hr := by
    rw [hother guid htouched, hnone] at hr
    split at hr
    · exact (Option.some.inj hr).symm
    · cases hr
  frame guid r hr htouched := by
    rw [hother guid htouched, hr]
    exact ite_self _

end Normalize.Pass

/-! ## Stores in memory -/

/-- A result that was split was so by a pass over the records at hand. -/
theorem Backend.run?_of_splitOver {σ : Type} {v : Value} {ids : IdIndex} {index : Dict Guid Handle}
    {requestor : Option QueryKey} {w w' : World σ} {pass : Pass}
    (h : splitOver v ids index requestor w = (.ok pass, w')) :
    Pass.run? v ids ⟨w.pool, index⟩ requestor = some pass := by
  simp only [splitOver] at h
  split at h
  · next hrun =>
      cases h
      exact hrun
  · cases h

namespace MemoryStore

/-- What the batch finds is kept under its own guid. -/
theorem keyed_batch {w w₁ : World MemoryStore} (hw : w.records.Keyed) {guids : KeySet Guid}
    {index : Dict Guid Handle} (hbatch : backend.batch guids w = (.ok index, w₁)) :
    RecordSet.Keyed ⟨w₁.pool, index⟩ := by
  rcases batch_apply guids w with ⟨found, hrun, hfound⟩
  cases hbatch.symm.trans hrun
  intro guid h hh
  have hget : index.get? guid = some h := hh
  rw [hfound] at hget
  split at hget
  · exact hw.fetchAll guids.toList guid h hget
  · cases hget

theorem absorb_creates {w : World MemoryStore} (hw : w.records.Keyed)
    (fields : List (String × Value)) (ids : IdIndex) (requestor : Option QueryKey) :
    ∃ pass w', backend.absorb (.map fields) ids requestor w = (.ok pass, w') ∧
      pass.Creates ids fields .fresh (fun _ => False) w.records.get? w'.records.get? := by
  rcases steps_map hw fields ids requestor with
    ⟨index, w₁, pass, w₂, hbatch, hsplit, habsorbs, -, -, -, -, hhandles, hrecord⟩
  have habsorb := Backend.absorb_of_saved hbatch hsplit
    (each_save_apply habsorbs.keyed _ hhandles)
  rcases Pass.run?_map ids fields (keyed_batch hw hbatch) requestor with ⟨pass', hrun, hpass⟩
  cases (Backend.run?_of_splitOver hsplit).symm.trans hrun
  refine ⟨pass, _, habsorb, hpass.creates (idsWithin ids (.map fields)).toList
    (fun guid => ?_) (fun guid htouched => ?_) fun guid htouched => ?_⟩
  · rw [← KeySet.mem_iff_mem_toList, not_false_eq_true, and_true]
  · show (w₂.records.get? guid).isSome = true
    rw [hrecord, recordAfter, if_pos (hpass.touched_iff.mp htouched)]
    rfl
  · show w₂.records.get? guid = _
    rw [hrecord, recordAfter, if_neg fun hmem => htouched (hpass.touched_iff.mpr hmem),
      RecordSet.get?_fetchAll _ guid hw]

end MemoryStore

/-! ## Stores in files -/

namespace FileStore

namespace Contents

variable {t : Contents}

/-- The row of an entity, with the queries that are listed for it. -/
def entityRow? (t : Contents) (guid : Guid) : Option (Blob × KeySet QueryKey) :=
  (t.entities.get? guid).map (fun blob => (blob, Tables.queriesOf t.dependents guid))

/-- The row of an entity of which nothing was written. -/
def freshRow (t : Contents) (guid : Guid) : Blob × KeySet QueryKey :=
  ((Record.fresh guid).snapshot.text.toUTF8, Tables.queriesOf t.dependents guid)

theorem entityRow?_makeAll (t : Contents) (guids : List Guid) (guid : Guid) :
    (t.makeAll guids).entityRow? guid =
      if guid ∈ guids then some ((t.entityRow? guid).getD (t.freshRow guid))
      else t.entityRow? guid := by
  simp only [entityRow?, get?_makeAll, (frame_makeAll t guids).2]
  split
  · cases t.entities.get? guid <;> rfl
  · rfl

theorem entityRow?_saved_of_ne {r : Record} {guid : Guid} (hne : r.guid ≠ guid) :
    (t.saved r).entityRow? guid = t.entityRow? guid := by
  have hlisted : Tables.queriesOf (t.saved r).dependents guid =
      Tables.queriesOf t.dependents guid := by
    refine KeySet.ext_mem fun q => Bool.eq_iff_iff.mpr ?_
    rw [Tables.mem_queriesOf, Tables.mem_queriesOf, mem_dependents_saved]
    exact or_iff_left fun h => hne h.1.symm
  rw [entityRow?, entityRow?, get?_saved, if_neg (Ne.symm hne), hlisted]

theorem entityRow?_saveAll_of_not_mem {guid : Guid} (records : List Record)
    (hother : ∀ r ∈ records, r.guid ≠ guid) :
    (t.saveAll records).entityRow? guid = t.entityRow? guid := by
  refine List.foldlRecOn (motive := fun t' : Contents => t'.entityRow? guid = t.entityRow? guid)
    records Contents.saved rfl ?_
  intro t' h r hr
  exact (entityRow?_saved_of_ne (hother r hr)).trans h

/-- A saved record has a row, and no row goes away. -/
theorem isSome_entityRow?_saved {r : Record} {guid : Guid}
    (h : r.guid = guid ∨ (t.entityRow? guid).isSome = true) :
    ((t.saved r).entityRow? guid).isSome = true := by
  by_cases hguid : r.guid = guid
  · rw [entityRow?, get?_saved, if_pos hguid.symm]
    rfl
  · rw [entityRow?_saved_of_ne hguid]
    exact h.resolve_left hguid

theorem isSome_entityRow?_saveAll (records : List Record) {r : Record} :
    ∀ {t : Contents}, r ∈ records → ((t.saveAll records).entityRow? r.guid).isSome = true := by
  induction records with
  | nil =>
      intro t hr
      cases hr
  | cons first rest ih =>
      intro t hr
      rcases List.mem_cons.mp hr with rfl | hr
      · refine List.foldlRecOn
          (motive := fun t' : Contents => (t'.entityRow? r.guid).isSome = true)
          rest Contents.saved (isSome_entityRow?_saved (Or.inl rfl)) ?_
        intro t' h r' _
        exact isSome_entityRow?_saved (Or.inr h)
      · exact ih hr

end Contents

theorem absorb_creates {C : List Record → Contents → Prop} {L : List Record → Record → Prop}
    {log : List Record} {w : World Connected} {t : Contents} (h : Tracks C L log w t)
    (fields : List (String × Value)) (ids : IdIndex) (requestor : Option QueryKey) :
    ∃ pass w' t', backend.absorb (.map fields) ids requestor w = (.ok pass, w') ∧ w'.Holds t' ∧
      pass.Creates ids fields t.freshRow (fun guid => (Connected.live? w guid).isSome = true)
        t.entityRow? t'.entityRow? := by
  rcases h.batch (idsWithin ids (.map fields)) with
    ⟨index, w₁, hbatch, hw₁, hloads, hkeyed, -⟩
  rcases Pass.run?_map ids fields hkeyed requestor with ⟨pass, hrun, hpass⟩
  let w₂ : World Connected := { w₁ with pool := pass.records.pool }
  have hw₂ : w₂.Holds _ := hw₁
  have hbounded : w₂.Bounded := fun guid i hi =>
    Nat.lt_of_lt_of_le (hloads.bounded h.bounded guid i hi) hpass.size_le
  rcases saves_touched hpass hw₂ hbounded rfl pass.touched.values fun _ hh => hh with
    ⟨w₃, hsaves, hw₃, -⟩
  refine ⟨pass, _, _, Backend.absorb_of_saved hbatch (Backend.splitOver_of_run hrun) hsaves, hw₃,
    hpass.creates (Connected.unknown w (idsWithin ids (.map fields))) (fun guid => ?_)
      (fun guid htouched => ?_) fun guid htouched => ?_⟩
  · rw [Connected.unknown, List.mem_filter, ← KeySet.mem_iff_mem_toList, Option.isNone_iff_eq_none,
      Option.not_isSome_iff_eq_none]
  -- The record of a touched entity is saved.
  · rcases hpass.mem_touched (hpass.touched_iff.mp htouched) with ⟨i, hi, hhandle⟩
    rcases hpass.keyed guid i hhandle with ⟨r, hr, rfl⟩
    exact Contents.isSome_entityRow?_saveAll _ (List.mem_filterMap.mpr ⟨i, hi, hr⟩)
  -- No other record is.
  · rw [Contents.entityRow?_saveAll_of_not_mem, Contents.entityRow?_makeAll]
    rintro r hr rfl
    rcases List.mem_filterMap.mp hr with ⟨i, hi, hget⟩
    rcases hpass.guid_of_mem_touched hi with ⟨guid, hguid, hhandle⟩
    rcases hpass.keyed guid i hhandle with ⟨r', hr', rfl⟩
    cases hget.symm.trans hr'
    exact htouched (hpass.touched_iff.mpr hguid)

end FileStore

/-! ## Both kinds of stores -/

/-- An object is absorbed, whatever is stored and whoever holds records meanwhile.  Of the entities
that were not stored before, those are afterwards whose objects the pass has come to and those of
buried objects, unless their records were known to a store without being in its file.  Of a buried
one nothing is stored but that it is there. -/
theorem creates_visited_or_buried (ids : IdIndex) (fields : List (String × Value))
    (requestor : Option QueryKey) :
    (∀ w : World MemoryStore, w.records.Keyed → ∃ pass w',
      MemoryStore.backend.absorb (.map fields) ids requestor w = (.ok pass, w') ∧
      pass.Creates ids fields .fresh (fun _ => False) w.records.get? w'.records.get?) ∧
    ∀ {C L log} (w : World FileStore.Connected) (t : FileStore.Contents),
      FileStore.Tracks C L log w t → ∃ pass w' t',
        FileStore.backend.absorb (.map fields) ids requestor w = (.ok pass, w') ∧ w'.Holds t' ∧
        pass.Creates ids fields t.freshRow
          (fun guid => (FileStore.Connected.live? w guid).isSome = true)
          t.entityRow? t'.entityRow? :=
  ⟨fun _ hw => MemoryStore.absorb_creates hw fields ids requestor,
    fun _ _ h => FileStore.absorb_creates h fields ids requestor⟩

/-- An entity in a list within a list is new in both new stores, and was not touched. -/
theorem creates_visited_or_buried_crowded :
    (∃ pass w', MemoryStore.backend.absorb (.map Pass.crowdedFields) .empty (some "own")
        emptyMemory = (.ok pass, w') ∧
      ¬ pass.Touched "P3" ∧ w'.records.get? "P3" = some (.fresh "P3")) ∧
    ∃ pass w' t, FileStore.backend.absorb (.map Pass.crowdedFields) .empty (some "own")
        emptyFile = (.ok pass, w') ∧ w'.Holds t ∧
      ¬ pass.Touched "P3" ∧ t.entityRow? "P3" = some (FileStore.Contents.freshRow .empty "P3") := by
  rcases creates_visited_or_buried .empty Pass.crowdedFields (some "own") with ⟨hmemory, hfile⟩
  have hburied : BuriedId .empty Pass.crowdedFields "P3" :=
    ⟨((Path.root.field "all").index 2).index 0, [("id", .id "P3")],
      .intro .here List.mem_cons_self rfl (.item rfl .here), rfl⟩
  have hunvisited : ¬ ∃ p inner, Visited Path.root Pass.crowdedFields p inner ∧
      objectId? .empty p inner = some "P3" := by
    have hall : ∀ o ∈ visitsFrom Path.root Pass.crowdedFields,
        objectId? .empty o.path o.fields ≠ some "P3" := by
      decide +kernel
    rintro ⟨p, inner, hvisited, hid⟩
    exact hall ⟨p, inner⟩ (mem_visitsFrom_iff.mpr hvisited) hid
  constructor
  · rcases hmemory emptyMemory (RecordSet.keyed_of_index_empty rfl) with ⟨pass, w', hrun, h⟩
    have huntouched : ¬ pass.Touched "P3" := fun ht => hunvisited ((h.touched "P3").mp ht)
    have hsome := (h.created "P3" rfl).mpr (Or.inr ⟨hburied, not_false⟩)
    rcases Option.isSome_iff_exists.mp hsome with ⟨r, hr⟩
    exact ⟨pass, w', hrun, huntouched, hr.trans (congrArg some (h.empty "P3" r rfl huntouched hr))⟩
  · have htracks : FileStore.Tracks (fun _ _ => True) (fun _ _ => True) [] emptyFile .empty :=
      .of_opened ⟨rfl, rfl⟩ rfl FileStore.Contents.keyed_empty trivial
    rcases hfile emptyFile .empty htracks with ⟨pass, w', t, hrun, hholds, h⟩
    have huntouched : ¬ pass.Touched "P3" := fun ht => hunvisited ((h.touched "P3").mp ht)
    have hsome := (h.created "P3" rfl).mpr (Or.inr ⟨hburied, Bool.false_ne_true⟩)
    rcases Option.isSome_iff_exists.mp hsome with ⟨r, hr⟩
    exact ⟨pass, w', t, hrun, hholds, huntouched,
      hr.trans (congrArg some (h.empty "P3" r rfl huntouched hr))⟩

end EntityCache
