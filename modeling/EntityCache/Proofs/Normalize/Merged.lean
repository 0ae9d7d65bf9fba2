import EntityCache.Proofs.Normalize.Passes

/-!
# Records after a pass

What a pass over an object leaves behind, as a function of the records before it:

* `Record.merged`: the record of an entity of the object: its fields overwritten, the requestor
  enrolled.
* `impactedBy`: the queries that are told.
* `Pass.Describes.get?_eq`, `Pass.Describes.impacted_eq`, `Pass.Describes.touched_eq`: a pass
  leaves just these records and tells just these queries.
-/

namespace EntityCache

open Normalize

/-! ## Records -/

/-- The fields of one entity among assignments. -/
theorem get?_filterMap_entity (log : List Assignment) (guid : Guid) (k : String) :
    Assoc.get? k (log.filterMap (fun a => if a.1.1 = guid then some (a.1.2, a.2) else none)) =
      Assoc.get? (guid, k) log := by
  induction log with
  | nil =>
      rfl
  | cons a rest ih =>
      rcases a with ⟨⟨g, k'⟩, v⟩
      simp only [Assoc.get?_cons]
      by_cases hg : g = guid
      -- Only the field is left to compare.
      · subst hg
        rw [List.filterMap_cons_some (b := (k', v)) (by simp), Assoc.get?_cons, ih]
        by_cases hk : k = k' <;> simp [hk]
      · have hne : (guid, k) ≠ (g, k') := fun h => hg (congrArg Prod.fst h).symm
        rw [List.filterMap_cons_none (by simp [hg]), ih, if_neg hne]

/-- What an object writes into the record of an entity, in order. -/
def writtenTo (ids : IdIndex) (fields : List (String × Value)) (guid : Guid) :
    List (String × Value) :=
  (assignmentsFrom ids Path.root fields).filterMap
    (fun a => if a.1.1 = guid then some (a.1.2, a.2) else none)

/-- The record of an entity of an object that was split over it. -/
def Record.merged (ids : IdIndex) (fields : List (String × Value)) (requestor : Option QueryKey)
    (r : Record) : Record :=
  { guid := r.guid
    fields := ⟨Assoc.union r.fields.bindings (writtenTo ids fields r.guid), r.fields.sorted.union _⟩
    dependents := (r.enroll requestor).dependents }

/-- The queries that depend on an entity of an object, but for the requestor. -/
def impactedBy (ids : IdIndex) (fields : List (String × Value)) (requestor : Option QueryKey)
    (record : Guid → Record) : KeySet QueryKey :=
  Pass.others requestor (.ofKeys ((entitiesOf ids fields).flatMap
    (fun guid => (record guid).dependents.toList)))

/-- The entities of an object, each once. -/
def entitySet (ids : IdIndex) (fields : List (String × Value)) : KeySet Guid :=
  .ofKeys (entitiesOf ids fields)

theorem mem_entitySet {ids : IdIndex} {fields : List (String × Value)} {guid : Guid} :
    guid ∈ (entitySet ids fields).toList ↔ guid ∈ entitiesOf ids fields := by
  simp only [← KeySet.mem_iff_mem_toList, entitySet, KeySet.mem_ofKeys, decide_eq_true_eq]

/-- The entities of an object are among the ids in it. -/
theorem mem_idsWithin_of_mem_entitiesOf {ids : IdIndex} {fields : List (String × Value)}
    {guid : Guid} :
    guid ∈ entitiesOf ids fields → guid ∈ (idsWithin ids (.map fields)).toList := by
  intro hguid
  rcases mem_entitiesOf.mp hguid with ⟨o, ho, hid⟩
  exact (KeySet.mem_iff_mem_toList _ _).mp (mem_idsWithin ho hid)

namespace Record

variable (ids : IdIndex) (fields : List (String × Value)) (requestor : Option QueryKey) (r : Record)

/-- The value written last counts. -/
theorem get?_fields_merged (k : String) : (r.merged ids fields requestor).fields.get? k =
    (Assoc.get? (r.guid, k) (assignmentsFrom ids Path.root fields).reverse).or
      (r.fields.get? k) := by
  have hwritten : Assoc.get? k (writtenTo ids fields r.guid).reverse =
      Assoc.get? (r.guid, k) (assignmentsFrom ids Path.root fields).reverse := by
    simp only [writtenTo, ← List.filterMap_reverse, get?_filterMap_entity]
  calc
    (r.merged ids fields requestor).fields.get? k
        = Assoc.get? k (Assoc.union r.fields.bindings (writtenTo ids fields r.guid)) := rfl
    _ = (Assoc.get? k (writtenTo ids fields r.guid).reverse).or
          (Assoc.get? k r.fields.bindings) := Assoc.get?_union k _ _
    _ = _ := by
      simp only [hwritten]
      rfl

theorem mem_dependents_merged (q : QueryKey) :
    (r.merged ids fields requestor).dependents.mem q = true ↔
      r.dependents.mem q = true ∨ requestor = some q :=
  mem_dependents_enroll r requestor q

/-- A field of a merged record is an old one or was written. -/
theorem mem_fields_merged {b : String × Value} :
    b ∈ (r.merged ids fields requestor).fields.bindings →
      b ∈ r.fields.bindings ∨ ((r.guid, b.1), b.2) ∈ assignmentsFrom ids Path.root fields := by
  intro hb
  rcases b with ⟨k, v⟩
  have hget := Dict.get?_eq_some_iff.mpr hb
  simp only [get?_fields_merged] at hget
  rcases Option.or_eq_some_iff.mp hget with hnew | ⟨-, hold⟩
  · exact Or.inr (Assoc.mem_of_get?_reverse hnew)
  · exact Or.inl (Dict.get?_eq_some_iff.mp hold)

end Record

/-! ## Passes -/

theorem mem_impactedBy {ids : IdIndex} {fields : List (String × Value)}
    {requestor : Option QueryKey} {record : Guid → Record} (q : QueryKey) :
    (impactedBy ids fields requestor record).mem q = true ↔ requestor ≠ some q ∧
      ∃ guid ∈ entitiesOf ids fields, (record guid).dependents.mem q = true := by
  simp only [impactedBy, Pass.mem_others]
  simp only [KeySet.mem_ofKeys, decide_eq_true_eq, List.mem_flatMap, KeySet.mem_iff_mem_toList]

theorem Record.ext_get? {r r' : Record} (hguid : r.guid = r'.guid)
    (hfields : ∀ k, r.fields.get? k = r'.fields.get? k)
    (hdependents : ∀ q, r.dependents.mem q = true ↔ r'.dependents.mem q = true) : r = r' := by
  rcases r with ⟨guid, fields, dependents⟩
  rcases r' with ⟨guid', fields', dependents'⟩
  simp only at hguid hfields hdependents
  have hsame : dependents = dependents' :=
    KeySet.ext_mem fun q => Bool.eq_iff_iff.mpr (hdependents q)
  simp only [hguid, Dict.ext_get? hfields, hsame]

namespace Normalize.Pass.Describes

variable {ids : IdIndex} {fields : List (String × Value)} {records : RecordSet}
  {requestor : Option QueryKey} {pass : Pass}

/-- What the record of an entity shows after a pass comes from what was shown before. -/
theorem get?_of_shown (hpass : pass.Describes ids fields records requestor) {guid : Guid}
    {r : Record} (hguid : guid ∈ entitiesOf ids fields) (hown : r.guid = guid)
    (hfields : ∀ k, records.field? guid k = r.fields.get? k)
    (hdependents : records.dependentsAt guid = r.dependents) :
    pass.records.get? guid = some (r.merged ids fields requestor) := by
  rcases Option.isSome_iff_exists.mp (hpass.isSome_handle? guid hguid) with ⟨h, hh⟩
  rcases hpass.keyed guid h hh with ⟨r', hr', hown'⟩
  have hget : pass.records.get? guid = some r' := (RecordSet.get?_of_handle? hh).trans hr'
  simp only [hget, Option.some.injEq]
  refine Record.ext_get? (hown'.trans hown.symm) ?_ ?_
  · intro k
    have hfield := hpass.field? guid k
    simp only [RecordSet.field?, hget, Option.bind_some] at hfield
    simp only [hfield, Record.get?_fields_merged, hown]
    exact congrArg _ (hfields k)
  · intro q
    have hmem := hpass.mem_dependentsAt guid q
    simp only [RecordSet.dependentsAt, hget, Option.map_some, Option.getD_some] at hmem
    simp only [hmem, Record.mem_dependents_merged, hguid, and_true, ← hdependents]
    rfl

/-- The record of an entity of the object after a pass. -/
theorem get?_of_mem (hpass : pass.Describes ids fields records requestor) {guid : Guid} {r : Record}
    (hguid : guid ∈ entitiesOf ids fields) (hr : records.get? guid = some r)
    (hown : r.guid = guid) :
    pass.records.get? guid = some (r.merged ids fields requestor) := by
  refine hpass.get?_of_shown hguid hown ?_ ?_
  · intro k
    rw [RecordSet.field?, hr, Option.bind_some]
  · rw [RecordSet.dependentsAt, hr, Option.map_some, Option.getD_some]

/-- The record under any guid after a pass; where there was none, it is made for an entity. -/
theorem get?_eq (hpass : pass.Describes ids fields records requestor) (hs : records.Keyed)
    (guid : Guid) :
    pass.records.get? guid =
      if guid ∈ entitiesOf ids fields then
        some (((records.get? guid).getD (.fresh guid)).merged ids fields requestor)
      else records.get? guid := by
  split
  · next hguid =>
      cases hr : records.get? guid with
      | some r =>
          exact hpass.get?_of_mem hguid hr (hs.guid_of_get? hr)
      | none =>
          -- A fresh record shows nothing either.
          refine hpass.get?_of_shown hguid rfl ?_ ?_
          · intro k
            rw [RecordSet.field?, hr]
            rfl
          · rw [RecordSet.dependentsAt, hr]
            rfl
  · next hguid => exact hpass.frame guid hguid

/-- The queries that a pass tells. -/
theorem impacted_eq (hpass : pass.Describes ids fields records requestor) {record : Guid → Record}
    (hrecord : ∀ guid ∈ entitiesOf ids fields, ∀ q,
      (records.dependentsAt guid).mem q = true ↔ (record guid).dependents.mem q = true) :
    pass.impacted = impactedBy ids fields requestor record := by
  refine KeySet.ext_mem fun q => Bool.eq_iff_iff.mpr ?_
  simp only [hpass.mem_impacted, mem_impactedBy]
  refine and_congr Iff.rfl (exists_congr fun guid => and_congr_right fun hguid => ?_)
  exact hrecord guid hguid q

/-- The touched records, in order. -/
theorem touched_eq (hpass : pass.Describes ids fields records requestor) {record : Guid → Record}
    (hrecord : ∀ guid ∈ entitiesOf ids fields, records.get? guid = some (record guid))
    (hown : ∀ guid ∈ entitiesOf ids fields, (record guid).guid = guid) :
    pass.touched.values.filterMap pass.records.pool.get? =
      (entitySet ids fields).toList.map
        (fun guid => (record guid).merged ids fields requestor) := by
  have hkeys : pass.touched.keys = (entitySet ids fields).toList := by
    refine Dict.keys_eq fun k => ?_
    have hmem : ((entitySet ids fields).get? k).isSome = decide (k ∈ entitiesOf ids fields) :=
      KeySet.mem_ofKeys _ _
    simp only [hmem, hpass.touched]
    split
    · next hk => simp only [hpass.isSome_handle? k hk, hk, decide_true]
    · next hk => simp only [Option.isSome_none, hk, decide_false]
  simp only [← hkeys]
  refine Dict.filterMap_values fun guid h hh => ?_
  simp only [hpass.touched] at hh
  split at hh
  · next hguid =>
      calc
        pass.records.pool.get? h = pass.records.get? guid := (RecordSet.get?_of_handle? hh).symm
        _ = _ := hpass.get?_of_mem hguid (hrecord guid hguid) (hown guid hguid)
  · cases hh

end Normalize.Pass.Describes
end EntityCache
