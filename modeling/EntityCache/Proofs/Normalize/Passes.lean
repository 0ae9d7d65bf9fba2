import EntityCache.Proofs.Normalize.Records

/-!
# Whole passes

The walk over an object at the root does to the records what its effects do one after the other:

* `entitiesOf`, `skeletonOf`: the entities of an object, and the skeleton that is left of it.
* `Progress.last`: how far the pass over an object has come at its end.
* `Pass.Describes`: what a pass over an object does to records under their own guids.
* `Pass.run?_map`: it succeeds and does so.
-/

namespace EntityCache
namespace Normalize

/-! ## Shapes of results -/

theorem exists_fields_of_isMap {v : Value} : v.isMap = true → ∃ fields, v = .map fields := by
  intro hv
  cases v with
  | map fields =>
      exact ⟨fields, rfl⟩
  | _ =>
      cases hv

/-- What is no object writes nothing. -/
theorem assignments_of_other (ids : IdIndex) {v : Value} :
    v.isMap = false → assignments ids v = [] := by
  intro hv
  cases v with
  | map _ =>
      cases hv
  | _ =>
      rfl

/-- What is no object is not walked. -/
theorem visits_of_other {v : Value} : v.isMap = false → visits v = [] := by
  intro hv
  cases v with
  | map _ =>
      cases hv
  | _ =>
      rfl

/-! ## Entities and skeletons -/

/-- The entities of the objects that the walk over an object at the root visits. -/
def entitiesOf (ids : IdIndex) (fields : List (String × Value)) : List Guid :=
  (visitsFrom Path.root fields).filterMap (Visit.guid? ids)

theorem mem_entitiesOf {ids : IdIndex} {fields : List (String × Value)} {guid : Guid} :
    guid ∈ entitiesOf ids fields ↔
      ∃ o ∈ visitsFrom Path.root fields, o.guid? ids = some guid := by
  simp [entitiesOf, List.mem_filterMap]

/-- Outside the entities of a result no field is written. -/
theorem get?_assignments_of_not_mem {ids : IdIndex} {fields : List (String × Value)} {guid : Guid}
    (hguid : guid ∉ entitiesOf ids fields) (k : String) :
    Assoc.get? (guid, k) (assignments ids (.map fields)).reverse = none := by
  refine Assoc.get?_reverse_eq_none fun v hv => ?_
  -- Whoever writes a field of an entity is a visited object of that entity.
  rcases mem_assignmentsFrom.mp hv with ⟨o, ho, hkeeps⟩
  exact hguid (mem_entitiesOf.mpr ⟨o, ho, hkeeps.1⟩)

/-- The skeleton of an object at the root whose records are kept under their own guids. -/
def skeletonOf (ids : IdIndex) (fields : List (String × Value)) : Skeleton :=
  (objectAt ids (fun guid => guid) Path.root fields).1

/-! ## The end of the walk -/

/-- The effects of the walk over an object whose records are kept under their own guids. -/
def effectsOf (ids : IdIndex) (fields : List (String × Value)) : List Effect :=
  (objectAt ids (fun guid => guid) Path.root fields).2

theorem mem_lefts_effectsOf (ids : IdIndex) (fields : List (String × Value)) (guid : Guid) :
    guid ∈ lefts (effectsOf ids fields) ↔ guid ∈ entitiesOf ids fields := by
  simp only [effectsOf, mem_lefts_effects, mem_entitiesOf]

/-- Every effect concerns one of the entities. -/
theorem guid_mem_entitiesOf {ids : IdIndex} {fields : List (String × Value)} {e : Effect} :
    e ∈ effectsOf ids fields → e.guid ∈ entitiesOf ids fields := by
  intro he
  exact (mem_lefts_effectsOf ids fields e.guid).mp (guid_mem_lefts ids _ _ he)

/-- For every entity the requestor is enrolled. -/
theorem exists_enrolls {ids : IdIndex} {fields : List (String × Value)} {guid : Guid} :
    guid ∈ entitiesOf ids fields →
      ∃ e ∈ effectsOf ids fields, e.enrolls = true ∧ e.guid = guid := by
  intro hguid
  -- The object of the entity is left at some time, and that enrolls the requestor.
  exact ⟨.leave guid, mem_lefts.mp ((mem_lefts_effectsOf ids fields guid).mpr hguid), rfl, rfl⟩

namespace Progress

/-- How far the pass over an object has come at its end. -/
def last (ids : IdIndex) (fields : List (String × Value)) (records : RecordSet)
    (requestor : Option QueryKey) : Progress :=
  (start records).applyAll requestor (effectsOf ids fields)

section

variable (ids : IdIndex) (fields : List (String × Value)) {records : RecordSet}
  (requestor : Option QueryKey)

theorem field?_last (hs : records.Keyed) (guid : Guid) (k : String) :
    (last ids fields records requestor).records.field? guid k =
      (Assoc.get? (guid, k) (assignmentsFrom ids Path.root fields).reverse).or
        (records.field? guid k) := by
  have hputs : puts (effectsOf ids fields) = assignmentsFrom ids Path.root fields :=
    puts_effects ids _ _ fields
  simp only [← hputs]
  exact field?_applyAll requestor (effectsOf ids fields) guid k hs

theorem mem_dependentsAt_last (hs : records.Keyed) (guid : Guid) (q : QueryKey) :
    ((last ids fields records requestor).records.dependentsAt guid).mem q = true ↔
      (records.dependentsAt guid).mem q = true ∨
        (requestor = some q ∧ guid ∈ entitiesOf ids fields) := by
  refine (mem_dependentsAt_applyAll requestor (effectsOf ids fields) guid q hs).trans ?_
  refine or_congr Iff.rfl ⟨?_, ?_⟩
  · rintro ⟨e, he, -, rfl, hq⟩
    exact ⟨hq, guid_mem_entitiesOf he⟩
  · rintro ⟨hq, hguid⟩
    rcases exists_enrolls hguid with ⟨e, he, henrolls, heq⟩
    exact ⟨e, he, henrolls, heq, hq⟩

theorem mem_impacted_last (hs : records.Keyed) {q : QueryKey} (hq : requestor ≠ some q) :
    (last ids fields records requestor).impacted.mem q = true ↔
      ∃ guid ∈ entitiesOf ids fields, (records.dependentsAt guid).mem q = true := by
  refine (mem_impacted_applyAll requestor (effectsOf ids fields) hq hs).trans ?_
  constructor
  · rintro (h | ⟨e, he, -, hmem⟩)
    -- Nobody is impacted before the first effect.
    · cases h
    · exact ⟨e.guid, guid_mem_entitiesOf he, hmem⟩
  · rintro ⟨guid, hguid, hmem⟩
    rcases exists_enrolls hguid with ⟨e, he, henrolls, rfl⟩
    exact Or.inr ⟨e, he, henrolls, hmem⟩

theorem touches_last (hs : records.Keyed) :
    (last ids fields records requestor).Touches (lefts (effectsOf ids fields)) ∧
      ∀ guid ∈ lefts (effectsOf ids fields),
        ((last ids fields records requestor).records.handle? guid).isSome = true := by
  have hstart : (start records).Touches [] := by
    intro guid
    rfl
  have hnone : ∀ guid ∈ ([] : List Guid), ((start records).records.handle? guid).isSome = true := by
    intro guid hguid
    cases hguid
  exact touches_applyAll requestor (effectsOf ids fields) hs hstart hnone

theorem get?_last_of_not_mem (hs : records.Keyed) {guid : Guid}
    (hguid : guid ∉ entitiesOf ids fields) :
    (last ids fields records requestor).records.get? guid = records.get? guid := by
  refine get?_applyAll_of_forall_ne requestor (effectsOf ids fields) guid hs ?_
  rintro e he rfl
  exact hguid (guid_mem_entitiesOf he)

end

end Progress

/-! ## The pass -/

namespace Pass

open RecordSet

/-- What a pass over an object does to records that are kept under their own guids. -/
structure Describes (ids : IdIndex) (fields : List (String × Value)) (records : RecordSet)
    (requestor : Option QueryKey) (pass : Pass) : Prop where
  root_eq : pass.root = skeletonOf ids fields
  keyed : pass.records.Keyed
  handle? : ∀ {guid h}, records.handle? guid = some h → pass.records.handle? guid = some h
  /-- The value written last counts. -/
  field? : ∀ guid k, pass.records.field? guid k =
    (Assoc.get? (guid, k) (assignmentsFrom ids Path.root fields).reverse).or
      (records.field? guid k)
  mem_dependentsAt : ∀ guid q, (pass.records.dependentsAt guid).mem q = true ↔
    (records.dependentsAt guid).mem q = true ∨
      (requestor = some q ∧ guid ∈ entitiesOf ids fields)
  mem_impacted : ∀ q, pass.impacted.mem q = true ↔
    requestor ≠ some q ∧
      ∃ guid ∈ entitiesOf ids fields, (records.dependentsAt guid).mem q = true
  touched : ∀ guid, pass.touched.get? guid =
    if guid ∈ entitiesOf ids fields then pass.records.handle? guid else none
  isSome_handle? : ∀ guid ∈ entitiesOf ids fields, (pass.records.handle? guid).isSome = true
  frame : ∀ guid, guid ∉ entitiesOf ids fields → pass.records.get? guid = records.get? guid
  size_le : records.pool.cells.size ≤ pass.records.pool.cells.size

namespace Describes

variable {ids : IdIndex} {fields : List (String × Value)} {records : RecordSet}
  {requestor : Option QueryKey} {pass : Pass}

/-- A field that a visited object keeps on a record has a value after the pass that one of these
objects keeps there. -/
theorem held (hpass : pass.Describes ids fields records requestor) {o : Visit} {guid : Guid}
    {k : String} {v : Value} : o ∈ visitsFrom Path.root fields → o.Keeps ids guid k v →
      ∃ o' ∈ visitsFrom Path.root fields, ∃ w, o'.Keeps ids guid k w ∧
        pass.records.field? guid k = some w := by
  intro ho hkeeps
  rcases exists_last_of_keeps ho hkeeps with ⟨w, hw⟩
  -- The value written last was kept by a visited object as well.
  rcases exists_keeps_of_last hw with ⟨o', ho', hkeeps'⟩
  exact ⟨o', ho', w, hkeeps', by rw [hpass.field?, hw, Option.some_or]⟩

/-- Any other field has the value that it had before. -/
theorem unkept (hpass : pass.Describes ids fields records requestor) {guid : Guid} {k : String}
    (hnone : ∀ o ∈ visitsFrom Path.root fields, ∀ v, ¬ o.Keeps ids guid k v) :
    pass.records.field? guid k = records.field? guid k := by
  have hget : Assoc.get? (guid, k) (assignmentsFrom ids Path.root fields).reverse = none := by
    refine Assoc.get?_reverse_eq_none fun v hv => ?_
    rcases mem_assignmentsFrom.mp hv with ⟨o, ho, hkeeps⟩
    exact hnone o ho v hkeeps
  rw [hpass.field?, hget, Option.none_or]

/-- The touched records are those of the entities. -/
theorem guid_of_mem_touched (hpass : pass.Describes ids fields records requestor) {h : Handle} :
    h ∈ pass.touched.values →
      ∃ guid ∈ entitiesOf ids fields, pass.records.handle? guid = some h := by
  intro hh
  rcases List.mem_map.mp hh with ⟨⟨guid, _⟩, hmem, rfl⟩
  have htouched := Dict.get?_eq_some_iff.mpr hmem
  simp only [hpass.touched] at htouched
  split at htouched
  · next hguid => exact ⟨guid, hguid, htouched⟩
  · cases htouched

theorem mem_touched (hpass : pass.Describes ids fields records requestor) {guid : Guid} :
    guid ∈ entitiesOf ids fields →
      ∃ h ∈ pass.touched.values, pass.records.handle? guid = some h := by
  intro hguid
  rcases Option.isSome_iff_exists.mp (hpass.isSome_handle? guid hguid) with ⟨h, hh⟩
  have htouched := hpass.touched guid
  simp only [if_pos hguid, hh] at htouched
  exact ⟨h, List.mem_map.mpr ⟨(guid, h), Dict.get?_eq_some_iff.mp htouched, rfl⟩, hh⟩

end Describes

/-- The queries but for the requestor. -/
def others (requestor : Option QueryKey) (queries : KeySet QueryKey) : KeySet QueryKey :=
  match requestor with
  | some q => queries.erase q
  | none => queries

theorem mem_others (requestor : Option QueryKey) (queries : KeySet QueryKey) (q : QueryKey) :
    (others requestor queries).mem q = true ↔ requestor ≠ some q ∧ queries.mem q = true := by
  cases requestor with
  | none =>
      simp [others]
  | some q' =>
      simp only [others, KeySet.mem_erase, Bool.and_eq_true, decide_eq_true_eq, ne_eq,
        Option.some.injEq]
      exact and_congr_left fun _ => not_congr eq_comm

/-- What is no object is not split, whatever the records are. -/
theorem run?_other {v : Value} {ids : IdIndex} {records : RecordSet} {requestor : Option QueryKey} :
    v.isMap = false → run? v ids records requestor = none := by
  intro hv
  cases v with
  | map _ =>
      cases hv
  | _ =>
      rfl

/-- No record goes away, whatever the records are. -/
theorem size_le_of_run? {v : Value} {ids : IdIndex} {records : RecordSet}
    {requestor : Option QueryKey} {pass : Pass} (hrun : run? v ids records requestor = some pass) :
    records.pool.cells.size ≤ pass.records.pool.cells.size := by
  rcases Option.map_eq_some_iff.mp hrun with ⟨⟨root, effects⟩, -, rfl⟩
  exact Progress.size_applyAll_le requestor effects (.start records)

theorem run?_eq_last (ids : IdIndex) (fields : List (String × Value)) {records : RecordSet}
    (hs : records.Keyed) (requestor : Option QueryKey) :
    let p := Progress.last ids fields records requestor
    run? (.map fields) ids records requestor =
      some ⟨skeletonOf ids fields, others requestor p.impacted, p.touched, p.records⟩ := by
  -- The walk names the records by what they call themselves, which is what they are kept under.
  have hown : records.own = fun guid => guid := funext hs.own_eq
  simp only [run?, hown]
  rfl

/-- A pass over an object succeeds. -/
theorem run?_map (ids : IdIndex) (fields : List (String × Value)) {records : RecordSet}
    (hs : records.Keyed) (requestor : Option QueryKey) :
    ∃ pass, run? (.map fields) ids records requestor = some pass ∧
      pass.Describes ids fields records requestor := by
  rcases Progress.touches_last ids fields requestor hs with ⟨htouched, hsome⟩
  refine ⟨_, run?_eq_last ids fields hs requestor, ?_⟩
  exact
    { root_eq := rfl
      keyed := Progress.keyed_applyAll requestor (effectsOf ids fields) hs
      handle? := by
        intro guid h hh
        exact Progress.handle?_applyAll requestor (effectsOf ids fields) (p := .start records) hh
      field? := Progress.field?_last ids fields requestor hs
      mem_dependentsAt := Progress.mem_dependentsAt_last ids fields requestor hs
      mem_impacted := by
        intro q
        simp only [mem_others]
        exact and_congr_right (Progress.mem_impacted_last ids fields requestor hs)
      touched := by
        intro guid
        simp only [htouched guid]
        simp only [mem_lefts_effectsOf]
      isSome_handle? := by
        intro guid hguid
        exact hsome guid ((mem_lefts_effectsOf ids fields guid).mpr hguid)
      frame := fun guid => Progress.get?_last_of_not_mem ids fields requestor hs
      size_le := Progress.size_applyAll_le requestor (effectsOf ids fields) (.start records) }

end Pass
end Normalize
end EntityCache
