import EntityCache.Proofs.Normalize.Passes
import EntityCache.Proofs.Normalize.Visited

/-!
# Whom a pass concerns

The dependents of a record are looked at several times in one pass, while it is still changed.  All
looks together come to what was there before the pass.

* `Progress.pool_applyAll`: effects leave every record alone that they do not concern.
* `Pass.FanOut`: the touched records, the impacted queries, and the dependents afterwards.
* `Pass.fan_out`: a pass over an object succeeds and has exactly these.
-/

namespace EntityCache
namespace Normalize

/-! ## Other records -/

namespace RecordSet

theorem pool_fetch (s : RecordSet) (guid : Guid) {h : Handle} (hlt : h < s.pool.cells.size) :
    (s.fetch guid).2.pool.get? h = s.pool.get? h := by
  simp only [fetch]
  cases s.handle? guid with
  | some _ =>
      rfl
  | none =>
      exact Pool.get?_add_of_lt s.pool _ hlt

end RecordSet

namespace Progress

variable (requestor : Option QueryKey) {h : Handle}

/-- One effect changes no record but the one behind the handle of its guid. -/
theorem pool_apply (p : Progress) (e : Effect) (hlt : h < p.records.pool.cells.size)
    (hother : (p.apply requestor e).records.handle? e.guid ≠ some h) :
    (p.apply requestor e).records.pool.get? h = p.records.pool.get? h := by
  have hfetch := p.records.pool_fetch e.guid hlt
  have hne : (p.records.fetch e.guid).1 ≠ h := by
    rintro rfl
    refine hother ?_
    have hfound := p.records.handle?_fetch e.guid
    cases e <;> exact hfound
  have hmodify : ∀ f : Record → Record,
      ((p.records.fetch e.guid).2.pool.modify (p.records.fetch e.guid).1 f).get? h =
        p.records.pool.get? h := by
    intro f
    rw [Pool.get?_modify, if_neg hne, hfetch]
  -- A visit fetches a record, and the other effects also change it.
  cases e with
  | visit _ =>
      exact hfetch
  | put _ _ _ =>
      exact hmodify _
  | leave _ =>
      exact hmodify _

theorem pool_applyAll (effects : List Effect) : ∀ p : Progress, h < p.records.pool.cells.size →
    (∀ e ∈ effects, (p.applyAll requestor effects).records.handle? e.guid ≠ some h) →
      (p.applyAll requestor effects).records.pool.get? h = p.records.pool.get? h := by
  induction effects with
  | nil =>
      intro p _ _
      rfl
  | cons e rest ih =>
      intro p hlt hother
      rw [applyAll_cons] at hother ⊢
      have hlt' := Nat.lt_of_lt_of_le hlt (size_apply_le requestor p e)
      rw [ih _ hlt' fun e' he' => hother e' (List.mem_cons_of_mem e he')]
      -- The handle that the effect meant is still that of its guid at the end.
      refine pool_apply requestor p e hlt fun hown => ?_
      exact hother e List.mem_cons_self (handle?_applyAll requestor rest hown)

end Progress

/-! ## Whole passes -/

namespace Pass

/-- The record of a guid was touched. -/
def Touched (pass : Pass) (guid : Guid) : Prop :=
  (pass.touched.get? guid).isSome = true

/-- Whom a pass over an object concerns. -/
structure FanOut (ids : IdIndex) (fields : List (String × Value)) (records : RecordSet)
    (requestor : Option QueryKey) (pass : Pass) : Prop where
  /-- The records of the visited objects that have an id are touched. -/
  touched : ∀ guid, pass.Touched guid ↔
    ∃ p inner, Visited Path.root fields p inner ∧ objectId? ids p inner = some guid
  /-- Each of them is the record under its own guid. -/
  own : ∀ guid h, pass.touched.get? guid = some h → pass.records.handle? guid = some h ∧
    ∃ r, pass.records.pool.get? h = some r ∧ r.guid = guid
  /-- Impacted are those that depended on a touched record before the pass, but for the
  requestor. -/
  impacted : ∀ q, pass.impacted.mem q = true ↔ requestor ≠ some q ∧
    ∃ guid, pass.Touched guid ∧ (records.dependentsAt guid).mem q = true
  /-- The requestor is a dependent of every touched record, beside those that there were. -/
  dependents : ∀ guid, pass.Touched guid → ∀ q,
    (pass.records.dependentsAt guid).mem q = true ↔
      (records.dependentsAt guid).mem q = true ∨ requestor = some q
  /-- What is under other guids stays as it was. -/
  frame : ∀ guid, ¬ pass.Touched guid → pass.records.get? guid = records.get? guid
  /-- So does every other record, at hand or not. -/
  others : ∀ h < records.pool.cells.size, (∀ guid, pass.touched.get? guid ≠ some h) →
    pass.records.pool.get? h = records.pool.get? h

section

variable {ids : IdIndex} {fields : List (String × Value)} {records : RecordSet}
  {requestor : Option QueryKey} {pass : Pass}

theorem Describes.touched_iff (hpass : pass.Describes ids fields records requestor)
    {guid : Guid} : pass.Touched guid ↔ guid ∈ entitiesOf ids fields := by
  rw [Touched, hpass.touched]
  split
  · next hguid => exact iff_of_true (hpass.isSome_handle? guid hguid) hguid
  · next hguid => exact iff_of_false (by decide) hguid

/-- The records of the visited objects that have an id are touched. -/
theorem Describes.touched_iff_visited (hpass : pass.Describes ids fields records requestor)
    {guid : Guid} : pass.Touched guid ↔
      ∃ p inner, Visited Path.root fields p inner ∧ objectId? ids p inner = some guid := by
  rw [hpass.touched_iff, mem_entitiesOf]
  constructor
  · rintro ⟨o, ho, hguid⟩
    exact ⟨o.path, o.fields, mem_visitsFrom_iff.mp ho, hguid⟩
  · rintro ⟨p, inner, hvisited, hguid⟩
    exact ⟨⟨p, inner⟩, mem_visitsFrom_iff.mpr hvisited, hguid⟩

theorem Describes.fanOut (hpass : pass.Describes ids fields records requestor)
    (hothers : ∀ h < records.pool.cells.size, (∀ guid, pass.touched.get? guid ≠ some h) →
      pass.records.pool.get? h = records.pool.get? h) :
    pass.FanOut ids fields records requestor where
  touched _ := hpass.touched_iff_visited
  own guid h hh := by
    have htouched : pass.Touched guid := by
      rw [Touched, hh]
      rfl
    have hguid := hpass.touched_iff.mp htouched
    have hhandle := hpass.touched guid
    rw [if_pos hguid, hh] at hhandle
    exact ⟨hhandle.symm, hpass.keyed guid h hhandle.symm⟩
  impacted q := by
    simp only [hpass.mem_impacted, hpass.touched_iff]
  dependents guid hguid q := by
    rw [hpass.mem_dependentsAt, and_iff_left (hpass.touched_iff.mp hguid)]
  frame guid hguid := hpass.frame guid fun hmem => hguid (hpass.touched_iff.mpr hmem)
  others := hothers

end

/-- A pass over an object succeeds, however often an entity occurs in it. -/
theorem fan_out (ids : IdIndex) (fields : List (String × Value)) {records : RecordSet}
    (hs : records.Keyed) (requestor : Option QueryKey) :
    ∃ pass, run? (.map fields) ids records requestor = some pass ∧
      pass.FanOut ids fields records requestor := by
  rcases run?_map ids fields hs requestor with ⟨pass, hrun, hpass⟩
  refine ⟨pass, hrun, hpass.fanOut fun h hlt huntouched => ?_⟩
  cases (run?_eq_last ids fields hs requestor).symm.trans hrun
  refine Progress.pool_applyAll requestor (effectsOf ids fields) (.start records) hlt ?_
  intro e he hhandle
  refine huntouched e.guid ?_
  rw [hpass.touched, if_pos (guid_mem_entitiesOf he)]
  exact hhandle

/-- An entity within itself, one in a mixed list and one in a list within a list. -/
def crowdedFields : List (String × Value) :=
  [("all", .list [.num (.int 1), .map [("id", .id "P2")], .list [.map [("id", .id "P3")]]]),
    ("id", .id "P1"), ("price", .num (.int 5)),
    ("same", .map [("id", .id "P1"), ("price", .num (.int 6))])]

/-- Records of two entities on which queries depend. -/
def crowdedRecords : RecordSet :=
  (RecordSet.empty.add "P1" ⟨"P1", .empty, .ofKeys ["list", "own"]⟩).add "P4"
    ⟨"P4", .empty, .ofKeys ["other"]⟩

theorem keyed_crowdedRecords : crowdedRecords.Keyed :=
  ((RecordSet.keyed_of_index_empty rfl).add ⟨"P1", .empty, .ofKeys ["list", "own"]⟩).add
    ⟨"P4", .empty, .ofKeys ["other"]⟩

/-- The requestor has depended on the entity before, as another query has. -/
theorem fan_out_crowded : crowdedRecords.Keyed ∧
    ∃ pass, run? (.map crowdedFields) .empty crowdedRecords (some "own") = some pass ∧
      pass.FanOut .empty crowdedFields crowdedRecords (some "own") ∧
      pass.touched.keys = ["P1", "P2"] ∧ pass.impacted.toList = ["list"] := by
  rcases fan_out .empty crowdedFields keyed_crowdedRecords (some "own") with ⟨pass, hrun, hpass⟩
  have hvalue : (run? (.map crowdedFields) .empty crowdedRecords (some "own")).map
      (fun pass => (pass.touched.keys, pass.impacted.toList)) = some (["P1", "P2"], ["list"]) := by
    decide +kernel
  rw [hrun] at hvalue
  rcases Prod.mk.inj (Option.some.inj hvalue) with ⟨htouched, himpacted⟩
  exact ⟨keyed_crowdedRecords, pass, hrun, hpass, htouched, himpacted⟩

end Pass
end Normalize
end EntityCache
