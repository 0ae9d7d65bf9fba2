import EntityCache.Proofs.Normalize.Passes

/-!
# Passes over a part of the records

A pass finds records through an index.  Which index that is does not matter, as long as it leads to
the same records for the entities of the result:

* `RecordSet.fetchAll`: records for several entities, fresh ones where there are none.
* `Progress.reindex`: the same progress over another index into the same pool.
* `Pass.run?_reindex`: a pass over one index is a pass over any other one that knows the entities of
  the result as well.
-/

namespace EntityCache
namespace Normalize

/-! ## Several records -/

namespace RecordSet

variable {s : RecordSet}

/-- The records of several entities, found or made one after the other. -/
def fetchAll (s : RecordSet) (guids : List Guid) : RecordSet :=
  guids.foldl (fun s guid => (s.fetch guid).2) s

theorem fetchAll_cons (s : RecordSet) (guid : Guid) (rest : List Guid) :
    s.fetchAll (guid :: rest) = (s.fetch guid).2.fetchAll rest := rfl

theorem Keyed.fetchAll (hs : s.Keyed) (guids : List Guid) : (s.fetchAll guids).Keyed := by
  refine List.foldlRecOn guids (fun s guid => (s.fetch guid).2) hs ?_
  intro s' hs' guid _
  exact hs'.fetch guid

theorem get?_fetchAll (guids : List Guid) (guid : Guid) : ∀ {s : RecordSet}, s.Keyed →
    (s.fetchAll guids).get? guid =
      if guid ∈ guids then some ((s.get? guid).getD (.fresh guid)) else s.get? guid := by
  induction guids with
  | nil =>
      intro s hs
      simp [fetchAll]
  | cons g rest ih =>
      intro s hs
      simp only [fetchAll_cons, ih (hs.fetch g), get?_fetch hs]
      -- A guid may be asked for twice; the second time its record is there already.
      by_cases hg : guid = g
      · subst hg
        simp
      · simp [hg]

/-- Fresh records show no field. -/
theorem field?_fetchAll (hs : s.Keyed) (guids : List Guid) (guid : Guid) (k : String) :
    (s.fetchAll guids).field? guid k = s.field? guid k := by
  simp only [field?, get?_fetchAll guids guid hs]
  cases s.get? guid with
  | none =>
      split <;> rfl
  | some r =>
      simp

/-- No query depends on fresh records. -/
theorem dependentsAt_fetchAll (hs : s.Keyed) (guids : List Guid) (guid : Guid) :
    (s.fetchAll guids).dependentsAt guid = s.dependentsAt guid := by
  simp only [dependentsAt, get?_fetchAll guids guid hs]
  cases s.get? guid with
  | none =>
      split <;> rfl
  | some r =>
      simp

theorem handle?_fetchAll_of_isSome (guids : List Guid) {guid : Guid} {h : Handle}
    (hh : s.handle? guid = some h) : (s.fetchAll guids).handle? guid = some h := by
  refine List.foldlRecOn (motive := fun s' : RecordSet => s'.handle? guid = some h)
    guids (fun s guid => (s.fetch guid).2) hh ?_
  intro s' hh' g _
  by_cases hg : guid = g
  · subst hg
    rw [handle?_fetch, RecordSet.fetch, hh']
  · simp only [handle?_fetch_of_ne s' hg, hh']

theorem isSome_handle?_fetchAll (guids : List Guid) {guid : Guid} :
    ∀ {s : RecordSet}, guid ∈ guids → ((s.fetchAll guids).handle? guid).isSome = true := by
  induction guids with
  | nil =>
      intro s hguid
      cases hguid
  | cons g rest ih =>
      intro s hguid
      rcases List.mem_cons.mp hguid with rfl | hguid
      · simp only [fetchAll_cons, handle?_fetchAll_of_isSome rest (handle?_fetch s guid)]
        rfl
      · exact ih hguid

end RecordSet

/-! ## Another index -/

/-- The same records through another index. -/
def RecordSet.reindex (s : RecordSet) (index : Dict Guid Handle) : RecordSet :=
  ⟨s.pool, index⟩

namespace Progress

/-- The same progress through another index. -/
def reindex (p : Progress) (index : Dict Guid Handle) : Progress :=
  { p with records := p.records.reindex index }

variable (requestor : Option QueryKey)

/-- A record that the index knows is found there, and the index stays as it is. -/
theorem fetch_of_handle? {s : RecordSet} {guid : Guid} {h : Handle} :
    s.handle? guid = some h → s.fetch guid = (h, s) := by
  intro hh
  simp only [RecordSet.fetch, hh]

theorem apply_reindex {p : Progress} {index : Dict Guid Handle} {e : Effect} {h : Handle}
    (hp : p.records.handle? e.guid = some h) (hindex : index.get? e.guid = some h) :
    (p.reindex index).apply requestor e = (p.apply requestor e).reindex index ∧
      (p.apply requestor e).records.index = p.records.index := by
  have hfetch := fetch_of_handle? hp
  have hfetch' : (p.records.reindex index).fetch e.guid = (h, p.records.reindex index) :=
    fetch_of_handle? hindex
  have hreindex : (p.reindex index).records = p.records.reindex index := rfl
  cases e with
  | visit guid =>
      simp only [Effect.guid] at hfetch hfetch'
      simp only [apply, hreindex, hfetch, hfetch', and_true]
      rfl
  | put guid k v =>
      simp only [Effect.guid] at hfetch hfetch'
      simp only [apply, hreindex, hfetch, hfetch']
      exact ⟨rfl, rfl⟩
  | leave guid =>
      simp only [Effect.guid] at hfetch hfetch' hp hindex
      -- The id that the record calls its own is found through the index as well.
      have hown : ∀ f : Record → Record,
          ((p.records.reindex index).modify h f).own guid = (p.records.modify h f).own guid := by
        intro f
        have hnow : ((p.records.reindex index).modify h f).handle? guid = some h := hindex
        have hnow' : (p.records.modify h f).handle? guid = some h := hp
        simp only [RecordSet.own, RecordSet.get?_of_handle? hnow,
          RecordSet.get?_of_handle? hnow']
        rfl
      simp only [apply, hreindex, hfetch, hfetch', hown]
      exact ⟨rfl, rfl⟩

theorem applyAll_reindex (effects : List Effect) (index : Dict Guid Handle) :
    ∀ {p : Progress}, (∀ e ∈ effects, ∃ h, p.records.handle? e.guid = some h ∧
      index.get? e.guid = some h) →
      (p.reindex index).applyAll requestor effects = (p.applyAll requestor effects).reindex index ∧
        (p.applyAll requestor effects).records.index = p.records.index := by
  induction effects with
  | nil =>
      intro p _
      exact ⟨rfl, rfl⟩
  | cons e rest ih =>
      intro p hknown
      rcases hknown e List.mem_cons_self with ⟨h, hp, hindex⟩
      rcases apply_reindex requestor hp hindex with ⟨hstep, hsame⟩
      -- Neither index changes on the way, so both still know the entities of the rest.
      have hrest : ∀ e' ∈ rest, ∃ h, (p.apply requestor e).records.handle? e'.guid = some h ∧
          index.get? e'.guid = some h := by
        intro e' he'
        rcases hknown e' (List.mem_cons_of_mem _ he') with ⟨h', hp', hindex'⟩
        exact ⟨h', handle?_apply_of_isSome requestor hp', hindex'⟩
      rcases ih hrest with ⟨hrun, hlater⟩
      rw [applyAll_cons, applyAll_cons, hstep, hrun, hlater, hsame]
      exact ⟨rfl, rfl⟩

end Progress

/-! ## Whole passes -/

namespace Pass

/-- The same pass through another index. -/
def reindex (pass : Pass) (index : Dict Guid Handle) : Pass :=
  { pass with records := pass.records.reindex index }

/-- Through another index that leads to the same records, a pass does the same. -/
theorem run?_reindex {ids : IdIndex} {fields : List (String × Value)} {records : RecordSet}
    {index : Dict Guid Handle} {requestor : Option QueryKey} {pass : Pass}
    (hs : records.Keyed) (hs' : (records.reindex index).Keyed)
    (hknown : ∀ guid ∈ entitiesOf ids fields, ∃ h, records.handle? guid = some h ∧
      index.get? guid = some h)
    (hrun : Pass.run? (.map fields) ids records requestor = some pass) :
    Pass.run? (.map fields) ids (records.reindex index) requestor = some (pass.reindex index) ∧
      pass.records.index = records.index := by
  let p := Progress.last ids fields records requestor
  have hcovers : ∀ e ∈ effectsOf ids fields,
      ∃ h, records.handle? e.guid = some h ∧ index.get? e.guid = some h := by
    intro e he
    exact hknown e.guid (guid_mem_entitiesOf he)
  have hlast : Progress.last ids fields (records.reindex index) requestor = p.reindex index ∧
      p.records.index = records.index :=
    Progress.applyAll_reindex requestor (effectsOf ids fields) index (p := .start records) hcovers
  cases hrun.symm.trans (run?_eq_last ids fields hs requestor)
  refine ⟨?_, hlast.2⟩
  calc
    run? (.map fields) ids (records.reindex index) requestor
        = _ := run?_eq_last ids fields hs' requestor
    _ = _ := by
      rw [hlast.1]
      rfl

end Pass
end Normalize
end EntityCache
