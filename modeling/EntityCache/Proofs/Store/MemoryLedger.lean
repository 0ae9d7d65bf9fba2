import EntityCache.Proofs.Cache.Operations
import EntityCache.Proofs.Store.Memory

/-!
# The ledger of a store in memory

Which handles a store in memory has for its records does not matter, only the records behind them:

* `MemoryStore.Holdings`: the cached results and the records themselves.
* `MemoryStore.ledger`: how holdings answer the calls and change with them.
* `MemoryStore.Settled`: a store between two operations, which has the given holdings.
* `MemoryStore.keeps`: the calls of a store do to its holdings what they should.
-/

namespace EntityCache

open Normalize

namespace MemoryStore

/-- What a store in memory has, without handles. -/
structure Holdings where
  trees : Dict QueryKey Entry
  records : Dict Guid Record

namespace Holdings

/-- The holdings of a new store. -/
def empty : Holdings :=
  ⟨.empty, .empty⟩

def record (s : Holdings) (guid : Guid) : Record :=
  (s.records.get? guid).getD (.fresh guid)

/-- The holdings with other records for some entities. -/
def assign (s : Holdings) (record : Guid → Record) (guids : List Guid) : Holdings :=
  { s with
    records := guids.foldl (fun records guid => records.insert guid (record guid)) s.records }

/-- The holdings once there are records for some entities. -/
def made (s : Holdings) (guids : List Guid) : Holdings :=
  s.assign s.record guids

/-- The holdings after an object was split over its entities. -/
def absorbed (s : Holdings) (ids : IdIndex) (fields : List (String × Value))
    (requestor : Option QueryKey) : Holdings :=
  (s.made (idsWithin ids (.map fields)).toList).assign
    (fun guid => (s.record guid).merged ids fields requestor) (entitySet ids fields).toList

def stored (s : Holdings) (q : QueryKey) (e : Entry) : Holdings :=
  { s with trees := s.trees.insert q e }

/-- The fields that the records show. -/
def view (s : Holdings) : FieldView := fun guid =>
  (s.records.get? guid).map (fun r => r.fields.bindings)

/-- The holdings after the cached result of `q` was looked at. -/
def accessed (s : Holdings) (now : Time) (q : QueryKey) : Holdings :=
  { s with trees := accessedTrees s.trees now q }

def counts (s : Holdings) : Counts :=
  ⟨s.trees.size, s.records.size⟩

variable {s : Holdings}

theorem get?_assign (s : Holdings) (record : Guid → Record) (guids : List Guid) (guid : Guid) :
    (s.assign record guids).records.get? guid =
      if guid ∈ guids then some (record guid) else s.records.get? guid := by
  have hfold : ∀ (records : Dict Guid Record),
      (guids.foldl (fun records guid => records.insert guid (record guid)) records).get? guid =
        if guid ∈ guids then some (record guid) else records.get? guid := by
    induction guids with
    | nil =>
        intro records
        simp
    | cons g rest ih =>
        intro records
        simp only [List.foldl_cons, ih, Dict.get?_insert]
        by_cases hg : guid = g
        · simp [hg]
        · simp [hg]
  exact hfold s.records

theorem get?_made (guids : List Guid) (guid : Guid) :
    (s.made guids).records.get? guid =
      if guid ∈ guids then some (s.record guid) else s.records.get? guid :=
  s.get?_assign s.record guids guid

/-- A record that was only asked for is as it was. -/
theorem record_made (guids : List Guid) (guid : Guid) :
    (s.made guids).record guid = s.record guid := by
  simp only [record, get?_made]
  split <;> rfl

/-- Only the time of access of the result changes. -/
theorem get?_accessed (now : Time) (q q' : QueryKey) :
    (s.accessed now q).trees.get? q' =
      if q' = q then (s.trees.get? q').map (fun e => e.touch now) else s.trees.get? q' := by
  simp only [accessed, accessedTrees]
  split
  · next hentry =>
      split
      · next hq => simp only [hq, hentry, Option.map_none]
      · rfl
  · next e hentry =>
      simp only [Dict.get?_insert]
      split
      · next hq => simp only [hq, hentry, Option.map_some]
      · rfl

section Absorbed

variable {ids : IdIndex} {fields : List (String × Value)} {requestor : Option QueryKey}

theorem get?_absorbed (guid : Guid) :
    (s.absorbed ids fields requestor).records.get? guid =
      if guid ∈ entitiesOf ids fields then some ((s.record guid).merged ids fields requestor)
      else (s.made (idsWithin ids (.map fields)).toList).records.get? guid := by
  simp only [absorbed, get?_assign _ _ (entitySet ids fields).toList, mem_entitySet]

theorem record_absorbed (guid : Guid) :
    (s.absorbed ids fields requestor).record guid =
      if guid ∈ entitiesOf ids fields then (s.record guid).merged ids fields requestor
      else s.record guid := by
  simp only [record, get?_absorbed]
  split
  · rfl
  · exact record_made _ guid

end Absorbed

end Holdings

/-- The holdings of a store as a ledger. -/
def ledger : Ledger Holdings where
  record := Holdings.record
  made guids s := s.made guids.toList
  absorbed ids fields requestor s := s.absorbed ids fields requestor
  stored q e s := s.stored q e
  shown now q s := resultOf s.trees s.view now q
  accessed now q s := s.accessed now q
  counts := Holdings.counts

/-- Between two operations: every record is kept under its own guid, and the store has the given
holdings. -/
structure Settled (w : World MemoryStore) (s : Holdings) : Prop where
  keyed : w.records.Keyed
  trees : w.store.trees = s.trees
  records : ∀ guid, w.records.get? guid = s.records.get? guid

variable {w : World MemoryStore} {s : Holdings}

theorem settled_empty (hempty : w.store = .empty) : Settled w .empty where
  keyed := RecordSet.keyed_of_index_empty (congrArg entities hempty)
  trees := congrArg trees hempty
  records guid := by
    have hhandle : w.store.entities.get? guid = none := by
      simp only [hempty]
      rfl
    show (w.store.entities.get? guid).bind w.pool.get? = none
    simp only [hhandle, Option.bind_none]

namespace Settled

theorem view_eq (hw : Settled w s) : w.records.view = s.view := by
  funext guid
  simp only [RecordSet.view, Holdings.view, hw.records]

theorem counts_eq (hw : Settled w s) : w.store.counts = s.counts := by
  have hentities : w.store.entities.size = s.records.size := by
    refine Dict.size_eq fun guid => ?_
    -- There is a record exactly where there is a handle.
    have hnone : w.records.get? guid = none ↔ w.store.entities.get? guid = none :=
      RecordSet.get?_eq_none_iff hw.keyed
    simp only [hw.records] at hnone
    refine Bool.eq_iff_iff.mpr ?_
    simp only [Option.isSome_iff_ne_none, ne_eq, hnone]
  simp only [counts, Holdings.counts, hw.trees, hentities]

/-- Records that were only asked for. -/
theorem get?_fetchAll (hw : Settled w s) (guids : List Guid) (guid : Guid) :
    (w.records.fetchAll guids).get? guid = (s.made guids).records.get? guid := by
  simp only [RecordSet.get?_fetchAll guids guid hw.keyed, Holdings.get?_made, Holdings.record,
    hw.records]

theorem recordAfter_eq (hw : Settled w s) (fields : List (String × Value)) (ids : IdIndex)
    (requestor : Option QueryKey) (guid : Guid) :
    recordAfter w.records fields ids requestor guid =
      (s.absorbed ids fields requestor).records.get? guid := by
  simp only [recordAfter, hw.get?_fetchAll, Holdings.get?_absorbed, Holdings.record, hw.records]

end Settled

/-- The calls of a store do to its holdings what they should. -/
theorem keeps : backend.Keeps ledger Settled where
  report _ hw := ⟨hw.keyed, hw.trees, hw.records⟩
  time _ hw := ⟨hw.keyed, hw.trees, hw.records⟩
  absorb := by
    intro fields ids requestor w s hw
    rcases absorb_map hw.keyed fields ids requestor with
      ⟨pass, w', habsorb, habsorbs, htrees, hnow, hroot, himpacted, hrecord⟩
    refine ⟨pass, w', habsorb, ⟨habsorbs.keyed, htrees.trans hw.trees, ?_⟩, hnow, hroot, ?_⟩
    · intro guid
      exact (hrecord guid).trans (hw.recordAfter_eq fields ids requestor guid)
    · refine KeySet.ext_mem fun q => Bool.eq_iff_iff.mpr ?_
      simp only [himpacted, mem_impactedBy]
      refine and_congr Iff.rfl (exists_congr fun guid => and_congr_right fun _ => ?_)
      simp only [ledger, Holdings.record, RecordSet.dependentsAt, hw.records]
      -- A record that is not there has no dependents, as a fresh one.
      cases s.records.get? guid <;> rfl
  refuse := by
    intro v ids requestor w s hv hw
    rcases absorb_other hw.keyed ids requestor hv with
      ⟨e, w', habsorb, habsorbs, htrees, -, hfetch⟩
    refine ⟨e, w', habsorb, habsorbs.keyed, htrees.trans hw.trees, ?_⟩
    intro guid
    simp only [hfetch]
    exact hw.get?_fetchAll _ guid
  setTree := by
    intro q n span w s hw
    refine ⟨_, rfl, hw.keyed, ?_, hw.records⟩
    show w.store.trees.insert q _ = s.trees.insert q _
    simp only [hw.trees]
  read := by
    intro q w s hw
    rcases read_apply q w with ⟨w', hread, hrecords, htrees⟩
    simp only [hw.view_eq, hw.trees] at hread htrees
    refine ⟨w', hread, ?_, htrees, ?_⟩
    · rw [hrecords]
      exact hw.keyed
    · intro guid
      rw [hrecords]
      exact hw.records guid
  counts := by
    intro w s hw
    show (Except.ok w.store.counts, w) = _
    simp only [hw.counts_eq]
    rfl

end MemoryStore
end EntityCache
