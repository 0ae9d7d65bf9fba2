import EntityCache.Proofs.Cache.LastWrite
import EntityCache.Proofs.Cache.Shallow
import EntityCache.Proofs.Store.FileLedger

/-!
# Stores in memory and in files agree

A store in memory has its records and skeletons at hand, a store in a file reads them back:

* `Matches`: a file has what a store in memory has, as it reads back.
* `Matches.shown_eq`, `Matches.record_eq`, `Matches.counts_eq`: then both answer alike.
* `Matches.perform`: and they still agree after an operation, as long as what is stored has no more
  levels than a reader follows.
* `outcomes_agree`: so for every run of operations.
-/

namespace EntityCache

open Normalize
open FileStore (Contents)
open MemoryStore (Holdings)

/-- A write has an ordered result of integers, and a time of 64 bits. -/
def Operation.Exact : Operation → Prop
  | .write e => e.response.data.Exact ∧ Entry.Timely e.time
  | _ => True

/-- A write has a result that reads back but for its marks, and a time of 64 bits. -/
def Operation.Stable : Operation → Prop
  | .write e => e.response.data.Stable ∧ Entry.Timely e.time
  | _ => True

theorem Operation.Exact.stable {o : Operation} (h : o.Exact) : o.Stable := by
  cases o with
  | write e =>
      exact ⟨h.1.stable, h.2⟩
  | _ =>
      trivial

/-- A file has what a store in memory has, as it reads back. -/
structure Matches (s : Holdings) (t : Contents) : Prop where
  trees : ∀ q, (t.trees.get? q).isSome = (s.trees.get? q).isSome
  /-- The skeleton of a result loses its marks, and the time of access is not looked at. -/
  entry : ∀ {q e}, s.trees.get? q = some e → ∃ n e', e.root = some n ∧ t.entryAt q = some e' ∧
    e'.root?.toOption = some n.plain ∧ e'.ttl = e.ttl ∧ e'.cachedAt = e.cachedAt
  found : ∀ guid, t.find guid = .ok ((s.records.get? guid).map Record.plain)
  dependents : ∀ guid q, t.dependents.mem (guid, q) = true ↔
    (s.record guid).dependents.mem q = true
  own : ∀ guid, (s.record guid).guid = guid
  stable : ∀ guid, (s.record guid).Stable

namespace Matches

variable {s : Holdings} {t : Contents}

theorem empty : Matches .empty .empty where
  trees _ := rfl
  entry h := by cases h
  found _ := rfl
  dependents _ _ := Iff.rfl
  own _ := rfl
  stable _ _ hb := by cases hb

/-! ## Answers -/

theorem record_eq (h : Matches s t) (guid : Guid) : t.record guid = (s.record guid).plain := by
  simp only [Contents.record, h.found, Holdings.record]
  cases s.records.get? guid with
  | none =>
      rfl
  | some r =>
      rfl

/-- A row is there exactly where there is a record. -/
theorem isSome_row (h : Matches s t) (guid : Guid) :
    (t.entities.get? guid).isSome = (s.records.get? guid).isSome := by
  have hfound := h.found guid
  cases hrow : t.entities.get? guid with
  | none =>
      simp only [Contents.find, hrow, Except.ok.injEq] at hfound
      cases hrecord : s.records.get? guid with
      | none =>
          rfl
      | some r =>
          simp only [hrecord] at hfound
          cases hfound
  | some blob =>
      cases hrecord : s.records.get? guid with
      | none =>
          simp only [hrecord] at hfound
          exact absurd hfound (Contents.find_ne_none hrow)
      | some r =>
          rfl

theorem keyed (h : Matches s t) : t.Keyed := by
  intro guid blob snapshot hrow hdecode
  have hfound := h.found guid
  simp only [Contents.find, hrow, hdecode, Except.map, Except.ok.injEq] at hfound
  cases hrecord : s.records.get? guid with
  | none =>
      simp only [hrecord] at hfound
      cases hfound
  | some r =>
      have hown := h.own guid
      simp only [Holdings.record, hrecord, Option.getD_some] at hown
      simp only [hrecord, Option.map_some, Option.some.injEq] at hfound
      exact (congrArg Record.guid hfound).trans hown

/-- What is found of an entity are the fields of its record, without marks. -/
theorem fields?_eq (h : Matches s t) (guid : Guid) :
    t.catalog.fields? guid = some (Value.plainFields ((s.view guid).getD [])) := by
  simp only [Contents.fields?_catalog, h.found, Holdings.view]
  cases s.records.get? guid with
  | none =>
      rfl
  | some r =>
      rfl

theorem shown_eq (h : Matches s t) (now : Time) (q : QueryKey) :
    MemoryStore.resultOf s.trees s.view now q = t.result? now q := by
  have hhas := h.trees q
  simp only [MemoryStore.resultOf, Contents.result?]
  cases hentry : s.trees.get? q with
  | none =>
      simp only [hentry, Option.isSome_none, Option.isSome_eq_false_iff,
        Option.isNone_iff_eq_none] at hhas
      simp only [Contents.entryAt, hhas, Option.bind_none]
  | some e =>
      rcases h.entry hentry with ⟨n, e', hroot, hread, hroot', httl, hcached⟩
      have hfound : e.root? = .ok n := by
        simp only [Entry.root?, hroot]
      have hall : n.plain.guidList.all (fun guid => (t.catalog.fields? guid).isSome) = true := by
        refine List.all_eq_true.mpr fun guid _ => ?_
        simp only [h.fields?_eq, Option.isSome_some]
      -- What is shown has no marks in either case.
      have hdata : (assemble t.catalog.fields? n.plain).plain = (assemble s.view n).plain := by
        have hplain : assemble t.catalog.fields? n.plain = (assemble s.view n).plain :=
          assemble_plain (fun guid => by simp only [h.fields?_eq, Option.getD_some]) n
        simp only [hplain, Value.plain_plain]
      have hstale : e'.isStaleAt now = e.isStaleAt now := by
        simp only [Entry.isStaleAt, Entry.elapsedAt, httl, hcached]
        rfl
      simp only [Option.bind_some, hfound, hread, hroot', hall, if_true, hdata, hstale, httl,
        hcached]
      rfl

theorem counts_eq (h : Matches s t) : s.counts = t.counts := by
  have htrees : t.trees.size = s.trees.size := Dict.size_eq h.trees
  have hentities : t.entities.size = s.records.size := Dict.size_eq h.isSome_row
  simp only [Holdings.counts, Contents.counts, htrees, hentities]

theorem impactedBy_eq (h : Matches s t) (ids : IdIndex) (fields : List (String × Value))
    (requestor : Option QueryKey) :
    impactedBy ids fields requestor s.record = impactedBy ids fields requestor t.record := by
  simp only [impactedBy, h.record_eq]
  rfl

/-! ## Changes -/

/-- A row that is made now is found as a fresh record. -/
theorem found_makeAll_of_absent (h : Matches s t) {guids : List Guid} {guid : Guid}
    (hguid : guid ∈ guids) (hold : s.records.get? guid = none) :
    (t.makeAll guids).find guid = .ok (some (s.record guid).plain) := by
  have hnone : t.entities.get? guid = none := by
    have hhas := h.isSome_row guid
    simp only [hold, Option.isSome_none] at hhas
    exact Option.not_isSome_iff_eq_none.mp (Bool.not_eq_true _ ▸ hhas)
  have hfresh : s.record guid = .fresh guid := by
    simp only [Holdings.record, hold, Option.getD_none]
  have hrow := Contents.get?_makeAll guids guid t
  simp only [if_pos hguid, hnone, Option.getD_none] at hrow
  have hlevels : (Record.fresh guid).snapshot.nesting ≤ Json.maxRoom := by
    show 2 ≤ Json.maxRoom
    decide
  refine Contents.find_of_row hrow (fun b hb => by cases hb) hlevels ?_ ?_
  · simp only [hfresh]
  · intro q
    simp only [(Contents.frame_makeAll t guids).2]
    exact h.dependents guid q

/-- A row that is there stays as it is when rows are made. -/
theorem get?_makeAll_of_present (h : Matches s t) (guids : List Guid) {guid : Guid} {r : Record}
    (hold : s.records.get? guid = some r) :
    (t.makeAll guids).entities.get? guid = t.entities.get? guid := by
  have hhas := h.isSome_row guid
  simp only [hold, Option.isSome_some] at hhas
  rcases Option.isSome_iff_exists.mp hhas with ⟨blob, hblob⟩
  simp only [Contents.get?_makeAll guids guid t, hblob, Option.getD_some, ite_self]

theorem made (h : Matches s t) (guids : List Guid) : Matches (s.made guids) (t.makeAll guids) where
  trees q := by
    simp only [(Contents.frame_makeAll t guids).1]
    exact h.trees q
  entry hentry := by
    simp only [Contents.entryAt, (Contents.frame_makeAll t guids).1]
    exact h.entry hentry
  found guid := by
    have hdependents := (Contents.frame_makeAll t guids).2
    simp only [Holdings.get?_made]
    by_cases hguid : guid ∈ guids
    · simp only [if_pos hguid]
      cases hold : s.records.get? guid with
      | none =>
          exact h.found_makeAll_of_absent hguid hold
      | some r =>
          have hrecord : s.record guid = r := by
            simp only [Holdings.record, hold, Option.getD_some]
          rw [Contents.find_congr (h.get?_makeAll_of_present guids hold)
            (fun q => by rw [hdependents]), h.found, hold, hrecord]
    · have hrow := Contents.get?_makeAll guids guid t
      simp only [if_neg hguid] at hrow ⊢
      rw [Contents.find_congr hrow (fun q => by rw [hdependents])]
      exact h.found guid
  dependents guid q := by
    simp only [(Contents.frame_makeAll t guids).2, Holdings.record_made]
    exact h.dependents guid q
  own guid := by
    simp only [Holdings.record_made]
    exact h.own guid
  stable guid := by
    simp only [Holdings.record_made]
    exact h.stable guid

/-- Marks in the old fields make no difference to the stored form of a merged record. -/
theorem snapshot_merged_plain (ids : IdIndex) (fields : List (String × Value))
    (requestor : Option QueryKey) (r : Record) :
    (r.plain.merged ids fields requestor).snapshot.plain =
      (r.merged ids fields requestor).snapshot.plain := by
  have hfields : Value.plainFields (Assoc.union (Value.plainFields r.fields.bindings)
      (writtenTo ids fields r.guid)) =
        Value.plainFields (Assoc.union r.fields.bindings (writtenTo ids fields r.guid)) := by
    simp only [Value.plainFields_union, Value.plainFields_plain]
  show Snapshot.mk r.guid ⟨Value.plainFields (Assoc.union (Value.plainFields r.fields.bindings)
    (writtenTo ids fields r.guid)), _⟩ = Snapshot.mk r.guid ⟨_, _⟩
  simp only [hfields]
  rfl

section Absorbed

variable {ids : IdIndex} {fields : List (String × Value)} {requestor : Option QueryKey}

/-- The file lists the dependents that the records have after an object was split over them. -/
theorem dependents_absorbed (h : Matches s t) (guid : Guid) (q : QueryKey) :
    (t.absorbed ids fields requestor).dependents.mem (guid, q) = true ↔
      ((s.absorbed ids fields requestor).record guid).dependents.mem q = true := by
  simp only [Contents.mem_dependents_absorbed h.keyed, Holdings.record_absorbed, h.dependents,
    h.record_eq]
  split
  · next hguid =>
      have hsame : (s.record guid).plain.dependents = (s.record guid).dependents := rfl
      simp only [hguid, true_and, hsame, Record.mem_dependents_merged, ← or_assoc, or_self]
  · next hguid => simp only [hguid, false_and, or_false]

/-- The row of an entity of the object is read back as the record that was merged. -/
theorem found_absorbed_of_mem (h : Matches s t) (hfields : (Value.map fields).Stable) {guid : Guid}
    (hlevels : ((s.record guid).merged ids fields requestor).snapshot.nesting ≤ Json.maxRoom)
    (hguid : guid ∈ entitiesOf ids fields) :
    (t.absorbed ids fields requestor).find guid =
      .ok (some ((s.record guid).merged ids fields requestor).plain) := by
  have hrow := @Contents.get?_absorbed t ids fields requestor h.keyed guid
  simp only [if_pos hguid, h.record_eq] at hrow
  have hsame := snapshot_merged_plain ids fields requestor (s.record guid)
  have hstable : ((s.record guid).plain.merged ids fields requestor).Stable :=
    merged_of_hereditary Value.hereditary_stable
      (Value.stable_plainFields _ (h.stable guid)) hfields
  have hroom : ((s.record guid).plain.merged ids fields requestor).snapshot.nesting ≤
      Json.maxRoom := by
    rw [← Snapshot.nesting_plain, hsame, Snapshot.nesting_plain]
    exact hlevels
  refine Contents.find_of_row hrow hstable hroom hsame fun q => ?_
  simp only [h.dependents_absorbed, Holdings.record_absorbed, if_pos hguid]

/-- What is no entity of the object is found as it is when rows are made for the ids in it. -/
theorem found_absorbed_of_not_mem (h : Matches s t) {guid : Guid}
    (hguid : guid ∉ entitiesOf ids fields) :
    (t.absorbed ids fields requestor).find guid =
      (t.makeAll (idsWithin ids (.map fields)).toList).find guid := by
  have hrow := @Contents.get?_absorbed t ids fields requestor h.keyed guid
  simp only [if_neg hguid] at hrow
  refine Contents.find_congr hrow fun q => Bool.eq_iff_iff.mpr ?_
  simp only [h.dependents_absorbed, Holdings.record_absorbed, if_neg hguid, h.dependents,
    (Contents.frame_makeAll t _).2]

theorem absorbed (h : Matches s t) (hfields : (Value.map fields).Stable)
    (hlevels : ∀ guid ∈ entitiesOf ids fields,
      ((s.record guid).merged ids fields requestor).snapshot.nesting ≤ Json.maxRoom) :
    Matches (s.absorbed ids fields requestor) (t.absorbed ids fields requestor) := by
  refine
    { trees := ?trees
      entry := ?entry
      found := ?found
      dependents := h.dependents_absorbed
      own := ?own
      stable := ?stable }
  case trees =>
    intro q
    simp only [Contents.trees_absorbed]
    exact h.trees q
  case entry =>
    intro q e hentry
    simp only [Contents.entryAt, Contents.trees_absorbed]
    exact h.entry hentry
  case found =>
    intro guid
    simp only [Holdings.get?_absorbed]
    by_cases hguid : guid ∈ entitiesOf ids fields
    · simp only [if_pos hguid]
      exact h.found_absorbed_of_mem hfields (hlevels guid hguid) hguid
    -- The other ids in the object have at least fresh records.
    · simp only [if_neg hguid]
      exact (h.found_absorbed_of_not_mem hguid).trans ((h.made _).found guid)
  case own =>
    intro guid
    simp only [Holdings.record_absorbed]
    split
    · exact h.own guid
    · exact h.own guid
  case stable =>
    intro guid
    simp only [Holdings.record_absorbed]
    split
    · exact merged_of_hereditary Value.hereditary_stable (h.stable guid) hfields
    · exact h.stable guid

end Absorbed

/-- A result is stored: its text is that of its skeleton. -/
theorem stored (h : Matches s t) {e : Entry} {n : Skeleton} (q : QueryKey)
    (hroot : e.root = some n) (hdata : e.data = n.text) (httl : e.ttl ≤ maxTtl)
    (hcached : Entry.Timely e.cachedAt) (haccessed : Entry.Timely e.lastAccessed)
    (hstable : n.Every Skeleton.Stable) (hlevels : n.nesting ≤ Json.maxRoom) :
    Matches (s.stored q e) (t.stored q e) where
  trees q' := by
    simp only [Contents.stored, Holdings.stored, Dict.get?_insert]
    split
    · rfl
    · exact h.trees q'
  entry := by
    intro q' e' hentry
    simp only [Holdings.stored, Dict.get?_insert] at hentry
    split at hentry
    · next hq =>
        -- The new row is decoded to the entry, and its text to the skeleton as it is read back.
        cases hentry
        subst hq
        refine ⟨n, _, hroot, Contents.entryAt_stored q' httl hcached haccessed, ?_, rfl, rfl⟩
        simp only [Entry.root?_of_text hdata,
          Skeleton.reread_eq_plain n Json.maxRoom hstable hlevels]
    · next hq =>
        have hother : (t.stored q e).entryAt q' = t.entryAt q' := by
          simp only [Contents.entryAt, Contents.stored, Dict.get?_insert, if_neg hq]
        simp only [hother]
        exact h.entry hentry
  found := h.found
  dependents := h.dependents
  own := h.own
  stable := h.stable

/-- Looking at a result changes nothing but the time of access. -/
theorem accessed (h : Matches s t) (now : Time) (q : QueryKey) :
    Matches (s.accessed now q) (t.accessed now q) where
  trees q' := by
    -- A row is given another time of access, so it is there exactly if it was.
    have hrow : ((t.accessed now q).trees.get? q').isSome = (t.trees.get? q').isSome := by
      rw [← Option.isSome_map, Contents.get?_accessed, Option.isSome_map]
    rw [hrow, h.trees, Holdings.get?_accessed]
    split
    · rw [Option.isSome_map]
    · rfl
  entry := by
    intro q' e hentry
    simp only [Contents.entryAt_accessed]
    simp only [Holdings.get?_accessed] at hentry
    split at hentry
    · rcases Option.map_eq_some_iff.mp hentry with ⟨e₀, he₀, rfl⟩
      have hfound := h.entry he₀
      exact hfound
    · exact h.entry hentry
  found guid := by
    have hrow : (t.accessed now q).entities.get? guid = t.entities.get? guid := by
      rw [Contents.entities_accessed]
    rw [Contents.find_congr hrow (fun q' => by rw [Contents.dependents_accessed])]
    exact h.found guid
  dependents guid q' := by
    simp only [Contents.dependents_accessed]
    exact h.dependents guid q'
  own := h.own
  stable := h.stable

/-! ## Operations -/

/-- A write has the same outcome on both. -/
theorem post (h : Matches s t) (config : Config) {e : Posting} (hstable : e.response.data.Stable)
    (htime : Entry.Timely e.time)
    (hlevels : Shallow (MemoryStore.ledger.post config e s).2.trees.get?
      (MemoryStore.ledger.post config e s).2.records.get?) :
    (MemoryStore.ledger.post config e s).1 = (FileStore.ledger.post config e t).1 ∧
      Matches (MemoryStore.ledger.post config e s).2 (FileStore.ledger.post config e t).2 := by
  cases hdata : e.response.data.isMap with
  | false =>
      simp only [Ledger.post_other _ config hdata]
      exact ⟨trivial, h.made _⟩
  | true =>
      rcases exists_fields_of_isMap hdata with ⟨fields, hfields⟩
      simp only [Ledger.post_map _ config hfields] at hlevels ⊢
      simp only [hfields] at hstable
      -- The levels that the memory holds afterwards bound all that the file has to decode.
      have hskeleton : (skeletonOf e.response.ids fields).nesting ≤ Json.maxRoom :=
        hlevels.skeleton (Dict.get?_insert_self _ e.query _) rfl
      have hrecords : ∀ guid ∈ entitiesOf e.response.ids fields,
          ((s.record guid).merged e.response.ids fields e.requestor).snapshot.nesting ≤
            Json.maxRoom := by
        intro guid hguid
        have hrecord : (s.absorbed e.response.ids fields e.requestor).records.get? guid =
            some ((s.record guid).merged e.response.ids fields e.requestor) := by
          simp only [Holdings.get?_absorbed, if_pos hguid]
        exact hlevels.snapshot hrecord
      refine ⟨?_, ?_⟩
      · exact congrArg (WriteOutcome.mk true) (h.impactedBy_eq e.response.ids fields e.requestor)
      · exact (h.absorbed hstable hrecords).stored e.query rfl rfl (Nat.min_le_right _ _) htime
          htime (everyStable_skeletonOf e.response.ids hstable) hskeleton

theorem lookup (h : Matches s t) (now : Time) (q : QueryKey) (policy : FetchPolicy) :
    (MemoryStore.ledger.lookup now q policy s).1 = (FileStore.ledger.lookup now q policy t).1 ∧
      Matches (MemoryStore.ledger.lookup now q policy s).2
        (FileStore.ledger.lookup now q policy t).2 := by
  have hshown : MemoryStore.ledger.shown now q s = FileStore.ledger.shown now q t :=
    h.shown_eq now q
  cases policy with
  | serverOnly =>
      exact ⟨rfl, h⟩
  | preferCache =>
      exact ⟨congrArg (FetchPolicy.choose _) hshown, h.accessed now q⟩
  | cacheOnly =>
      exact ⟨congrArg (FetchPolicy.choose _) hshown, h.accessed now q⟩

/-- An operation has the same outcome on both, and they agree after it. -/
theorem perform (h : Matches s t) (config : Config) {o : Operation} (hstable : o.Stable)
    (hlevels : Shallow (MemoryStore.ledger.perform config o s).2.trees.get?
      (MemoryStore.ledger.perform config o s).2.records.get?) :
    (MemoryStore.ledger.perform config o s).1 = (FileStore.ledger.perform config o t).1 ∧
      Matches (MemoryStore.ledger.perform config o s).2
        (FileStore.ledger.perform config o t).2 := by
  cases o with
  | write e =>
      rcases h.post config hstable.1 hstable.2 hlevels with ⟨houtcome, hnext⟩
      exact ⟨congrArg Outcome.written houtcome, hnext⟩
  | read now q =>
      exact ⟨congrArg Outcome.shown (h.shown_eq now q), h.accessed now q⟩
  | lookup now q policy =>
      rcases h.lookup now q policy with ⟨houtcome, hnext⟩
      exact ⟨congrArg Outcome.decided houtcome, hnext⟩
  | stats now =>
      exact ⟨congrArg (fun n => Outcome.counted (some n)) h.counts_eq, h⟩

/-- A run has the same outcomes on both. -/
theorem performAll (config : Config) (run : List Operation) : ∀ {s : Holdings} {t : Contents},
    Matches s t → (∀ o ∈ run, o.Exact) →
    (∀ k, let s' := (MemoryStore.ledger.performAll
        ((run.take k).map (fun o => (config, o))) s).2
      Shallow s'.trees.get? s'.records.get?) →
      (MemoryStore.ledger.performAll (run.map (fun o => (config, o))) s).1 =
        (FileStore.ledger.performAll (run.map (fun o => (config, o))) t).1 := by
  induction run with
  | nil =>
      intro s t _ _ _
      rfl
  | cons o rest ih =>
      intro s t h hexact hlevels
      rcases List.forall_mem_cons.mp hexact with ⟨ho, hrest⟩
      rcases h.perform config ho.stable (hlevels 1) with ⟨houtcome, hnext⟩
      have hlater := ih hnext hrest fun k => hlevels (k + 1)
      simp only [List.map_cons, Ledger.performAll_cons, houtcome, hlater]

end Matches

/-! ## Through caches -/

/-- Through a cache on a new store in memory and through one on a new file, operations have the same
outcomes step by step, as long as their numbers are integers and nothing in the store in memory has
more levels than a reader follows. -/
theorem outcomes_agree {c c' : Cache} {r r' : StoreRef} {n m : Nat} {w w' : World Vault}
    (run : List Operation) (hconfig : c'.config = c.config)
    (hstore : c.store? = some r) (hr : r.store = .memory n) (hguards : r.guards = [])
    (hempty : w.store.memory n = .empty)
    (hstore' : c'.store? = some r') (hr' : r'.store = .file m) (hguards' : r'.guards = [])
    (hfile : FileStore.Settled (w'.focus (Vault.connected m)) .empty)
    (hexact : ∀ o ∈ run, o.Exact)
    (hlevels : ∀ k, let v := (c.performAll (run.take k) w).2.focus (Vault.memory n)
      Shallow v.store.trees.get? v.records.get?) :
    (c.performAll run w).1.1 = (c'.performAll run w').1.1 := by
  -- What the store in memory holds after some of the operations is shallow.
  have hshallow : ∀ k, let s := (MemoryStore.ledger.performAll
      ((run.take k).map (fun o => (c.config, o))) .empty).2
      Shallow s.trees.get? s.records.get? := by
    intro k
    rcases Cache.performAll_memory (run.take k) hstore hr hguards hempty with ⟨c₁, w₁, hrun, hw₁⟩
    have hprefix := hlevels k
    simp only [hrun, hw₁.trees, funext hw₁.records] at hprefix
    exact hprefix
  rcases Cache.performAll_memory run hstore hr hguards hempty with ⟨c₁, w₁, hrun, -⟩
  rcases Cache.performAll_of_keeps (StoreRef.backend_mirrors_file hr' hguards') FileStore.keeps run
    hstore' hfile with ⟨c₂, w₂, hrun', -⟩
  simp only [hrun, hrun', hconfig]
  exact Matches.empty.performAll c.config run hexact hshallow

/-- A query of a list and one of an item in it, then what the caches show and count. -/
def agreeingRun : List Operation :=
  sharedRun.map .write ++ [.read 4 "list", .lookup 5 "item" .preferCache, .stats 6]

theorem exact_sharedRun : ∀ e ∈ sharedRun, e.response.data.Exact ∧ Entry.Timely e.time := by
  have hkeys : Key.before "id" "owner" = true ∧ Key.before "id" "price" = true ∧
      Key.before "owner" "price" = true := by decide
  have hnumbers : (Value.num (.int 3)).Exact ∧ (Value.num (.int 5)).Exact ∧
      (Value.num (.int 7)).Exact :=
    ⟨Value.exact_int (by decide), Value.exact_int (by decide), Value.exact_int (by decide)⟩
  have htimes : Entry.Timely 1 ∧ Entry.Timely 2 ∧ Entry.Timely 3 :=
    ⟨⟨by decide, by decide⟩, ⟨by decide, by decide⟩, ⟨by decide, by decide⟩⟩
  simp [sharedRun, Value.exact_map_iff, Value.exact_list_iff, Value.exact_null, Value.exact_str,
    Value.exact_id, Assoc.Sorted, hkeys, hnumbers, htimes]

theorem exact_agreeingRun : ∀ o ∈ agreeingRun, o.Exact := by
  intro o ho
  rcases List.mem_append.mp ho with hwrite | hask
  · rcases List.mem_map.mp hwrite with ⟨e, he, rfl⟩
    exact exact_sharedRun e he
  · simp only [List.mem_cons, List.not_mem_nil, or_false] at hask
    rcases hask with rfl | rfl | rfl
    · trivial
    · trivial
    · trivial

/-- Both caches show and count the same after three writes, one of which is refused. -/
theorem outcomes_agree_shared :
    (memoryCache.performAll agreeingRun ⟨.empty, [], [], 0, .empty false⟩).1.1 =
      ((shopCache 1).performAll agreeingRun newFile).1.1 := by
  have hwithin : ∀ o ∈ agreeingRun, o.Within 63 := by
    simp only [agreeingRun, sharedRun, List.map_cons, List.map_nil, List.cons_append,
      List.nil_append, List.forall_mem_cons, Operation.Within]
    refine ⟨by decide, by decide, by decide, trivial, trivial, trivial, ?_⟩
    intro o ho
    cases ho
  refine outcomes_agree agreeingRun rfl rfl rfl rfl rfl rfl rfl rfl settled_newFile
    exact_agreeingRun ?_
  intro k
  exact Cache.shallow_performAll (agreeingRun.take k) rfl rfl rfl rfl
    fun o ho => hwithin o (List.mem_of_mem_take ho)

end EntityCache
