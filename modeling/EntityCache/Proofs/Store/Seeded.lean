import EntityCache.Proofs.Data.Distinct
import EntityCache.Proofs.Store.FileLedger
import EntityCache.Proofs.Store.Handling
import EntityCache.Proofs.Store.Memory

/-!
# Records that are only asked for

Before anything of a result is written, the store is asked for a record of every id within it, and
those that it does not have are made:

* `Dict.Seeded`: a dictionary keeps its bindings, and the others are new; `Dict.Sown` is the case
  that it has all keys it was asked for.
* `MemoryStore.Seeded`, `MemoryStore.sown_batch`: what a store in memory does that is asked for
  several records.
* `FileStore.Seeded`, `FileStore.Connected.seeded_batch`: what a store in a file does at most,
  whatever is in the file and whichever tables are missing.
* `FileStore.Tracks.batch`, `FileStore.Contents.sown_makeAll`: what it does where it can be used,
  while somebody may hold records.
-/

namespace EntityCache

open Normalize

/-! ## More bindings -/

namespace Dict

variable {κ α : Type} [DecidableEq κ] [Key κ] {asked : List κ} {New New' : κ → α → Prop}
  {d d' d'' : Dict κ α}

theorem mem_keys_iff {k : κ} : k ∈ d.keys ↔ (d.get? k).isSome = true :=
  Assoc.mem_keys_iff

/-- What was bound stays bound, and what is bound besides is new, under a key that was asked for. -/
structure Seeded (asked : List κ) (New : κ → α → Prop) (d d' : Dict κ α) : Prop where
  kept : ∀ {k a}, d.get? k = some a → d'.get? k = some a
  made : ∀ {k a}, d.get? k = none → d'.get? k = some a → k ∈ asked ∧ New k a

/-- Besides, every key that was asked for is bound. -/
structure Sown (asked : List κ) (New : κ → α → Prop) (d d' : Dict κ α) : Prop
    extends Seeded asked New d d' where
  all : ∀ k ∈ asked, (d'.get? k).isSome = true

theorem Seeded.refl (d : Dict κ α) : Seeded asked New d d := by
  refine ⟨fun h => h, fun hnone h => ?_⟩
  rw [hnone] at h
  cases h

theorem Seeded.imp (h : Seeded asked New d d') (hnew : ∀ {k a}, New k a → New' k a) :
    Seeded asked New' d d' :=
  ⟨h.kept, fun hnone ha => (h.made hnone ha).imp_right hnew⟩

theorem Seeded.trans (h : Seeded asked New d d') (h' : Seeded asked New d' d'') :
    Seeded asked New d d'' := by
  refine ⟨fun ha => h'.kept (h.kept ha), ?_⟩
  intro k a hnone ha
  -- The binding was made in the first step or in the second one.
  cases hmiddle : d'.get? k with
  | none =>
      exact h'.made hmiddle ha
  | some b =>
      cases (h'.kept hmiddle).symm.trans ha
      exact h.made hnone hmiddle

theorem Seeded.insert {k : κ} {a : α} (hk : k ∈ asked) (hnew : New k a) (hnone : d.get? k = none) :
    Seeded asked New d (d.insert k a) := by
  refine ⟨fun {k' b} hb => ?_, fun {k' b} hnone' hb => ?_⟩
  · rw [get?_insert, if_neg, hb]
    rintro rfl
    rw [hnone] at hb
    cases hb
  · rw [get?_insert] at hb
    split at hb
    · next hk' =>
        cases hb
        rw [hk']
        exact ⟨hk, hnew⟩
    · rw [hnone'] at hb
      cases hb

/-- Nothing is new exactly if all that was asked for was bound. -/
theorem Sown.eq_iff (h : Sown asked New d d') :
    d' = d ↔ ∀ k ∈ asked, (d.get? k).isSome = true := by
  constructor
  · rintro rfl
    exact h.all
  · intro hall
    refine ext_get? fun k => ?_
    cases hbefore : d.get? k with
    | some a =>
        exact h.kept hbefore
    | none =>
        cases hafter : d'.get? k with
        | none =>
            rfl
        | some a =>
            have hsome := hall k (h.made hbefore hafter).1
            rw [hbefore] at hsome
            cases hsome

/-- As many bindings are new as keys were asked for that were not bound. -/
theorem Sown.size_eq (h : Sown asked New d d') (hnodup : asked.Nodup) :
    d'.size = d.size + (asked.filter (fun k => (d.get? k).isNone)).length := by
  have hdistinct : (d.keys ++ asked.filter (fun k => (d.get? k).isNone)).Nodup := by
    refine List.nodup_append.mpr ⟨nodup_keys d, hnodup.filter _, ?_⟩
    rintro k hk _ hnew rfl
    have hnone := (List.mem_filter.mp hnew).2
    rw [Option.isNone_iff_eq_none] at hnone
    rw [mem_keys_iff, hnone] at hk
    cases hk
  -- The keys afterwards are those before and those that were asked for and missing.
  have hkeys : d'.keys.Perm (d.keys ++ asked.filter (fun k => (d.get? k).isNone)) := by
    refine (List.perm_ext_iff_of_nodup (nodup_keys d') hdistinct).mpr fun k => ?_
    rw [List.mem_append, List.mem_filter, mem_keys_iff, mem_keys_iff]
    cases hbefore : d.get? k with
    | some a =>
        rw [h.kept hbefore]
        simp
    | none =>
        constructor
        · intro hsome
          rcases Option.isSome_iff_exists.mp hsome with ⟨a, ha⟩
          exact Or.inr ⟨(h.made hbefore ha).1, rfl⟩
        · rintro (hsome | ⟨hk, -⟩)
          · cases hsome
          · exact h.all k hk
  have hlength := hkeys.length_eq
  rw [List.length_append, Dict.keys, Dict.keys, List.length_map, List.length_map] at hlength
  exact hlength

end Dict

/-! ## Stores in memory -/

namespace Normalize.RecordSet

variable {s s' s'' : RecordSet} {guids : List Guid}

/-- Every record stays under its guid and as it was, and what is under other guids is fresh. -/
structure Seeded (guids : List Guid) (s s' : RecordSet) : Prop where
  index : Dict.Seeded guids (fun guid h => s'.pool.get? h = some (.fresh guid)) s.index s'.index
  pool : ∀ {h r}, s.pool.get? h = some r → s'.pool.get? h = some r

theorem Seeded.refl (s : RecordSet) : Seeded guids s s :=
  ⟨.refl s.index, fun h => h⟩

theorem Seeded.trans (h : Seeded guids s s') (h' : Seeded guids s' s'') : Seeded guids s s'' :=
  ⟨(h.index.imp h'.pool).trans h'.index, fun hr => h'.pool (h.pool hr)⟩

theorem seeded_fetch (s : RecordSet) {guid : Guid} (hguid : guid ∈ guids) :
    Seeded guids s (s.fetch guid).2 := by
  simp only [fetch]
  cases hhandle : s.handle? guid with
  | some h =>
      exact .refl s
  | none =>
      refine ⟨.insert hguid (Pool.get?_add_self s.pool _) hhandle, fun {h r} hr => ?_⟩
      exact (Pool.get?_add_of_lt s.pool _ (Pool.get?_lt hr)).trans hr

theorem seeded_fetchAll (s : RecordSet) (guids : List Guid) :
    Seeded guids s (s.fetchAll guids) := by
  refine List.foldlRecOn (motive := Seeded guids s) guids (fun s guid => (s.fetch guid).2)
    (.refl s) ?_
  intro s' h guid hguid
  exact h.trans (s'.seeded_fetch hguid)

end Normalize.RecordSet

namespace MemoryStore

/-- A store in memory that was asked for records has made some of those that it did not have, and
nothing else has changed. -/
structure Seeded (guids : List Guid) (w w' : World MemoryStore) : Prop where
  trees : w'.store.trees = w.store.trees
  records : w.records.Seeded guids w'.records

/-- The store has made all of them. -/
structure Sown (guids : List Guid) (w w' : World MemoryStore) : Prop
    extends Seeded guids w w' where
  all : ∀ guid ∈ guids, (w'.store.entities.get? guid).isSome = true
  counts : w'.store.counts = ⟨w.store.counts.trees, w.store.counts.entities +
    (guids.filter (fun guid => (w.store.entities.get? guid).isNone)).length⟩
  /-- Only if it had all of them, it is the same as before. -/
  unchanged : w'.store = w.store ↔ ∀ guid ∈ guids, (w.store.entities.get? guid).isSome = true

theorem sown_batch (guids : KeySet Guid) (w : World MemoryStore) :
    Sown guids.toList w (backend.batch guids w).2 := by
  rcases batch_apply guids w with ⟨index, hbatch, -⟩
  have hrecords := w.records.seeded_fetchAll guids.toList
  have hindex : Dict.Sown guids.toList _ _ _ :=
    ⟨hrecords.index, fun guid hguid => RecordSet.isSome_handle?_fetchAll guids.toList hguid⟩
  rw [hbatch]
  refine ⟨⟨rfl, hrecords⟩, hindex.all, ?_, ?_⟩
  · exact congrArg (Counts.mk _) (hindex.size_eq guids.nodup_toList)
  · refine Iff.trans ⟨congrArg MemoryStore.entities, fun hsame => ?_⟩ hindex.eq_iff
    exact congrArg (MemoryStore.mk w.store.trees) hsame

end MemoryStore

/-! ## Stores in files -/

namespace FileStore

/-- The row of a fresh record. -/
def IsFreshRow (guid : Guid) (blob : Blob) : Prop :=
  blob = (Record.fresh guid).snapshot.text.toUTF8

/-- A store in a file that was asked for records has added rows for some of those that it did not
have, and nothing else has changed in the file. -/
structure Seeded (guids : List Guid) (w w' : World Connected) : Prop where
  trees : w'.store.state.tables.trees = w.store.state.tables.trees
  dependents : w'.store.state.tables.dependents = w.store.state.tables.dependents
  missing : w'.store.state.tables.entities = none ↔ w.store.state.tables.entities = none
  entities : Dict.Seeded guids IsFreshRow w.store.contents.entities w'.store.contents.entities
  pool : ∀ {h r}, w.pool.get? h = some r → w'.pool.get? h = some r

theorem composes_seeded (guids : List Guid) : Composes (Seeded guids) where
  refl _ := ⟨rfl, rfl, Iff.rfl, .refl _, fun h => h⟩
  trans h h' := ⟨h'.trees.trans h.trees, h'.dependents.trans h.dependents,
    h'.missing.trans h.missing, h.entities.trans h'.entities, fun hr => h'.pool (h.pool hr)⟩

/-- Nothing in the file has changed. -/
theorem Seeded.of_state {guids : List Guid} {w w' : World Connected}
    (hstate : w'.store.state = w.store.state)
    (hpool : ∀ {h r}, w.pool.get? h = some r → w'.pool.get? h = some r) : Seeded guids w w' := by
  refine ⟨by rw [hstate], by rw [hstate], by rw [hstate], ?_, hpool⟩
  simp only [Connected.contents, hstate]
  exact .refl _

namespace Connected

variable {guids : List Guid} {guid : Guid} {w : World Connected}

/-- A table is there, or the call fails. -/
theorem table_eq {α : Type} (pick : Tables → Option α) (w : World Connected) :
    table pick w = ((pick w.store.reachable).elim (.error noTable) .ok, w) := by
  simp only [table, Act.bind_ok (a := Act.world) rfl]
  cases pick w.store.reachable <;> rfl

theorem table_eq_ok {α : Type} {pick : Tables → Option α} {rows : α} {w' : World Connected}
    (h : table pick w = (.ok rows, w')) : pick w.store.reachable = some rows ∧ w' = w := by
  rw [table_eq] at h
  cases hpick : pick w.store.reachable with
  | none =>
      rw [hpick] at h
      cases h
  | some _ =>
      rw [hpick] at h
      cases h
      exact ⟨rfl, rfl⟩

/-- Looking up a row changes nothing. -/
theorem readEntity_snd (guid : Guid) (w : World Connected) : (readEntity guid w).2 = w := by
  have hsame : Composes (fun w w' : World Connected => w' = w) :=
    ⟨fun _ => rfl, fun h h' => h'.trans h⟩
  have htable : ∀ {α : Type} (pick : Tables → Option α),
      Within (fun w w' => w' = w) (table pick) := by
    intro α pick w
    rw [table_eq]
  refine Within.bind hsame (htable Tables.entities) (fun rows => ?_) w
  cases rows.get? guid with
  | none =>
      exact .pure hsame none
  | some blob =>
      refine .bind hsame (.ofExcept hsame _) fun s => ?_
      exact .bind hsame (.bind hsame (htable _) fun _ => .pure hsame _) fun _ => .pure hsame _

/-- Only where there is a table a row is found to be missing. -/
theorem rows_of_readEntity {w' : World Connected} (h : readEntity guid w = (.ok none, w')) :
    ∃ rows, w.store.reachable.entities = some rows ∧ rows.get? guid = none := by
  rcases Act.bind_eq_ok_iff.mp h with ⟨rows, w₁, htable, hrest⟩
  refine ⟨rows, (table_eq_ok htable).1, ?_⟩
  cases hrow : rows.get? guid with
  | none =>
      rfl
  | some blob =>
      simp only [hrow] at hrest
      rcases Act.bind_eq_ok_iff.mp hrest with ⟨s, w₂, -, hrest⟩
      rcases Act.bind_eq_ok_iff.mp hrest with ⟨dependents, w₃, -, hrest⟩
      cases hrest

/-- A store that can reach a table is open. -/
theorem reachable_of_entities {rows : Dict Guid Blob}
    (h : w.store.reachable.entities = some rows) : w.store.reachable = w.store.state.tables := by
  simp only [reachable] at h ⊢
  split
  · next hclosed =>
      rw [if_pos hclosed] at h
      cases h
  · rfl

/-- A fresh record gets a row where there was none. -/
theorem seeded_create (hguid : guid ∈ guids) {rows : Dict Guid Blob}
    (hrows : w.store.reachable.entities = some rows) (hrow : rows.get? guid = none) :
    Seeded guids w (create guid w).2 := by
  have htables := reachable_of_entities hrows
  rw [htables] at hrows
  -- Writing the fresh record puts its row there and lists no dependents.
  let tables : Tables := { w.store.state.tables with
    entities := some (rows.insert guid (Record.fresh guid).snapshot.text.toUTF8) }
  have htable : table (fun t => t.saveEntity? guid (Record.fresh guid).snapshot.text.toUTF8
      (Record.fresh guid).dependents) w = (.ok tables, w) := by
    rw [table_eq, htables]
    simp only [Tables.saveEntity?, Tables.putEntity?, hrows]
    rfl
  have hwrite : writeEntity (.fresh guid) w =
      (.ok (), { w with store := { w.store with state := w.store.state.put tables } }) := by
    simp only [writeEntity, Blob.encode_eq, Act.bind_ok (a := Act.ofExcept _) rfl]
    exact (Act.bind_ok htable).trans rfl
  have hcreate : create guid w = (.ok (.fresh guid), _) := Act.bind_ok hwrite
  have hbefore : w.store.contents.entities = rows := by
    simp only [contents, hrows, Option.getD_some]
  rw [hcreate]
  refine ⟨rfl, rfl, ?_, ?_, fun h => h⟩
  · rw [hrows]
    exact iff_of_false (Option.some_ne_none _) (Option.some_ne_none _)
  · rw [hbefore]
    exact .insert hguid rfl hrow

/-- Whatever is stored of an entity, at most a fresh record is added for it. -/
theorem seeded_readOrCreate (hguid : guid ∈ guids) :
    Within (Seeded guids) (readOrCreate guid) := by
  intro w
  have hR := composes_seeded guids
  have hread : readEntity guid w = ((readEntity guid w).1, w) :=
    Prod.ext rfl (readEntity_snd guid w)
  generalize (readEntity guid w).1 = r at hread
  have hattempt : Act.attempt (readEntity guid) w = (.ok r, w) := by
    simp only [Act.attempt, hread]
  simp only [readOrCreate, Act.bind_ok hattempt]
  cases r with
  | ok found =>
      cases found with
      | some r =>
          exact hR.refl w
      | none =>
          rcases rows_of_readEntity hread with ⟨rows, hrows, hrow⟩
          exact seeded_create hguid hrows hrow
  | error e =>
      by_cases hcodec : e.isCodec = true
      -- The row that cannot be decoded stays.
      · simp only [if_pos hcodec]
        refine Within.bind hR (fun _ => .of_state rfl fun h => h) (fun _ => ?_) w
        refine .bind hR (.bind hR (fun w => ?_) fun _ => .pure hR _) fun _ => .pure hR _
        rw [table_eq]
        exact hR.refl w
      · simp only [if_neg hcodec]
        exact hR.refl w

theorem seeded_entity (hguid : guid ∈ guids) : Within (Seeded guids) (entity guid) := by
  have hR := composes_seeded guids
  refine .bind hR (.world hR) fun w => ?_
  cases live? w guid with
  | some h =>
      exact .pure hR h
  | none =>
      refine .bind hR (seeded_readOrCreate hguid) fun r w₁ => .of_state rfl fun {h r'} hr' => ?_
      exact (Pool.get?_add_of_lt w₁.pool r (Pool.get?_lt hr')).trans hr'

/-- The entities among several ones whose records are not at hand. -/
def unknown (w : World Connected) (guids : KeySet Guid) : List Guid :=
  guids.toList.filter (fun guid => (live? w guid).isNone)

/-- Records at hand are not looked up in the file. -/
theorem seeded_batch (guids : KeySet Guid) (w : World Connected) :
    Seeded (unknown w guids) w (batch guids w).2 := by
  have hR := composes_seeded (unknown w guids)
  simp only [batch, Act.bind_ok (a := Act.world) rfl]
  exact (Act.closed_within hR).oneByOne_of_mem (unknown w guids)
    (fun guid hguid => seeded_entity hguid) _ w

end Connected

/-! ### While records are held -/

namespace Tracks

open Connected

variable {C : List Record → Contents → Prop} {L : List Record → Record → Prop} {log : List Record}
  {w : World Connected} {t : Contents}

/-- Every entity that is asked for has a record under its own guid, known before or made of what the
file has of it, and there is a row for each that was not known. -/
theorem batch (h : Tracks C L log w t) (guids : KeySet Guid) : ∃ index w',
    Connected.batch guids w = (.ok index, w') ∧ w'.Holds (t.makeAll (unknown w guids)) ∧
      w.Loads w' ∧ RecordSet.Keyed ⟨w'.pool, index⟩ ∧ ∀ guid ∈ unknown w guids,
        ∃ i, index.get? guid = some i ∧ w'.pool.get? i = some (t.record guid) := by
  have hunknown : ∀ guid ∈ unknown w guids, Connected.live? w guid = none := fun guid hguid =>
    Option.isNone_iff_eq_none.mp (List.mem_filter.mp hguid).2
  let known := guids.toList.filterMap (fun guid =>
    (Connected.live? w guid).map (fun i => (guid, i)))
  obtain ⟨index, w', hrun, hw', hloads, hfound, hother⟩ :=
    oneByOne_apply (unknown w guids) (.ofList known) h.holds h.keyed h.bounded
      (guids.nodup_toList.filter _) hunknown
  have hbatch : Connected.batch guids w = (.ok index, w') := by
    simp only [Connected.batch, Act.bind_ok (a := Act.world) rfl]
    exact hrun
  refine ⟨index, w', hbatch, hw', hloads, fun guid i hi => ?_, hfound⟩
  have hget : index.get? guid = some i := hi
  by_cases hguid : guid ∈ unknown w guids
  · rcases hfound guid hguid with ⟨j, hj, hr⟩
    cases hget.symm.trans hj
    exact ⟨_, hr, Contents.guid_record h.keyed guid⟩
  · rw [hother guid hguid] at hget
    -- A record that was known is the one that somebody holds under this guid.
    have hmem : (guid, i) ∈ known := Assoc.mem_of_mem_ofList (Dict.get?_eq_some_iff.mp hget)
    rcases List.mem_filterMap.mp hmem with ⟨guid', -, hlive⟩
    rcases Option.map_eq_some_iff.mp hlive with ⟨j, hj, hpair⟩
    cases hpair
    rcases h.known hj with ⟨r, hr, hsame, -⟩
    exact ⟨r, hloads.pool hr, hsame⟩

end Tracks

namespace Contents

/-- There is a row for each of the guids. -/
structure Sown (guids : List Guid) (t t' : Contents) : Prop where
  trees : t'.trees = t.trees
  dependents : t'.dependents = t.dependents
  entities : Dict.Sown guids IsFreshRow t.entities t'.entities
  counts : t'.counts = ⟨t.counts.trees, t.counts.entities +
    (guids.filter (fun guid => (t.entities.get? guid).isNone)).length⟩
  /-- Only if there were all of these rows, the contents are the same as before. -/
  unchanged : t' = t ↔ ∀ guid ∈ guids, (t.entities.get? guid).isSome = true

theorem sown_makeAll (t : Contents) {guids : List Guid} (hnodup : guids.Nodup) :
    Sown guids t (t.makeAll guids) := by
  rcases frame_makeAll t guids with ⟨htrees, hdependents⟩
  have hentities : Dict.Sown guids IsFreshRow t.entities (t.makeAll guids).entities := by
    refine ⟨⟨fun {guid blob} hrow => ?_, fun {guid blob} hnone hrow => ?_⟩, fun guid hguid => ?_⟩
    · rw [get?_makeAll, hrow]
      exact ite_self _
    · rw [get?_makeAll, hnone] at hrow
      split at hrow
      · next hguid => exact ⟨hguid, (Option.some.inj hrow).symm⟩
      · cases hrow
    · rw [get?_makeAll, if_pos hguid]
      rfl
  refine ⟨htrees, hdependents, hentities, ?_, ?_⟩
  · rw [counts, htrees, hentities.size_eq hnodup]
    rfl
  · refine Iff.trans ⟨congrArg Contents.entities, fun hsame => ?_⟩ hentities.eq_iff
    calc
      t.makeAll guids = ⟨t.trees, t.entities, t.dependents⟩ := by
        rw [← htrees, ← hdependents, ← hsame]
      _ = t := rfl

end Contents
end FileStore
end EntityCache
