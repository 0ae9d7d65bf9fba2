import EntityCache.Proofs.Store.Calls
import EntityCache.Proofs.Store.Contents
import EntityCache.Store.File

/-!
# The calls of a store in a file

What each call does to the contents of the file and to the records in the process:

* `World.Holds`: an opened store whose file has the given contents.
* `Connected.batch_apply`: every entity that is asked for has a record.
* `Connected.saves_apply`: the records that are saved are in the file.
* `Connected.findAll_apply`: the stored entities, unless one of them cannot be decoded.
-/

namespace EntityCache

open Normalize FileStore

namespace World

/-- The store is open, and its file has the given contents. -/
def Holds (w : World Connected) (t : Contents) : Prop :=
  w.store.opened.closed = false ∧ w.store.state.tables = t.tables

/-- The world with other contents of the file. -/
def withContents (w : World Connected) (t : Contents) : World Connected :=
  { w with store := { w.store with state := w.store.state.put t.tables } }

/-- Every record that the store knows exists. -/
def Bounded (w : World Connected) : Prop :=
  ∀ guid h, w.store.opened.live.get? guid = some h → h < w.pool.cells.size

variable {w : World Connected} {t : Contents}

theorem Holds.withContents (hw : w.Holds t) (t' : Contents) : (w.withContents t').Holds t' :=
  ⟨hw.1, rfl⟩

theorem Holds.report (hw : w.Holds t) (signals : Journal) : (w.report signals).Holds t := hw

/-- Only the file and what was reported may differ. -/
structure Beside (w w' : World Connected) : Prop where
  pool : w'.pool = w.pool
  held : w'.held = w.held
  now : w'.now = w.now
  opened : w'.store.opened = w.store.opened

/-- More records may exist, and others may be known; those that existed stay. -/
structure Loads (w w' : World Connected) : Prop where
  now : w'.now = w.now
  pool : ∀ {h r}, w.pool.get? h = some r → w'.pool.get? h = some r
  bounded : w.Bounded → w'.Bounded

theorem Beside.loads {w' : World Connected} (h : w.Beside w') : w.Loads w' where
  now := h.now
  pool hr := by rwa [h.pool]
  bounded hw := by
    intro guid i hi
    simp only [h.opened] at hi
    simp only [h.pool]
    exact hw guid i hi

theorem Loads.refl (w : World Connected) : w.Loads w :=
  ⟨rfl, fun h => h, fun h => h⟩

theorem Loads.trans {w' w'' : World Connected} (h : w.Loads w') (h' : w'.Loads w'') :
    w.Loads w'' :=
  ⟨h'.now.trans h.now, fun hr => h'.pool (h.pool hr), fun hw => h'.bounded (h.bounded hw)⟩

end World

namespace FileStore.Connected

variable {w : World Connected} {t : Contents}

/-! ## Tables -/

theorem reachable_eq (hw : w.Holds t) : w.store.reachable = t.tables := by
  simp only [reachable, hw.1, hw.2]
  rfl

theorem table_apply (hw : w.Holds t) {α : Type} {pick : Tables → Option α} {rows : α}
    (hpick : pick t.tables = some rows) : table pick w = (.ok rows, w) := by
  simp only [table, Act.bind_ok (a := Act.world) rfl, reachable_eq hw, hpick]
  rfl

theorem change_apply (hw : w.Holds t) {f : Tables → Option Tables} {t' : Contents}
    (hf : f t.tables = some t'.tables) : change f w = (.ok (), w.withContents t') := by
  simp only [change, Act.bind_ok (table_apply hw hf)]
  rfl

/-- Counting rows changes nothing, whatever tables are missing. -/
theorem counts_apply (w : World Connected) : ∃ r, counts w = (r, w) := by
  -- A table is there, or that it is missing is the answer.
  have htable : ∀ {α : Type} (pick : Tables → Option α),
      (∃ rows, table pick w = (.ok rows, w)) ∨ table pick w = (.error noTable, w) := by
    intro α pick
    simp only [table, Act.bind_ok (a := Act.world) rfl]
    cases pick w.store.reachable with
    | none =>
        exact Or.inr rfl
    | some rows =>
        exact Or.inl ⟨rows, rfl⟩
  rcases htable Tables.trees with ⟨trees, htrees⟩ | htrees
  · rcases htable Tables.entities with ⟨entities, hentities⟩ | hentities
    · refine ⟨.ok ⟨trees.size, entities.size⟩, ?_⟩
      simp only [counts, Act.bind_ok htrees, Act.bind_ok hentities]
      rfl
    · exact ⟨_, (Act.bind_ok htrees).trans (Act.bind_error hentities)⟩
  · exact ⟨_, Act.bind_error htrees⟩

/-! ## Cached results -/

theorem setTree_apply (hw : w.Holds t) (q : QueryKey) (e : Entry) :
    setTree q e w = (.ok (), w.withContents
      { t with trees := t.trees.insert q ⟨e.lastAccessed, e.text.toUTF8⟩ }) := by
  simp only [setTree, Blob.encode_eq, Act.bind_ok (a := Act.ofExcept _) rfl]
  exact change_apply hw rfl

/-- A result that is looked up is there, or it is not there or cannot be decoded. -/
theorem tree?_cases (hw : w.Holds t) (q : QueryKey) :
    (t.entryAt q = none ∧ (tree? q w = (.ok none, w) ∨ ∃ e, tree? q w = (.error e, w))) ∨
    ∃ e, t.entryAt q = some e ∧
      tree? q w = (.ok (some (e.touch w.now)), w.withContents (t.accessed w.now q)) := by
  have hrows : table Tables.trees w = (.ok t.trees, w) := table_apply hw rfl
  cases hrow : t.trees.get? q with
  | none =>
      refine Or.inl ⟨?_, Or.inl ?_⟩
      · simp only [Contents.entryAt, hrow]
        rfl
      · simp only [tree?, Act.bind_ok hrows, hrow]
        rfl
  | some row =>
      cases hdecode : Blob.decode Entry.ofSymbols? q row.blob with
      | error e =>
          refine Or.inl ⟨?_, Or.inr ⟨e, ?_⟩⟩
          · simp only [Contents.entryAt, hrow, Option.bind_some, hdecode]
            rfl
          · simp only [tree?, Act.bind_ok hrows, hrow]
            simp only [hdecode]
            rfl
      | ok e =>
          have hentry : t.entryAt q = some e := by
            simp only [Contents.entryAt, hrow, Option.bind_some, hdecode]
            rfl
          -- Only the time of the last access is written.
          have hchange : change
              (fun t => t.putTree? q { row with lastAccessed := (e.touch w.now).lastAccessed }) w =
                (.ok (), w.withContents (t.accessed w.now q)) := by
            rw [Contents.accessed_of_row hrow (by simp only [hentry]; rfl)]
            exact change_apply hw rfl
          refine Or.inr ⟨e, hentry, ?_⟩
          simp only [tree?, Act.bind_ok hrows, hrow]
          simp only [hdecode]
          simp only [Act.bind_ok (a := Act.ofExcept _) rfl, Act.bind_ok (a := Act.world) rfl]
          exact (Act.bind_ok hchange).trans rfl

/-! ## Entities -/

theorem dependentsOf_apply (hw : w.Holds t) (guid : Guid) :
    dependentsOf guid w = (.ok (Tables.queriesOf t.dependents guid), w) := by
  have hpairs : table Tables.dependents w = (.ok t.dependents, w) := table_apply hw rfl
  simp only [dependentsOf, Act.bind_ok hpairs]
  rfl

theorem readEntity_apply (hw : w.Holds t) (guid : Guid) :
    readEntity guid w = (t.find guid, w) := by
  have hrows : table Tables.entities w = (.ok t.entities, w) := table_apply hw rfl
  simp only [readEntity, Act.bind_ok hrows, Contents.find]
  cases t.entities.get? guid with
  | none =>
      rfl
  | some blob =>
      cases hdecode : Blob.decode Snapshot.ofSymbols? guid blob with
      | error e =>
          simp only [hdecode]
          rfl
      | ok s =>
          simp only [hdecode]
          simp only [Act.bind_ok (a := Act.ofExcept _) rfl,
            Act.bind_ok (dependentsOf_apply hw guid)]
          rfl

theorem union_pairsOf_empty (pairs : KeySet (Guid × QueryKey)) {guid : Guid}
    {queries : KeySet QueryKey} (hnone : queries.isEmpty = true) :
    pairs.union (Tables.pairsOf guid queries) = pairs := by
  refine KeySet.ext_mem ?_
  intro p
  simp only [KeySet.mem_union, Tables.mem_pairsOf, KeySet.mem_of_isEmpty hnone]
  simp

theorem writeEntity_apply (hw : w.Holds t) (r : Record) :
    writeEntity r w = (.ok (), w.withContents (t.saved r)) := by
  simp only [writeEntity, Blob.encode_eq, Act.bind_ok (a := Act.ofExcept _) rfl]
  refine change_apply hw ?_
  show (if r.dependents.isEmpty then _ else _) = _
  split
  · next hnone =>
      simp only [Contents.saved, union_pairsOf_empty t.dependents hnone]
      rfl
  · rfl

/-- Whatever is stored, there is a record to hand out. -/
theorem readOrCreate_apply (hw : w.Holds t) (guid : Guid) : ∃ w',
    readOrCreate guid w = (.ok (t.record guid), w') ∧ w'.Holds (t.made guid) ∧ w.Beside w' := by
  have hread : Act.attempt (readEntity guid) w = (.ok (t.find guid), w) := by
    simp only [Act.attempt, readEntity_apply hw]
  simp only [readOrCreate, Act.bind_ok hread, Contents.record]
  cases hrow : t.entities.get? guid with
  | none =>
      have hfind : t.find guid = .ok none := by
        simp only [Contents.find, hrow]
      -- A fresh record is saved at once, and it has no dependents yet.
      have hmade : t.made guid = t.saved (.fresh guid) := by
        have hnone : Tables.pairsOf guid (Record.fresh guid).dependents = .empty := rfl
        simp only [Contents.made, hrow, Contents.saved]
        show _ = Contents.mk _ _ (t.dependents.union (Tables.pairsOf guid _))
        simp only [hnone]
        rfl
      refine ⟨w.withContents (t.made guid), ?_, hw.withContents _, ⟨rfl, rfl, rfl, rfl⟩⟩
      simp only [hfind, hmade]
      exact Act.bind_ok (writeEntity_apply hw _)
  | some blob =>
      -- The row stays, even where it cannot be decoded.
      have hmade : t.made guid = t := by
        simp only [Contents.made, hrow]
        rfl
      simp only [hmade]
      cases hfind : t.find guid with
      | error e =>
          simp only [Contents.isCodec_of_find hfind, if_true]
          refine ⟨w.report [.notice .entityStartedOver, .undecodable .persistent .entities], ?_,
            hw.report _, ⟨rfl, rfl, rfl, rfl⟩⟩
          simp only [startOver, Act.bind_ok (a := Act.report _) rfl]
          exact Act.bind_ok (dependentsOf_apply (hw.report _) guid)
      | ok found =>
          cases found with
          | some r =>
              exact ⟨w, rfl, hw, ⟨rfl, rfl, rfl, rfl⟩⟩
          | none =>
              exact absurd hfind (Contents.find_ne_none hrow)

/-! ## Records that are handed out -/

theorem remember_cases (s : FileStore) (held : Handle → Bool) (guid : Guid) (h : Handle) :
    (s.remember held guid h).closed = s.closed ∧
      ∀ guid' h', (s.remember held guid h).live.get? guid' = some h' →
        guid' = guid ∧ h' = h ∨ s.live.get? guid' = some h' := by
  have hinsert : ∀ guid' h', (s.live.insert guid h).get? guid' = some h' →
      guid' = guid ∧ h' = h ∨ s.live.get? guid' = some h' := by
    intro guid' h' hget
    simp only [Dict.get?_insert] at hget
    split at hget
    · next hguid => exact Or.inl ⟨hguid, (Option.some.inj hget).symm⟩
    · exact Or.inr hget
  simp only [remember, sweep]
  split
  · exact ⟨rfl, hinsert⟩
  · refine ⟨rfl, ?_⟩
    intro guid' h' hget
    simp only [Dict.get?_filter] at hget
    exact hinsert guid' h' (Option.mem_filter_iff.mp hget).1

/-- What is known and held is so after a sweep as well. -/
theorem live?_sweep (s : FileStore) (held : Handle → Bool) (guid : Guid) :
    (s.sweep held).live? held guid = s.live? held guid := by
  simp only [sweep, FileStore.live?]
  split
  · rfl
  · simp only [Dict.get?_filter, Option.filter_filter, Bool.and_self]

theorem live?_eq_none_iff {guid : Guid} : live? w guid = none ↔
    ∀ h, w.store.opened.live.get? guid = some h → w.isHeld h = false := by
  simp only [live?, FileStore.live?, Option.filter_eq_none_iff]
  refine forall₂_congr fun h _ => ?_
  simp

theorem live?_eq_some_iff {guid : Guid} {h : Handle} : live? w guid = some h ↔
    w.store.opened.live.get? guid = some h ∧ w.isHeld h = true := by
  simp only [live?, FileStore.live?, Option.filter_eq_some_iff]

/-- What is known afterwards was known before, or is the record `i` under `guid`. -/
def Learns (w w' : World Connected) (guid : Guid) (i : Handle) : Prop :=
  ∀ guid' h, live? w' guid' = some h → guid' = guid ∧ h = i ∨ live? w guid' = some h

theorem Learns.none {w' : World Connected} {guid guid' : Guid} {i : Handle}
    (h : Learns w w' guid i) (hne : guid' ≠ guid) :
    live? w guid' = none → live? w' guid' = none := by
  intro hnone
  refine Option.eq_none_iff_forall_not_mem.mpr fun j hj => ?_
  rcases h guid' j hj with ⟨hsame, -⟩ | hold
  · exact hne hsame
  · simp only [hnone] at hold
    cases hold

/-- Handing out a record leaves the others alone. -/
theorem handOut_loads (w : World Connected) (r : Record) : w.Loads (handOut r w).2 := by
  let w₁ : World Connected :=
    { w with pool := (w.pool.add r).2, held := w.pool.cells.size :: w.held }
  rcases remember_cases w.store.opened w₁.isHeld r.guid w.pool.cells.size with ⟨-, hlive⟩
  refine ⟨rfl, ?_, ?_⟩
  -- The new handle is no handle of an older record.
  · intro h r' hr'
    exact (Pool.get?_add_of_lt w.pool r (Pool.get?_lt hr')).trans hr'
  · intro hbounded guid h hget
    show h < (w.pool.add r).2.cells.size
    simp only [Pool.size_add]
    rcases hlive guid h hget with ⟨-, rfl⟩ | hold
    · exact Nat.lt_succ_self _
    · exact Nat.lt_succ_of_lt (hbounded guid h hold)

/-- A new record is known under its own guid, and nothing else becomes known. -/
theorem handOut_apply (hw : w.Holds t) (hbounded : w.Bounded) (r : Record) : ∃ w',
    handOut r w = (.ok w.pool.cells.size, w') ∧ w'.Holds t ∧ w.Loads w' ∧
      w'.pool.get? w.pool.cells.size = some r ∧ Learns w w' r.guid w.pool.cells.size := by
  let w₁ : World Connected :=
    { w with pool := (w.pool.add r).2, held := w.pool.cells.size :: w.held }
  rcases remember_cases w.store.opened w₁.isHeld r.guid w.pool.cells.size with ⟨hclosed, hlive⟩
  refine ⟨(handOut r w).2, rfl, ⟨hclosed.trans hw.1, hw.2⟩, handOut_loads w r,
    Pool.get?_add_self w.pool r, ?_⟩
  intro guid h hknown
  simp only [live?_eq_some_iff] at hknown ⊢
  refine (hlive guid h hknown.1).imp_right fun hold => ⟨hold, ?_⟩
  -- Of the records that are held now, only the new one was not held before.
  have hlt := hbounded guid h hold
  have hheld : h ∈ w.pool.cells.size :: w.held := List.contains_iff_mem.mp hknown.2
  exact List.contains_iff_mem.mpr ((List.mem_cons.mp hheld).resolve_left (Nat.ne_of_lt hlt))

/-- What is known depends on what is held and on the opened store. -/
theorem live?_congr {w' : World Connected} (hheld : w'.held = w.held)
    (hopened : w'.store.opened = w.store.opened) (guid : Guid) : live? w' guid = live? w guid := by
  have hsame : w'.isHeld = w.isHeld := by
    funext i
    simp only [World.isHeld, hheld]
  simp only [live?, hopened, hsame]

theorem live?_beside {w' : World Connected} (h : w.Beside w') (guid : Guid) :
    live? w' guid = live? w guid :=
  live?_congr h.held h.opened guid

theorem entity_known {guid : Guid} {h : Handle} :
    live? w guid = some h → entity guid w = (.ok h, w) := by
  intro hknown
  simp only [entity, Act.bind_ok (a := Act.world) rfl, hknown]
  rfl

/-- An entity that is not known gets a new record. -/
theorem entity_apply (hw : w.Holds t) (ht : t.Keyed) (hbounded : w.Bounded) {guid : Guid}
    (hnone : live? w guid = none) : ∃ w',
      entity guid w = (.ok w.pool.cells.size, w') ∧ w'.Holds (t.made guid) ∧ w.Loads w' ∧
      w'.pool.get? w.pool.cells.size = some (t.record guid) ∧
      Learns w w' guid w.pool.cells.size := by
  rcases readOrCreate_apply hw guid with ⟨w₁, hread, hw₁, hbeside⟩
  rcases handOut_apply hw₁ (hbeside.loads.bounded hbounded) (t.record guid) with
    ⟨w', hout, hw', hloads, hget, hlearns⟩
  simp only [hbeside.pool, Contents.guid_record ht] at hout hget hlearns
  refine ⟨w', ?_, hw', hbeside.loads.trans hloads, hget, ?_⟩
  · simp only [entity, Act.bind_ok (a := Act.world) rfl, hnone]
    exact (Act.bind_ok hread).trans hout
  · intro guid' h hknown
    simp only [← live?_beside hbeside]
    exact hlearns guid' h hknown

/-! ## Several entities -/

/-- Entities that are not known get new records, one after the other. -/
theorem oneByOne_apply (guids : List Guid) :
    ∀ {w : World Connected} {t : Contents} (found : Dict Guid Handle), w.Holds t → t.Keyed →
      w.Bounded → guids.Nodup → (∀ guid ∈ guids, live? w guid = none) → ∃ found' w',
        Backend.oneByOne entity guids found w = (.ok found', w') ∧
        w'.Holds (t.makeAll guids) ∧ w.Loads w' ∧
        (∀ guid ∈ guids, ∃ h, found'.get? guid = some h ∧ w'.pool.get? h = some (t.record guid)) ∧
        ∀ guid, guid ∉ guids → found'.get? guid = found.get? guid := by
  induction guids with
  | nil =>
      intro w t found hw _ _ _ _
      exact ⟨found, w, rfl, hw, .refl w, by simp, fun _ _ => rfl⟩
  | cons guid rest ih =>
      intro w t found hw ht hbounded hnodup hnone
      rcases List.nodup_cons.mp hnodup with ⟨hguid, hnodup⟩
      -- The record of the first entity makes no other entity known.
      rcases entity_apply hw ht hbounded (hnone guid List.mem_cons_self) with
        ⟨w₁, hentity, hw₁, hloads, hget, hlearns⟩
      have hne : ∀ guid' ∈ rest, guid' ≠ guid := by
        rintro guid' hguid' rfl
        exact hguid hguid'
      obtain ⟨found', w', hrest, hw', hloads', hfound, hother⟩ :=
        ih (found.insert guid w.pool.cells.size) hw₁ (ht.made guid) (hloads.bounded hbounded) hnodup
          fun guid' hguid' => hlearns.none (hne guid' hguid')
            (hnone guid' (List.mem_cons_of_mem _ hguid'))
      refine ⟨found', w', ?_, hw', hloads.trans hloads', ?_, ?_⟩
      · simp only [Backend.oneByOne, Act.bind_ok hentity]
        exact hrest
      · intro guid' hguid'
        rcases List.mem_cons.mp hguid' with rfl | hrest'
        -- Later calls leave the first record in the pool and in the index.
        · refine ⟨w.pool.cells.size, ?_, hloads'.pool hget⟩
          simp only [hother guid' hguid, Dict.get?_insert_self]
        · rcases hfound guid' hrest' with ⟨h, hh, hr⟩
          simp only [Contents.record_made_of_ne (hne guid' hrest')] at hr
          exact ⟨h, hh, hr⟩
      · intro guid' hguid'
        simp only [List.mem_cons, not_or] at hguid'
        simp only [hother guid' hguid'.2, Dict.get?_insert, if_neg hguid'.1]

/-- Where nobody holds a record, nothing is known. -/
theorem live?_of_held (hheld : w.held = []) (guid : Guid) : live? w guid = none := by
  simp only [live?_eq_none_iff]
  intro h _
  simp only [World.isHeld, hheld]
  rfl

/-- Every entity that is asked for has a record. -/
theorem batch_apply (hw : w.Holds t) (ht : t.Keyed) (hbounded : w.Bounded) (hheld : w.held = [])
    (guids : KeySet Guid) : ∃ index w', batch guids w = (.ok index, w') ∧
      w'.Holds (t.makeAll guids.toList) ∧ w.Loads w' ∧
      (∀ guid, guids.mem guid = true →
        ∃ h, index.get? guid = some h ∧ w'.pool.get? h = some (t.record guid)) ∧
      ∀ guid, guids.mem guid = false → index.get? guid = none := by
  have hnone := live?_of_held hheld
  obtain ⟨index, w', hrun, hw', hloads, hfound, hother⟩ :=
    oneByOne_apply guids.toList .empty hw ht hbounded guids.nodup_toList fun guid _ => hnone guid
  -- No record is taken over from an earlier call.
  have hknown :
      guids.toList.filterMap (fun guid => (live? w guid).map (fun h => (guid, h))) = [] := by
    simp [hnone]
  have hunknown : guids.toList.filter (fun guid => (live? w guid).isNone) = guids.toList := by
    simp [hnone]
  refine ⟨index, w', ?_, hw', hloads, ?_, ?_⟩
  · simp only [batch, Act.bind_ok (a := Act.world) rfl, hknown, hunknown]
    exact hrun
  · intro guid hguid
    exact hfound guid ((KeySet.mem_iff_mem_toList _ _).mp hguid)
  · intro guid hguid
    refine hother guid ?_
    simp only [← KeySet.mem_iff_mem_toList, hguid]
    exact Bool.false_ne_true

/-! ## Saving -/

/-- A saved record is in the file, and no other one stays known in its place. -/
theorem save_apply (hw : w.Holds t) (hbounded : w.Bounded) {h : Handle} {r : Record}
    (hr : w.pool.get? h = some r) : ∃ w', save h w = (.ok (), w') ∧ w'.Holds (t.saved r) ∧
      w'.Bounded ∧ w'.pool = w.pool ∧ w'.now = w.now ∧
      ∀ guid i, live? w' guid = some i → live? w guid = some i ∧ (guid = r.guid → i = h) := by
  have hwrite := writeEntity_apply hw r
  -- Once the record is written, another one of the same entity is forgotten.
  let w₁ := w.withContents (t.saved r)
  let w₂ : World Connected := if (live? w₁ r.guid).any (· != h) then
    { w₁ with store := { w₁.store with opened := w₁.store.opened.forget r.guid } } else w₁
  have hsave : save h w = (.ok (), w₂) := by
    simp only [save, Act.bind_ok (a := Act.world) rfl, hr]
    exact (Act.bind_ok hwrite).trans rfl
  refine ⟨w₂, hsave, ?_⟩
  simp only [w₂]
  split
  · have hkept : ∀ guid i, (w.store.opened.live.erase r.guid).get? guid = some i →
        guid ≠ r.guid ∧ w.store.opened.live.get? guid = some i := by
      intro guid i hi
      simp only [Dict.get?_erase] at hi
      split at hi
      · cases hi
      · next hne => exact ⟨hne, hi⟩
    refine ⟨hw.withContents _, ?_, rfl, rfl, ?_⟩
    · intro guid i hi
      exact hbounded guid i (hkept guid i hi).2
    · intro guid i hi
      rcases live?_eq_some_iff.mp hi with ⟨hget, hheld⟩
      rcases hkept guid i hget with ⟨hne, hold⟩
      exact ⟨live?_eq_some_iff.mpr ⟨hold, hheld⟩, fun hguid => absurd hguid hne⟩
  · next hsame =>
      refine ⟨hw.withContents _, hbounded, rfl, rfl, ?_⟩
      intro guid i hi
      refine ⟨hi, ?_⟩
      rintro rfl
      simp only [hi, Option.any_some, bne_iff_ne] at hsame
      exact Decidable.not_not.mp hsame

/-- The records that are saved are in the file. -/
theorem saves_apply (handles : List Handle) :
    ∀ {w : World Connected} {t : Contents}, w.Holds t → w.Bounded →
      (∀ h ∈ handles, (w.pool.get? h).isSome = true) → ∃ w',
        Act.each backend.save handles w = (.ok (), w') ∧
        w'.Holds (t.saveAll (handles.filterMap w.pool.get?)) ∧ w'.Bounded ∧ w'.pool = w.pool ∧
        w'.now = w.now := by
  induction handles with
  | nil =>
      intro w t hw hbounded _
      exact ⟨w, rfl, hw, hbounded, rfl, rfl⟩
  | cons h rest ih =>
      intro w t hw hbounded hsome
      rcases Option.isSome_iff_exists.mp (hsome h List.mem_cons_self) with ⟨r, hr⟩
      rcases save_apply hw hbounded hr with ⟨w₁, hsave, hw₁, hbounded₁, hpool, hnow, -⟩
      obtain ⟨w', hrest, hw', hbounded', hpool', hnow'⟩ := ih hw₁ hbounded₁ fun h' hh' => by
        simp only [hpool]
        exact hsome h' (List.mem_cons_of_mem _ hh')
      refine ⟨w', ?_, ?_, hbounded', hpool'.trans hpool, hnow'.trans hnow⟩
      · exact (Act.each_cons (f := backend.save) rest hsave).trans hrest
      · simp only [hpool] at hw'
        simp only [List.filterMap_cons_some hr]
        exact hw'

/-! ## Looking up -/

/-- An entity that is not known is read from the file. -/
theorem find?_cases (hw : w.Holds t) (ht : t.Keyed) (hbounded : w.Bounded) {guid : Guid}
    (hnone : live? w guid = none) :
    (∃ e, t.find guid = .error e ∧ find? guid w = (.error e, w)) ∨
    (t.find guid = .ok none ∧ find? guid w = (.ok none, w)) ∨
    ∃ r h w', t.find guid = .ok (some r) ∧ find? guid w = (.ok (some h), w') ∧ w'.Holds t ∧
      w.Loads w' ∧ w'.pool.get? h = some r ∧ Learns w w' guid h := by
  have hread := readEntity_apply hw guid
  simp only [find?, Act.bind_ok (a := Act.world) rfl, hnone]
  cases hfind : t.find guid with
  | error e =>
      simp only [hfind] at hread
      exact Or.inl ⟨e, rfl, Act.bind_error hread⟩
  | ok stored =>
      simp only [hfind] at hread
      right
      cases stored with
      | none =>
          exact Or.inl ⟨rfl, (Act.bind_ok hread).trans rfl⟩
      | some r =>
          -- The row holds the entity that it is found under, so no other becomes known.
          have hguid : r.guid = guid := by
            have hrecord : t.record guid = r := by
              simp only [Contents.record, hfind]
            simp only [← hrecord]
            exact Contents.guid_record ht guid
          rcases handOut_apply hw hbounded r with ⟨w', hout, hw', hloads, hget, hlearns⟩
          simp only [hguid] at hlearns
          refine Or.inr ⟨r, w.pool.cells.size, w', rfl, ?_, hw', hloads, hget, hlearns⟩
          exact (Act.bind_ok hread).trans ((Act.bind_ok hout).trans rfl)

/-- What looking up several entities comes to: one of them cannot be decoded, or the stored ones are
found, besides those that were found before. -/
inductive Looked (t : Contents) (guids : List Guid) (found : Dict Guid Handle)
    (w : World Connected) : Except StoreError (Dict Guid Handle) → Prop
  | failed {e : StoreError} {guid : Guid} (hguid : guid ∈ guids)
      (hbad : (t.find guid).toOption = none) : Looked t guids found w (.error e)
  | done {found' : Dict Guid Handle}
      (hall : ∀ guid ∈ guids, t.find guid = .ok ((found'.get? guid).bind w.pool.get?))
      (hsame : ∀ guid, guid ∉ guids → found'.get? guid = found.get? guid) :
      Looked t guids found w (.ok found')

/-- One more entity was looked up before the others. -/
theorem Looked.cons {guid : Guid} {rest : List Guid} {found found₁ : Dict Guid Handle}
    {r : Except StoreError (Dict Guid Handle)} (h : Looked t rest found₁ w r) (hguid : guid ∉ rest)
    (hnow : t.find guid = .ok ((found₁.get? guid).bind w.pool.get?))
    (hother : ∀ guid', guid' ≠ guid → found₁.get? guid' = found.get? guid') :
    Looked t (guid :: rest) found w r := by
  cases h with
  | failed hrest hbad =>
      exact .failed (List.mem_cons_of_mem _ hrest) hbad
  | done hall hsame =>
      refine .done ?_ ?_
      · intro guid' hguid'
        rcases List.mem_cons.mp hguid' with rfl | hrest
        · simp only [hsame guid' hguid]
          exact hnow
        · exact hall guid' hrest
      · intro guid' hguid'
        simp only [List.mem_cons, not_or] at hguid'
        exact (hsame guid' hguid'.2).trans (hother guid' hguid'.1)

/-- Looking up several entities fails exactly if one of them cannot be decoded. -/
theorem findAll_apply (guids : List Guid) :
    ∀ {w : World Connected} (found : Dict Guid Handle), w.Holds t → t.Keyed → w.Bounded →
      guids.Nodup → (∀ guid ∈ guids, live? w guid = none ∧ found.get? guid = none) →
      ∃ r w', findAll guids found w = (r, w') ∧ w'.Holds t ∧ w.Loads w' ∧
        Looked t guids found w' r := by
  induction guids with
  | nil =>
      intro w found hw _ _ _ _
      exact ⟨_, w, rfl, hw, .refl w, .done (by simp) fun _ _ => rfl⟩
  | cons guid rest ih =>
      intro w found hw ht hbounded hnodup hnone
      rcases List.nodup_cons.mp hnodup with ⟨hguid, hnodup⟩
      have hne : ∀ guid' ∈ rest, guid' ≠ guid := by
        rintro guid' hguid' rfl
        exact hguid hguid'
      have hlater : ∀ guid' ∈ rest, live? w guid' = none ∧ found.get? guid' = none :=
        fun guid' hguid' => hnone guid' (List.mem_cons_of_mem _ hguid')
      rcases find?_cases hw ht hbounded (hnone guid List.mem_cons_self).1 with
        ⟨e, hfind, hrun⟩ | ⟨hfind, hrun⟩ | ⟨r, h, w₁, hfind, hrun, hw₁, hloads, hr, hlearns⟩
      -- The first entity cannot be decoded.
      · refine ⟨.error e, w, Act.bind_error hrun, hw, .refl w, .failed List.mem_cons_self ?_⟩
        simp only [hfind]
        rfl
      -- It is not stored, so nothing is found for it.
      · rcases ih found hw ht hbounded hnodup hlater with ⟨r, w', hrest, hw', hloads, hlooked⟩
        refine ⟨r, w', (Act.bind_ok hrun).trans hrest, hw', hloads, ?_⟩
        refine hlooked.cons hguid ?_ fun _ _ => rfl
        simp only [(hnone guid List.mem_cons_self).2, hfind]
        rfl
      -- It is stored, and its record is in the pool from now on.
      · have hlater₁ : ∀ guid' ∈ rest,
            live? w₁ guid' = none ∧ (found.insert guid h).get? guid' = none := by
          intro guid' hguid'
          refine ⟨hlearns.none (hne guid' hguid') (hlater guid' hguid').1, ?_⟩
          rw [Dict.get?_insert, if_neg (hne guid' hguid')]
          exact (hlater guid' hguid').2
        rcases ih (found.insert guid h) hw₁ ht (hloads.bounded hbounded) hnodup hlater₁ with
          ⟨answer, w', hrest, hw', hloads', hlooked⟩
        refine ⟨answer, w', (Act.bind_ok hrun).trans hrest, hw', hloads.trans hloads', ?_⟩
        refine hlooked.cons hguid ?_ fun guid' hguid' => ?_
        · rw [Dict.get?_insert_self, Option.bind_some, hloads'.pool hr, hfind]
        · rw [Dict.get?_insert, if_neg hguid']

end FileStore.Connected
end EntityCache
