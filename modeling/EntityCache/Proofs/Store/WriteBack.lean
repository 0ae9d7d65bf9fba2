import EntityCache.Proofs.Normalize.AtHand
import EntityCache.Proofs.Store.File
import EntityCache.Store.Memory

/-!
# What is written back

Before a result is split the store is asked for the records of all ids within it, and afterwards it
is to save those that were touched:

* `RecordCall`, `Backend.logged`: a log of these calls, which changes nothing else.
* `Backend.Answers`: a store none of whose calls about records fails.
* `Backend.Writing`: what is returned, changed and saved when a result is absorbed.
* `Backend.written_back`: so for every store in memory, and for every file with arbitrary rows.

A file may hold rows whose records call themselves alike.  Of those only the one that is left last
is saved; where there are none, every record that is changed is saved once.
-/

namespace EntityCache

open Normalize

variable {σ α : Type}

/-! ## A log of the calls -/

/-- A call that is about records. -/
inductive RecordCall where
  /-- Records were asked for, and these were returned. -/
  | returned (guids : KeySet Guid) (index : Dict Guid Handle)
  /-- A record was passed to the store to be saved. -/
  | saved (h : Handle)

/-- The world with a log beside its stores. -/
def World.withLog (w : World σ) (calls : List RecordCall) : World (σ × List RecordCall) :=
  w.withStore (w.store, calls)

namespace Act

/-- A call on the stores beside the log. -/
def besideLog (a : Act σ α) : Act (σ × List RecordCall) α :=
  a.zoom Prod.fst (fun t s => (s, t.2))

def log (c : RecordCall) : Act (σ × List RecordCall) Unit :=
  .update (fun w => { w with store := (w.store.1, w.store.2 ++ [c]) })

theorem besideLog_apply {a : Act σ α} {w w' : World σ} {r : Except StoreError α}
    (h : a w = (r, w')) (calls : List RecordCall) :
    a.besideLog (w.withLog calls) = (r, w'.withLog calls) := by
  have hrun : a.besideLog (w.withLog calls) = ((a w).1, (a w).2.withLog calls) := rfl
  rw [hrun, h]

theorem log_apply (c : RecordCall) (w : World σ) (calls : List RecordCall) :
    log c (w.withLog calls) = (.ok (), w.withLog (calls ++ [c])) := rfl

end Act

namespace Backend

/-- The backend with a log of the records that it returns and of those that it is to save. -/
def logged (b : Backend σ) : Backend (σ × List RecordCall) :=
  { b.zoom Prod.fst (fun t s => (s, t.2)) with
    save := fun h => do
      .log (.saved h)
      (b.save h).besideLog
    batch := fun guids => do
      let index ← (b.batch guids).besideLog
      .log (.returned guids index)
      pure index }

variable {b : Backend σ} {w w' : World σ} {index : Dict Guid Handle} {v : Value} {ids : IdIndex}
  {requestor : Option QueryKey}

theorem batch_logged {guids : KeySet Guid} (h : b.batch guids w = (.ok index, w'))
    (calls : List RecordCall) : b.logged.batch guids (w.withLog calls) =
      (.ok index, w'.withLog (calls ++ [.returned guids index])) :=
  Act.bind_ok (Act.besideLog_apply h calls)

theorem save_logged {h : Handle} (hsave : b.save h w = (.ok (), w')) (calls : List RecordCall) :
    b.logged.save h (w.withLog calls) = (.ok (), w'.withLog (calls ++ [.saved h])) :=
  (Act.bind_ok (Act.log_apply (.saved h) w calls)).trans (Act.besideLog_apply hsave _)

/-! ## Stores that answer -/

/-- On stores of which `P` holds no call about records fails, and every guid that is asked for gets
a record. -/
structure Answers (b : Backend σ) (P : σ → Prop) : Prop where
  batch : ∀ guids w, P w.store → ∃ index w', b.batch guids w = (.ok index, w') ∧ P w'.store ∧
    ∀ guid, (index.get? guid).isSome = guids.mem guid
  save : ∀ h w, P w.store → ∃ w', b.save h w = (.ok (), w') ∧ P w'.store

/-- Records are saved one by one, and every one that is passed to the store is in the log. -/
theorem Answers.each_save {P : σ → Prop} (hb : b.Answers P) (handles : List Handle) :
    ∀ (w : World σ) (calls : List RecordCall), P w.store → ∃ w' : World σ,
      Act.each b.save handles w = (.ok (), w') ∧
      Act.each b.logged.save handles (w.withLog calls) =
        (.ok (), w'.withLog (calls ++ handles.map .saved)) := by
  induction handles with
  | nil =>
      intro w calls _
      refine ⟨w, rfl, ?_⟩
      rw [List.map_nil, List.append_nil]
      rfl
  | cons h rest ih =>
      intro w calls hw
      rcases hb.save h w hw with ⟨w₁, hsave, hw₁⟩
      rcases ih w₁ (calls ++ [.saved h]) hw₁ with ⟨w', hrest, hrest'⟩
      refine ⟨w', (Act.each_cons rest hsave).trans hrest, ?_⟩
      rw [Act.each_cons rest (save_logged hsave calls), hrest', List.map_cons,
        List.append_assoc, List.singleton_append]

/-! ## Absorbing a result -/

/-- What happens to records while a result is absorbed: `index` leads to those that are returned,
`w₁` is the world in which the result is split, and `saved` are those that are passed to the store
afterwards. -/
structure Writing (b : Backend σ) (v : Value) (ids : IdIndex) (requestor : Option QueryKey)
    (w : World σ) (index : Dict Guid Handle) (w₁ : World σ) (r : Except StoreError Pass)
    (w' : World σ) (saved : List Handle) : Prop where
  /-- The records of all ids within the result are asked for and returned. -/
  batch : b.batch (idsWithin ids v) w = (.ok index, w₁)
  returned : ∀ guid, (index.get? guid).isSome = (idsWithin ids v).mem guid
  absorb : b.absorb v ids requestor w = (r, w')
  /-- There are no other calls than this one and those for the records that are saved. -/
  calls : b.logged.absorb v ids requestor (w.withLog []) =
    (r, w'.withLog (.returned (idsWithin ids v) index :: saved.map .saved))
  /-- An object is absorbed; only returned records are changed, and the touched ones are saved. -/
  object : ∀ fields, v = .map fields → ∃ pass, r = .ok pass ∧
    pass.Supplied ids fields ⟨w₁.pool, index⟩ ∧ saved = pass.touched.values
  /-- Anything else is refused; no record is changed or saved. -/
  other : v.isMap = false → (∃ e, r = .error e) ∧ w'.pool = w₁.pool ∧ saved = []

/-- A store that answers its calls writes back what a result changes. -/
theorem Answers.writing {P : σ → Prop} (hb : b.Answers P) (hw : P w.store) (v : Value)
    (ids : IdIndex) (requestor : Option QueryKey) :
    ∃ index w₁ r w' saved, b.Writing v ids requestor w index w₁ r w' saved := by
  rcases hb.batch (idsWithin ids v) w hw with ⟨index, w₁, hbatch, hw₁, hreturned⟩
  have hbatch' : b.logged.batch (idsWithin ids v) (w.withLog []) =
      (.ok index, w₁.withLog [.returned (idsWithin ids v) index]) := batch_logged hbatch []
  by_cases hv : v.isMap = true
  · rcases exists_fields_of_isMap hv with ⟨fields, rfl⟩
    -- Every entity of the object was asked for.
    have hall : ∀ guid ∈ entitiesOf ids fields,
        ((RecordSet.mk w₁.pool index).handle? guid).isSome = true := by
      intro guid hguid
      exact (hreturned guid).trans
        ((KeySet.mem_iff_mem_toList _ _).mpr (mem_idsWithin_of_mem_entitiesOf hguid))
    rcases Pass.supplied ids fields requestor hall with ⟨pass, hrun, hpass⟩
    have hsplit : splitOver (.map fields) ids index requestor w₁ =
        (.ok pass, { w₁ with pool := pass.records.pool }) := splitOver_of_run hrun
    rcases hb.each_save pass.touched.values { w₁ with pool := pass.records.pool }
      [.returned (idsWithin ids (.map fields)) index] hw₁ with ⟨w₃, hsave, hsave'⟩
    have hsplit' : splitOver (.map fields) ids index requestor
        (w₁.withLog [.returned (idsWithin ids (.map fields)) index]) =
          (.ok pass, ({ w₁ with pool := pass.records.pool } : World σ).withLog
            [.returned (idsWithin ids (.map fields)) index]) := splitOver_of_run hrun
    refine ⟨index, w₁, _, _, pass.touched.values, hbatch, hreturned,
      absorb_of_saved hbatch hsplit hsave, ?_, ?_, ?_⟩
    · exact absorb_of_saved hbatch' hsplit' hsave'
    · intro fields' hfields
      cases hfields
      exact ⟨pass, rfl, hpass, rfl⟩
    · intro hother
      cases hother
  · have hother : v.isMap = false := Bool.eq_false_iff.mpr hv
    refine ⟨index, w₁, _, _, [], hbatch, hreturned,
      absorb_of_refused hbatch (splitOver_of_other hother), ?_, ?_, ?_⟩
    · exact absorb_of_refused hbatch' (splitOver_of_other hother)
    · rintro fields rfl
      cases hother
    · intro _
      exact ⟨⟨_, rfl⟩, rfl, rfl⟩

/-! ## Both kinds of stores -/

/-- Asking for one record after the other. -/
theorem oneByOne_returns {P : σ → Prop} {entity : Guid → Act σ Handle}
    (hentity : ∀ guid w, P w.store → ∃ h w', entity guid w = (.ok h, w') ∧ P w'.store)
    (guids : List Guid) : ∀ (found : Dict Guid Handle) (w : World σ), P w.store →
      ∃ index w', oneByOne entity guids found w = (.ok index, w') ∧ P w'.store ∧
        ∀ guid, (index.get? guid).isSome =
          (decide (guid ∈ guids) || (found.get? guid).isSome) := by
  induction guids with
  | nil =>
      intro found w hw
      exact ⟨found, w, rfl, hw, fun guid => by simp⟩
  | cons first rest ih =>
      intro found w hw
      rcases hentity first w hw with ⟨h, w₁, hfirst, hw₁⟩
      rcases ih (found.insert first h) w₁ hw₁ with ⟨index, w', hrest, hw', hindex⟩
      refine ⟨index, w', (Act.bind_ok hfirst).trans hrest, hw', fun guid => ?_⟩
      rw [hindex, Dict.get?_insert]
      by_cases hguid : guid = first <;> simp [hguid]

/-- So every member of a set gets a record, and nothing else does. -/
theorem oneByOne_all {P : σ → Prop} {entity : Guid → Act σ Handle}
    (hentity : ∀ guid w, P w.store → ∃ h w', entity guid w = (.ok h, w') ∧ P w'.store)
    (guids : KeySet Guid) (w : World σ) (hw : P w.store) :
    ∃ index w', oneByOne entity guids.toList .empty w = (.ok index, w') ∧ P w'.store ∧
      ∀ guid, (index.get? guid).isSome = guids.mem guid := by
  rcases oneByOne_returns hentity guids.toList .empty w hw with ⟨index, w', hrun, hw', hindex⟩
  refine ⟨index, w', hrun, hw', fun guid => ?_⟩
  rw [hindex, Dict.get?_empty, Option.isSome_none, Bool.or_false]
  simp only [← KeySet.mem_iff_mem_toList, Bool.decide_eq_true]

end Backend

/-- No call on a store in memory fails. -/
theorem MemoryStore.answers : MemoryStore.backend.Answers (fun _ => True) where
  batch guids w _ := by
    -- An entity is found or made, so loading several never fails.
    have hentity : ∀ guid (w : World MemoryStore), True →
        ∃ h w', MemoryStore.entity guid w = (.ok h, w') ∧ True := by
      intro guid w _
      simp only [entity, Act.bind_ok (a := Act.world) rfl]
      cases w.store.entities.get? guid with
      | some h =>
          exact ⟨h, w, rfl, trivial⟩
      | none =>
          exact ⟨_, _, rfl, trivial⟩
    exact Backend.oneByOne_all (P := fun _ => True) hentity guids w trivial
  save h w _ := by
    have hsave : ∃ w', MemoryStore.save h w = (.ok (), w') := by
      simp only [save, Act.bind_ok (a := Act.world) rfl]
      cases w.pool.get? h with
      | none =>
          exact ⟨w, rfl⟩
      | some r =>
          simp only
          split
          · exact ⟨w, rfl⟩
          · exact ⟨_, rfl⟩
    rcases hsave with ⟨w', hsave⟩
    exact ⟨w', hsave, trivial⟩

namespace FileStore.Connected

/-- The store is open, and its file has all tables, whatever is in them. -/
def Usable (c : Connected) : Prop :=
  ∃ t : Contents, c.opened.closed = false ∧ c.state.tables = t.tables

theorem exists_handOut (r : Record) (w : World Connected) (hw : Usable w.store) :
    ∃ h w', handOut r w = (.ok h, w') ∧ Usable w'.store := by
  rcases hw with ⟨t, hopen, htables⟩
  refine ⟨_, _, rfl, t, ?_, htables⟩
  exact (remember_cases w.store.opened _ r.guid w.pool.cells.size).1.trans hopen

theorem exists_entity (guid : Guid) (w : World Connected) (hw : Usable w.store) :
    ∃ h w', entity guid w = (.ok h, w') ∧ Usable w'.store := by
  cases hlive : live? w guid with
  | some h =>
      exact ⟨h, w, entity_known hlive, hw⟩
  | none =>
      rcases hw with ⟨t, ht⟩
      rcases readOrCreate_apply (w := w) ht guid with ⟨w₁, hread, hw₁, -⟩
      rcases exists_handOut (t.record guid) w₁ ⟨_, hw₁⟩ with ⟨h, w', hout, hw'⟩
      refine ⟨h, w', ?_, hw'⟩
      simp only [entity, Act.bind_ok (a := Act.world) rfl, hlive]
      exact (Act.bind_ok hread).trans hout

theorem exists_save (h : Handle) (w : World Connected) (hw : Usable w.store) :
    ∃ w', save h w = (.ok (), w') ∧ Usable w'.store := by
  rcases hw with ⟨t, ht⟩
  -- A handle without record is passed over; saving a record succeeds on a file in use.
  cases hr : w.pool.get? h with
  | none =>
      refine ⟨w, ?_, t, ht⟩
      simp only [save, Act.bind_ok (a := Act.world) rfl, hr]
      rfl
  | some r =>
      have hwrite := writeEntity_apply (w := w) ht r
      let w₁ := w.withContents (t.saved r)
      have hsave : save h w = (.ok (), if (live? w₁ r.guid).any (· != h) then
          { w₁ with store := { w₁.store with opened := w₁.store.opened.forget r.guid } }
          else w₁) := by
        simp only [save, Act.bind_ok (a := Act.world) rfl, hr]
        exact (Act.bind_ok hwrite).trans rfl
      refine ⟨_, hsave, t.saved r, ?_⟩
      split
      · exact ⟨ht.1, rfl⟩
      · exact ⟨ht.1, rfl⟩

/-- What is known of several entities. -/
theorem get?_known (w : World Connected) (guids : KeySet Guid) (guid : Guid) :
    (Dict.ofList (guids.toList.filterMap
      (fun guid => (live? w guid).map (fun h => (guid, h))))).get? guid =
        if guids.mem guid = true then live? w guid else none := by
  have hform : guids.toList.filterMap (fun guid => (live? w guid).map (fun h => (guid, h))) =
      Assoc.filterMap (fun guid _ => live? w guid) guids.bindings := by
    rw [KeySet.toList, Dict.keys, List.filterMap_map]
    rfl
  have hsorted := guids.sorted.filterMap (fun guid _ => live? w guid)
  show Assoc.get? guid (Assoc.ofList _) = _
  rw [hform, Assoc.ofList_of_sorted hsorted, Assoc.get?_filterMap guids.sorted]
  show (Dict.get? guids guid).bind _ = _
  cases hget : Dict.get? guids guid with
  | none =>
      rw [if_neg (by simp only [KeySet.mem, Dict.contains, hget]; decide)]
      rfl
  | some u =>
      rw [if_pos (by simp only [KeySet.mem, Dict.contains, hget]; rfl)]
      rfl

end FileStore.Connected

/-- While a file can be used no call on it fails, whatever its rows hold. -/
theorem FileStore.answers : FileStore.backend.Answers Connected.Usable where
  batch guids w hw := by
    let known := guids.toList.filterMap
      (fun guid => (Connected.live? w guid).map (fun h => (guid, h)))
    let unknown := guids.toList.filter (fun guid => (Connected.live? w guid).isNone)
    rcases Backend.oneByOne_returns Connected.exists_entity unknown (.ofList known) w hw with
      ⟨index, w', hrun, hw', hindex⟩
    have hbatch : Connected.batch guids w = (.ok index, w') := by
      simp only [Connected.batch, Act.bind_ok (a := Act.world) rfl]
      exact hrun
    refine ⟨index, w', hbatch, hw', fun guid => ?_⟩
    rw [hindex, Connected.get?_known]
    simp only [unknown, List.mem_filter, ← KeySet.mem_iff_mem_toList]
    -- A guid that is asked for has a record at hand or has none.
    cases guids.mem guid <;> cases Connected.live? w guid <;> rfl
  save := Connected.exists_save

/-- Whatever the result is, a store returns the records of all ids within it, these are the only
ones that are changed, and those that are touched are saved: for every store in memory, and for
every open file that has its tables, with arbitrary rows and records that somebody holds. -/
theorem Backend.written_back (v : Value) (ids : IdIndex) (requestor : Option QueryKey) :
    (∀ w, ∃ index w₁ r w' saved,
      MemoryStore.backend.Writing v ids requestor w index w₁ r w' saved) ∧
    ∀ w t, w.Holds t → ∃ index w₁ r w' saved,
      FileStore.backend.Writing v ids requestor w index w₁ r w' saved := by
  refine ⟨fun w => ?_, fun w t hw => ?_⟩
  · exact MemoryStore.answers.writing trivial v ids requestor
  · exact FileStore.answers.writing ⟨t, hw⟩ v ids requestor

/-- Two entities. -/
def twinFields : List (String × Value) :=
  [("a", .map [("x", .num (.int 1))]), ("b", .map [("y", .num (.int 2))])]

def twinIds : IdIndex :=
  ⟨(Dict.empty.insert (Path.root.field "a") "P1").insert (Path.root.field "b") "P2"⟩

/-- A file in which the row of the second one holds the first one, too. -/
def twinContents : FileStore.Contents :=
  ⟨.empty,
    .ofList [("P1", (Snapshot.text ⟨"P1", .ofList [("n", .num (.int 1))]⟩).toUTF8),
      ("P2", (Snapshot.text ⟨"P1", .ofList [("m", .num (.int 2))]⟩).toUTF8)],
    .empty⟩

def twinWorld : World FileStore.Connected :=
  ⟨.empty, [], [], 0, ⟨.new 0, ⟨twinContents.tables, .blank⟩⟩⟩

/-- Both records are changed, and only the second one is saved. -/
theorem Backend.written_back_twin : twinWorld.Holds twinContents ∧
    ∃ index w₁ pass w', FileStore.backend.Writing (.map twinFields) twinIds (some "Q") twinWorld
      index w₁ (.ok pass) w' [1] ∧ pass.Changes ⟨w₁.pool, index⟩ 0 ∧
        pass.Changes ⟨w₁.pool, index⟩ 1 := by
  have hholds : twinWorld.Holds twinContents := ⟨rfl, rfl⟩
  rcases (Backend.written_back (.map twinFields) twinIds (some "Q")).2 twinWorld twinContents hholds
    with ⟨index, w₁, r, w', saved, h⟩
  rcases h.object twinFields rfl with ⟨pass, rfl, -, rfl⟩
  have hbefore : (List.range 2).map (fun i => (w₁.pool.get? i).map (fun r => r.fields.size)) =
      [some 1, some 1] := by
    have hpool : (FileStore.backend.batch (idsWithin twinIds (.map twinFields)) twinWorld).2.pool =
        w₁.pool := congrArg (fun x => x.2.pool) h.batch
    rw [← hpool]
    decide +kernel
  have hafter : (List.range 2).map
      (fun i => (pass.records.pool.get? i).map (fun r => r.fields.size)) = [some 2, some 2] ∧
      pass.touched.values = [1] := by
    have hpass : (FileStore.backend.absorb (.map twinFields) twinIds (some "Q") twinWorld).1 =
        .ok pass := congrArg Prod.fst h.absorb
    have hvalue : (FileStore.backend.absorb (.map twinFields) twinIds (some "Q")
        twinWorld).1.toOption.map (fun pass => ((List.range 2).map
          (fun i => (pass.records.pool.get? i).map (fun r => r.fields.size)),
          pass.touched.values)) = some ([some 2, some 2], [1]) := by
      decide +kernel
    rw [hpass] at hvalue
    exact Prod.mk.inj (Option.some.inj hvalue)
  simp only [List.range, List.range.loop, List.map_cons, List.map_nil, List.cons.injEq,
    and_true] at hbefore hafter
  refine ⟨hholds, index, w₁, pass, w', hafter.2 ▸ h, ?_, ?_⟩
  · intro hsame
    rw [hsame, hbefore.1] at hafter
    cases hafter.1.1
  · intro hsame
    rw [hsame, hbefore.2] at hafter
    cases hafter.1.2

end EntityCache
