import EntityCache.Proofs.Store.Handling
import EntityCache.Proofs.Store.Memory

/-!
# The dependents of an entity, and saving

What becomes of the dependents of an entity when a record of it is saved:

* `FileStore.Registered`: a query depended on the entity from the start, or as a saved record said.
* `FileStore.Listing`, `FileStore.Carries`: what the file and the known records say about
  dependents.
* `FileStore.account_dependents`: both stay true, whatever is done.
* `MemoryStore.keyed_handleAll`: whatever is done, a store in memory finds records under their
  guids.
* `dependents_after_save`: in a file, saving a record adds its dependents to those that were
  registered; in memory, those of a record from elsewhere take the place of what there was.
-/

namespace EntityCache

open Normalize FileStore

/-! ## In memory -/

namespace MemoryStore

variable {w : World MemoryStore}

theorem entity_known {guid : Guid} {h : Handle} :
    w.store.entities.get? guid = some h → entity guid w = (.ok h, w) := by
  intro hknown
  simp only [entity, Act.bind_ok (a := Act.world) rfl, hknown]
  rfl

/-- A record of the store is saved already, and a copy of any other one is added. -/
theorem save_cases {h : Handle} {r : Record} (hr : w.pool.get? h = some r) :
    (w.store.entities.get? r.guid = some h ∧ save h w = (.ok (), w)) ∨
      save h w = (.ok (), w.withRecords (w.records.add r.guid r)) := by
  by_cases hown : w.store.entities.get? r.guid = some h
  · refine Or.inl ⟨hown, ?_⟩
    simp only [save, Act.bind_ok (a := Act.world) rfl, hr, if_pos hown]
    rfl
  · right
    simp only [save, Act.bind_ok (a := Act.world) rfl, hr, if_neg hown]
    rfl

theorem keyed_save (hw : w.records.Keyed) (h : Handle) : (save h w).2.records.Keyed := by
  cases hr : w.pool.get? h with
  | none =>
      simp only [save, Act.bind_ok (a := Act.world) rfl, hr]
      exact hw
  | some r =>
      rcases save_cases hr with ⟨-, hsave⟩ | hsave
      · simp only [hsave]
        exact hw
      · simp only [hsave]
        exact hw.add r

theorem keyed_edit (hw : w.records.Keyed) (h : Handle) (edits : List Record.Edit) :
    (w.edit h edits).records.Keyed := by
  intro guid i hi
  rcases hw guid i hi with ⟨r, hr, hguid⟩
  by_cases hsame : h = i
  · subst hsame
    exact ⟨_, World.get?_edit_self edits hr, (Record.guid_editAll r edits).trans hguid⟩
  · exact ⟨r, (World.get?_edit_of_ne w edits hsame).trans hr, hguid⟩

/-- Whatever is done, the store finds each record under its own guid. -/
theorem keyed_handle (hw : w.records.Keyed) (s : Handling) :
    (backend.handle s w).records.Keyed := by
  cases s with
  | tree q =>
      have hrun : backend.handle (.tree q) w = (backend.tree? q w).2 := rfl
      rcases tree?_apply q w with ⟨-, hcall⟩ | ⟨e, -, hcall⟩
      · simp only [hrun, hcall]
        exact hw
      · simp only [hrun, hcall]
        exact hw
  | entity guid =>
      have hrun : backend.handle (.entity guid) w = (entity guid w).2 := rfl
      simp only [hrun, entity_apply]
      exact hw.fetch guid
  | batch guids =>
      have hrun : backend.handle (.batch guids) w = (backend.batch guids w).2 := rfl
      rcases batch_apply guids w with ⟨found, hcall, -⟩
      simp only [hrun, hcall]
      exact hw.fetchAll guids.toList
  | update h edits =>
      exact keyed_save (keyed_edit hw h edits) h
  | edit h edits =>
      exact keyed_edit hw h edits
  | build r =>
      -- A record that is built is at a new handle, so the others are found as before.
      intro guid h hh
      rcases hw guid h hh with ⟨r', hr', hguid⟩
      exact ⟨r', (Pool.get?_add_of_lt w.pool r (Pool.get?_lt hr')).trans hr', hguid⟩
  | _ =>
      exact hw

theorem keyed_handleAll (steps : List Handling) :
    ∀ {w : World MemoryStore}, w.records.Keyed → (backend.handleAll steps w).records.Keyed := by
  induction steps with
  | nil =>
      intro w hw
      exact hw
  | cons s rest ih =>
      intro w hw
      exact ih (keyed_handle hw s)

/-- The record that was saved last is the one that is handed out, or else it is equal to it. -/
theorem handsOut_saved {h : Handle} {r : Record} (hr : w.pool.get? h = some r) :
    backend.HandsOut (save h w).2 r.guid (fun after => after.dependents = r.dependents) := by
  rcases save_cases hr with ⟨hown, hsave⟩ | hsave
  · simp only [hsave]
    exact ⟨h, w, r, entity_known hown, hr, rfl, rfl⟩
  · simp only [hsave]
    have hknown := Dict.get?_insert_self w.store.entities r.guid w.pool.cells.size
    exact ⟨_, _, r, entity_known hknown, Pool.get?_add_self w.pool r, rfl, rfl⟩

/-- The dependents that an entity had are those of the record from now on. -/
theorem acrossSave (hw : w.records.Keyed) {h : Handle} {r : Record} (hr : w.pool.get? h = some r) :
    backend.AcrossSave h w r.guid (fun before after =>
      after.dependents = r.dependents ∧
      ((∀ q, before.dependents.mem q = true → after.dependents.mem q = true) ↔
        ∀ q, before.dependents.mem q = true → r.dependents.mem q = true)) := by
  refine ⟨?_, ?_⟩
  · show (save h w).1 = .ok ()
    rcases save_cases hr with ⟨-, hsave⟩ | hsave
    · simp only [hsave]
    · simp only [hsave]
  · have hhandle := RecordSet.handle?_fetch w.records r.guid
    rcases hw.fetch r.guid r.guid _ hhandle with ⟨before, hbefore, hguid⟩
    refine ⟨_, _, before, entity_apply r.guid w, hbefore, hguid, ?_⟩
    refine (handsOut_saved hr).imp ?_
    intro after _ hafter
    exact ⟨hafter, by simp only [hafter]⟩

end MemoryStore

/-! ## In a file -/

namespace FileStore

/-- Only entities with a row have dependents. -/
def Contents.Rowed (t : Contents) : Prop :=
  ∀ guid q, t.dependents.mem (guid, q) = true → (t.entities.get? guid).isSome = true

namespace Contents.Rowed

variable {t t' : Contents}

theorem aside (ht : t.Rowed) (hentities : t'.entities = t.entities)
    (hdependents : t'.dependents = t.dependents) : t'.Rowed := by
  intro guid q hq
  rw [hdependents] at hq
  rw [hentities]
  exact ht guid q hq

theorem made (ht : t.Rowed) (guid : Guid) : (t.made guid).Rowed := by
  intro guid' q hq
  rw [dependents_made] at hq
  have hrow := ht guid' q hq
  rwa [get?_made_of_isSome guid hrow]

theorem saved (ht : t.Rowed) (r : Record) : (t.saved r).Rowed := by
  intro guid q hq
  rw [get?_saved]
  split
  · rfl
  · next hne =>
      rcases (mem_dependents_saved r guid q).mp hq with hold | ⟨hsame, -⟩
      · exact ht guid q hold
      · exact absurd hsame hne

end Contents.Rowed

theorem Contents.rowed_empty : Contents.empty.Rowed := by
  intro guid q hq
  cases hq

/-- The query depends on the entity in the contents at the start, or in a record saved since. -/
def Registered (start : Contents) (log : List Record) (guid : Guid) (q : QueryKey) : Prop :=
  start.dependents.mem (guid, q) = true ∨ ∃ r ∈ log, guid = r.guid ∧ r.dependents.mem q = true

/-- The contents list what was registered. -/
structure Listing (start : Contents) (log : List Record) (t : Contents) : Prop where
  rowed : t.Rowed
  listed : ∀ guid q, t.dependents.mem (guid, q) = true ↔ Registered start log guid q

/-- The record knows what was registered, and nothing else if no change was left unsaved. -/
structure Carries (start : Contents) (clean : Prop) (log : List Record) (r : Record) : Prop where
  all : ∀ q, Registered start log r.guid q → r.dependents.mem q = true
  only : clean → ∀ q, r.dependents.mem q = true → Registered start log r.guid q

variable {start t : Contents} {log : List Record} {clean : Prop}

theorem registered_snoc {r : Record} {guid : Guid} {q : QueryKey} :
    Registered start (log ++ [r]) guid q ↔
      Registered start log guid q ∨ guid = r.guid ∧ r.dependents.mem q = true := by
  simp only [Registered, List.mem_append, List.mem_singleton, or_and_right, exists_or,
    exists_eq_left, or_assoc]

theorem listing_start (ht : start.Rowed) : Listing start [] start where
  rowed := ht
  listed guid q := by
    simp [Registered]

/-- The record of an entity has the dependents that are listed for it. -/
theorem Listing.mem_record (h : Listing start log t) (guid : Guid) (q : QueryKey) :
    (t.record guid).dependents.mem q = true ↔ Registered start log guid q := by
  calc
    (t.record guid).dependents.mem q = true ↔ t.Lists guid q :=
        Contents.mem_dependents_record guid q
    _ ↔ t.dependents.mem (guid, q) = true := and_iff_right_of_imp (h.rowed guid q)
    _ ↔ Registered start log guid q := h.listed guid q

theorem Listing.saved (h : Listing start log t) (r : Record) :
    Listing start (log ++ [r]) (t.saved r) where
  rowed := h.rowed.saved r
  listed guid q := by
    simp only [Contents.mem_dependents_saved, h.listed, registered_snoc]

/-- Whatever is done, the file lists what was registered, and the known records know it. -/
theorem account_dependents (start : Contents) (clean : Prop) :
    Account (fun _ => True) (Listing start) (Carries start clean) where
  aside := by
    intro log t t' hentities hdependents h
    refine ⟨h.rowed.aside hentities hdependents, ?_⟩
    simp only [hdependents]
    exact h.listed
  made := by
    intro log t guid h
    refine ⟨h.rowed.made guid, ?_⟩
    simp only [Contents.dependents_made]
    exact h.listed
  record := by
    intro log t guid ht h
    -- A record that is loaded knows whom its row lists, which is all that was registered.
    have hmem := h.mem_record guid
    have hguid := Contents.guid_record ht guid
    refine ⟨?_, ?_⟩
    · intro q hq
      exact (hmem q).mpr (hguid ▸ hq)
    · intro _ q hq
      exact hguid.symm ▸ (hmem q).mp hq
  saved _ h := h.saved _
  other := by
    intro log r s hne h
    refine ⟨?_, ?_⟩
    · intro q hq
      exact h.all q ((registered_snoc.mp hq).resolve_right fun hsame => hne hsame.1)
    · intro hclean q hq
      exact registered_snoc.mpr (Or.inl (h.only hclean q hq))
  own := by
    intro log r edits h
    refine ⟨?_, ?_⟩
    · intro q hq
      rcases registered_snoc.mp hq with hold | ⟨-, hnew⟩
      · simp only [Record.guid_editAll] at hold
        exact Record.mem_editAll edits (h.all q hold)
      · exact hnew
    · intro _ q hq
      exact registered_snoc.mpr (Or.inr ⟨rfl, hq⟩)

/-- Where changes may be left unsaved, only what a record knows is followed. -/
theorem lenient_carries (hclean : ¬ clean) : Lenient (Carries start clean) := by
  intro log r edits h
  refine ⟨?_, fun h => absurd h hclean⟩
  intro q hq
  simp only [Record.guid_editAll] at hq
  exact Record.mem_editAll edits (h.all q hq)

/-- After any steps, the file lists what was registered, and the known records know it.  A store may
be opened on such a file again. -/
theorem tracks_dependents {w : World Connected} {n : Nat} (hw : w.Holds start)
    (hopened : w.store.opened = .new n) (hkeyed : start.Keyed) (hrowed : start.Rowed)
    (steps : List Handling) : ∃ t,
      Tracks (Listing start) (Carries start (∀ s ∈ steps, s.isClean = true))
        (backend.saves steps w) (backend.handleAll steps w) t := by
  have hopen : Tracks (Listing start) (Carries start (∀ s ∈ steps, s.isClean = true)) [] w start :=
    .of_opened hw hopened hkeyed (listing_start hrowed)
  have hedit : (∀ s ∈ steps, s.isClean = true) ∨
      Lenient (Carries start (∀ s ∈ steps, s.isClean = true)) := by
    by_cases hclean : ∀ s ∈ steps, s.isClean = true
    · exact Or.inl hclean
    · exact Or.inr (lenient_carries hclean)
  exact hopen.handleAll (account_dependents start _) steps (fun _ _ => trivial) hedit

/-- A saved record has its dependents and those that were registered, and so has the record that is
handed out next. -/
theorem handsOut_saved {w : World Connected}
    (h : Tracks (Listing start) (Carries start clean) log w t) {i : Handle} {r : Record}
    (hr : w.pool.get? i = some r) :
    (backend.save i w).1 = .ok () ∧
      backend.HandsOut (backend.save i w).2 r.guid (fun after => ∀ q,
        after.dependents.mem q = true ↔
          Registered start log r.guid q ∨ r.dependents.mem q = true) := by
  rcases Connected.save_apply h.holds h.bounded hr with ⟨w', hrun, hw', hbounded, hpool, -, hlive⟩
  have hrun' : backend.save i w = (.ok (), w') := hrun
  simp only [hrun', true_and]
  cases hknown : Connected.live? w' r.guid with
  -- The entity is read from the file.
  | none =>
      have hkeyed := h.keyed.saved r
      rcases Connected.entity_apply hw' hkeyed hbounded hknown with
        ⟨w'', hentity, -, -, hget, -⟩
      refine ⟨_, w'', _, hentity, hget, Contents.guid_record hkeyed r.guid, ?_⟩
      intro q
      simp only [(h.contents.saved r).mem_record, registered_snoc, true_and]
  -- The entity is known, so the saved record itself is known, and was before.
  | some j =>
      rcases hlive r.guid j hknown with ⟨hold, hsame⟩
      cases hsame rfl
      rcases h.known hold with ⟨s, hs, -, hcarries⟩
      simp only [hr, Option.some.injEq] at hs
      subst hs
      have hr' : w'.pool.get? i = some r := by
        simp only [hpool]
        exact hr
      refine ⟨i, w', r, Connected.entity_known hknown, hr', rfl, ?_⟩
      intro q
      exact ⟨Or.inr, fun hq => hq.elim (hcarries.all q) id⟩

/-- Nothing that was registered is forgotten, and nothing at all if no change was left unsaved. -/
theorem acrossSave {w : World Connected}
    (h : Tracks (Listing start) (Carries start clean) log w t) {i : Handle} {r : Record}
    (hr : w.pool.get? i = some r) :
    backend.AcrossSave i w r.guid (fun before after =>
      (∀ q, after.dependents.mem q = true ↔
        Registered start log r.guid q ∨ r.dependents.mem q = true) ∧
      (clean → ∀ q, after.dependents.mem q = true ↔
        before.dependents.mem q = true ∨ r.dependents.mem q = true)) := by
  rcases handsOut_saved h hr with ⟨hsave, hafter⟩
  refine ⟨hsave, ?_⟩
  refine (h.handsOut (account_dependents start clean) r.guid).imp ?_
  intro before hguid hbefore
  refine hafter.imp ?_
  intro after _ hmem
  refine ⟨hmem, fun hclean q => ?_⟩
  have hsame : Registered start log r.guid q ↔ before.dependents.mem q = true := by
    simp only [← hguid]
    exact ⟨hbefore.all q, hbefore.only hclean q⟩
  simp only [hmem, hsame]

end FileStore

/-! ## In either store -/

/-- What becomes of the dependents of an entity when a record of it is saved, after any steps with a
store that was opened before.

In memory the entity has those of the record afterwards: none that it had is forgotten exactly if
the record has them all.  In a file it has those of the record and all that were registered, so none
that it had is forgotten as long as every change of a record was saved. -/
theorem dependents_after_save {m : World MemoryStore} (hm : m.store.entities = .empty)
    (ms : List Handling) {h : Handle} {r : Record}
    (hr : (MemoryStore.backend.handleAll ms m).pool.get? h = some r)
    {w : World Connected} {start : Contents} {n : Nat} (hw : w.Holds start)
    (hopened : w.store.opened = .new n) (hkeyed : start.Keyed) (hrowed : start.Rowed)
    (fs : List Handling) {i : Handle} {s : Record}
    (hs : (FileStore.backend.handleAll fs w).pool.get? i = some s) :
    MemoryStore.backend.AcrossSave h (MemoryStore.backend.handleAll ms m) r.guid
      (fun before after => after.dependents = r.dependents ∧
        ((∀ q, before.dependents.mem q = true → after.dependents.mem q = true) ↔
          ∀ q, before.dependents.mem q = true → r.dependents.mem q = true)) ∧
    FileStore.backend.AcrossSave i (FileStore.backend.handleAll fs w) s.guid
      (fun before after =>
        (∀ q, after.dependents.mem q = true ↔
          Registered start (FileStore.backend.saves fs w) s.guid q ∨ s.dependents.mem q = true) ∧
        ((∀ step ∈ fs, step.isClean = true) → ∀ q, after.dependents.mem q = true ↔
          before.dependents.mem q = true ∨ s.dependents.mem q = true)) := by
  have hempty : m.records.Keyed := RecordSet.keyed_of_index_empty hm
  rcases tracks_dependents hw hopened hkeyed hrowed fs with ⟨t, htracks⟩
  exact ⟨MemoryStore.acrossSave (MemoryStore.keyed_handleAll ms hempty) hr, acrossSave htracks hs⟩

/-- A record that was made outside the stores. -/
def foreignRecord : Record :=
  ⟨"G1", Dict.ofList [("x", .num (.int 2))], KeySet.ofKeys ["Q2"]⟩

/-- A store that was just opened on an empty file. -/
def emptyFile : World Connected :=
  ⟨.empty, [], [], 0, ⟨.new 0, ⟨Contents.empty.tables, .blank⟩⟩⟩

/-- A store in memory that was just made. -/
def emptyMemory : World MemoryStore :=
  ⟨.empty, [], [], 0, .empty⟩

/-- A record is changed for one query and saved, and another one of the same entity is made. -/
def foreignSteps : List Handling :=
  [.entity "G1", .update 0 [.put "x" (.num (.int 1)) (some "Q1")], .build foreignRecord]

/-- The entity has the first query.  Saved in memory, the second record makes it forget that query;
in a file it does not. -/
theorem dependents_after_save_foreign :
    MemoryStore.backend.HandsOut (MemoryStore.backend.handleAll foreignSteps emptyMemory) "G1"
      (fun before => before.dependents.mem "Q1" = true) ∧
    MemoryStore.backend.AcrossSave 1 (MemoryStore.backend.handleAll foreignSteps emptyMemory) "G1"
      (fun _ after => after.dependents.mem "Q1" = false) ∧
    FileStore.backend.AcrossSave 1 (FileStore.backend.handleAll foreignSteps emptyFile) "G1"
      (fun _ after => after.dependents.mem "Q1" = true ∧ after.dependents.mem "Q2" = true) := by
  have hholds : emptyFile.Holds .empty := ⟨rfl, rfl⟩
  have hsave := dependents_after_save (m := emptyMemory) rfl foreignSteps (h := 1)
    (r := foreignRecord) rfl hholds rfl Contents.keyed_empty Contents.rowed_empty foreignSteps
    (i := 1) (s := foreignRecord) rfl
  refine ⟨⟨0, _, _, rfl, rfl, rfl, rfl⟩, hsave.1.imp ?_, hsave.2.imp ?_⟩
  · intro before after hafter
    simp only [hafter.1]
    rfl
  · intro before after hafter
    refine ⟨(hafter.1 "Q1").mpr (Or.inl (Or.inr ?_)), (hafter.1 "Q2").mpr (Or.inr rfl)⟩
    exact ⟨_, List.mem_singleton_self _, rfl, rfl⟩

end EntityCache
