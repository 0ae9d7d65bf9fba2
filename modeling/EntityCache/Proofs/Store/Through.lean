import EntityCache.Proofs.Store.Within

/-!
# One store among all stores

* `FileStore.Tied`: an opened store stays on its file, and the file stays in use.
* `FileStore.within`, `MemoryStore.within`: how far the calls of each kind of store go.
* `StoreId.Through`: what may happen to all stores through one of them.
* `StoreRef.through`, `Cache.through`: an operation through a store does no more than that.
-/

namespace EntityCache

open Normalize

variable {σ τ α β : Type}

/-! ## Stores in files -/

namespace FileStore

/-- What the calls of an opened store keep: its file, whether it is closed and whether the file has
a log.  No record goes away, and every known one exists. -/
structure Tied (w w' : World Connected) : Prop where
  pool : w.pool.cells.size ≤ w'.pool.cells.size
  bounded : w.Bounded → w'.Bounded
  file : w'.store.opened.file = w.store.opened.file
  closed : w'.store.opened.closed = w.store.opened.closed
  log : w'.store.state.log = .absent ↔ w.store.state.log = .absent

theorem frame_tied : Frame Tied where
  refl w := ⟨Nat.le_refl _, fun h => h, rfl, rfl, Iff.rfl⟩
  trans h h' := ⟨Nat.le_trans h.pool h'.pool, fun hw => h'.bounded (h.bounded hw),
    h'.file.trans h.file, h'.closed.trans h.closed, h'.log.trans h.log⟩
  aside := by
    intro w w' hstore hpool
    refine ⟨hpool, ?_, by rw [hstore], by rw [hstore], by rw [hstore]⟩
    intro hbounded guid h hlive
    rw [hstore] at hlive
    exact Nat.lt_of_lt_of_le (hbounded guid h hlive) hpool

theorem composes_tied : Composes (Tidy Tied) :=
  frame_tied.toComposes.tidy

theorem closed_tied : Act.Closed (fun m => Within (Tidy Tied) m) :=
  Act.closed_within composes_tied

namespace Connected

/-- A change of the tables goes into the log that is there, if there is one. -/
theorem within_change (f : Tables → Option Tables) : Within (Tidy Tied) (change f) := by
  refine .bind composes_tied (closed_table closed_tied f) fun tables w => ⟨?_, rfl⟩
  exact ⟨Nat.le_refl _, fun h => h, rfl, rfl, ChangeLog.append_eq_absent_iff⟩

theorem within_writeEntity (r : Record) : Within (Tidy Tied) (writeEntity r) :=
  .bind composes_tied (.ofExcept composes_tied _) fun _ => within_change _

theorem within_readOrCreate : ∀ guid, Within (Tidy Tied) (readOrCreate guid) :=
  closed_readOrCreate closed_tied within_writeEntity (.report frame_tied _)

/-! ### Records -/

theorem file_remember (s : FileStore) (held : Handle → Bool) (guid : Guid) (h : Handle) :
    (s.remember held guid h).file = s.file := by
  simp only [remember, sweep]
  split <;> rfl

/-- A record that is handed out is the latest one. -/
theorem within_handOut (r : Record) : Within Tied (handOut r) := by
  intro w
  let w₁ : World Connected :=
    { w with pool := (w.pool.add r).2, held := w.pool.cells.size :: w.held }
  rcases remember_cases w.store.opened w₁.isHeld r.guid w.pool.cells.size with ⟨hclosed, hlive⟩
  refine ⟨?_, ?_, file_remember _ _ _ _, hclosed, Iff.rfl⟩
  · show w.pool.cells.size ≤ (w.pool.add r).2.cells.size
    simp only [Pool.size_add]
    exact Nat.le_succ _
  · intro hbounded guid h hget
    show h < (w.pool.add r).2.cells.size
    simp only [Pool.size_add]
    rcases hlive guid h hget with ⟨-, rfl⟩ | hold
    · exact Nat.lt_succ_self _
    · exact Nat.lt_succ_of_lt (hbounded guid h hold)

theorem within_entity : ∀ guid, Within Tied (entity guid) :=
  closed_entity within_handOut (Act.closed_within frame_tied.toComposes) fun guid =>
    .of_tidy (within_readOrCreate guid)

theorem within_find? : ∀ guid, Within Tied (find? guid) :=
  closed_find? within_handOut (Act.closed_within frame_tied.toComposes)

theorem within_save (h : Handle) : Within Tied (save h) := by
  have hT := frame_tied.toComposes
  refine .bind hT (.world hT) fun w => ?_
  cases w.pool.get? h with
  | none =>
      exact .pure hT ()
  | some r =>
      refine .bind hT (.of_tidy (within_writeEntity r)) fun _ w₁ => ?_
      -- What is forgotten was known.
      show Tied w₁ (if (live? w₁ r.guid).any (· != h) then
        { w₁ with store := { w₁.store with opened := w₁.store.opened.forget r.guid } } else w₁)
      split
      · refine ⟨Nat.le_refl _, ?_, rfl, rfl, Iff.rfl⟩
        intro hbounded guid i hi
        refine hbounded guid i ?_
        change (w₁.store.opened.live.erase r.guid).get? guid = some i at hi
        simp only [Dict.get?_erase] at hi
        split at hi
        · cases hi
        · exact hi
      · exact hT.refl w₁

end Connected

open Connected in
/-- The calls of an opened store keep it on its file. -/
theorem within : backend.Within Tied where
  tree? := closed_tree? (fun _ _ => within_change _) closed_tied
  setTree := closed_setTree (fun _ _ => within_change _) closed_tied
  save := within_save
  batch := closed_batch (Act.closed_within frame_tied.toComposes) within_entity
  stored guids :=
    closed_findAll (Act.closed_within frame_tied.toComposes) within_find? guids.toList .empty
  counts := closed_counts closed_tied

end FileStore

/-! ## Stores in memory -/

namespace MemoryStore

/-- Of what is common to all stores, the calls of a store in memory change the pool only. -/
def Grows (w w' : World MemoryStore) : Prop :=
  w.pool.cells.size ≤ w'.pool.cells.size

theorem frame_grows : Frame Grows where
  refl _ := Nat.le_refl _
  trans h h' := Nat.le_trans h h'
  aside _ hpool := hpool

theorem within_adopt (guid : Guid) (r : Record) : Within Grows (adopt guid r) := by
  intro w
  show w.pool.cells.size ≤ (w.pool.add r).2.cells.size
  simp [Pool.add]

theorem closed_grows : Act.Closed (fun m => Within Grows m) :=
  Act.closed_within frame_grows.toComposes

theorem within_tree? (q : QueryKey) : Within (Tidy Grows) (tree? q) := by
  intro w
  simp only [tree?]
  split
  · exact frame_grows.toComposes.tidy.refl w
  · exact ⟨Nat.le_refl _, rfl⟩

/-- The calls of a store in memory let no record go away. -/
theorem within : backend.Within Grows where
  tree? := within_tree?
  setTree _ _ _ := ⟨Nat.le_refl _, rfl⟩
  save := closed_save within_adopt closed_grows
  batch guids := closed_grows.oneByOne (closed_entity within_adopt closed_grows) guids.toList .empty
  stored _ _ := Nat.le_refl _
  counts _ := ⟨Nat.le_refl _, rfl⟩

end MemoryStore

/-! ## All stores -/

/-- What may happen to all stores through one of them. -/
structure StoreId.Through (id : StoreId) (w w' : World Vault) : Prop where
  pool : w.pool.cells.size ≤ w'.pool.cells.size
  directory : w'.store.directory = w.store.directory
  schedules : w'.store.schedules = w.store.schedules
  next : w'.store.next = w.store.next
  memories : ∀ m, id ≠ .memory m → w'.store.memories.get? m = w.store.memories.get? m
  opened : ∀ m, id ≠ .file m → w'.store.opened.get? m = w.store.opened.get? m
  files : ∀ file, (∀ m, id = .file m → (w.store.fileStore m).file ≠ file) →
    w'.store.files.get? file = w.store.files.get? file
  /-- An opened store stays opened. -/
  known : ∀ m, (w.store.opened.get? m).isSome = true → (w'.store.opened.get? m).isSome = true
  tied : ∀ m, id = .file m →
    FileStore.Tied (w.focus (Vault.connected m)) (w'.focus (Vault.connected m))

namespace StoreId

theorem frame_through (id : StoreId) : Frame id.Through where
  refl w :=
    { pool := Nat.le_refl _
      directory := rfl
      schedules := rfl
      next := rfl
      memories := fun _ _ => rfl
      opened := fun _ _ => rfl
      files := fun _ _ => rfl
      known := fun _ h => h
      tied := fun _ _ => FileStore.frame_tied.refl _ }
  trans := by
    intro w w' w'' h h'
    exact
      { pool := Nat.le_trans h.pool h'.pool
        directory := h'.directory.trans h.directory
        schedules := h'.schedules.trans h.schedules
        next := h'.next.trans h.next
        memories := fun m hm => (h'.memories m hm).trans (h.memories m hm)
        opened := fun m hm => (h'.opened m hm).trans (h.opened m hm)
        files := by
          intro file hfile
          refine (h'.files file fun m hm => ?_).trans (h.files file hfile)
          -- The store has stayed on its file.
          have hsame : (w'.store.fileStore m).file = (w.store.fileStore m).file :=
            (h.tied m hm).file
          simp only [hsame]
          exact hfile m hm
        known := fun m hm => h'.known m (h.known m hm)
        tied := fun m hm => FileStore.frame_tied.trans (h.tied m hm) (h'.tied m hm) }
  aside := by
    intro w w' hstore hpool
    exact
      { pool := hpool
        directory := by rw [hstore]
        schedules := by rw [hstore]
        next := by rw [hstore]
        memories := fun _ _ => by rw [hstore]
        opened := fun _ _ => by rw [hstore]
        files := fun _ _ => by rw [hstore]
        known := fun _ h => by rwa [hstore]
        tied := fun m _ => FileStore.frame_tied.aside (congrArg (Vault.connected m) hstore) hpool }

theorem through_memory {n : Nat} {a : Act MemoryStore α} (ha : Within MemoryStore.Grows a) :
    Within (memory n).Through (a.zoom (Vault.memory n) (Vault.putMemory n)) := by
  intro w
  exact
    { pool := ha (w.focus (Vault.memory n))
      directory := rfl
      schedules := rfl
      next := rfl
      memories := by
        intro m hm
        refine (Dict.get?_insert _ _ _ _).trans (if_neg ?_)
        rintro rfl
        exact hm rfl
      opened := fun _ _ => rfl
      files := fun _ _ => rfl
      known := fun _ h => h
      tied := by
        intro m hm
        cases hm }

theorem through_file {n : Nat} {a : Act FileStore.Connected α} (ha : Within FileStore.Tied a) :
    Within (file n).Through (a.zoom (Vault.connected n) (Vault.putConnected n)) := by
  intro w
  have htied := ha (w.focus (Vault.connected n))
  exact
    { pool := htied.pool
      directory := rfl
      schedules := rfl
      next := rfl
      memories := fun _ _ => rfl
      opened := by
        intro m hm
        refine (Dict.get?_insert _ _ _ _).trans (if_neg ?_)
        rintro rfl
        exact hm rfl
      files := by
        intro file hfile
        refine (Dict.get?_insert _ _ _ _).trans (if_neg ?_)
        rintro rfl
        exact hfile n rfl htied.file.symm
      known := by
        intro m hm
        show ((w.store.opened.insert n _).get? m).isSome = true
        simp only [Dict.get?_insert]
        split
        · rfl
        · exact hm
      tied := by
        intro m hm
        cases hm
        -- What was put back is what is seen.
        have hsame := Mirrors.eq (Act.mirrors_zoom (Vault.connected_putConnected n) a)
          (w := w) (a := (a (w.focus (Vault.connected n))).1) rfl
        rcases hsame with ⟨v, hrun, hfocus⟩
        simp only [hrun, hfocus]
        exact htied }

end StoreId

/-- An operation through a store concerns no other one. -/
theorem StoreRef.through {r : StoreRef} (hguards : r.guards = []) (config : Config) (u : Upkeep)
    (o : Operation) : Within (Tidy r.store.Through) (r.backend.perform config u o) := by
  refine Backend.Within.perform ?_ r.store.frame_through config u o
  simp only [backend_eq_of_guards hguards]
  -- The bounds for a store of one kind carry over to all stores, and so does what is held.
  have htidy : ∀ {σ : Type} {R : World σ → World σ → Prop} {R' : World Vault → World Vault → Prop}
      {view : Vault → σ} {put : Vault → σ → Vault} {β : Type} {a : Act σ β},
      (Within R a → Within R' (a.zoom view put)) → Within (Tidy R) a →
      Within (Tidy R') (a.zoom view put) := by
    intro σ R R' view put β a hzoom ha w
    exact ⟨hzoom (.of_tidy ha) w, (ha (w.focus view)).2⟩
  cases r.store with
  | memory n =>
      exact
        { tree? := fun q => htidy StoreId.through_memory (MemoryStore.within.tree? q)
          setTree := fun q e => htidy StoreId.through_memory (MemoryStore.within.setTree q e)
          save := fun h => StoreId.through_memory (MemoryStore.within.save h)
          batch := fun guids => StoreId.through_memory (MemoryStore.within.batch guids)
          stored := fun guids => StoreId.through_memory (MemoryStore.within.stored guids)
          counts := htidy StoreId.through_memory MemoryStore.within.counts }
  | file n =>
      exact
        { tree? := fun q => htidy StoreId.through_file (FileStore.within.tree? q)
          setTree := fun q e => htidy StoreId.through_file (FileStore.within.setTree q e)
          save := fun h => StoreId.through_file (FileStore.within.save h)
          batch := fun guids => StoreId.through_file (FileStore.within.batch guids)
          stored := fun guids => StoreId.through_file (FileStore.within.stored guids)
          counts := htidy StoreId.through_file FileStore.within.counts }

theorem Cache.through {c : Cache} {r : StoreRef} (hstore : c.store? = some r)
    (hguards : r.guards = []) (o : Operation) (w : World Vault) :
    Tidy r.store.Through w (c.perform o w).2 := by
  have hthrough := StoreRef.through hguards c.config c.upkeep o w
  cases hrun : r.backend.perform c.config c.upkeep o w with
  | mk answer w' =>
      simp only [hrun] at hthrough
      simp only [perform_apply hstore hrun]
      exact hthrough

end EntityCache
