import EntityCache.Cache.Scoping
import EntityCache.Proofs.Store.Closed

/-!
# Calls that do not look back

What was reported before is of no concern for a call:

* `World.hearing`: the world with another journal.
* `Aloof`: whatever was reported before, a call answers alike, leaves the same and reports the same
  signals, which are of one kind.
* `Backend.Aloof`: so for every call of a backend; only loading several records may report anything
  at all.  Then it is so for reads and writes through the backend as well.
* `StoreRef.aloof`: so for every store, behind any schedules.
* `Vault.aloof_openFor`: so for opening one.
-/

namespace EntityCache

open Normalize

variable {σ τ α β : Type} {P Q : Signal → Prop}

/-- The world with another journal. -/
def World.hearing (w : World σ) (j : Journal) : World σ :=
  { w with journal := j }

/-- Whatever was reported before, `m` answers alike and leaves the same, and it reports the same
signals of one kind. -/
def Aloof (P : Signal → Prop) (m : World σ → α × World σ) : Prop :=
  ∀ w, ∃ signals, (∀ s ∈ signals, P s) ∧
    ∀ j, m (w.hearing j) = ((m w).1, (m w).2.hearing (j ++ signals))

namespace Aloof

theorem mono {m : World σ → α × World σ} (hPQ : ∀ s, P s → Q s) : Aloof P m → Aloof Q m := by
  intro hm w
  rcases hm w with ⟨signals, hP, hrun⟩
  exact ⟨signals, fun s hs => hPQ s (hP s hs), hrun⟩

theorem of_silent {m : World σ → α × World σ} : Aloof (fun _ => False) m → Aloof P m :=
  mono fun _ h => h.elim

/-- A call that reports nothing. -/
theorem of_quiet {m : World σ → α × World σ}
    (hquiet : ∀ w j, m (w.hearing j) = ((m w).1, (m w).2.hearing j)) : Aloof P m := by
  intro w
  refine ⟨[], fun _ hs => absurd hs List.not_mem_nil, fun j => ?_⟩
  rw [List.append_nil]
  exact hquiet w j

theorem of_report {m : World σ → α × World σ} {signals : Journal} (hP : ∀ s ∈ signals, P s)
    (hreport : ∀ w j, m (w.hearing j) = ((m w).1, (m w).2.hearing (j ++ signals))) :
    Aloof P m :=
  fun w => ⟨signals, hP, hreport w⟩

/-- In particular only signals of one kind are given. -/
theorem tells {m : World σ → α × World σ} (h : Aloof P m) (w : World σ) : Tells P w (m w).2 := by
  rcases h w with ⟨signals, hP, hrun⟩
  exact ⟨signals, congrArg (fun p => p.2.journal) (hrun w.journal), hP⟩

/-- Worlds that differ in their journals only stay so, and the answers are the same. -/
theorem alike {m : World σ → α × World σ} (h : Aloof P m) {w w' : World σ}
    (hsame : w'.hearing [] = w.hearing []) :
    (m w').1 = (m w).1 ∧ (m w').2.hearing [] = (m w).2.hearing [] := by
  rcases h w with ⟨signals, -, hrun⟩
  have hw' : (w'.hearing []).hearing w'.journal = (w.hearing []).hearing w'.journal :=
    congrArg (fun v : World σ => v.hearing w'.journal) hsame
  have hboth : m w' = ((m w).1, (m w).2.hearing (w'.journal ++ signals)) :=
    (congrArg m hw').trans (hrun w'.journal)
  rw [hboth]
  exact ⟨rfl, rfl⟩

/-! ### Calls that may fail -/

theorem pure (a : α) : Aloof P (pure a : Act σ α) :=
  of_quiet fun _ _ => rfl

theorem bind {a : Act σ α} {f : α → Act σ β} :
    Aloof P a → (∀ x, Aloof P (f x)) → Aloof P (a >>= f) := by
  intro ha hf w
  rcases ha w with ⟨first, hfirst, hrun⟩
  cases hanswer : a w with
  | mk r w₁ =>
  simp only [hanswer] at hrun
  cases r with
  | error e =>
      refine ⟨first, hfirst, fun j => ?_⟩
      rw [Act.bind_error (hrun j), Act.bind_error hanswer]
  | ok x =>
      rcases hf x w₁ with ⟨later, hlater, hrest⟩
      refine ⟨first ++ later, fun s hs => ?_, fun j => ?_⟩
      · exact (List.mem_append.mp hs).elim (hfirst s) (hlater s)
      · rw [Act.bind_ok (hrun j), Act.bind_ok hanswer, hrest, List.append_assoc]

/-- A call may look at the rest of the world first. -/
theorem world {f : World σ → Act σ α} (hsame : ∀ w j, f (w.hearing j) = f w)
    (hf : ∀ w, Aloof P (f w)) : Aloof P (Act.world >>= f) := by
  intro w
  rcases hf w w with ⟨signals, hP, hrun⟩
  refine ⟨signals, hP, fun j => ?_⟩
  show f (w.hearing j) (w.hearing j) = _
  rw [hsame]
  exact hrun j

theorem update {f : World σ → World σ} (hf : ∀ w j, f (w.hearing j) = (f w).hearing j) :
    Aloof P (Act.update f) :=
  of_quiet fun w j => congrArg (Prod.mk _) (hf w j)

theorem report {signals : Journal} (hP : ∀ s ∈ signals, P s) :
    Aloof P (Act.report signals : Act σ Unit) :=
  of_report hP fun _ _ => rfl

theorem fail (e : StoreError) : Aloof P (Act.fail e : Act σ α) :=
  of_quiet fun _ _ => rfl

theorem ofExcept (r : Except StoreError α) : Aloof P (Act.ofExcept r : Act σ α) :=
  of_quiet fun _ _ => rfl

theorem attempt {a : Act σ α} (ha : Aloof P a) : Aloof P (Act.attempt a) := by
  intro w
  rcases ha w with ⟨signals, hP, hrun⟩
  exact ⟨signals, hP, fun j => congrArg (fun p => (Except.ok p.1, p.2)) (hrun j)⟩

theorem holding {a : Act σ α} (ha : Aloof P a) : Aloof P (Act.holding a) := by
  intro w
  rcases ha w with ⟨signals, hP, hrun⟩
  exact ⟨signals, hP, fun j => congrArg (fun p => (p.1, { p.2 with held := w.held })) (hrun j)⟩

theorem zoom {view : τ → σ} {put : τ → σ → τ} {a : Act σ α} (ha : Aloof P a) :
    Aloof P (a.zoom view put) := by
  intro w
  rcases ha (w.withStore (view w.store)) with ⟨signals, hP, hrun⟩
  exact ⟨signals, hP, fun j =>
    congrArg (fun p => (p.1, p.2.withStore (put w.store p.2.store))) (hrun j)⟩

theorem splitOver (hroot : P (.anomaly .rootNotObject)) (v : Value) (ids : IdIndex)
    (index : Dict Guid Handle) (requestor : Option QueryKey) :
    Aloof P (Backend.splitOver v ids index requestor : Act σ Pass) := by
  intro w
  -- The records at hand do not depend on the journal.
  have hpool : ∀ j, (w.hearing j).pool = w.pool := fun _ => rfl
  simp only [Backend.splitOver, hpool]
  cases Pass.run? v ids ⟨w.pool, index⟩ requestor with
  | none =>
      exact ⟨[.anomaly .rootNotObject], fun s hs => List.mem_singleton.mp hs ▸ hroot,
        fun j => rfl⟩
  | some pass =>
      exact ⟨[], fun _ hs => absurd hs List.not_mem_nil, fun j => by rw [List.append_nil]; rfl⟩

/-! ### Calls that never fail -/

theorem pureM (a : α) : Aloof P (Pure.pure a : StateM (World σ) α) :=
  of_quiet fun _ _ => rfl

theorem bindM {m : StateM (World σ) α} {f : α → StateM (World σ) β} :
    Aloof P m → (∀ x, Aloof P (f x)) → Aloof P (m >>= f) := by
  intro hm hf w
  rcases hm w with ⟨first, hfirst, hrun⟩
  cases hanswer : m w with
  | mk x w₁ =>
  simp only [hanswer] at hrun
  rcases hf x w₁ with ⟨later, hlater, hrest⟩
  refine ⟨first ++ later, fun s hs => ?_, fun j => ?_⟩
  · exact (List.mem_append.mp hs).elim (hfirst s) (hlater s)
  · rw [bindM_apply (hrun j), bindM_apply hanswer, hrest, List.append_assoc]

theorem worldM {f : World σ → StateM (World σ) α} (hsame : ∀ w j, f (w.hearing j) = f w)
    (hf : ∀ w, Aloof P (f w)) : Aloof P (get >>= f : StateM (World σ) α) := by
  intro w
  rcases hf w w with ⟨signals, hP, hrun⟩
  refine ⟨signals, hP, fun j => ?_⟩
  show f (w.hearing j) (w.hearing j) = _
  rw [hsame]
  exact hrun j

theorem map {m : StateM (World σ) α} (f : α → β) (h : Aloof P m) : Aloof P (f <$> m) := by
  intro w
  rcases h w with ⟨signals, hP, hrun⟩
  exact ⟨signals, hP, fun j => congrArg (fun p : α × World σ => (f p.1, p.2)) (hrun j)⟩

theorem note {signals : Journal} (hP : ∀ s ∈ signals, P s) :
    Aloof P (EntityCache.note signals : StateM (World σ) Unit) :=
  of_report hP fun _ _ => rfl

end Aloof

theorem Act.closed_aloof : Act.Closed (σ := σ) (fun m => Aloof P m) where
  pure := Aloof.pure
  bind := Aloof.bind
  world := Aloof.world
  ofExcept := Aloof.ofExcept
  attempt := Aloof.attempt

theorem closed_aloof : Closed (σ := σ) (fun m => Aloof Signal.IsMild m) where
  pure := Aloof.pureM
  bind := Aloof.bindM
  world := Aloof.worldM
  note := Aloof.note

theorem aloof_schedule (u : Upkeep) (queries : KeySet QueryKey) :
    Aloof (fun s => s = .republish .coalesced)
      (u.schedule queries : StateM (World σ) Upkeep) := by
  simp only [Upkeep.schedule]
  cases u.queue with
  | none =>
      exact .pureM u
  | some queue =>
      exact .bindM (.note (queue.coalesced_requestAll queries.toList)) fun _ => .pureM _

/-! ## Backends -/

namespace Backend

/-- No call looks back, and only those for records that are loaded to be changed report anything at
all. -/
structure Aloof (b : Backend σ) : Prop where
  tree? : ∀ q, EntityCache.Aloof (fun _ => False) (b.tree? q)
  setTree : ∀ q e, EntityCache.Aloof (fun _ => False) (b.setTree q e)
  save : ∀ h, EntityCache.Aloof (fun _ => False) (b.save h)
  batch : ∀ guids, EntityCache.Aloof Signal.IsAside (b.batch guids)
  stored : ∀ guids, EntityCache.Aloof (fun _ => False) (b.stored guids)
  counts : EntityCache.Aloof (fun _ => False) b.counts

namespace Aloof

variable {b : Backend σ}

/-- Refused calls report nothing. -/
theorem guarded (h : b.Aloof) {check : Act σ Unit}
    (hcheck : EntityCache.Aloof (fun _ => False) check) : (b.guarded check).Aloof where
  tree? q := .bind hcheck fun _ => h.tree? q
  setTree q e := .bind hcheck fun _ => h.setTree q e
  save r := .bind hcheck fun _ => h.save r
  batch guids := .bind hcheck.of_silent fun _ => h.batch guids
  stored guids := .bind hcheck fun _ => h.stored guids
  counts := h.counts

theorem zoom (h : b.Aloof) (view : τ → σ) (put : τ → σ → τ) : (b.zoom view put).Aloof where
  tree? q := (h.tree? q).zoom
  setTree q e := (h.setTree q e).zoom
  save r := (h.save r).zoom
  batch guids := (h.batch guids).zoom
  stored guids := (h.stored guids).zoom
  counts := h.counts.zoom

theorem absorb (h : b.Aloof) (v : Value) (ids : IdIndex) (requestor : Option QueryKey) :
    EntityCache.Aloof Signal.IsAside (b.absorb v ids requestor) := by
  refine .holding (.bind (h.batch _) fun index => ?_)
  refine .bind (.splitOver ⟨rfl, fun h => by cases h⟩ v ids index requestor) fun pass => ?_
  refine .bind (.of_silent (Act.closed_aloof.each h.save _)) fun _ => ?_
  refine .bind (.report fun s hs => ?_) fun _ => .pure pass
  rw [List.mem_singleton.mp hs]
  exact ⟨rfl, fun h => by cases h⟩

/-- Assembling a result reports missing records only. -/
theorem project (h : b.Aloof) (root : Skeleton) :
    EntityCache.Aloof (fun s => s = .notice .recordMissing) (b.project root) := by
  have hrecords : EntityCache.Aloof (fun _ => False) (b.recordsOf root) := by
    simp only [recordsOf]
    split
    · exact .pure _
    · exact h.stored _
  refine .holding (.bind hrecords.of_silent fun index => .world (fun _ _ => rfl) fun w => ?_)
  refine .bind (.report fun s hs => ?_) fun _ => .pure _
  rcases List.mem_map.mp hs with ⟨guid, -, rfl⟩
  rfl

/-! ### Reading and writing -/

theorem read (h : b.Aloof) (q : QueryKey) : EntityCache.Aloof Signal.IsMild (b.read q) := by
  have hmissing : ∀ s, s = Signal.notice .recordMissing → s.IsMild := by
    rintro s rfl hs
    cases hs
  exact closed_aloof.read (fun q => (h.tree? q).of_silent)
    (fun root => (h.project root).mono hmissing) q

theorem lookup (h : b.Aloof) (q : QueryKey) (policy : FetchPolicy) :
    EntityCache.Aloof Signal.IsMild (b.lookup q policy) :=
  closed_aloof.lookup h.read q policy

theorem countEntries (h : b.Aloof) : EntityCache.Aloof Signal.IsMild b.countEntries :=
  closed_aloof.countEntries h.counts.of_silent

theorem write (h : b.Aloof) (config : Config) (q : QueryKey) (response : Response)
    (requestor : Option QueryKey) (u : Upkeep) :
    EntityCache.Aloof Signal.IsMild (b.write config q response requestor u) :=
  closed_aloof.write (fun q e => (h.setTree q e).of_silent)
    ((h.absorb _ _ _).mono fun _ hs => hs.2) config q u

end Aloof
end Backend

/-! ## Stores in memory -/

namespace MemoryStore

theorem aloof_adopt (guid : Guid) (r : Record) : Aloof P (adopt guid r) :=
  .of_quiet fun _ _ => rfl

theorem aloof_tree? (q : QueryKey) : Aloof P (tree? q) := by
  refine .of_quiet fun w j => ?_
  have hstore : (w.hearing j).store = w.store := rfl
  simp only [tree?, hstore]
  cases w.store.trees.get? q with
  | none =>
      rfl
  | some e =>
      rfl

theorem aloof : backend.Aloof where
  tree? := aloof_tree?
  setTree _ _ := .update fun _ _ => rfl
  save := closed_save aloof_adopt Act.closed_aloof
  batch guids :=
    Act.closed_aloof.oneByOne (closed_entity aloof_adopt Act.closed_aloof) guids.toList .empty
  stored _ := .world (fun _ _ => rfl) fun _ => .pure _
  counts := .world (fun _ _ => rfl) fun _ => .pure _

end MemoryStore

/-! ## Stores in files -/

namespace FileStore

namespace Connected

theorem aloof_change (f : Tables → Option Tables) : Aloof P (change f) :=
  .bind (closed_table Act.closed_aloof f) fun _ => .update fun _ _ => rfl

theorem aloof_writeEntity (r : Record) : Aloof P (writeEntity r) :=
  .bind (.ofExcept _) fun _ => aloof_change _

theorem aloof_handOut (r : Record) : Aloof P (handOut r) := by
  refine .bind (.of_quiet fun _ _ => rfl) fun h => ?_
  exact .bind (.update fun _ _ => rfl) fun _ => .pure h

theorem aloof_save (h : Handle) : Aloof P (save h) := by
  refine .world (fun _ _ => rfl) fun w => ?_
  cases w.pool.get? h with
  | none =>
      exact .pure ()
  | some r =>
      refine .bind (aloof_writeEntity r) fun _ => .update fun w j => ?_
      have hlive : live? (w.hearing j) r.guid = live? w r.guid := rfl
      rw [hlive]
      split <;> rfl

/-- An entity that is started over is reported as damaged, which ends no activity. -/
theorem aloof_readOrCreate : ∀ guid, Aloof Signal.IsAside (readOrCreate guid) := by
  refine closed_readOrCreate Act.closed_aloof aloof_writeEntity (.report fun s hs => ?_)
  simp only [List.mem_cons, List.not_mem_nil, or_false] at hs
  rcases hs with rfl | rfl
  · exact ⟨rfl, fun h => by cases h⟩
  · exact ⟨rfl, fun h => by cases h⟩

theorem aloof_entity : ∀ guid, Aloof Signal.IsAside (entity guid) :=
  closed_entity aloof_handOut Act.closed_aloof aloof_readOrCreate

end Connected

open Connected in
theorem aloof : backend.Aloof where
  tree? := closed_tree? (fun _ _ => aloof_change _) Act.closed_aloof
  setTree := closed_setTree (fun _ _ => aloof_change _) Act.closed_aloof
  save := aloof_save
  batch := closed_batch Act.closed_aloof aloof_entity
  stored guids := closed_findAll Act.closed_aloof (closed_find? aloof_handOut Act.closed_aloof)
    guids.toList .empty
  counts := closed_counts Act.closed_aloof

end FileStore

/-! ## All stores -/

/-- A schedule is none of the journal's concern. -/
theorem Vault.aloof_pass (guard : Nat) : Aloof P (Vault.pass guard) := by
  refine .of_quiet fun w j => ?_
  have hstore : (w.hearing j).store = w.store := rfl
  simp only [pass, hstore]
  cases w.store.schedules.get? guard with
  | none =>
      rfl
  | some s =>
      simp only
      cases s.advance.failure? with
      | none =>
          rfl
      | some e =>
          rfl

theorem StoreRef.aloof (r : StoreRef) : r.backend.Aloof := by
  have hstore : r.store.backend.Aloof := by
    cases r.store with
    | memory n =>
        exact MemoryStore.aloof.zoom _ _
    | file n =>
        exact FileStore.aloof.zoom _ _
  simp only [StoreRef.backend]
  induction r.guards with
  | nil =>
      exact hstore
  | cons guard rest ih =>
      exact ih.guarded (Vault.aloof_pass guard)

/-- Opening a store reports attempts at most. -/
theorem Vault.aloof_openFor (scope : Scope) (policy : Retry.Policy) :
    Aloof (fun s => s = .notice .retrying) (openFor scope policy) := by
  have hfile : Aloof (fun s => s = .notice .retrying)
      (openFile scope scope.fileName policy) := by
    refine .world (fun _ _ => rfl) fun w => .bind (.report fun s hs => ?_) fun _ => ?_
    · rcases List.mem_map.mp hs with ⟨_, -, rfl⟩
      rfl
    · refine .bind (.of_quiet fun _ _ => rfl) fun _ => ?_
      exact .bind (.ofExcept _) fun l => .of_quiet fun _ _ => rfl
  simp only [openFor]
  -- Only a store in a file is tried again, and only if its directory is not blocked.
  cases scope.backing with
  | memory =>
      exact .of_quiet fun _ _ => rfl
  | persistent =>
      refine .world (fun _ _ => rfl) fun w => ?_
      cases w.store.directory.blocked with
      | true =>
          exact .fail _
      | false =>
          exact hfile

end EntityCache
