import EntityCache.Proofs.Store.Calls
import EntityCache.Proofs.Store.Mirror
import EntityCache.Store.Vault

/-!
# Calls that may be refused

A store behind schedules of failures either refuses a call or does what the store does without them:

* `Follows`: so for one call, seen from a part of the stores; `Agrees` is the case that it does.
* `Backend.Follows`: so for every call of a backend; `StoreRef.follows` is the case of a store
  behind any schedules.
* `Backend.Follows.absorb`: a result is refused at once, absorbed as without schedules, or absorbed
  up to some of the records that it touches.
* `Backend.Follows.project`: a skeleton is refused or assembled as without schedules.
-/

namespace EntityCache

open Normalize

variable {σ τ α β : Type} {view : τ → σ}

/-- Run on all stores, `m'` is refused without effect on the part in view, or does what `m` does. -/
def Follows (view : τ → σ) (m' : Act τ α) (m : Act σ α) : Prop :=
  ∀ w, (∃ e w', m' w = (.error e, w') ∧ w'.focus view = w.focus view) ∨
    ∃ w', m' w = ((m (w.focus view)).1, w') ∧ w'.focus view = (m (w.focus view)).2

/-! ## Single calls -/

/-- From `w` on, `m'` answers as `m` does and leaves the same in view. -/
def Agrees (view : τ → σ) (m' : Act τ α) (m : Act σ α) (w : World τ) : Prop :=
  ∃ w', m' w = ((m (w.focus view)).1, w') ∧ w'.focus view = (m (w.focus view)).2

namespace Agrees

theorem of_mirrors {m' : Act τ α} {m : Act σ α} (h : Mirrors view m' m) (w : World τ) :
    Agrees view m' m w := by
  rcases h w with ⟨hanswer, hworld⟩
  exact ⟨(m' w).2, Prod.ext hanswer rfl, hworld⟩

/-- Two calls in sequence agree if the second ones do, unless something else happens there. -/
theorem or_bind {P : Prop} {a' : Act τ α} {a : Act σ α} {f' : α → Act τ β} {f : α → Act σ β}
    {w : World τ} (ha : Agrees view a' a w)
    (hf : ∀ x w₁, a' w = (.ok x, w₁) → a (w.focus view) = (.ok x, w₁.focus view) →
      P ∨ Agrees view (f' x) (f x) w₁) :
    P ∨ Agrees view (a' >>= f') (a >>= f) w := by
  rcases ha with ⟨w₁, hrun, hsame⟩
  cases hbare : a (w.focus view) with
  | mk r v =>
      simp only [hbare] at hrun hsame
      cases r with
      | error e =>
          -- Both fail in the first call.
          refine Or.inr ⟨w₁, ?_, ?_⟩
          · simp only [Act.bind_error hbare, Act.bind_error hrun]
          · simp only [Act.bind_error hbare, hsame]
      | ok x =>
          have hfirst : a (w.focus view) = (.ok x, w₁.focus view) := by
            simp only [hbare, hsame]
          rcases hf x w₁ hrun hfirst with hother | ⟨w₂, hrun', hsame'⟩
          · exact Or.inl hother
          · refine Or.inr ⟨w₂, ?_, ?_⟩
            · simp only [Act.bind_ok hfirst, Act.bind_ok hrun, hrun']
            · simp only [Act.bind_ok hfirst, hsame']

theorem holding {a' : Act τ α} {a : Act σ α} {w : World τ} :
    Agrees view a' a w → Agrees view (Act.holding a') (Act.holding a) w := by
  intro ha
  rcases ha with ⟨w', hrun, hsame⟩
  refine ⟨{ w' with held := w.held }, Act.holding_apply hrun, ?_⟩
  exact congrArg (fun v : World σ => { v with held := w.held }) hsame

end Agrees

namespace Follows

theorem of_mirrors {m' : Act τ α} {m : Act σ α} : Mirrors view m' m → Follows view m' m := by
  intro h w
  exact Or.inr (Agrees.of_mirrors h w)

/-- What follows a call that may be refused is not refused itself. -/
theorem bind {a' : Act τ α} {a : Act σ α} {f' : α → Act τ β} {f : α → Act σ β} :
    Follows view a' a → (∀ x, Mirrors view (f' x) (f x)) → Follows view (a' >>= f') (a >>= f) := by
  intro ha hf w
  rcases ha w with ⟨e, w', hrun, hsame⟩ | hagree
  · exact Or.inl ⟨e, w', Act.bind_error hrun, hsame⟩
  · exact Agrees.or_bind hagree fun x w₁ _ _ => Or.inr (Agrees.of_mirrors (hf x) w₁)

theorem holding {a' : Act τ α} {a : Act σ α} :
    Follows view a' a → Follows view (Act.holding a') (Act.holding a) := by
  intro ha w
  rcases ha w with ⟨e, w', hrun, hsame⟩ | hagree
  · refine Or.inl ⟨e, { w' with held := w.held }, Act.holding_apply hrun, ?_⟩
    exact congrArg (fun v : World σ => { v with held := w.held }) hsame
  · exact Or.inr (Agrees.holding hagree)

/-- One more check before a call. -/
theorem guard {check : Act τ Unit} {m' : Act τ α} {m : Act σ α}
    (hcheck : ∀ w, (check w).2.focus view = w.focus view) :
    Follows view m' m → Follows view (check >>= fun _ => m') m := by
  intro h w
  have hsame := hcheck w
  cases hrun : check w with
  | mk r w₁ =>
      simp only [hrun] at hsame
      cases r with
      | error e =>
          exact Or.inl ⟨e, w₁, Act.bind_error hrun, hsame⟩
      | ok _ =>
          have hlater := h w₁
          simp only [hsame] at hlater
          rwa [Act.bind_ok hrun]

end Follows

/-! ## Backends -/

namespace Backend

/-- Each call of `b'` is refused or does what `b` does; numbers of entries are never refused. -/
structure Follows (view : τ → σ) (b' : Backend τ) (b : Backend σ) : Prop where
  backing : b'.backing = b.backing
  tree? : ∀ q, EntityCache.Follows view (b'.tree? q) (b.tree? q)
  setTree : ∀ q e, EntityCache.Follows view (b'.setTree q e) (b.setTree q e)
  save : ∀ h, EntityCache.Follows view (b'.save h) (b.save h)
  batch : ∀ guids, EntityCache.Follows view (b'.batch guids) (b.batch guids)
  stored : ∀ guids, EntityCache.Follows view (b'.stored guids) (b.stored guids)
  counts : EntityCache.Mirrors view b'.counts b.counts

variable {b' : Backend τ} {b : Backend σ}

theorem Mirrors.follows (h : b'.Mirrors view b) : b'.Follows view b where
  backing := h.backing
  tree? q := .of_mirrors (h.tree? q)
  setTree q e := .of_mirrors (h.setTree q e)
  save r := .of_mirrors (h.save r)
  batch guids := .of_mirrors (h.batch guids)
  stored guids := .of_mirrors (h.stored guids)
  counts := h.counts

theorem Follows.guarded (h : b'.Follows view b) {check : Act τ Unit}
    (hcheck : ∀ w, (check w).2.focus view = w.focus view) :
    (b'.guarded check).Follows view b where
  backing := h.backing
  tree? q := .guard hcheck (h.tree? q)
  setTree q e := .guard hcheck (h.setTree q e)
  save r := .guard hcheck (h.save r)
  batch guids := .guard hcheck (h.batch guids)
  stored guids := .guard hcheck (h.stored guids)
  counts := h.counts

namespace Follows

/-- Of the calls on several records some are made, and then all or the next one is refused. -/
theorem each (h : b'.Follows view b) (handles : List Handle) : ∀ w,
    (∃ e w' k v, Act.each b'.save handles w = (.error e, w') ∧
      Act.each b.save (handles.take k) (w.focus view) = (.ok (), v) ∧ w'.focus view = v) ∨
    Agrees view (Act.each b'.save handles) (Act.each b.save handles) w := by
  induction handles with
  | nil =>
      intro w
      exact Or.inr ⟨w, rfl, rfl⟩
  | cons r rest ih =>
      intro w
      rcases h.save r w with ⟨e, w', hrun, hsame⟩ | hagree
      · exact Or.inl ⟨e, w', 0, _, Act.bind_error hrun, rfl, hsame⟩
      · refine Agrees.or_bind hagree fun _ w₁ hrun hbare => ?_
        rcases ih w₁ with ⟨e, w', k, v, hstop, htake, hlast⟩ | hall
        · -- One more call was made before the refused one.
          refine Or.inl ⟨e, w', k + 1, v, (Act.bind_ok hrun).trans hstop, ?_, hlast⟩
          exact (Act.bind_ok hbare).trans htake
        · exact Or.inr hall

/-- How a result can be absorbed: refused before anything is done, as without schedules, or up to
some of the touched records. -/
theorem absorb (h : b'.Follows view b) (v : Value) (ids : IdIndex) (requestor : Option QueryKey)
    (w : World τ) :
    (∃ e w', b'.absorb v ids requestor w = (.error e, w') ∧ w'.focus view = w.focus view) ∨
    Agrees view (b'.absorb v ids requestor) (b.absorb v ids requestor) w ∨
    ∃ e w' index v₁ pass v₂ k v₃, b'.absorb v ids requestor w = (.error e, w') ∧
      b.batch (idsWithin ids v) (w.focus view) = (.ok index, v₁) ∧
      splitOver v ids index requestor v₁ = (.ok pass, v₂) ∧
      Act.each b.save (pass.touched.values.take k) v₂ = (.ok (), v₃) ∧
      w'.focus view = { v₃ with held := w.held } := by
  -- The calls that are made while the held entities are kept as they are.
  let body {ρ : Type} (b : Backend ρ) : Act ρ Pass := do
    let index ← b.batch (idsWithin ids v)
    let pass ← splitOver v ids index requestor
    Act.each b.save pass.touched.values
    Act.report [.touched pass.touched.size]
    pure pass
  rcases h.batch (idsWithin ids v) w with ⟨e, w₁, hbatch, hsame⟩ | hbatch
  · have hbody : body b' w = (.error e, w₁) := Act.bind_error hbatch
    refine Or.inl ⟨e, { w₁ with held := w.held }, Act.holding_apply hbody, ?_⟩
    exact congrArg (fun v : World σ => { v with held := w.held }) hsame
  right
  have hbody : (∃ e w₃ index v₁ pass v₂ k v₃, body b' w = (.error e, w₃) ∧
      b.batch (idsWithin ids v) (w.focus view) = (.ok index, v₁) ∧
      splitOver v ids index requestor v₁ = (.ok pass, v₂) ∧
      Act.each b.save (pass.touched.values.take k) v₂ = (.ok (), v₃) ∧ w₃.focus view = v₃) ∨
      Agrees view (body b') (body b) w := by
    refine Agrees.or_bind hbatch fun index w₁ hbatch' hbatch => ?_
    -- Splitting concerns no store, so it cannot be refused.
    have hsplits : Agrees view (splitOver v ids index requestor)
        (splitOver v ids index requestor) w₁ :=
      Agrees.of_mirrors (splitOver_mirrors v ids index requestor) w₁
    refine Agrees.or_bind hsplits fun pass w₂ hsplit' hsplit => ?_
    rcases h.each pass.touched.values w₂ with ⟨e, w₃, k, v₃, hstop, htake, hlast⟩ | hall
    · have hrun : body b' w = (.error e, w₃) :=
        (Act.bind_ok hbatch').trans ((Act.bind_ok hsplit').trans (Act.bind_error hstop))
      exact Or.inl ⟨e, w₃, index, _, pass, _, k, v₃, hrun, hbatch, hsplit, htake, hlast⟩
    · refine Agrees.or_bind hall fun _ w₃ _ _ => Or.inr ?_
      refine Agrees.of_mirrors ?_ w₃
      exact Act.mirrors_bind (Act.mirrors_report _) fun _ => Act.mirrors_pure pass
  rcases hbody with ⟨e, w₃, index, v₁, pass, v₂, k, v₃, hrun, hbatch, hsplit, htake, hlast⟩ | hagree
  · refine Or.inr ⟨e, { w₃ with held := w.held }, index, v₁, pass, v₂, k, v₃,
      Act.holding_apply hrun, hbatch, hsplit, htake, ?_⟩
    exact congrArg (fun v : World σ => { v with held := w.held }) hlast
  · exact Or.inl hagree.holding

theorem project (h : b'.Follows view b) (root : Skeleton) :
    EntityCache.Follows view (b'.project root) (b.project root) := by
  have hrecords : EntityCache.Follows view (b'.recordsOf root) (b.recordsOf root) := by
    simp only [recordsOf]
    split
    · exact .of_mirrors (Act.mirrors_pure _)
    · exact h.stored _
  refine .holding (.bind hrecords fun index => ?_)
  refine Act.mirrors_world fun w => ?_
  exact Act.mirrors_bind (Act.mirrors_report _) fun _ => Act.mirrors_pure _

end Follows
end Backend

/-! ## Stores behind schedules -/

theorem Vault.pass_store (guard : Nat) (w : World Vault) :
    ∃ schedules, (Vault.pass guard w).2 =
      { w with store := { w.store with schedules := schedules } } := by
  simp only [Vault.pass]
  cases w.store.schedules.get? guard with
  | none =>
      exact ⟨w.store.schedules, rfl⟩
  | some s =>
      simp only
      cases s.advance.failure? with
      | none =>
          exact ⟨_, rfl⟩
      | some e =>
          exact ⟨_, rfl⟩

/-- A store behind schedules follows the store itself. -/
theorem StoreRef.follows {r : StoreRef} {view : Vault → σ} {b : Backend σ}
    (hview : ∀ v schedules, view { v with schedules := schedules } = view v)
    (hstore : r.store.backend.Mirrors view b) : r.backend.Follows view b := by
  have hcheck : ∀ guard w, (Vault.pass guard w).2.focus view = w.focus view := by
    intro guard w
    rcases Vault.pass_store guard w with ⟨schedules, hpass⟩
    simp only [hpass]
    exact congrArg (World.withStore w) (hview w.store schedules)
  simp only [StoreRef.backend]
  induction r.guards with
  | nil =>
      exact hstore.follows
  | cons guard rest ih =>
      exact ih.guarded (hcheck guard)

theorem StoreRef.follows_memory {r : StoreRef} {n : Nat} (hstore : r.store = .memory n) :
    r.backend.Follows (Vault.memory n) MemoryStore.backend := by
  refine StoreRef.follows (fun _ _ => rfl) ?_
  simp only [hstore]
  exact Backend.zoom_mirrors (Vault.memory_putMemory n) MemoryStore.backend

theorem StoreRef.follows_file {r : StoreRef} {n : Nat} (hstore : r.store = .file n) :
    r.backend.Follows (Vault.connected n) FileStore.backend := by
  refine StoreRef.follows (fun _ _ => rfl) ?_
  simp only [hstore]
  exact Backend.zoom_mirrors (Vault.connected_putConnected n) FileStore.backend

end EntityCache
