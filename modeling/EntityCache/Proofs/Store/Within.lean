import EntityCache.Proofs.Cache.Operations
import EntityCache.Proofs.Store.Closed
import EntityCache.Proofs.Store.File

/-!
# What calls leave alone

However a call on a store ends, it stays within bounds:

* `Within`: a call leads from every world to one that is related to it.
* `Frame`: a relation that composes and that allows everything outside the stores.
* `Backend.Within`: so for every call of a backend; then also for every operation, and whatever was
  held before is held again.
-/

namespace EntityCache

open Normalize

variable {σ τ α β : Type} {R : World σ → World σ → Prop}

/-- `m` leads from every world to one that is related to it. -/
def Within (R : World σ → World σ → Prop) (m : World σ → α × World σ) : Prop :=
  ∀ w, R w (m w).2

/-- Calls that are related one by one are related together. -/
structure Composes (R : World σ → World σ → Prop) : Prop where
  refl : ∀ w, R w w
  trans : ∀ {w w' w''}, R w w' → R w' w'' → R w w''

/-- A relation that composes and that allows everything outside the stores. -/
structure Frame (R : World σ → World σ → Prop) : Prop extends Composes R where
  aside : ∀ {w w' : World σ}, w'.store = w.store → w.pool.cells.size ≤ w'.pool.cells.size → R w w'

/-- Whatever was held before is held again. -/
def Tidy (R : World σ → World σ → Prop) (w w' : World σ) : Prop :=
  R w w' ∧ w'.held = w.held

theorem Composes.tidy (hR : Composes R) : Composes (Tidy R) where
  refl w := ⟨hR.refl w, rfl⟩
  trans h h' := ⟨hR.trans h.1 h'.1, h'.2.trans h.2⟩

/-! ## Calls -/

namespace Within

theorem of_tidy {m : World σ → α × World σ} : Within (Tidy R) m → Within R m := by
  intro hm w
  exact (hm w).1

theorem pure (hR : Composes R) (a : α) : Within R (pure a : Act σ α) := by
  intro w
  exact hR.refl w

theorem bind (hR : Composes R) {a : Act σ α} {f : α → Act σ β} :
    Within R a → (∀ x, Within R (f x)) → Within R (a >>= f) := by
  intro ha hf w
  cases hrun : a w with
  | mk r w₁ =>
      have hfirst : R w w₁ := by
        have h := ha w
        simp only [hrun] at h
        exact h
      cases r with
      | error e =>
          simp only [Act.bind_error hrun]
          exact hfirst
      | ok x =>
          simp only [Act.bind_ok hrun]
          exact hR.trans hfirst (hf x w₁)

theorem ofExcept (hR : Composes R) (r : Except StoreError α) :
    Within R (Act.ofExcept r : Act σ α) := by
  intro w
  exact hR.refl w

theorem world (hR : Composes R) : Within R (Act.world : Act σ (World σ)) := by
  intro w
  exact hR.refl w

theorem attempt {a : Act σ α} (ha : Within R a) : Within R (Act.attempt a) := by
  intro w
  exact ha w

theorem report (hR : Frame R) (signals : Journal) :
    Within (Tidy R) (Act.report signals : Act σ Unit) := by
  intro w
  exact ⟨hR.aside rfl (Nat.le_refl _), rfl⟩

/-- Afterwards the same records are held. -/
theorem holding (hR : Frame R) {a : Act σ α} (ha : Within R a) :
    Within (Tidy R) (Act.holding a) := by
  intro w
  exact ⟨hR.trans (ha w) (hR.aside rfl (Nat.le_refl _)), rfl⟩

theorem splitOver (hR : Frame R) (v : Value) (ids : IdIndex) (index : Dict Guid Handle)
    (requestor : Option QueryKey) :
    Within R (Backend.splitOver v ids index requestor : Act σ Pass) := by
  intro w
  simp only [Backend.splitOver]
  split
  · next pass hpass => exact hR.aside rfl (Pass.size_le_of_run? hpass)
  · exact hR.aside rfl (Nat.le_refl _)

/-! ### Calls that never fail -/

theorem pureM (hR : Composes R) (a : α) : Within R (Pure.pure a : StateM (World σ) α) := by
  intro w
  exact hR.refl w

theorem bindM (hR : Composes R) {m : StateM (World σ) α} {f : α → StateM (World σ) β} :
    Within R m → (∀ x, Within R (f x)) → Within R (m >>= f) := by
  intro hm hf w
  cases hrun : m w with
  | mk x w₁ =>
      have hfirst := hm w
      simp only [hrun] at hfirst
      simp only [bindM_apply hrun]
      exact hR.trans hfirst (hf x w₁)

theorem note (hR : Frame R) (signals : Journal) :
    Within (Tidy R) (EntityCache.note signals : StateM (World σ) Unit) := by
  intro w
  exact ⟨hR.aside rfl (Nat.le_refl _), rfl⟩

theorem setTime (hR : Frame R) (t : Time) :
    Within (Tidy R) (modify (fun w => w.setTime t) : StateM (World σ) PUnit) := by
  intro w
  exact ⟨hR.aside rfl (Nat.le_refl _), rfl⟩

end Within

theorem Act.closed_within (hR : Composes R) : Act.Closed (fun m => Within R m) where
  pure := .pure hR
  bind := .bind hR
  world _ hf w := hf w w
  ofExcept := .ofExcept hR
  attempt := .attempt

theorem closed_within (hR : Composes R) (hreport : ∀ w signals, R w (w.report signals)) :
    Closed (fun m => Within R m) where
  pure := .pureM hR
  bind := .bindM hR
  world _ hf w := hf w w
  note _ w := hreport w _

theorem Frame.closed_tidy (hR : Frame R) : Closed (fun m => Within (Tidy R) m) :=
  closed_within hR.toComposes.tidy fun _ _ => ⟨hR.aside rfl (Nat.le_refl _), rfl⟩

/-! ## Backends -/

namespace Backend

/-- Every call of the backend stays within bounds, and those that cannot hand out a record leave
alone what is held. -/
structure Within (R : World σ → World σ → Prop) (b : Backend σ) : Prop where
  tree? : ∀ q, EntityCache.Within (Tidy R) (b.tree? q)
  setTree : ∀ q e, EntityCache.Within (Tidy R) (b.setTree q e)
  save : ∀ h, EntityCache.Within R (b.save h)
  batch : ∀ guids, EntityCache.Within R (b.batch guids)
  stored : ∀ guids, EntityCache.Within R (b.stored guids)
  counts : EntityCache.Within (Tidy R) b.counts

namespace Within

variable {b : Backend σ}

theorem absorb (h : b.Within R) (hR : Frame R) (v : Value) (ids : IdIndex)
    (requestor : Option QueryKey) : EntityCache.Within (Tidy R) (b.absorb v ids requestor) := by
  refine .holding hR (.bind hR.toComposes (h.batch _) fun index => ?_)
  refine .bind hR.toComposes (.splitOver hR v ids index requestor) fun pass => ?_
  refine .bind hR.toComposes ((Act.closed_within hR.toComposes).each h.save _) fun _ => ?_
  exact .bind hR.toComposes (.of_tidy (.report hR _)) fun _ => .pure hR.toComposes pass

theorem project (h : b.Within R) (hR : Frame R) (root : Skeleton) :
    EntityCache.Within (Tidy R) (b.project root) := by
  have hrecords : EntityCache.Within R (b.recordsOf root) := by
    simp only [recordsOf]
    split
    · exact .pure hR.toComposes _
    · exact h.stored _
  refine .holding hR (.bind hR.toComposes hrecords fun index => ?_)
  refine .bind hR.toComposes (.world hR.toComposes) fun w => ?_
  exact .bind hR.toComposes (.of_tidy (.report hR _)) fun _ => .pure hR.toComposes _

theorem read (h : b.Within R) (hR : Frame R) (q : QueryKey) :
    EntityCache.Within (Tidy R) (b.read q) :=
  hR.closed_tidy.read h.tree? (h.project hR) q

theorem lookup (h : b.Within R) (hR : Frame R) (q : QueryKey) (policy : FetchPolicy) :
    EntityCache.Within (Tidy R) (b.lookup q policy) :=
  hR.closed_tidy.lookup (h.read hR) q policy

theorem levels (h : b.Within R) (hR : Frame R) : EntityCache.Within (Tidy R) b.levels :=
  hR.closed_tidy.levels h.counts

theorem countEntries (h : b.Within R) (hR : Frame R) :
    EntityCache.Within (Tidy R) b.countEntries :=
  hR.closed_tidy.countEntries h.counts

theorem review (h : b.Within R) (hR : Frame R) (u : Upkeep) (limit : Nat) :
    EntityCache.Within (Tidy R) (u.review b limit) := by
  have hT := hR.toComposes.tidy
  have hsizing : EntityCache.Within (Tidy R) (u.sizing.review b limit) := by
    simp only [Sizing.review]
    split
    · refine .bindM hT (h.levels hR) fun r => ?_
      cases r with
      | error _ =>
          exact .pureM hT _
      | ok n =>
          by_cases hlimit : (decide (limit < n.trees + n.entities) && !u.sizing.warned) = true
          · simp only [if_pos hlimit]
            exact .bindM hT (.note hR _) fun _ => .pureM hT _
          · simp only [if_neg hlimit]
            exact .pureM hT _
    · exact .pureM hT _
  exact .bindM hT hsizing fun sizing => .pureM hT _

theorem write (h : b.Within R) (hR : Frame R) (config : Config) (q : QueryKey)
    (response : Response) (requestor : Option QueryKey) (u : Upkeep) :
    EntityCache.Within (Tidy R) (b.write config q response requestor u) :=
  hR.closed_tidy.write h.setTree (h.absorb hR _ _ _) config q u

/-- An operation stays within the bounds of the calls. -/
theorem perform (h : b.Within R) (hR : Frame R) (config : Config) (u : Upkeep) (o : Operation) :
    EntityCache.Within (Tidy R) (b.perform config u o) := by
  have hT := hR.toComposes.tidy
  cases o with
  | write e =>
      refine .bindM hT (.bindM hT (.setTime hR _) fun _ => ?_) fun answer => .pureM hT _
      refine .bindM hT (h.write hR _ _ _ _ _) fun answer => ?_
      exact .bindM hT (h.review hR _ _) fun u => .pureM hT _
  | read t q =>
      exact .bindM hT (.setTime hR t) fun _ => .bindM hT (h.read hR q) fun result => .pureM hT _
  | lookup t q policy =>
      exact .bindM hT (.setTime hR t) fun _ =>
        .bindM hT (h.lookup hR q policy) fun decision => .pureM hT _
  | stats t =>
      exact .bindM hT (.setTime hR t) fun _ =>
        .bindM hT (h.countEntries hR) fun counts => .pureM hT _

end Within
end Backend

end EntityCache
