import EntityCache.Proofs.Store.Calls

/-!
# Calls on a part of the stores

A call on all stores that only concerns one of them does what the call on that store alone does:

* `World.focus`: the world as far as a part of the stores sees it.
* `Mirrors`: a call on all stores agrees with a call on a part of them.
* `Backend.Mirrors`: two backends agree call by call; then reading and writing through them agree
  as well.
* `Backend.zoom_mirrors`: a backend for a part agrees with the backend for all stores made of it.
-/

namespace EntityCache

open Normalize

variable {σ τ α β : Type} {view : τ → σ}

/-- The world as a part of the stores sees it. -/
def World.focus (view : τ → σ) (w : World τ) : World σ :=
  w.withStore (view w.store)

/-- Run on all stores, `m'` answers and changes the part in view as `m` does alone. -/
def Mirrors (view : τ → σ) (m' : World τ → α × World τ) (m : World σ → α × World σ) : Prop :=
  ∀ w, (m' w).1 = (m (w.focus view)).1 ∧ (m' w).2.focus view = (m (w.focus view)).2

theorem Mirrors.eq {m' : World τ → α × World τ} {m : World σ → α × World σ} {w : World τ} {a : α}
    {v : World σ} (h : Mirrors view m' m) (hm : m (w.focus view) = (a, v)) :
    ∃ v', m' w = (a, v') ∧ v'.focus view = v := by
  rcases h w with ⟨hanswer, hworld⟩
  simp only [hm] at hanswer hworld
  exact ⟨(m' w).2, Prod.ext hanswer rfl, hworld⟩

/-! ## Calls that may fail -/

namespace Act

theorem mirrors_pure (a : α) : Mirrors view (pure a : Act τ α) (pure a : Act σ α) := by
  intro w
  exact ⟨rfl, rfl⟩

theorem mirrors_bind {a' : Act τ α} {a : Act σ α} {f' : α → Act τ β} {f : α → Act σ β} :
    Mirrors view a' a → (∀ x, Mirrors view (f' x) (f x)) →
      Mirrors view (a' >>= f') (a >>= f) := by
  intro ha hf w
  cases hrun : a (w.focus view) with
  | mk r v =>
      rcases ha.eq hrun with ⟨v', hrun', rfl⟩
      cases r with
      | error e =>
          rw [bind_error hrun, bind_error hrun']
          exact ⟨rfl, rfl⟩
      | ok x =>
          simp only [bind_ok hrun, bind_ok hrun']
          exact hf x v'

/-- A call that looks at the world first may look at what is common to both. -/
theorem mirrors_world {f' : World τ → Act τ α} {f : World σ → Act σ α} :
    (∀ w, Mirrors view (f' w) (f (w.focus view))) →
      Mirrors view (Act.world >>= f') (Act.world >>= f) := by
  intro hf w
  exact hf w w

theorem mirrors_report (signals : Journal) :
    Mirrors view (Act.report signals : Act τ Unit) (Act.report signals : Act σ Unit) := by
  intro w
  exact ⟨rfl, rfl⟩

theorem mirrors_holding {a' : Act τ α} {a : Act σ α} :
    Mirrors view a' a → Mirrors view (Act.holding a') (Act.holding a) := by
  intro ha w
  rcases ha w with ⟨hanswer, hworld⟩
  exact ⟨hanswer, congrArg (fun v : World σ => { v with held := w.held }) hworld⟩

theorem mirrors_each {f' : β → Act τ Unit} {f : β → Act σ Unit}
    (hf : ∀ b, Mirrors view (f' b) (f b)) (l : List β) :
    Mirrors view (Act.each f' l) (Act.each f l) := by
  induction l with
  | nil =>
      exact mirrors_pure ()
  | cons b rest ih =>
      exact mirrors_bind (hf b) fun _ => ih

theorem mirrors_zoom {put : τ → σ → τ} (hput : ∀ t s, view (put t s) = s) (a : Act σ α) :
    Mirrors view (a.zoom view put) a := by
  intro w
  refine ⟨rfl, ?_⟩
  -- The changed part is put back, and then seen again.
  have hpart := hput w.store (a (w.focus view)).2.store
  exact congrArg (World.withStore (a (w.focus view)).2) hpart

end Act

/-! ## Calls that never fail -/

namespace Mirrors

theorem pureM (a : α) :
    Mirrors view (pure a : StateM (World τ) α) (pure a : StateM (World σ) α) := by
  intro w
  exact ⟨rfl, rfl⟩

theorem bindM {m' : StateM (World τ) α} {m : StateM (World σ) α} {f' : α → StateM (World τ) β}
    {f : α → StateM (World σ) β} :
    Mirrors view m' m → (∀ x, Mirrors view (f' x) (f x)) → Mirrors view (m' >>= f') (m >>= f) := by
  intro hm hf w
  cases hrun : m (w.focus view) with
  | mk x v =>
      rcases hm.eq hrun with ⟨v', hrun', rfl⟩
      simp only [bindM_apply hrun, bindM_apply hrun']
      exact hf x v'

theorem worldM {f' : World τ → StateM (World τ) α} {f : World σ → StateM (World σ) α} :
    (∀ w, Mirrors view (f' w) (f (w.focus view))) → Mirrors view (get >>= f') (get >>= f) := by
  intro hf w
  exact hf w w

theorem note (signals : Journal) :
    Mirrors view (EntityCache.note signals : StateM (World τ) Unit)
      (EntityCache.note signals : StateM (World σ) Unit) := by
  intro w
  exact ⟨rfl, rfl⟩

end Mirrors

/-! ## Backends -/

namespace Backend

/-- Call by call, `b'` does what `b` does to the part in view. -/
structure Mirrors (view : τ → σ) (b' : Backend τ) (b : Backend σ) : Prop where
  backing : b'.backing = b.backing
  tree? : ∀ q, EntityCache.Mirrors view (b'.tree? q) (b.tree? q)
  setTree : ∀ q e, EntityCache.Mirrors view (b'.setTree q e) (b.setTree q e)
  save : ∀ h, EntityCache.Mirrors view (b'.save h) (b.save h)
  batch : ∀ guids, EntityCache.Mirrors view (b'.batch guids) (b.batch guids)
  stored : ∀ guids, EntityCache.Mirrors view (b'.stored guids) (b.stored guids)
  counts : EntityCache.Mirrors view b'.counts b.counts

theorem zoom_mirrors {put : τ → σ → τ} (hput : ∀ t s, view (put t s) = s) (b : Backend σ) :
    (b.zoom view put).Mirrors view b where
  backing := rfl
  tree? q := Act.mirrors_zoom hput (b.tree? q)
  setTree q e := Act.mirrors_zoom hput (b.setTree q e)
  save h := Act.mirrors_zoom hput (b.save h)
  batch guids := Act.mirrors_zoom hput (b.batch guids)
  stored guids := Act.mirrors_zoom hput (b.stored guids)
  counts := Act.mirrors_zoom hput b.counts

/-- Splitting a result concerns no store. -/
theorem splitOver_mirrors (v : Value) (ids : IdIndex) (index : Dict Guid Handle)
    (requestor : Option QueryKey) :
    EntityCache.Mirrors view (splitOver v ids index requestor)
      (splitOver v ids index requestor) := by
  intro w
  -- The pool of records is common to all stores.
  have hpool : (w.focus view).pool = w.pool := rfl
  simp only [splitOver, hpool]
  cases Pass.run? v ids ⟨w.pool, index⟩ requestor with
  | none =>
      exact ⟨rfl, rfl⟩
  | some pass =>
      exact ⟨rfl, rfl⟩

variable {b' : Backend τ} {b : Backend σ}

/-- Looking at the size takes no more than the numbers of entries. -/
theorem levels_mirrors (hbacking : b'.backing = b.backing)
    (hcounts : EntityCache.Mirrors view b'.counts b.counts) :
    EntityCache.Mirrors view b'.levels b.levels := by
  simp only [Backend.levels, hbacking]
  refine .bindM hcounts fun r => ?_
  cases r with
  | error _ =>
      exact .bindM (.pureM _) fun _ => .pureM _
  | ok n =>
      exact .bindM (.note _) fun _ => .pureM _

theorem review_mirrors (hbacking : b'.backing = b.backing)
    (hcounts : EntityCache.Mirrors view b'.counts b.counts) (u : Upkeep) (limit : Nat) :
    EntityCache.Mirrors view (u.review b' limit) (u.review b limit) := by
  have hsizing : EntityCache.Mirrors view (u.sizing.review b' limit)
      (u.sizing.review b limit) := by
    simp only [Sizing.review]
    split
    · refine .bindM (levels_mirrors hbacking hcounts) fun r => ?_
      cases r with
      | error _ =>
          exact .pureM _
      | ok n =>
          by_cases hlimit : (decide (limit < n.trees + n.entities) && !u.sizing.warned) = true
          · simp only [if_pos hlimit]
            exact .bindM (.note _) fun _ => .pureM _
          · simp only [if_neg hlimit]
            exact .pureM _
    · exact .pureM _
  exact .bindM hsizing fun sizing => .pureM _

namespace Mirrors

theorem absorb (h : b'.Mirrors view b) (v : Value) (ids : IdIndex) (requestor : Option QueryKey) :
    EntityCache.Mirrors view (b'.absorb v ids requestor) (b.absorb v ids requestor) := by
  refine Act.mirrors_holding (Act.mirrors_bind (h.batch _) fun index => ?_)
  refine Act.mirrors_bind (splitOver_mirrors v ids index requestor) fun pass => ?_
  refine Act.mirrors_bind (Act.mirrors_each h.save _) fun _ => ?_
  exact Act.mirrors_bind (Act.mirrors_report _) fun _ => Act.mirrors_pure pass

theorem project (h : b'.Mirrors view b) (root : Skeleton) :
    EntityCache.Mirrors view (b'.project root) (b.project root) := by
  have hrecords : EntityCache.Mirrors view (b'.recordsOf root) (b.recordsOf root) := by
    simp only [recordsOf]
    split
    · exact Act.mirrors_pure _
    · exact h.stored _
  refine Act.mirrors_holding (Act.mirrors_bind hrecords fun index => ?_)
  refine Act.mirrors_world fun w => ?_
  exact Act.mirrors_bind (Act.mirrors_report _) fun _ => Act.mirrors_pure _

theorem present (h : b'.Mirrors view b) (q : QueryKey) (e : Entry) :
    EntityCache.Mirrors view (b'.present q e) (b.present q e) := by
  simp only [Backend.present, h.backing]
  cases e.root? with
  | error f =>
      exact .bindM (.note _) fun _ => .pureM none
  | ok root =>
      refine .bindM (h.project root) fun r => ?_
      cases r with
      | error failed =>
          exact .bindM (.note _) fun _ => .pureM none
      | ok data =>
          exact .worldM fun w => .bindM (.note _) fun _ => .pureM _

theorem read (h : b'.Mirrors view b) (q : QueryKey) :
    EntityCache.Mirrors view (b'.read q) (b.read q) := by
  have hentry : EntityCache.Mirrors view (b'.readEntry q) (b.readEntry q) := by
    simp only [readEntry, h.backing]
    refine .bindM (h.tree? q) fun r => ?_
    cases r with
    | error failed =>
        exact .bindM (.note _) fun _ => .pureM none
    | ok found =>
        cases found with
        | none =>
            exact .bindM (.note _) fun _ => .pureM none
        | some e =>
            exact h.present q e
  simp only [Backend.read, h.backing]
  exact .bindM hentry fun result => .bindM (.note _) fun _ => .pureM result

theorem complete (h : b'.Mirrors view b) (config : Config) (q : QueryKey) (ttl : Option Span)
    (pass : Pass) (u : Upkeep) :
    EntityCache.Mirrors view (b'.complete config q ttl pass u)
      (b.complete config q ttl pass u) := by
  -- Neither the queue nor the storing of the skeleton looks at the other stores.
  have hschedule : EntityCache.Mirrors view
      (u.schedule pass.impacted : StateM (World τ) Upkeep)
      (u.schedule pass.impacted : StateM (World σ) Upkeep) := by
    simp only [Upkeep.schedule]
    cases u.queue with
    | none =>
        exact .pureM u
    | some queue =>
        exact .bindM (.note _) fun _ => .pureM _
  have hstore : EntityCache.Mirrors view
      (b'.storeTree q pass.root (ttl.getD config.defaultSpan))
      (b.storeTree q pass.root (ttl.getD config.defaultSpan)) := by
    simp only [storeTree, h.backing]
    refine .worldM fun w => .bindM (h.setTree _ _) fun r => ?_
    cases r with
    | error failed =>
        exact .bindM (.note _) fun _ => .pureM _
    | ok _ =>
        exact .bindM (.note _) fun _ => .pureM _
  refine .bindM hstore fun stored => .bindM (.note _) fun _ => ?_
  exact .bindM hschedule fun u => .pureM _

theorem write (h : b'.Mirrors view b) (config : Config) (q : QueryKey) (response : Response)
    (requestor : Option QueryKey) (u : Upkeep) :
    EntityCache.Mirrors view (b'.write config q response requestor u)
      (b.write config q response requestor u) := by
  simp only [Backend.write, h.backing]
  refine .bindM (h.absorb _ _ _) fun r => ?_
  cases r with
  | error failed =>
      exact .bindM (.note _) fun _ => .bindM (.pureM _) fun answer =>
        .bindM (.note _) fun _ => .pureM answer
  | ok pass =>
      exact .bindM (h.complete config q response.ttl pass u) fun answer =>
        .bindM (.note _) fun _ => .pureM answer

end Mirrors
end Backend
end EntityCache
