import EntityCache.Proofs.Cache.Setting

/-!
# One instance for each scope

A store that somebody still holds is taken up again when its scope comes back, so that two stores
with one scope are never used side by side.

* `Course`: a cache in its setting, where a change of the scope may be under way.
* `Course.Live`: the cache, somebody else or the change of the scope has a store.
* `Course.Step`, `Course.Reached`: what can happen, between the two ends of a change as well.
* `Course.Numbered`: references mean the same store only if they are the same.
* `Course.Tracked`: a persistent store that somebody holds is the current one, or the one that was
  swapped out for its scope.
* `Course.one_instance`: at most one persistent store of a scope is live, and it becomes the current
  one when the scope comes back.
-/

namespace EntityCache

/-! ## Acquiring a store -/

/-- The number of a store. -/
def StoreId.number : StoreId → Nat
  | memory n => n
  | file n => n

namespace Vault.Opens

/-- A new store has a number that no store has had. -/
theorem fresh {scope : Scope} {l : Location} {v v' : Vault} {r : StoreRef}
    (h : Opens scope l v (.ok r) v') :
    r.scope = scope ∧ r.guards = [] ∧ v.next ≤ r.store.number ∧ r.store.number < v'.next := by
  cases h with
  | memory _ =>
      exact ⟨rfl, rfl, Nat.le_refl _, Nat.lt_succ_self _⟩
  | file d _ _ =>
      rcases opened_addFileStore scope l { v with directory := d } with ⟨-, hle, hnext⟩
      exact ⟨rfl, rfl, hle, hnext ▸ Nat.lt_succ_self _⟩

end Vault.Opens

namespace Cache

variable {c : Cache} {inUse : StoreRef → Bool} {scope : Scope} {p : StoreRef}

/-- Among stores with different scopes the one that is looked for is found. -/
theorem find?_scope_of_mem {stores : List StoreRef}
    (honce : stores.Pairwise fun p q => p.scope ≠ q.scope) (hp : p ∈ stores) :
    stores.find? (fun r => r.scope == p.scope) = some p := by
  induction stores with
  | nil =>
      exact absurd hp List.not_mem_nil
  | cons q rest ih =>
      rcases List.pairwise_cons.mp honce with ⟨hfirst, hrest⟩
      rcases List.mem_cons.mp hp with rfl | hp
      · exact List.find?_cons_of_pos (beq_self_eq_true _)
      · simp only [List.find?_cons, beq_eq_false_iff_ne.mpr (hfirst p hp)]
        exact ih hrest hp

theorem revive?_of_mem (honce : c.retired.Pairwise fun p q => p.scope ≠ q.scope)
    (hp : p ∈ c.retired) (hused : inUse p = true) : c.revive? inUse p.scope = some p := by
  simp only [revive?, find?_scope_of_mem honce hp, Option.filter_some, hused, if_true]

/-- A store that stays swapped out: it is in use, and its scope is neither the new nor the old
one. -/
theorem retired_pointed_of_mem {answer : Except StoreError StoreRef} (hp : p ∈ c.retired)
    (hused : inUse p = true) (hnew : p.scope ≠ scope) (hold : c.target.scope? ≠ some p.scope) :
    p ∈ (c.pointed inUse scope answer).retired := by
  have hkept : p ∈ c.retired.filter (fun r => r.scope != scope) :=
    List.mem_filter.mpr ⟨hp, bne_iff_ne.mpr hnew⟩
  change p ∈ retire (c.retired.filter (fun r => r.scope != scope)) inUse c.target
  cases htarget : c.target with
  | unscoped =>
      exact hkept
  | disabled _ =>
      exact hkept
  | ready previous =>
      -- Its scope is not that of the displaced store, which therefore does not replace it.
      have hother : p.scope ≠ previous.scope := by
        intro h
        rw [htarget] at hold
        exact hold (congrArg some h.symm)
      simp only [retire]
      split
      · exact List.mem_cons_of_mem _
          (List.mem_filter.mpr ⟨hkept, by rw [hused, bne_iff_ne.mpr hother]; rfl⟩)
      · exact hkept

/-- The store that is swapped out now. -/
theorem retired_pointed_of_store? {answer : Except StoreError StoreRef}
    (hp : c.store? = some p) (hbacking : p.scope.backing = .persistent) :
    p ∈ (c.pointed inUse scope answer).retired := by
  have htarget := store?_eq_some.mp hp
  change p ∈ retire (c.retired.filter (fun r => r.scope != scope)) inUse c.target
  simp only [htarget, retire, if_pos hbacking]
  exact List.mem_cons_self

theorem once_pointed {answer : Except StoreError StoreRef}
    (honce : c.retired.Pairwise fun p q => p.scope ≠ q.scope) :
    (c.pointed inUse scope answer).retired.Pairwise fun p q => p.scope ≠ q.scope := by
  have hkept := honce.filter fun r => r.scope != scope
  change (retire (c.retired.filter (fun r => r.scope != scope)) inUse c.target).Pairwise _
  cases c.target with
  | unscoped =>
      exact hkept
  | disabled _ =>
      exact hkept
  | ready previous =>
      simp only [retire]
      split
      · refine List.pairwise_cons.mpr ⟨fun q hq => ?_, hkept.filter _⟩
        have hother := (Bool.and_eq_true_iff.mp (List.mem_filter.mp hq).2).2
        exact (bne_iff_ne.mp hother).symm
      · exact hkept

end Cache

/-! ## Courses -/

/-- A cache in its setting.  A change of the scope may be under way: the new scope is known, and
what became of the attempt to acquire a store for it. -/
structure Course extends Setting where
  underway : Option (Scope × Except StoreError StoreRef)

namespace Course

/-- Somebody has a store. -/
inductive Live (x : Course) (p : StoreRef) : Prop
  | current (h : x.cache.store? = some p)
  | held (h : p ∈ x.holders)
  | acquired {scope : Scope} (h : x.underway = some (scope, .ok p))

/-- What can happen. -/
inductive Step : Course → Course → Prop
  /-- A change of the scope begins. -/
  | acquire {x : Course} {scope : Scope} {answer : Except StoreError StoreRef} {w : World Vault}
      (hfree : x.underway = none) (hscope : x.scope? ≠ some scope)
      (hrun : x.cache.acquire x.inUse scope x.world = (answer, w)) :
      Step x ⟨⟨x.cache, x.holders, w⟩, some (scope, answer)⟩
  /-- A change of the scope ends. -/
  | settle {x : Course} {scope : Scope} {answer : Except StoreError StoreRef}
      (hunderway : x.underway = some (scope, answer)) :
      Step x ⟨⟨x.cache.pointed x.inUse scope answer, x.holders,
        x.world.report (Cache.settle scope answer).2⟩, none⟩
  /-- The scope is changed at one go. -/
  | rescope {x : Course} (scope : Scope) (hfree : x.underway = none) :
      Step x ⟨x.retarget fun c inUse => c.rescope inUse scope, none⟩
  | authenticate {x : Course} (user : Option String) (hfree : x.underway = none) :
      Step x ⟨x.retarget fun c inUse => c.authenticate inUse user, none⟩
  /-- The current store is held from now on. -/
  | hold {x : Course} {r : StoreRef} (hr : x.cache.store? = some r) :
      Step x { x with holders := r :: x.holders }
  /-- Stores that are held are let go, or held twice. -/
  | keep {x : Course} {holders : List StoreRef} (hholders : ∀ r ∈ holders, r ∈ x.holders) :
      Step x { x with holders := holders }
  /-- An operation through the cache. -/
  | perform {x : Course} (o : Operation) : Step x { x with toSetting := (x.perform o).2 }
  /-- An operation through a store that somebody holds. -/
  | use {x : Course} {r : StoreRef} (hr : r ∈ x.holders) (config : Config) (u : Upkeep)
      (o : Operation) : Step x { x with world := (r.backend.perform config u o x.world).2 }
  /-- Whatever happens to the files and the stores, no number is given out a second time. -/
  | elsewhere {x : Course} {w : World Vault} (hnext : x.world.store.next ≤ w.store.next) :
      Step x { x with world := w }

/-- Some steps lead from a new cache to this state. -/
inductive Reached (config : Config) (listening : Bool) : Course → Prop
  | start (w : World Vault) : Reached config listening ⟨⟨.new config listening, [], w⟩, none⟩
  | step {x y : Course} (hx : Reached config listening x) (hstep : Step x y) :
      Reached config listening y

variable {x y : Course} {p q r : StoreRef} {scope : Scope}
  {answer : Except StoreError StoreRef}

/-! ## References and stores -/

/-- A store that is live, or that was swapped out. -/
def Known (x : Course) (p : StoreRef) : Prop :=
  x.Live p ∨ p ∈ x.cache.retired

/-- References mean the same store only if they are the same, and the next store is another one. -/
structure Numbered (x : Course) : Prop where
  plain : ∀ p, x.Known p → p.guards = []
  below : ∀ p, x.Known p → p.store.number < x.world.store.next
  apart : ∀ p q, x.Known p → x.Known q → p.store = q.store → p = q

namespace Numbered

theorem mono (hx : x.Numbered) (hknown : ∀ p, y.Known p → x.Known p)
    (hnext : x.world.store.next ≤ y.world.store.next) : y.Numbered where
  plain p hp := hx.plain p (hknown p hp)
  below p hp := Nat.lt_of_lt_of_le (hx.below p (hknown p hp)) hnext
  apart p q hp hq := hx.apart p q (hknown p hp) (hknown q hq)

/-- One new store comes in. -/
theorem insert (hx : x.Numbered) (hknown : ∀ p, y.Known p → x.Known p ∨ p = r)
    (hplain : r.guards = []) (hle : x.world.store.next ≤ r.store.number)
    (hlt : r.store.number < y.world.store.next) : y.Numbered where
  plain p hp := by
    rcases hknown p hp with hold | rfl
    · exact hx.plain p hold
    · exact hplain
  below p hp := by
    rcases hknown p hp with hold | rfl
    · exact Nat.lt_of_lt_of_le (hx.below p hold) (Nat.le_of_lt (Nat.lt_of_le_of_lt hle hlt))
    · exact hlt
  apart := by
    -- No known store has the number of the new one.
    have hnew : ∀ p, x.Known p → p.store ≠ r.store := by
      intro p hp hsame
      have hbelow := hx.below p hp
      rw [hsame] at hbelow
      exact Nat.lt_irrefl _ (Nat.lt_of_lt_of_le hbelow hle)
    intro p q hp hq hsame
    rcases hknown p hp with hold | rfl
    · rcases hknown q hq with hold' | rfl
      · exact hx.apart p q hold hold' hsame
      · exact absurd hsame (hnew p hold)
    · rcases hknown q hq with hold' | rfl
      · exact absurd hsame.symm (hnew q hold')
      · rfl

/-- A store that was swapped out is in use only if the cache or somebody else has it. -/
theorem mem_held_of_inUse (hx : x.Numbered) (hr : r ∈ x.cache.retired)
    (hused : x.inUse r = true) : r ∈ x.held := by
  rcases List.any_eq_true.mp hused with ⟨p, hp, hreaches⟩
  have hsame : p.store = r.store := by
    simp only [StoreRef.reaches, Bool.and_eq_true, decide_eq_true_eq] at hreaches
    exact hreaches.1
  have hlive : x.Live p := by
    simp only [Setting.held, List.mem_append, Option.mem_toList] at hp
    rcases hp with hcurrent | hholder
    · exact .current hcurrent
    · exact .held hholder
  exact hx.apart p r (.inl hlive) (.inr hr) hsame ▸ hp

end Numbered

theorem inUse_of_held (hp : p ∈ x.holders) : x.inUse p = true :=
  List.any_eq_true.mpr ⟨p, List.mem_append_right _ hp, p.reaches_self⟩

/-! ## The invariant -/

/-- A change of the scope that is under way leads to another scope, and to the store of this scope
that somebody holds, if there is one. -/
structure Heads (x : Course) (scope : Scope) (answer : Except StoreError StoreRef) : Prop where
  changes : x.scope? ≠ some scope
  own : ∀ r, answer = .ok r → r.scope = scope
  revived : ∀ p ∈ x.holders, p.scope.backing = .persistent → p.scope = scope → answer = .ok p

/-- Every persistent store that somebody holds can be found again. -/
structure Tracked (x : Course) : Prop extends Numbered x where
  once : x.cache.retired.Pairwise fun p q => p.scope ≠ q.scope
  found : ∀ p ∈ x.holders, p.scope.backing = .persistent →
    x.cache.store? = some p ∨ p ∈ x.cache.retired ∧ x.scope? ≠ some p.scope
  heads : ∀ scope answer, x.underway = some (scope, answer) → x.Heads scope answer

namespace Tracked

theorem start (config : Config) (listening : Bool) (w : World Vault) :
    Tracked ⟨⟨.new config listening, [], w⟩, none⟩ := by
  have hnone : ∀ p, ¬ Known ⟨⟨.new config listening, [], w⟩, none⟩ p := by
    rintro p ((h | h | h) | h)
    · cases h
    · cases h
    · cases h
    · cases h
  exact
    { plain := fun p hp => absurd hp (hnone p)
      below := fun p hp => absurd hp (hnone p)
      apart := fun p _ hp => absurd hp (hnone p)
      once := .nil
      found := fun p hp => absurd hp List.not_mem_nil
      heads := fun _ _ h => absurd h.symm (Option.some_ne_none _) }

/-- The store of another scope that somebody holds is taken up again when this scope comes. -/
theorem revive?_held (hx : x.Tracked) (hp : p ∈ x.holders)
    (hbacking : p.scope.backing = .persistent) (hscope : x.scope? ≠ some p.scope) :
    x.cache.revive? x.inUse p.scope = some p := by
  rcases hx.found p hp hbacking with hcurrent | ⟨hretired, -⟩
  · exact absurd (Setting.scope?_of_store hcurrent) hscope
  · exact Cache.revive?_of_mem hx.once hretired (inUse_of_held hp)

/-- While a change is under way, nothing is known but what was known and the store that it
brings. -/
theorem known_underway {w : World Vault}
    (hp : Known ⟨⟨x.cache, x.holders, w⟩, some (scope, answer)⟩ p) :
    x.Known p ∨ answer = .ok p := by
  rcases hp with (hcurrent | hheld | hacquired) | hold
  · exact .inl (.inl (.current hcurrent))
  · exact .inl (.inl (.held hheld))
  · cases hacquired
    exact .inr rfl
  · exact .inl (.inr hold)

/-- A store that was swapped out is taken up again. -/
theorem acquire_revived (hx : x.Tracked) (hscope : x.scope? ≠ some scope)
    (hrevive : x.cache.revive? x.inUse scope = some r) :
    Tracked ⟨x.toSetting, some (scope, .ok r)⟩ := by
  rcases Cache.revive?_eq_some hrevive with ⟨hretired, hown, -⟩
  refine ⟨hx.mono (fun p hp => ?_) (Nat.le_refl _), hx.once, hx.found, ?_⟩
  · rcases known_underway hp with hold | hbrought
    · exact hold
    · cases hbrought
      exact .inr hretired
  · rintro _ _ ⟨⟩
    refine ⟨hscope, fun r' hr' => ?_, fun p hp hbacking hpscope => ?_⟩
    · cases hr'
      exact hown
    · -- Only one store of the scope was swapped out, and it is the one that somebody holds.
      subst hpscope
      rw [hx.revive?_held hp hbacking hscope] at hrevive
      cases hrevive
      rfl

/-- A store is opened, unless that fails. -/
theorem acquire_opened (hx : x.Tracked) (hscope : x.scope? ≠ some scope)
    (hnone : x.cache.revive? x.inUse scope = none) {l : Location} {v' : Vault} (signals : Journal)
    (hopens : Vault.Opens scope l x.world.store answer v') :
    Tracked ⟨⟨x.cache, x.holders, { x.world.report signals with store := v' }⟩,
      some (scope, answer)⟩ := by
  refine ⟨?_, hx.once, hx.found, ?_⟩
  · -- A store that was opened has a number of its own.
    cases answer with
    | error e =>
        refine hx.mono (fun p hp => ?_) hopens.later.next
        rcases known_underway hp with hold | hbrought
        · exact hold
        · cases hbrought
    | ok r =>
        rcases hopens.fresh with ⟨-, hplain, hle, hlt⟩
        refine hx.insert (fun p hp => ?_) hplain hle hlt
        rcases known_underway hp with hold | hbrought
        · exact .inl hold
        · cases hbrought
          exact .inr rfl
  · rintro _ _ ⟨⟩
    refine ⟨hscope, fun r hr => ?_, fun p hp hbacking hpscope => ?_⟩
    · subst hr
      exact hopens.fresh.1
    · -- Nobody holds a store of the scope, or else it would have been taken up again.
      subst hpscope
      rw [hx.revive?_held hp hbacking hscope] at hnone
      cases hnone

theorem acquire (hx : x.Tracked) {w : World Vault} (hscope : x.scope? ≠ some scope)
    (hrun : x.cache.acquire x.inUse scope x.world = (answer, w)) :
    Tracked ⟨⟨x.cache, x.holders, w⟩, some (scope, answer)⟩ := by
  rcases x.cache.acquire_cases x.inUse scope x.world with
    ⟨r, hrevive, hacquire⟩ | ⟨hnone, answer', v', signals, hacquire, hopens⟩
  · rw [hacquire] at hrun
    cases hrun
    exact hx.acquire_revived hscope hrevive
  · rw [hacquire] at hrun
    cases hrun
    exact hx.acquire_opened hscope hnone signals hopens

theorem settle (hx : x.Tracked) (hheads : x.Heads scope answer)
    (hanswer : ∀ r, answer = .ok r → x.Known r) {w : World Vault}
    (hnext : x.world.store.next ≤ w.store.next) :
    Tracked ⟨⟨x.cache.pointed x.inUse scope answer, x.holders, w⟩, none⟩ := by
  have hscope : (x.cache.pointed x.inUse scope answer).target.scope? = some scope :=
    Cache.scope?_pointed hheads.own
  refine ⟨hx.mono ?_ hnext, Cache.once_pointed hx.once, ?_,
    fun _ _ h => absurd h.symm (Option.some_ne_none _)⟩
  · rintro p ((hcurrent | hheld | hacquired) | hretired)
    · exact hanswer p (Cache.store?_pointed hcurrent)
    · exact .inl (.held hheld)
    · cases hacquired
    · rcases Cache.mem_retired_pointed hretired with hold | ⟨hprevious, -⟩
      · exact .inr hold
      · exact .inl (.current hprevious)
  · intro p hp hbacking
    -- A held store of the new scope is the one that heads it; any other one stays swapped out.
    by_cases hpscope : p.scope = scope
    · left
      rw [hheads.revived p hp hbacking hpscope]
      rfl
    · right
      refine ⟨?_, fun h => hpscope (Option.some.inj (h.symm.trans hscope))⟩
      rcases hx.found p hp hbacking with hcurrent | ⟨hretired, hold⟩
      · exact Cache.retired_pointed_of_store? hcurrent hbacking
      · exact Cache.retired_pointed_of_mem hretired (inUse_of_held hp) hpscope hold

/-- A change at one go is a change that ends as soon as it has begun. -/
theorem rescope (hx : x.Tracked) (hfree : x.underway = none) (scope : Scope) :
    Tracked ⟨x.retarget fun c inUse => c.rescope inUse scope, none⟩ := by
  by_cases hscope : x.scope? = some scope
  · have hkept : x.cache.target.scope? = some scope := hscope
    simp only [Setting.retarget, Cache.rescope, if_pos hkept]
    show Tracked ⟨x.toSetting, none⟩
    rw [← hfree]
    exact hx
  · cases hrun : x.cache.acquire x.inUse scope x.world with
    | mk answer w =>
        have hacquired := hx.acquire hscope hrun
        have hheads := hacquired.heads scope answer rfl
        simp only [Setting.retarget, Cache.rescope_apply hscope hrun]
        refine hacquired.settle hheads (fun r hr => ?_) (Nat.le_refl _)
        subst hr
        exact .inl (.acquired rfl)

theorem withHolders (hx : x.Tracked) {holders : List StoreRef}
    (hholders : ∀ r ∈ holders, r ∈ x.held) : Tracked { x with holders := holders } := by
  have hlive : ∀ r ∈ holders, x.cache.store? = some r ∨ r ∈ x.holders := by
    intro r hr
    have hheld := hholders r hr
    simp only [Setting.held, List.mem_append, Option.mem_toList] at hheld
    exact hheld
  refine ⟨hx.mono ?_ (Nat.le_refl _), hx.once, ?_, ?_⟩
  · rintro p ((hcurrent | hheld | hacquired) | hretired)
    · exact .inl (.current hcurrent)
    · rcases hlive p hheld with hcurrent | hheld
      · exact .inl (.current hcurrent)
      · exact .inl (.held hheld)
    · exact .inl (.acquired hacquired)
    · exact .inr hretired
  · intro p hp hbacking
    rcases hlive p hp with hcurrent | hheld
    · exact .inl hcurrent
    · exact hx.found p hheld hbacking
  · intro scope answer hunderway
    have hheads := hx.heads scope answer hunderway
    refine ⟨hheads.changes, hheads.own, fun p hp hbacking hpscope => ?_⟩
    rcases hlive p hp with hcurrent | hheld
    -- The current store is not one of the scope that comes.
    · exact absurd (hpscope ▸ Setting.scope?_of_store hcurrent) hheads.changes
    · exact hheads.revived p hheld hbacking hpscope

/-- What is done to the stores, and what the cache keeps up, makes no difference. -/
theorem withWorld (hx : x.Tracked) (u : Upkeep) {w : World Vault}
    (hnext : x.world.store.next ≤ w.store.next) :
    Tracked ⟨⟨{ x.cache with upkeep := u }, x.holders, w⟩, x.underway⟩ where
  toNumbered := by
    refine hx.mono ?_ hnext
    rintro p ((hcurrent | hheld | hacquired) | hretired)
    · exact .inl (.current hcurrent)
    · exact .inl (.held hheld)
    · exact .inl (.acquired hacquired)
    · exact .inr hretired
  once := hx.once
  found := hx.found
  heads scope answer hunderway :=
    ⟨(hx.heads scope answer hunderway).changes, (hx.heads scope answer hunderway).own,
      (hx.heads scope answer hunderway).revived⟩

theorem perform (hx : x.Tracked) (o : Operation) :
    Tracked { x with toSetting := (x.perform o).2 } := by
  have hguards : ∀ r, x.cache.store? = some r → r.guards = [] :=
    fun r hr => hx.plain r (.inl (.current hr))
  rcases x.cache.perform_cases hguards o x.world with ⟨outcome, u, w', hrun, hcases⟩
  simp only [Setting.perform, hrun]
  refine hx.withWorld u ?_
  rcases hcases with ⟨-, -, rfl⟩ | ⟨r, -, hthrough⟩
  · exact Nat.le_refl _
  · exact Nat.le_of_eq hthrough.1.next.symm

theorem step (hx : x.Tracked) (hstep : Step x y) : y.Tracked := by
  cases hstep with
  | acquire _ hscope hrun =>
      exact hx.acquire hscope hrun
  | settle hunderway =>
      refine hx.settle (hx.heads _ _ hunderway) (fun r hr => ?_) (Nat.le_refl _)
      subst hr
      exact .inl (.acquired hunderway)
  | rescope scope hfree =>
      exact hx.rescope hfree scope
  | authenticate user hfree =>
      exact hx.rescope hfree (x.cache.config.scopeFor user)
  | hold hr =>
      refine hx.withHolders fun r' hr' => ?_
      rcases List.mem_cons.mp hr' with rfl | hold
      · exact Setting.mem_held_of_store hr
      · exact List.mem_append_right _ hold
  | keep hholders =>
      exact hx.withHolders fun r hr => List.mem_append_right _ (hholders r hr)
  | perform o =>
      exact hx.perform o
  | use hr config u o =>
      -- Using a held store opens none.
      have hthrough := StoreRef.through (hx.plain _ (.inl (.held hr))) config u o x.world
      exact hx.withWorld x.cache.upkeep (Nat.le_of_eq hthrough.1.next.symm)
  | elsewhere hnext =>
      exact hx.withWorld x.cache.upkeep hnext

end Tracked

theorem Reached.tracked {config : Config} {listening : Bool}
    (hx : Reached config listening x) : x.Tracked := by
  induction hx with
  | start w =>
      exact .start config listening w
  | step _ hstep ih =>
      exact ih.step hstep

/-! ## The instance of a scope -/

/-- Where the live store of a persistent scope is found, if there is one. -/
def instance? (x : Course) (scope : Scope) : Option StoreRef :=
  if x.scope? = some scope then x.cache.store?
  else if x.underway.map Prod.fst = some scope then x.underway.bind fun u => u.2.toOption
  else x.cache.retired.find? fun r => r.scope == scope

theorem Tracked.instance?_of_live (hx : x.Tracked) (hp : x.Live p)
    (hbacking : p.scope.backing = .persistent) : x.instance? p.scope = some p := by
  cases hp with
  | current hcurrent =>
      simp only [instance?, if_pos (Setting.scope?_of_store hcurrent), hcurrent]
  | acquired hunderway =>
      have hheads := hx.heads _ _ hunderway
      obtain rfl := hheads.own p rfl
      simp only [instance?, if_neg hheads.changes, hunderway, Option.map_some, if_true,
        Option.bind_some, Except.toOption]
  | held hheld =>
      rcases hx.found p hheld hbacking with hcurrent | ⟨hretired, hscope⟩
      · simp only [instance?, if_pos (Setting.scope?_of_store hcurrent), hcurrent]
      · simp only [instance?, if_neg hscope]
        cases hunderway : x.underway with
        | none =>
            exact Cache.find?_scope_of_mem hx.once hretired
        | some u =>
            by_cases hcomes : u.1 = p.scope
            -- What comes is the very store that is held.
            · have hanswer := (hx.heads u.1 u.2 hunderway).revived p hheld hbacking hcomes.symm
              simp only [Option.map_some, hcomes, if_true, Option.bind_some, hanswer,
                Except.toOption]
            · have hother : ¬ (some u).map Prod.fst = some p.scope :=
                fun h => hcomes (Option.some.inj h)
              simp only [if_neg hother]
              exact Cache.find?_scope_of_mem hx.once hretired

/-- Changing the scope to that of a store that somebody holds makes this store the current one, and
leaves everything else as it is. -/
theorem Tracked.rescope_held (hx : x.Tracked) (hp : p ∈ x.holders)
    (hbacking : p.scope.backing = .persistent) :
    ∃ c signals, x.cache.rescope x.inUse p.scope x.world = (c, x.world.report signals) ∧
      c.store? = some p := by
  by_cases hscope : x.scope? = some p.scope
  · have hkept : x.cache.target.scope? = some p.scope := hscope
    refine ⟨x.cache, [], ?_, ?_⟩
    · simp only [Cache.rescope, if_pos hkept, World.report_nil]
      rfl
    · rcases hx.found p hp hbacking with hcurrent | ⟨-, hother⟩
      · exact hcurrent
      · exact absurd hscope hother
  · have hacquire : x.cache.acquire x.inUse p.scope x.world = (.ok p, x.world) := by
      simp only [Cache.acquire, hx.revive?_held hp hbacking hscope]
      rfl
    exact ⟨_, _, Cache.rescope_apply hscope hacquire, rfl⟩

theorem read_of_store? {c : Cache} (hp : c.store? = some p) (q : QueryKey) :
    c.read q = p.backend.read q := by
  simp only [Cache.read, hp]

/-- After any changes of the scope, stores taken, kept and let go meanwhile: the live stores of one
persistent scope are one store; a store that is opened is apart from all that are live; and when
the scope of a store that somebody holds comes back, at one go or in two steps, this store is the
current one again, untouched, and reading through the cache is reading through it. -/
theorem one_instance {config : Config} {listening : Bool} {x : Course}
    (hx : Reached config listening x) :
    (∀ p q, x.Live p → x.Live q → p.scope.backing = .persistent → p.scope = q.scope → p = q) ∧
    (∀ scope r w, x.cache.acquire x.inUse scope x.world = (.ok r, w) →
      x.Live r ∨ ∀ p, x.Live p → p.store ≠ r.store) ∧
    (∀ p ∈ x.holders, p.scope.backing = .persistent →
      (∃ c signals, x.cache.rescope x.inUse p.scope x.world = (c, x.world.report signals) ∧
        c.store? = some p ∧ ∀ q, c.read q = p.backend.read q) ∧
      ∀ answer, x.underway = some (p.scope, answer) →
        (x.cache.pointed x.inUse p.scope answer).store? = some p ∧
          ∀ q, (x.cache.pointed x.inUse p.scope answer).read q = p.backend.read q) := by
  have htracked := hx.tracked
  refine ⟨?_, ?_, ?_⟩
  · intro p q hp hq hbacking hscope
    have hfirst := htracked.instance?_of_live hp hbacking
    have hsecond := htracked.instance?_of_live hq (hscope ▸ hbacking)
    rw [hscope, hsecond] at hfirst
    exact (Option.some.inj hfirst).symm
  · intro scope r w hrun
    rcases x.cache.acquire_cases x.inUse scope x.world with
      ⟨r', hrevive, hacquire⟩ | ⟨-, answer, v', signals, hacquire, hopens⟩
    · rw [hacquire] at hrun
      cases hrun
      rcases Cache.revive?_eq_some hrevive with ⟨hretired, -, hused⟩
      have hheld := htracked.mem_held_of_inUse hretired hused
      simp only [Setting.held, List.mem_append, Option.mem_toList] at hheld
      rcases hheld with hcurrent | hholder
      · exact .inl (.current hcurrent)
      · exact .inl (.held hholder)
    · rw [hacquire] at hrun
      cases hrun
      -- A store that was opened has a number that no live store has.
      refine .inr fun p hp hsame => ?_
      have hbelow := htracked.below p (.inl hp)
      rw [hsame] at hbelow
      exact Nat.lt_irrefl _ (Nat.lt_of_lt_of_le hbelow hopens.fresh.2.2.1)
  · intro p hp hbacking
    refine ⟨?_, fun answer hunderway => ?_⟩
    · rcases htracked.rescope_held hp hbacking with ⟨c, signals, hrun, hcurrent⟩
      exact ⟨c, signals, hrun, hcurrent, read_of_store? hcurrent⟩
    · obtain rfl := (htracked.heads _ _ hunderway).revived p hp hbacking rfl
      exact ⟨rfl, read_of_store? rfl⟩

/-- A cache whose stores are files, and that has no scope yet. -/
def unscoped : Course :=
  ⟨⟨.new { Config.default with backing := .persistent } false, [],
    ⟨.empty, [], [], 0, .empty false⟩⟩, none⟩

/-- The cache is pointed at the scope of a user. -/
def signIn (x : Course) (user : String) : Course :=
  ⟨x.retarget fun c inUse => c.authenticate inUse (some user), none⟩

theorem scope?_signIn (x : Course) (user : String) :
    (x.signIn user).scope? = some (x.cache.config.scopeFor (some user)) :=
  x.scope?_rescope (x.cache.config.scopeFor (some user))

theorem mem_holders_signIn (x : Course) (user : String) (hr : r ∈ x.holders) :
    r ∈ (x.signIn user).holders := hr

/-- The store that is opened first. -/
def firstStore : StoreRef :=
  ⟨unscoped.cache.config.scopeFor (some "ada"), .file 1, []⟩

/-- The store of the first user is held while the second one signs in. -/
def takenOver : Course :=
  signIn { unscoped.signIn "ada" with
    holders := firstStore :: (unscoped.signIn "ada").holders } "bob"

/-- When the first user comes back, the store that was held is the current one again. -/
theorem one_instance_takenOver :
    Reached unscoped.cache.config false takenOver ∧ firstStore ∈ takenOver.holders ∧
      firstStore.scope.backing = .persistent ∧ takenOver.cache.store? ≠ some firstStore ∧
      ∃ c signals, takenOver.cache.rescope takenOver.inUse firstStore.scope takenOver.world =
          (c, takenOver.world.report signals) ∧
        c.store? = some firstStore ∧ ∀ q, c.read q = firstStore.backend.read q := by
  have hcurrent : (unscoped.signIn "ada").cache.store? = some firstStore := by
    decide +kernel
  have hfirst : Reached unscoped.cache.config false (unscoped.signIn "ada") :=
    .step (.start _) (.authenticate (some "ada") rfl)
  have hreached : Reached unscoped.cache.config false takenOver :=
    .step (.step hfirst (.hold hcurrent)) (.authenticate (some "bob") rfl)
  have hheld : firstStore ∈ takenOver.holders :=
    mem_holders_signIn _ "bob" List.mem_cons_self
  -- The second user has a scope of its own.
  have hother : takenOver.cache.store? ≠ some firstStore := by
    intro h
    have hscope := (scope?_signIn _ "bob").symm.trans (Setting.scope?_of_store h)
    exact absurd (congrArg Scope.user (Option.some.inj hscope)) (by decide)
  exact ⟨hreached, hheld, rfl, hother, ((one_instance hreached).2.2 _ hheld rfl).1⟩

end Course
end EntityCache
