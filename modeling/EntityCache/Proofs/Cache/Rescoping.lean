import EntityCache.Proofs.Retry.Attempts
import EntityCache.Proofs.Store.Alike

/-!
# Rescoping a cache

* `Vault.Opens`: what opening a store comes to.
* `Cache.acquire_cases`: what acquiring a store comes to.
* `World.Quiet`: nobody holds a record, and every store knows only records that exist.
* `Cache.rescope_cases`: the target and the stores of a cache after its scope was changed.
-/

namespace EntityCache

/-! ## Opening -/

namespace Vault

/-- What opening a store for a scope comes to, whose file lies at a location. -/
inductive Opens (scope : Scope) (l : Location) (v : Vault) :
    Except StoreError StoreRef → Vault → Prop
  | failed (e : StoreError) (d : Directory)
      (hstores : ∀ l', d.storeAt? l' = v.directory.storeAt? l') :
      Opens scope l v (.error e) { v with directory := d }
  | memory (hbacking : scope.backing = .memory) :
      Opens scope l v (.ok (v.addMemoryStore scope).1) (v.addMemoryStore scope).2
  | file (d : Directory) (hbacking : scope.backing = .persistent)
      (hstores : ∀ l', d.storeAt? l' = v.directory.storeAt? l') :
      Opens scope l v (.ok (addFileStore scope l { v with directory := d }).1)
        (addFileStore scope l { v with directory := d }).2

variable {scope : Scope} {l : Location} {path : String} {policy : Retry.Policy} {w : World Vault}

/-- Only the place that a path leads to is opened. -/
theorem locate?_of_attempts {v : Vault} :
    (v.attempts path policy).outcome.getD (.error noFile) = .ok l →
      v.directory.locate? path = some l := by
  intro h
  have hrun : (v.attempts path policy).outcome = some (.ok l) := by
    cases hout : (v.attempts path policy).outcome with
    | none =>
        simp only [hout] at h
        cases h
    | some r =>
        simp only [hout, Option.getD_some] at h
        rw [h]
  rcases Retry.exists_of_run hrun with ⟨-, hcall⟩
  split at hcall
  · next l' hl' =>
      cases hcall
      exact (Option.filter_eq_some_iff.mp hl').1
  · cases hcall

theorem openFile_opens (hbacking : scope.backing = .persistent)
    (hplace : ∀ l', w.store.directory.locate? path = some l' → l' = l) :
    ∃ answer v' signals,
      openFile scope path policy w = (answer, { w.report signals with store := v' }) ∧
        Opens scope l w.store answer v' := by
  simp only [openFile_apply]
  split
  · next l' hl' =>
      cases hplace l' (locate?_of_attempts hl')
      exact ⟨_, _, _, rfl, .file _ hbacking fun l' => storeAt?_directoryAfter _ path l'⟩
  · exact ⟨_, _, _, rfl, .failed _ _ fun l' => storeAt?_directoryAfter _ path l'⟩

/-- The file of a scope lies in the directory itself, under the name of the scope. -/
theorem openFor_opens (scope : Scope) (policy : Retry.Policy) (w : World Vault) :
    ∃ answer v' signals, openFor scope policy w = (answer, { w.report signals with store := v' }) ∧
      Opens scope [scope.fileName] w.store answer v' := by
  simp only [openFor]
  cases hbacking : scope.backing with
  | memory =>
      refine ⟨_, _, [], ?_, .memory hbacking⟩
      simp only [World.report_nil]
      rfl
  | persistent =>
      simp only [Act.bind_ok (a := Act.world) rfl]
      by_cases hblocked : w.store.directory.blocked = true
      · refine ⟨_, _, [], ?_, .failed noFile w.store.directory fun _ => rfl⟩
        simp only [if_pos hblocked, World.report_nil]
        rfl
      · simp only [if_neg hblocked]
        exact openFile_opens hbacking fun l' hl' => Directory.locate?_fileName hl'

/-- A file that is opened by hand lies where its path leads. -/
theorem openAt_opens (scope : Scope) (path : String) (policy : Retry.Policy) (w : World Vault) :
    ∃ l answer v' signals,
      openAt scope path policy w = (answer, { w.report signals with store := v' }) ∧
        Opens scope l w.store answer v' := by
  simp only [openAt]
  cases hbacking : scope.backing with
  | memory =>
      refine ⟨[], _, _, [], ?_, .memory hbacking⟩
      simp only [World.report_nil]
      rfl
  | persistent =>
      refine ⟨(w.store.directory.locate? path).getD [], openFile_opens hbacking fun l' hl' => ?_⟩
      simp only [hl', Option.getD_some]

end Vault

/-! ## Quiet worlds -/

/-- Between two operations nobody holds a record, and every store knows only records that exist. -/
structure World.Quiet (w : World Vault) : Prop where
  held : w.held = []
  bounded : ∀ n s, w.store.opened.get? n = some s →
    ∀ guid h, s.live.get? guid = some h → h < w.pool.cells.size

namespace World.Quiet

variable {w : World Vault}

theorem focus (h : w.Quiet) (n : Nat) : (w.focus (Vault.connected n)).Bounded := by
  intro guid i hi
  cases hopened : w.store.opened.get? n with
  | none =>
      have hlive : (w.store.fileStore n).live.get? guid = some i := hi
      simp only [Vault.fileStore, hopened] at hlive
      cases hlive
  | some s =>
      have hlive : (w.store.fileStore n).live.get? guid = some i := hi
      simp only [Vault.fileStore, hopened, Option.getD_some] at hlive
      exact h.bounded n s hopened guid i hlive

/-- Nothing has changed for records, and every opened store is an old one or knows no record. -/
theorem congr (h : w.Quiet) {w' : World Vault} (hpool : w'.pool = w.pool) (hheld : w'.held = w.held)
    (hopened : ∀ n s, w'.store.opened.get? n = some s →
      w.store.opened.get? n = some s ∨ s.live = .empty) : w'.Quiet where
  held := hheld.trans h.held
  bounded n s hs guid i hi := by
    rcases hopened n s hs with hold | hnew
    · rw [hpool]
      exact h.bounded n s hold guid i hi
    · simp only [hnew] at hi
      cases hi

theorem opens (h : w.Quiet) {scope : Scope} {l : Location} {answer : Except StoreError StoreRef}
    {v' : Vault} (signals : Journal) (hopens : Vault.Opens scope l w.store answer v') :
    World.Quiet { w.report signals with store := v' } := by
  refine h.congr rfl rfl ?_
  intro n s hs
  cases hopens with
  | failed e d _ =>
      exact Or.inl hs
  | memory _ =>
      exact Or.inl hs
  | file d _ _ =>
      simp only [(Vault.opened_addFileStore _ _ _).1, Dict.get?_insert] at hs
      split at hs
      -- A new store knows no record.
      · cases hs
        exact Or.inr rfl
      · exact Or.inl hs

theorem release (h : w.Quiet) (inUse : StoreId → Bool) :
    World.Quiet { w with store := w.store.release inUse } := by
  refine h.congr rfl rfl fun n s hs => Or.inl ?_
  simp only [Vault.opened_release, Dict.get?_filter] at hs
  exact (Option.mem_filter_iff.mp hs).1

theorem through (h : w.Quiet) {id : StoreId} {w' : World Vault} (hthrough : Tidy id.Through w w') :
    w'.Quiet := by
  rcases hthrough with ⟨hthrough, hheld⟩
  refine ⟨hheld.trans h.held, ?_⟩
  intro n s hs guid i hi
  by_cases hsame : id = .file n
  · have hbounded := (hthrough.tied n hsame).bounded (h.focus n)
    refine hbounded guid i ?_
    show (w'.store.fileStore n).live.get? guid = some i
    simp only [Vault.fileStore, hs, Option.getD_some]
    exact hi
  -- Another store still knows what it knew.
  · rw [hthrough.opened n hsame] at hs
    exact Nat.lt_of_lt_of_le (h.bounded n s hs guid i hi) hthrough.pool

end World.Quiet

/-! ## Rescoping -/

namespace Cache

/-- The cache after its target was changed for a store of a scope, or for none. -/
def pointed (c : Cache) (inUse : StoreRef → Bool) (scope : Scope)
    (answer : Except StoreError StoreRef) : Cache :=
  { c with retired := c.retired.filter (fun r => r.scope != scope) }.swap inUse
    (settle scope answer).1

theorem scope?_pointed {c : Cache} {inUse : StoreRef → Bool} {scope : Scope}
    {answer : Except StoreError StoreRef} (hanswer : ∀ r, answer = .ok r → r.scope = scope) :
    (c.pointed inUse scope answer).target.scope? = some scope := by
  cases answer with
  | ok r =>
      exact congrArg some (hanswer r rfl)
  | error e =>
      rfl

theorem store?_eq_some {c : Cache} {r : StoreRef} : c.store? = some r ↔ c.target = .ready r := by
  simp only [store?]
  cases c.target with
  | unscoped =>
      simp only [Target.store?, reduceCtorEq]
  | disabled _ =>
      simp only [Target.store?, reduceCtorEq]
  | ready r' =>
      simp only [Target.store?, Option.some.injEq, Target.ready.injEq]

theorem store?_pointed {c : Cache} {inUse : StoreRef → Bool} {scope : Scope}
    {answer : Except StoreError StoreRef} {r : StoreRef} :
    (c.pointed inUse scope answer).store? = some r → answer = .ok r := by
  intro h
  cases answer with
  | ok r' =>
      cases h
      rfl
  | error e =>
      cases h

/-- What was swapped out before, or is swapped out now. -/
theorem mem_retired_pointed {c : Cache} {inUse : StoreRef → Bool} {scope : Scope}
    {answer : Except StoreError StoreRef} {r : StoreRef} :
    r ∈ (c.pointed inUse scope answer).retired →
      r ∈ c.retired ∨ c.store? = some r ∧ r.scope.backing = .persistent := by
  have hold : ∀ {r}, r ∈ c.retired.filter (fun r => r.scope != scope) → r ∈ c.retired :=
    fun h => (List.mem_filter.mp h).1
  intro h
  change r ∈ retire (c.retired.filter (fun r => r.scope != scope)) inUse c.target at h
  simp only [store?]
  -- Only the store that was the target until now can be new among them.
  cases htarget : c.target with
  | unscoped =>
      simp only [htarget, retire] at h
      exact Or.inl (hold h)
  | disabled _ =>
      simp only [htarget, retire] at h
      exact Or.inl (hold h)
  | ready previous =>
      simp only [htarget, retire] at h
      by_cases hbacking : previous.scope.backing = .persistent
      · simp only [if_pos hbacking, List.mem_cons] at h
        rcases h with rfl | h
        · exact Or.inr ⟨rfl, hbacking⟩
        · exact Or.inl (hold (List.mem_filter.mp h).1)
      · simp only [if_neg hbacking] at h
        exact Or.inl (hold h)

variable {c : Cache} {inUse : StoreRef → Bool} {scope : Scope}

theorem revive?_eq_some {r : StoreRef} (h : c.revive? inUse scope = some r) :
    r ∈ c.retired ∧ r.scope = scope ∧ inUse r = true := by
  rcases Option.filter_eq_some_iff.mp h with ⟨hfind, hused⟩
  have hscope := List.find?_some hfind
  exact ⟨List.mem_of_find?_eq_some hfind, beq_iff_eq.mp hscope, hused⟩

/-- A store for a scope is taken up again; or it is opened, which may fail. -/
theorem acquire_cases (c : Cache) (inUse : StoreRef → Bool) (scope : Scope) (w : World Vault) :
    (∃ r, c.revive? inUse scope = some r ∧ c.acquire inUse scope w = (.ok r, w)) ∨
      c.revive? inUse scope = none ∧ ∃ answer v' signals,
        c.acquire inUse scope w = (answer, { w.report signals with store := v' }) ∧
          Vault.Opens scope [scope.fileName] w.store answer v' := by
  simp only [acquire]
  cases c.revive? inUse scope with
  | some r =>
      exact .inl ⟨r, rfl, rfl⟩
  | none =>
      exact .inr ⟨rfl, Vault.openFor_opens scope c.config.openPolicy w⟩

/-- Where the scope changes, the cache is pointed at what was acquired. -/
theorem rescope_apply (hscope : c.target.scope? ≠ some scope) {w w' : World Vault}
    {answer : Except StoreError StoreRef} (hacquire : c.acquire inUse scope w = (answer, w')) :
    c.rescope inUse scope w =
      (c.pointed inUse scope answer, w'.report (settle scope answer).2) := by
  simp only [rescope, if_neg hscope]
  rw [bindM_apply (m := (c.acquire inUse scope).outcome) hacquire]
  simp only [bindM_apply (note_apply _ _)]
  rfl

/-- Nothing happens where the scope is the current one.  Else the cache points at a store that was
taken up again or opened, or at none. -/
theorem rescope_cases (c : Cache) (inUse : StoreRef → Bool) (scope : Scope) (w : World Vault) :
    (c.target.scope? = some scope ∧ c.rescope inUse scope w = (c, w)) ∨
      c.target.scope? ≠ some scope ∧ ∃ answer v' signals,
        c.rescope inUse scope w =
          (c.pointed inUse scope answer, { w.report signals with store := v' }) ∧
        ((∃ r, c.revive? inUse scope = some r ∧ answer = .ok r ∧ v' = w.store) ∨
          Vault.Opens scope [scope.fileName] w.store answer v') := by
  by_cases hscope : c.target.scope? = some scope
  · left
    refine ⟨hscope, ?_⟩
    simp only [rescope, if_pos hscope]
    rfl
  · right
    refine ⟨hscope, ?_⟩
    rcases c.acquire_cases inUse scope w with
      ⟨r, hrevive, hacquire⟩ | ⟨-, answer, v', signals, hacquire, hopens⟩
    · exact ⟨_, _, _, rescope_apply hscope hacquire, Or.inl ⟨r, hrevive, rfl, rfl⟩⟩
    · refine ⟨answer, v', signals ++ (settle scope answer).2, ?_, Or.inr hopens⟩
      simp only [rescope_apply hscope hacquire, World.report, List.append_assoc]

/-- What other scopes have, and what a cache keeps up, is of no concern for the target of a cache
and for the stores that are opened. -/
theorem rescope_alike {s : Scope} {w w' : World Vault} (u : Upkeep) (inUse : StoreRef → Bool)
    (scope : Scope) (halike : w.store.AlikeFor s w'.store) (hfiled : w.store.Filed) :
    (∃ u', ({ c with upkeep := u }.rescope inUse scope w').1 =
        { (c.rescope inUse scope w).1 with upkeep := u' }) ∧
      (c.rescope inUse scope w).2.store.AlikeFor s
        ({ c with upkeep := u }.rescope inUse scope w').2.store := by
  by_cases hscope : c.target.scope? = some scope
  · simp only [rescope, if_pos hscope]
    exact ⟨⟨u, rfl⟩, halike⟩
  · have hacquire : ({ c with upkeep := u }.acquire inUse scope w').1 =
          (c.acquire inUse scope w).1 ∧
        (c.acquire inUse scope w).2.store.AlikeFor s
          ({ c with upkeep := u }.acquire inUse scope w').2.store := by
      -- What was swapped out returns on both sides; what is opened is alike.
      have hrevive : { c with upkeep := u }.revive? inUse scope = c.revive? inUse scope := rfl
      simp only [acquire, hrevive]
      cases c.revive? inUse scope with
      | some r =>
          exact ⟨rfl, halike⟩
      | none =>
          exact halike.openFor hfiled scope c.config.openPolicy
    have hrun := rescope_apply hscope (Prod.eta (c.acquire inUse scope w)).symm
    have hrun' := rescope_apply (c := { c with upkeep := u }) hscope
      (Prod.eta ({ c with upkeep := u }.acquire inUse scope w')).symm
    simp only [hacquire.1] at hrun'
    rw [hrun, hrun']
    exact ⟨⟨{ u with sizing := .start }, rfl⟩, hacquire.2⟩

end Cache
end EntityCache
