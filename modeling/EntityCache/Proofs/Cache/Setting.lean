import EntityCache.Proofs.Cache.Operations
import EntityCache.Proofs.Cache.Rescoping
import EntityCache.Proofs.Store.Contents

/-!
# A cache in its setting

* `Setting`: a cache, the stores that somebody else holds, and all stores.
* `Move`, `Setting.after`: what is done to a cache, and what follows from it.
* `StoreRef.Placed`: a store is where it was opened, in the file of its scope.
* `Setting.Sound`: between two moves every store is in place; kept by `Setting.Sound.after`.
-/

namespace EntityCache

/-- A cache, the stores that are held outside of it, and all stores. -/
structure Setting where
  cache : Cache
  holders : List StoreRef
  world : World Vault

/-- What is done to a cache, or to the stores that somebody holds. -/
inductive Move where
  | rescope (scope : Scope)
  | authenticate (user : Option String)
  | perform (o : Operation)
  /-- The current store is held from now on. -/
  | hold
  /-- One of the held stores is let go. -/
  | drop (n : Nat)

namespace Setting

def scope? (x : Setting) : Option Scope :=
  x.cache.target.scope?

/-- All stores that somebody has. -/
def held (x : Setting) : List StoreRef :=
  x.cache.store?.toList ++ x.holders

def inUse (x : Setting) (p : StoreRef) : Bool :=
  x.held.any (fun r => r.reaches p)

/-- Exactly the stores that somebody has stay opened. -/
def release (x : Setting) : Setting :=
  { x with
    world :=
      { x.world with
        store := x.world.store.release (fun id => (x.held.map StoreRef.store).contains id) } }

/-- A change of what the cache points at. -/
def retarget (x : Setting) (task : Cache → (StoreRef → Bool) → StateM (World Vault) Cache) :
    Setting :=
  let (c, w) := task x.cache x.inUse x.world
  { x with cache := c, world := w }

/-- An operation through the cache. -/
def perform (x : Setting) (o : Operation) : Outcome × Setting :=
  let ((outcome, c), w) := x.cache.perform o x.world
  (outcome, { x with cache := c, world := w })

/-- What follows from a move. -/
def after (x : Setting) : Move → Setting
  | .rescope scope => (x.retarget fun c inUse => c.rescope inUse scope).release
  | .authenticate user => (x.retarget fun c inUse => c.authenticate inUse user).release
  | .perform o => (x.perform o).2
  | .hold => { x with holders := x.cache.store?.toList ++ x.holders }
  | .drop n => { x with holders := x.holders.eraseIdx n }.release

end Setting

/-! ## Stores in place -/

/-- What a store of this kind is backed by. -/
def StoreId.backing : StoreId → Backing
  | memory _ => .memory
  | file _ => .persistent

/-- A store is where it was opened for its scope, and no call on it is made to fail. -/
structure StoreRef.Placed (r : StoreRef) (v : Vault) : Prop where
  guards : r.guards = []
  backing : r.scope.backing = r.store.backing
  used : ∀ n, r.store = .file n → n < v.next
  /-- If it is still opened, then in the file of its scope. -/
  placed : ∀ n s, r.store = .file n → v.opened.get? n = some s →
    s.closed = false ∧ v.directory.storeAt? [r.scope.fileName] = some s.file

def StoreRef.Opened (r : StoreRef) (v : Vault) : Prop :=
  ∀ n, r.store = .file n → (v.opened.get? n).isSome = true

namespace Vault

/-- Scopes keep their files, and a number that was given out never means another store. -/
structure Later (v v' : Vault) : Prop where
  next : v.next ≤ v'.next
  places : ∀ {s : Scope} {file}, v.directory.storeAt? [s.fileName] = some file →
    v'.directory.storeAt? [s.fileName] = some file
  opened : ∀ {n s'}, n < v.next → v'.opened.get? n = some s' →
    ∃ s, v.opened.get? n = some s ∧ s.link = s'.link

variable {v v' : Vault}

theorem Alike.later (h : v.Alike v') : v.Later v' where
  next := Nat.le_of_eq h.next.symm
  places := by
    intro s file hs
    rw [h.directory, hs]
  opened := by
    intro n s' _ hs'
    have hlink := h.opened n
    simp only [hs', Option.map_some] at hlink
    exact Option.map_eq_some_iff.mp hlink.symm

theorem later_release (v : Vault) (inUse : StoreId → Bool) : v.Later (v.release inUse) where
  next := Nat.le_of_eq (v.release_apply inUse).2.symm
  places hs := ((v.directory_release inUse).1 _).trans hs
  opened := by
    intro n s' _ hs'
    simp only [opened_release, Dict.get?_filter] at hs'
    exact ⟨s', (Option.mem_filter_iff.mp hs').1, rfl⟩

/-- The file of a scope, if there is one, has all tables, and every row holds the entity that it is
found under. -/
def Legible (v : Vault) (s : Scope) : Prop :=
  ∀ tables, v.shelf s = some tables → ∃ t : FileStore.Contents, tables = t.tables ∧ t.Keyed

/-- A new store in the file of its scope is in place. -/
theorem placed_addFileStore (v : Vault) {scope : Scope} (hbacking : scope.backing = .persistent) :
    (v.addFileStore scope [scope.fileName]).1.Placed (v.addFileStore scope [scope.fileName]).2 ∧
      (v.addFileStore scope [scope.fileName]).1.Opened
        (v.addFileStore scope [scope.fileName]).2 := by
  rcases v.opened_addFileStore scope [scope.fileName] with ⟨hopened, -, hnext⟩
  -- The store has the number that the file left.
  have hnumber : ∀ {n}, (v.addFileStore scope [scope.fileName]).1.store = .file n →
      n = (v.fileAt [scope.fileName]).2.next := fun hn => (StoreId.file.inj hn).symm
  refine ⟨⟨rfl, hbacking, fun n hn => ?_, fun n s hn hs => ?_⟩, fun n hn => ?_⟩
  · simp only [hnumber hn, hnext, Nat.lt_succ_self]
  · simp only [hnumber hn, hopened, Dict.get?_insert_self, Option.some.injEq] at hs
    subst hs
    exact ⟨rfl, (storeAt?_addFileStore scope scope _).trans (if_pos rfl)⟩
  · simp only [hnumber hn, hopened, Dict.get?_insert_self, Option.isSome_some]

namespace Opens

variable {scope : Scope} {l : Location} {answer : Except StoreError StoreRef}

theorem later (h : Opens scope l v answer v') : v.Later v' := by
  cases h with
  | failed e d hstores =>
      exact ⟨Nat.le_refl _, fun hs => (hstores _).trans hs, fun _ hs => ⟨_, hs, rfl⟩⟩
  | memory _ =>
      exact ⟨Nat.le_succ _, fun hs => hs, fun _ hs => ⟨_, hs, rfl⟩⟩
  | file d _ hstores =>
      let u : Vault := { v with directory := d }
      rcases u.opened_addFileStore scope l with ⟨hopened, hle, hnext⟩
      have hle' : v.next ≤ (u.fileAt l).2.next := hle
      refine ⟨?_, ?_, ?_⟩
      · show v.next ≤ (u.addFileStore scope l).2.next
        omega
      · intro s file hs
        have hu : u.directory.storeAt? [s.fileName] = some file := (hstores _).trans hs
        simp only [storeAt?_addFileStore]
        split
        · next hl =>
            rw [hl] at hu
            exact congrArg (fun p => some p.1) (fileAt_of_store hu)
        · exact hu
      · intro n s' hn hs'
        -- The new store has a number of its own.
        have hne : n ≠ (u.fileAt l).2.next := by omega
        rw [hopened, Dict.get?_insert, if_neg hne] at hs'
        exact ⟨s', hs', rfl⟩

theorem opened (h : Opens scope l v answer v') {r : StoreRef} (hr : r.Opened v) : r.Opened v' := by
  intro n hn
  have hold := hr n hn
  cases h with
  | failed e d _ =>
      exact hold
  | memory _ =>
      exact hold
  | file d _ _ =>
      simp only [(opened_addFileStore _ _ _).1, Dict.get?_insert]
      split
      · rfl
      · exact hold

/-- A store that is opened for a scope is in place. -/
theorem placed {r : StoreRef} (h : Opens scope [scope.fileName] v (.ok r) v') :
    r.scope = scope ∧ r.Placed v' ∧ r.Opened v' := by
  cases h with
  | memory hbacking =>
      refine ⟨rfl, ⟨rfl, hbacking, ?_, ?_⟩, ?_⟩
      · intro n hn
        cases hn
      · intro n s hn
        cases hn
      · intro n hn
        cases hn
  | file d hbacking _ =>
      exact ⟨rfl, placed_addFileStore _ hbacking⟩

theorem filed (h : Opens scope l v answer v') (hv : v.Filed) : v'.Filed := by
  cases h with
  | failed e d hstores =>
      exact hv.withDirectory hstores
  | memory _ =>
      exact hv.mono (fun hl => hl) (Nat.le_succ _)
  | file d _ hstores =>
      exact (hv.withDirectory hstores).addFileStore scope l

theorem legible (h : Opens scope l v answer v') (hv : v.Filed) {s : Scope} (hs : v.Legible s) :
    v'.Legible s := by
  have hdirectory : ∀ {d : Directory}, (∀ l', d.storeAt? l' = v.directory.storeAt? l') →
      shelf { v with directory := d } s = v.shelf s := by
    intro d hstores
    simp only [shelf, hstores]
    rfl
  intro tables htables
  cases h with
  | failed e d hstores =>
      exact hs tables ((hdirectory hstores).symm.trans htables)
  | memory _ =>
      exact hs tables htables
  | file d _ hstores =>
      -- Tables that are missing in the file of the scope are made; other files stay as they are.
      by_cases hown : [s.fileName] = l
      · subst hown
        rw [shelf_addFileStore, hdirectory hstores] at htables
        cases htables
        cases hold : v.shelf s with
        | none =>
            exact ⟨.empty, rfl, FileStore.Contents.keyed_empty⟩
        | some old =>
            rcases hs old hold with ⟨t, rfl, ht⟩
            exact ⟨t, rfl, ht⟩
      · rw [shelf_addFileStore_of_ne (hv.withDirectory hstores) scope hown,
          hdirectory hstores] at htables
        exact hs tables htables

end Opens
end Vault

theorem StoreRef.Placed.later {r : StoreRef} {v v' : Vault} (h : r.Placed v) (hv : v.Later v') :
    r.Placed v' where
  guards := h.guards
  backing := h.backing
  used n hn := Nat.lt_of_lt_of_le (h.used n hn) hv.next
  placed := by
    intro n s' hn hs'
    rcases hv.opened (h.used n hn) hs' with ⟨s, hs, hlink⟩
    rcases Prod.mk.inj hlink with ⟨hfile, hclosed⟩
    rcases h.placed n s hn hs with ⟨hopen, hplace⟩
    exact ⟨hclosed.symm.trans hopen, hfile ▸ hv.places hplace⟩

/-- A change of the scope leads to this scope, whether a store is found for it or not. -/
theorem Cache.scope?_rescope (c : Cache) (inUse : StoreRef → Bool) (scope : Scope)
    (w : World Vault) : (c.rescope inUse scope w).1.target.scope? = some scope := by
  rcases c.rescope_cases inUse scope w with
    ⟨hscope, hrun⟩ | ⟨-, answer, v', signals, hrun, ⟨r, hrevive, rfl, rfl⟩ | hopens⟩
  · rw [hrun]
    exact hscope
  · rw [hrun]
    refine Cache.scope?_pointed fun r' hr' => ?_
    cases hr'
    exact (Cache.revive?_eq_some hrevive).2.1
  · rw [hrun]
    refine Cache.scope?_pointed fun r hr => ?_
    subst hr
    exact hopens.placed.1

/-! ## Operations -/

/-- An operation through a cache without a store changes only the time; else it goes through the
store. -/
theorem Cache.perform_cases (c : Cache) (hguards : ∀ r, c.store? = some r → r.guards = [])
    (o : Operation) (w : World Vault) :
    ∃ outcome u w', c.perform o w = ((outcome, { c with upkeep := u }), w') ∧
      (c.store? = none ∧ outcome = o.unserved ∧ w' = w.setTime o.time ∨
        ∃ r, c.store? = some r ∧ Tidy r.store.Through w w') := by
  cases hstore : c.store? with
  | none =>
      exact ⟨_, c.upkeep, _, perform_of_none hstore o w, Or.inl ⟨rfl, rfl, rfl⟩⟩
  | some r =>
      have hthrough := Cache.through hstore (hguards r hstore) o w
      cases hrun : r.backend.perform c.config c.upkeep o w with
      | mk answer w' =>
          have hperform := perform_apply hstore hrun
          rw [hperform] at hthrough
          exact ⟨_, _, _, hperform, Or.inr ⟨r, rfl, hthrough⟩⟩

/-! ## Soundness -/

namespace Setting

/-- Between two moves: nobody holds a record, and every store is in place. -/
structure Sound (x : Setting) : Prop where
  quiet : x.world.Quiet
  filed : x.world.store.Filed
  held : ∀ r ∈ x.held, r.Placed x.world.store ∧ r.Opened x.world.store
  retired : ∀ r ∈ x.cache.retired, r.Placed x.world.store ∧ r.scope.backing = .persistent

variable {x : Setting}

theorem mem_held_of_store {r : StoreRef} : x.cache.store? = some r → r ∈ x.held := by
  intro h
  simp only [held, h, Option.toList_some, List.mem_append, List.mem_singleton, true_or]

theorem scope?_of_store {r : StoreRef} : x.cache.store? = some r → x.scope? = some r.scope := by
  intro h
  simp only [scope?, Cache.store?_eq_some.mp h]
  rfl

theorem scope?_rescope (x : Setting) (scope : Scope) :
    (x.retarget fun c inUse => c.rescope inUse scope).scope? = some scope :=
  x.cache.scope?_rescope x.inUse scope x.world

namespace Sound

theorem release (hx : x.Sound) : x.release.Sound where
  quiet := hx.quiet.release _
  filed := hx.filed.release _
  held := by
    intro r hr
    rcases hx.held r hr with ⟨hplaced, hopened⟩
    refine ⟨hplaced.later (Vault.later_release _ _), fun n hn => ?_⟩
    have hkept : (x.held.map StoreRef.store).contains (.file n) = true := by
      simp only [List.contains_eq_mem, decide_eq_true_eq, ← hn]
      exact List.mem_map_of_mem hr
    rcases Option.isSome_iff_exists.mp (hopened n hn) with ⟨s, hs⟩
    simp only [Setting.release, Vault.opened_release, Dict.get?_filter, hs, Option.filter, hkept,
      if_true, Option.isSome_some]
  retired r hr := ⟨(hx.retired r hr).1.later (Vault.later_release _ _), (hx.retired r hr).2⟩

/-- The cache is pointed at a store in place, or at none. -/
theorem pointed (hx : x.Sound) {w : World Vault} (scope : Scope)
    {answer : Except StoreError StoreRef} (hquiet : w.Quiet) (hfiled : w.store.Filed)
    (hlater : x.world.store.Later w.store)
    (hopened : ∀ {r : StoreRef}, r.Opened x.world.store → r.Opened w.store)
    (hanswer : ∀ r, answer = .ok r → r.Placed w.store ∧ r.Opened w.store) :
    Sound ⟨x.cache.pointed x.inUse scope answer, x.holders, w⟩ where
  quiet := hquiet
  filed := hfiled
  held := by
    intro r hr
    simp only [Setting.held, List.mem_append, Option.mem_toList] at hr
    rcases hr with hcurrent | hholder
    · exact hanswer r (Cache.store?_pointed hcurrent)
    · rcases hx.held r (List.mem_append_right _ hholder) with ⟨hplaced, hold⟩
      exact ⟨hplaced.later hlater, hopened hold⟩
  retired := by
    intro r hr
    rcases Cache.mem_retired_pointed hr with hold | ⟨hprevious, hbacking⟩
    · exact ⟨(hx.retired r hold).1.later hlater, (hx.retired r hold).2⟩
    · exact ⟨(hx.held r (mem_held_of_store hprevious)).1.later hlater, hbacking⟩

/-- A store that was swapped out and is in use is in place. -/
theorem revived (hx : x.Sound) {scope : Scope} {r : StoreRef} :
    x.cache.revive? x.inUse scope = some r →
      r.scope = scope ∧ r.scope.backing = .persistent ∧ r.Placed x.world.store ∧
        r.Opened x.world.store := by
  intro h
  rcases Cache.revive?_eq_some h with ⟨hretired, hscope, hused⟩
  rcases hx.retired r hretired with ⟨hplaced, hbacking⟩
  refine ⟨hscope, hbacking, hplaced, fun n hn => ?_⟩
  -- Somebody has it, perhaps through failing calls.
  rcases List.any_eq_true.mp hused with ⟨p, hp, hreaches⟩
  have hsame : p.store = r.store := by
    simp only [StoreRef.reaches, Bool.and_eq_true, decide_eq_true_eq] at hreaches
    exact hreaches.1
  exact (hx.held p hp).2 n (hsame.trans hn)

/-- What a change of the scope comes to, once and for all. -/
theorem rescope (hx : x.Sound) (scope : Scope) :
    (x.retarget fun c inUse => c.rescope inUse scope).Sound ∧
      (x.retarget fun c inUse => c.rescope inUse scope).scope? = some scope ∧
      ∀ s, x.world.store.Legible s →
        (x.retarget fun c inUse => c.rescope inUse scope).world.store.Legible s := by
  have hplaces : (x.retarget fun c inUse => c.rescope inUse scope).Sound ∧
      ∀ s, x.world.store.Legible s →
        (x.retarget fun c inUse => c.rescope inUse scope).world.store.Legible s := by
    -- Nothing happens, a store that was swapped out returns, or a store is opened.
    rcases x.cache.rescope_cases x.inUse scope x.world with
      ⟨-, hrun⟩ | ⟨-, answer, v', signals, hrun, ⟨r, hrevive, rfl, rfl⟩ | hopens⟩
    · simp only [retarget, hrun]
      exact ⟨hx, fun _ hs => hs⟩
    · rcases hx.revived hrevive with ⟨-, -, hplaced, hopened⟩
      simp only [retarget, hrun]
      refine ⟨?_, fun _ hs => hs⟩
      refine hx.pointed scope ⟨hx.quiet.held, hx.quiet.bounded⟩ hx.filed
        (Vault.Alike.refl _).later (fun h => h) fun r' hr' => ?_
      cases hr'
      exact ⟨hplaced, hopened⟩
    · simp only [retarget, hrun]
      refine ⟨?_, fun _ hs => hopens.legible hx.filed hs⟩
      refine hx.pointed scope (hx.quiet.opens signals hopens) (hopens.filed hx.filed)
        hopens.later hopens.opened fun r hr => ?_
      subst hr
      exact hopens.placed.2
  exact ⟨hplaces.1, x.scope?_rescope scope, hplaces.2⟩

/-- An operation leaves everything as it was, as far as can be told from outside the stores. -/
theorem perform (hx : x.Sound) (o : Operation) :
    (x.perform o).2.Sound ∧ x.world.store.Alike (x.perform o).2.world.store ∧
      (x.perform o).2.holders = x.holders ∧
      ∃ u, (x.perform o).2.cache = { x.cache with upkeep := u } := by
  have hguards : ∀ r, x.cache.store? = some r → r.guards = [] :=
    fun r hr => (hx.held r (mem_held_of_store hr)).1.guards
  rcases x.cache.perform_cases hguards o x.world with ⟨outcome, u, w', hrun, hcases⟩
  -- Without a store only the time changes; through one, only what it is tied to.
  have hafter : w'.Quiet ∧ x.world.store.Alike w'.store ∧
      ∀ r : StoreRef, r.Opened x.world.store → r.Opened w'.store := by
    rcases hcases with ⟨-, -, rfl⟩ | ⟨r, hr, hthrough⟩
    · exact ⟨⟨hx.quiet.held, hx.quiet.bounded⟩, .refl _, fun _ h => h⟩
    · exact ⟨hx.quiet.through hthrough,
        hthrough.1.alike (hx.held r (mem_held_of_store hr)).2,
        fun _ h n hn => hthrough.1.known n (h n hn)⟩
  rcases hafter with ⟨hquiet, halike, hopened⟩
  simp only [Setting.perform, hrun]
  refine ⟨⟨hquiet, ?_, ?_, ?_⟩, halike, trivial, u, rfl⟩
  · exact hx.filed.mono (fun hl => by rwa [halike.directory] at hl) (Nat.le_of_eq halike.next.symm)
  · intro r hr
    exact ⟨(hx.held r hr).1.later halike.later, hopened r (hx.held r hr).2⟩
  · intro r hr
    exact ⟨(hx.retired r hr).1.later halike.later, (hx.retired r hr).2⟩

/-- Stores that are held twice, or no longer, are in place. -/
theorem withHolders (hx : x.Sound) {holders : List StoreRef}
    (hheld : ∀ r ∈ holders, r ∈ x.held) : Sound { x with holders := holders } where
  quiet := hx.quiet
  filed := hx.filed
  held := by
    intro r hr
    simp only [Setting.held, List.mem_append, Option.mem_toList] at hr
    rcases hr with hcurrent | hholder
    · exact hx.held r (mem_held_of_store hcurrent)
    · exact hx.held r (hheld r hholder)
  retired := hx.retired

/-- Every move keeps every store in place. -/
theorem after (hx : x.Sound) (m : Move) : (x.after m).Sound := by
  cases m with
  | rescope scope =>
      exact (hx.rescope scope).1.release
  | authenticate user =>
      exact (hx.rescope (x.cache.config.scopeFor user)).1.release
  | perform o =>
      exact (hx.perform o).1
  | hold =>
      exact hx.withHolders fun r hr => hr
  | drop n =>
      exact (hx.withHolders fun r hr =>
        List.mem_append_right _ (List.mem_of_mem_eraseIdx hr)).release

end Sound
end Setting
end EntityCache
