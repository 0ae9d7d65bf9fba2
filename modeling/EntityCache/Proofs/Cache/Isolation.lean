import EntityCache.Proofs.Cache.Setting
import EntityCache.Proofs.Cache.SharedFile
import EntityCache.Proofs.Store.MemoryLedger

/-!
# Scopes do not interfere

What is asked for in one scope changes nothing of what is answered in another:

* `Setting.run`: the outcomes of a run, each with the scope that it was asked for in.
* `Move.onlyFor`: a run without the operations in all other scopes.
* `Setting.Served`: two settings in which a scope has the same.
* `Setting.Twins`: two settings that one scope cannot tell apart; kept by every move that both make,
  and by an operation that only one of them makes in another scope.
* `Setting.outcomesIn_onlyFor`: without the operations in other scopes, a scope has the same
  outcomes.
-/

namespace EntityCache

/-! ## Runs -/

namespace Move

/-- The scope that a move points a cache at. -/
def scope? (config : Config) : Move → Option Scope
  | rescope scope => some scope
  | authenticate user => some (config.scopeFor user)
  | _ => none

def isOperation : Move → Bool
  | perform _ => true
  | _ => false

/-- The scopes that a run points a cache at. -/
def scopesOf (config : Config) (moves : List Move) : List Scope :=
  moves.filterMap (scope? config)

/-- A run of a cache, which serves `current` at first, without the operations in scopes other than
`own`. -/
def onlyFor (config : Config) (own : Scope) : (current : Option Scope) → List Move → List Move
  | _, [] => []
  | current, m :: rest =>
      let kept := onlyFor config own ((m.scope? config).or current) rest
      if m.isOperation && current.any (fun s => s != own) then kept else m :: kept

theorem mem_scopesOf_cons {config : Config} {m : Move} {rest : List Move} {s : Scope} :
    s ∈ scopesOf config (m :: rest) ↔ m.scope? config = some s ∨ s ∈ scopesOf config rest := by
  simp only [scopesOf, List.mem_filterMap, List.mem_cons, exists_eq_or_imp]

theorem exists_of_isOperation {m : Move} : m.isOperation = true → ∃ o, m = .perform o := by
  intro h
  cases m with
  | perform o =>
      exact ⟨o, rfl⟩
  | _ =>
      cases h

end Move

/-- The stores as a process finds them: nothing is held or opened, there are only files from before,
and the one of the scope can be read. -/
structure World.Idle (own : Scope) (w : World Vault) : Prop where
  held : w.held = []
  opened : w.store.opened = .empty
  filed : w.store.Filed
  legible : w.store.Legible own

namespace Setting

/-- A new cache among the stores of a world. -/
def start (config : Config) (listening : Bool) (w : World Vault) : Setting :=
  ⟨.new config listening, [], w⟩

/-- The outcome of an operation, with the scope that the cache serves. -/
def answer? (x : Setting) : Move → Option (Option Scope × Outcome)
  | .perform o => some (x.scope?, (x.perform o).1)
  | _ => none

/-- The outcomes of a run. -/
def run (x : Setting) : List Move → List (Option Scope × Outcome)
  | [] => []
  | m :: rest => (x.answer? m).toList ++ (x.after m).run rest

/-- The outcomes in one scope. -/
def outcomesIn (own : Scope) (log : List (Option Scope × Outcome)) : List Outcome :=
  (log.filter (fun a => a.1 = some own)).map Prod.snd

theorem outcomesIn_append (own : Scope) (log log' : List (Option Scope × Outcome)) :
    outcomesIn own (log ++ log') = outcomesIn own log ++ outcomesIn own log' := by
  simp only [outcomesIn, List.filter_append, List.map_append]

variable {x y : Setting}

/-! ### The scope at each point -/

theorem config_after (hx : x.Sound) (m : Move) : (x.after m).cache.config = x.cache.config := by
  -- A change of the scope sets the target and no more.
  have hrescope : ∀ scope, (x.retarget fun c inUse => c.rescope inUse scope).cache.config =
      x.cache.config := by
    intro scope
    rcases x.cache.rescope_cases x.inUse scope x.world with ⟨-, hrun⟩ | ⟨-, _, _, _, hrun, -⟩
    · simp only [retarget, hrun]
    · simp only [retarget, hrun]
      rfl
  cases m with
  | rescope scope =>
      exact hrescope scope
  | authenticate user =>
      exact hrescope _
  | perform o =>
      rcases hx.perform o with ⟨-, -, -, u, hcache⟩
      simp only [after, hcache]
  | hold =>
      rfl
  | drop n =>
      rfl

/-- Only a change of the scope changes the scope. -/
theorem scope?_after (hx : x.Sound) (m : Move) :
    (x.after m).scope? = (m.scope? x.cache.config).or x.scope? := by
  cases m with
  | rescope scope =>
      exact (hx.rescope scope).2.1
  | authenticate user =>
      exact (hx.rescope (x.cache.config.scopeFor user)).2.1
  | perform o =>
      rcases hx.perform o with ⟨-, -, -, u, hcache⟩
      simp only [after, scope?, hcache]
      rfl
  | hold =>
      rfl
  | drop n =>
      rfl

/-! ## One setting -/

namespace Sound

theorem store?_perform (hx : x.Sound) (o : Operation) :
    (x.perform o).2.cache.store? = x.cache.store? := by
  rcases hx.perform o with ⟨-, -, -, u, hcache⟩
  rw [hcache]
  rfl

/-- A store in memory that a change of the scope brings is empty. -/
theorem memory_rescope (hx : x.Sound) {scope : Scope} (hscope : x.scope? ≠ some scope)
    {r : StoreRef} {n : Nat}
    (hr : (x.retarget fun c inUse => c.rescope inUse scope).cache.store? = some r)
    (hn : r.store = .memory n) :
    (x.retarget fun c inUse => c.rescope inUse scope).world.store.memory n = .empty := by
  rcases x.cache.rescope_cases x.inUse scope x.world with
    ⟨hsame, -⟩ | ⟨-, answer, v', signals, hrun, ⟨p, hrevive, rfl, rfl⟩ | hopens⟩
  · exact absurd hsame hscope
  · -- What was swapped out is in a file.
    simp only [retarget, hrun] at hr
    cases Except.ok.inj (Cache.store?_pointed hr)
    rcases hx.revived hrevive with ⟨-, hbacking, hplaced, -⟩
    rw [hplaced.backing, hn] at hbacking
    cases hbacking
  · simp only [retarget, hrun] at hr ⊢
    have hanswer := Cache.store?_pointed hr
    -- A store in memory is opened under a number of its own, with nothing in it.
    cases hopens with
    | failed e d _ =>
        cases hanswer
    | memory _ =>
        cases Except.ok.inj hanswer
        cases hn
        simp only [Vault.memory, Vault.addMemoryStore, Dict.get?_insert_self, Option.getD_some]
    | file d _ _ =>
        cases Except.ok.inj hanswer
        cases hn

/-- An operation in another scope leaves the file of a scope alone. -/
theorem shelf_perform (hx : x.Sound) {own : Scope}
    (hother : ∀ r, x.cache.store? = some r → r.scope.backing = .persistent →
      r.scope.fileName ≠ own.fileName) (o : Operation) :
    (x.perform o).2.world.store.shelf own = x.world.store.shelf own := by
  have hguards : ∀ r, x.cache.store? = some r → r.guards = [] :=
    fun r hr => (hx.held r (mem_held_of_store hr)).1.guards
  rcases x.cache.perform_cases hguards o x.world with ⟨outcome, u, w', hrun, hcases⟩
  simp only [Setting.perform, hrun]
  rcases hcases with ⟨-, -, rfl⟩ | ⟨r, hr, hthrough, -⟩
  · rfl
  · rcases hx.held r (mem_held_of_store hr) with ⟨hplaced, hopened⟩
    simp only [Vault.shelf, hthrough.directory]
    refine Option.map_congr fun file hfile => ?_
    have hkept := hthrough.files file fun n hn hsame => ?_
    · simp only [Vault.tables, Vault.fileState, hkept]
    -- The store is in a file at another place.
    rcases Option.isSome_iff_exists.mp (hopened n hn) with ⟨s, hs⟩
    simp only [Vault.fileStore, hs, Option.getD_some] at hsame
    have hplace := (hplaced.placed n s hn hs).2
    rw [hsame] at hplace
    have hbacking : r.scope.backing = .persistent := by
      rw [hplaced.backing, hn]
      rfl
    exact hother r hr hbacking (List.singleton_inj.mp (hx.filed.apart hplace hfile))

/-- An operation through a store in a file answers from the file of the scope, and changes it. -/
theorem perform_file (hx : x.Sound) {r : StoreRef} {n : Nat} (hstore : x.cache.store? = some r)
    (hr : r.store = .file n) {t : FileStore.Contents}
    (hshelf : x.world.store.shelf r.scope = some t.tables) (ht : t.Keyed) (o : Operation) :
    (x.perform o).1 = (FileStore.ledger.perform x.cache.config o t).1 ∧
      (x.perform o).2.world.store.shelf r.scope =
        some (FileStore.ledger.perform x.cache.config o t).2.tables ∧
      (FileStore.ledger.perform x.cache.config o t).2.Keyed := by
  rcases hx.held r (mem_held_of_store hstore) with ⟨hplaced, hopened⟩
  rcases Option.isSome_iff_exists.mp (hopened n hr) with ⟨s, hs⟩
  rcases hplaced.placed n s hr hs with ⟨hclosed, hplace⟩
  have hdirectory := (hx.perform o).2.1.directory
  -- The file of the scope is that of the store, before and after.
  simp only [Vault.shelf, hdirectory, hplace, Option.map_some, Option.some.injEq] at hshelf ⊢
  have hshares : Shares s.file x.world t := ⟨hx.quiet, hshelf, ht, hx.filed.used hplace⟩
  cases hrun : x.cache.perform o x.world with
  | mk answer w' =>
      rcases hshares.perform hstore hr hplaced.guards hs rfl hclosed hrun with ⟨houtcome, hafter⟩
      simp only [Setting.perform, hrun]
      exact ⟨houtcome, hafter.tables, hafter.keyed⟩

/-- An operation through a store in memory answers from what the store has. -/
theorem perform_memory (hx : x.Sound) {r : StoreRef} {n : Nat} (hstore : x.cache.store? = some r)
    (hr : r.store = .memory n) {s : MemoryStore.Holdings}
    (hs : MemoryStore.Settled (x.world.focus (Vault.memory n)) s) (o : Operation) :
    (x.perform o).1 = (MemoryStore.ledger.perform x.cache.config o s).1 ∧
      MemoryStore.Settled ((x.perform o).2.world.focus (Vault.memory n))
        (MemoryStore.ledger.perform x.cache.config o s).2 := by
  have hguards := (hx.held r (mem_held_of_store hstore)).1.guards
  rcases Cache.perform_of_keeps hstore (StoreRef.backend_mirrors_memory hr hguards)
    MemoryStore.keeps o hs with ⟨u, w', hrun, hw'⟩
  simp only [Setting.perform, hrun]
  exact ⟨trivial, hw'⟩

end Sound

/-! ## Two settings -/

/-- What a scope has is the same in two settings. -/
structure Served (own : Scope) (x y : Setting) : Prop where
  legible : x.world.store.Legible own
  shelf : y.world.store.shelf own = x.world.store.shelf own
  /-- So it is for a current store in memory. -/
  memory : ∀ {r n}, x.cache.store? = some r → r.scope = own → r.store = .memory n →
    ∃ s, MemoryStore.Settled (x.world.focus (Vault.memory n)) s ∧
      MemoryStore.Settled (y.world.focus (Vault.memory n)) s

/-- Two settings that one scope cannot tell apart. -/
structure Twins (own : Scope) (x y : Setting) : Prop extends Served own x y where
  left : x.Sound
  right : y.Sound
  cache : ∃ u, y.cache = { x.cache with upkeep := u }
  holders : y.holders = x.holders
  alike : x.world.store.Alike y.world.store

namespace Twins

variable {own : Scope}

theorem alikeFor (h : Twins own x y) : x.world.store.AlikeFor own y.world.store :=
  ⟨h.alike, h.shelf⟩

theorem store?_eq (h : Twins own x y) : y.cache.store? = x.cache.store? := by
  rcases h.cache with ⟨u, hu⟩
  simp only [hu]
  rfl

theorem scope?_eq (h : Twins own x y) : y.scope? = x.scope? := by
  rcases h.cache with ⟨u, hu⟩
  simp only [scope?, hu]

theorem config_eq (h : Twins own x y) : y.cache.config = x.cache.config := by
  rcases h.cache with ⟨u, hu⟩
  simp only [hu]

theorem held_eq (h : Twins own x y) : y.held = x.held := by
  simp only [held, h.store?_eq, h.holders]

theorem inUse_eq (h : Twins own x y) : y.inUse = x.inUse := by
  funext p
  simp only [inUse, h.held_eq]

/-! ### Moves that both make -/

theorem release (h : Twins own x y) : Twins own x.release y.release where
  left := h.left.release
  right := h.right.release
  legible := by
    intro tables htables
    exact h.legible tables ((Vault.shelf_release _ _ own).symm.trans htables)
  shelf := by
    simp only [Setting.release, Vault.shelf_release, h.shelf]
  cache := h.cache
  holders := h.holders
  alike := by
    simp only [Setting.release, h.held_eq]
    exact h.alike.release _
  memory := by
    intro r n hr hown hn
    -- Stores in memory are not let go.
    have hfocus : ∀ z : Setting, z.release.world.focus (Vault.memory n) =
        z.world.focus (Vault.memory n) := by
      intro z
      simp only [Setting.release, World.focus, World.withStore, Vault.memory,
        Vault.memories_release]
    simp only [hfocus]
    exact h.memory hr hown hn

theorem rescope (h : Twins own x y) (scope : Scope) :
    Twins own (x.retarget fun c inUse => c.rescope inUse scope)
      (y.retarget fun c inUse => c.rescope inUse scope) := by
  rcases h.cache with ⟨u, hu⟩
  rcases h.left.rescope scope with ⟨hleft, -, hlegible⟩
  have halike := Cache.rescope_alike (c := x.cache) u x.inUse scope h.alikeFor h.left.filed
  simp only [← hu] at halike
  simp only [← h.inUse_eq] at halike
  have hboth : (x.retarget fun c inUse => c.rescope inUse scope).world.store.AlikeFor own
      (y.retarget fun c inUse => c.rescope inUse scope).world.store := by
    simp only [retarget, ← h.inUse_eq]
    exact halike.2
  refine ⟨⟨hlegible own h.legible, hboth.shelf, ?_⟩, hleft, (h.right.rescope scope).1, ?_,
    h.holders, hboth.toAlike⟩
  · intro r n hr hown hn
    by_cases hscope : x.scope? = some scope
    · -- Nothing has happened.
      have hsame : ∀ z : Setting, z.scope? = some scope →
          (z.retarget fun c inUse => c.rescope inUse scope) = z := by
        intro z hz
        have hkept : z.cache.target.scope? = some scope := hz
        simp only [retarget, Cache.rescope, if_pos hkept]
        rfl
      rw [hsame x hscope] at hr ⊢
      rw [hsame y (h.scope?_eq.trans hscope)]
      exact h.memory hr hown hn
    · have hscope' : y.scope? ≠ some scope := fun hy => hscope (h.scope?_eq.symm.trans hy)
      -- Both open a store, and one in memory is empty at first.
      have hr' : (y.retarget fun c inUse => c.rescope inUse scope).cache.store? = some r := by
        rcases halike.1 with ⟨u', hu'⟩
        have hsame : (y.cache.rescope y.inUse scope y.world).1.store? =
            (x.cache.rescope x.inUse scope x.world).1.store? := by
          rw [hu', h.inUse_eq]
          rfl
        exact hsame.trans hr
      exact ⟨.empty, MemoryStore.settled_empty (h.left.memory_rescope hscope hr hn),
        MemoryStore.settled_empty (h.right.memory_rescope hscope' hr' hn)⟩
  · simp only [retarget, ← h.inUse_eq]
    exact halike.1

/-! ### Operations that both make -/

/-- What is asked of no file leaves the file of the scope alone in both. -/
theorem shelf_perform (h : Twins own x y)
    (hbacking : ∀ r, x.cache.store? = some r → r.scope.backing ≠ .persistent) (o : Operation) :
    (x.perform o).2.world.store.Legible own ∧
      (y.perform o).2.world.store.shelf own = (x.perform o).2.world.store.shelf own := by
  have hx : (x.perform o).2.world.store.shelf own = x.world.store.shelf own :=
    h.left.shelf_perform (fun r hr hpersistent => absurd hpersistent (hbacking r hr)) o
  have hy : (y.perform o).2.world.store.shelf own = y.world.store.shelf own :=
    h.right.shelf_perform (fun r hr hpersistent =>
      absurd hpersistent (hbacking r (h.store?_eq.symm.trans hr))) o
  refine ⟨?_, ?_⟩
  · intro tables htables
    exact h.legible tables (hx.symm.trans htables)
  · rw [hx, hy, h.shelf]

theorem served_of_none (h : Twins own x y) (hstore : x.cache.store? = none) (o : Operation) :
    (y.perform o).1 = (x.perform o).1 ∧ Served own (x.perform o).2 (y.perform o).2 := by
  have hnone : ∀ r, x.cache.store? ≠ some r := by
    intro r hr
    cases hstore.symm.trans hr
  rcases h.shelf_perform (fun r hr => absurd hr (hnone r)) o with ⟨hlegible, hshelf⟩
  refine ⟨?_, hlegible, hshelf, fun {r n} hr => ?_⟩
  · simp only [Setting.perform, Cache.perform_of_none hstore,
      Cache.perform_of_none (h.store?_eq.trans hstore)]
  · rw [h.left.store?_perform] at hr
    exact absurd hr (hnone r)

theorem served_of_memory (h : Twins own x y) {r : StoreRef} {n : Nat}
    (hstore : x.cache.store? = some r) (hscope : r.scope = own) (hr : r.store = .memory n)
    (o : Operation) :
    (y.perform o).1 = (x.perform o).1 ∧ Served own (x.perform o).2 (y.perform o).2 := by
  have hmemory : ∀ r', x.cache.store? = some r' → r'.scope.backing ≠ .persistent := by
    intro r' hr'
    cases hstore.symm.trans hr'
    rw [(h.left.held r (mem_held_of_store hstore)).1.backing, hr]
    exact Backing.noConfusion
  rcases h.shelf_perform hmemory o with ⟨hlegible, hshelf⟩
  rcases h.memory hstore hscope hr with ⟨s, hs, hs'⟩
  rcases h.left.perform_memory hstore hr hs o with ⟨houtcome, hafter⟩
  rcases h.right.perform_memory (h.store?_eq.trans hstore) hr hs' o with ⟨houtcome', hafter'⟩
  rw [h.config_eq] at houtcome' hafter'
  refine ⟨houtcome'.trans houtcome.symm, hlegible, hshelf, fun {r' n'} hr' _ hn => ?_⟩
  -- It is still the same store.
  rw [h.left.store?_perform] at hr'
  cases hstore.symm.trans hr'
  cases hr.symm.trans hn
  exact ⟨_, hafter, hafter'⟩

theorem served_of_file (h : Twins own x y) {r : StoreRef} {n : Nat}
    (hstore : x.cache.store? = some r) (hscope : r.scope = own) (hr : r.store = .file n)
    (o : Operation) :
    (y.perform o).1 = (x.perform o).1 ∧ Served own (x.perform o).2 (y.perform o).2 := by
  subst hscope
  -- The file of the scope is there, and has the same tables for both.
  have hshelf : ∃ tables, x.world.store.shelf r.scope = some tables := by
    rcases h.left.held r (mem_held_of_store hstore) with ⟨hplaced, hopened⟩
    rcases Option.isSome_iff_exists.mp (hopened n hr) with ⟨s, hs⟩
    exact ⟨_, congrArg _ (hplaced.placed n s hr hs).2⟩
  rcases hshelf with ⟨tables, hshelf⟩
  rcases h.legible tables hshelf with ⟨t, rfl, ht⟩
  rcases h.left.perform_file hstore hr hshelf ht o with ⟨houtcome, hafter, hkeyed⟩
  rcases h.right.perform_file (h.store?_eq.trans hstore) hr (h.shelf.trans hshelf) ht o with
    ⟨houtcome', hafter', -⟩
  rw [h.config_eq] at houtcome' hafter'
  refine ⟨houtcome'.trans houtcome.symm, ?_, hafter'.trans hafter.symm, fun {r' n'} hr' _ hn => ?_⟩
  · intro tables htables
    cases hafter.symm.trans htables
    exact ⟨_, rfl, hkeyed⟩
  · rw [h.left.store?_perform] at hr'
    cases hstore.symm.trans hr'
    cases hr.symm.trans hn

/-- In the scope itself, and as long as there is none, both have the same outcome. -/
theorem perform (h : Twins own x y) (hown : ∀ s, x.scope? = some s → s = own) (o : Operation) :
    (y.perform o).1 = (x.perform o).1 ∧ Twins own (x.perform o).2 (y.perform o).2 := by
  have hserved : (y.perform o).1 = (x.perform o).1 ∧
      Served own (x.perform o).2 (y.perform o).2 := by
    -- Which lemma applies depends on where the store of the scope is.
    cases hstore : x.cache.store? with
    | none =>
        exact h.served_of_none hstore o
    | some r =>
        have hscope : r.scope = own := hown _ (scope?_of_store hstore)
        cases hr : r.store with
        | memory n =>
            exact h.served_of_memory hstore hscope hr o
        | file n =>
            exact h.served_of_file hstore hscope hr o
  rcases h.left.perform o with ⟨hleft, halike, hholders, u, hcache⟩
  rcases h.right.perform o with ⟨hright, halike', hholders', u', hcache'⟩
  rcases h.cache with ⟨v, hv⟩
  refine ⟨hserved.1, hserved.2, hleft, hright, ⟨u', ?_⟩, ?_, ?_⟩
  · rw [hcache, hcache', hv]
  · rw [hholders, hholders', h.holders]
  · exact halike.symm.trans (h.alike.trans halike')

/-! ### All moves -/

theorem withHolders (h : Twins own x y) {holders : List StoreRef}
    (hheld : ∀ r ∈ holders, r ∈ x.held) :
    Twins own { x with holders := holders } { y with holders := holders } where
  left := h.left.withHolders hheld
  right := by
    rw [← h.held_eq] at hheld
    exact h.right.withHolders hheld
  legible := h.legible
  shelf := h.shelf
  memory := h.memory
  cache := h.cache
  holders := rfl
  alike := h.alike

/-- A move that both make, and in no other scope, has the same answer in both. -/
theorem after (h : Twins own x y) {m : Move}
    (hown : m.isOperation = true → ∀ s, x.scope? = some s → s = own) :
    y.answer? m = x.answer? m ∧ Twins own (x.after m) (y.after m) := by
  cases m with
  | rescope scope =>
      exact ⟨rfl, (h.rescope scope).release⟩
  | authenticate user =>
      -- Both have one configuration, so the user gets one scope.
      have hsame : y.after (.authenticate user) =
          (y.retarget fun c inUse => c.rescope inUse (x.cache.config.scopeFor user)).release := by
        rw [← h.config_eq]
        rfl
      rw [hsame]
      exact ⟨rfl, (h.rescope _).release⟩
  | perform o =>
      rcases h.perform (hown rfl) o with ⟨houtcome, hafter⟩
      refine ⟨?_, hafter⟩
      simp only [answer?, houtcome, h.scope?_eq]
  | hold =>
      simp only [Setting.after, h.store?_eq, h.holders]
      exact ⟨rfl, h.withHolders fun r hr => hr⟩
  | drop n =>
      simp only [Setting.after, h.holders]
      refine ⟨rfl, (h.withHolders fun r hr => ?_).release⟩
      exact List.mem_append_right _ (List.mem_of_mem_eraseIdx hr)

/-! ### Operations that only one makes -/

/-- What only one asks for in another scope does not matter. -/
theorem perform_left (h : Twins own x y) {scope : Scope} (hscope : x.scope? = some scope)
    (hne : scope ≠ own) (happart : scope.backing = .persistent → scope.fileName ≠ own.fileName)
    (o : Operation) : Twins own (x.perform o).2 y := by
  rcases h.left.perform o with ⟨hleft, halike, hholders, u, hcache⟩
  have hscopes : ∀ {r}, x.cache.store? = some r → r.scope = scope :=
    fun hr => Option.some.inj ((scope?_of_store hr).symm.trans hscope)
  -- The shelf of the own scope is in another file, so it stays as it is.
  have hshelf : (x.perform o).2.world.store.shelf own = x.world.store.shelf own := by
    refine h.left.shelf_perform (fun r hr hbacking => ?_) o
    rw [hscopes hr] at hbacking ⊢
    exact happart hbacking
  refine ⟨⟨?_, ?_, ?_⟩, hleft, h.right, ?_, ?_, halike.symm.trans h.alike⟩
  · intro tables htables
    exact h.legible tables (hshelf.symm.trans htables)
  · rw [hshelf, h.shelf]
  · intro r n hr hown hn
    rw [h.left.store?_perform] at hr
    exact absurd ((hscopes hr).symm.trans hown) hne
  · rcases h.cache with ⟨v, hv⟩
    rw [hcache, hv]
    exact ⟨v, rfl⟩
  · rw [hholders, h.holders]

/-! ## All runs -/

/-- Of two settings that a scope cannot tell apart, one makes all moves of a run, and the other one
leaves out the operations in other scopes.  The scope has the same outcomes. -/
theorem outcomesIn_run {own : Scope} (moves : List Move) : ∀ {x y : Setting}, Twins own x y →
    (∀ s, x.scope? = some s ∨ s ∈ Move.scopesOf x.cache.config moves →
      s.backing = .persistent → s.fileName = own.fileName → s = own) →
    outcomesIn own (y.run (Move.onlyFor x.cache.config own x.scope? moves)) =
      outcomesIn own (x.run moves) := by
  induction moves with
  | nil =>
      intro x y _ _
      rfl
  | cons m rest ih =>
      intro x y h happart
      have hrest : ∀ {z}, Twins own (x.after m) z →
          outcomesIn own (z.run (Move.onlyFor x.cache.config own
            ((m.scope? x.cache.config).or x.scope?) rest)) =
            outcomesIn own ((x.after m).run rest) := by
        intro z hz
        have hrun := ih hz fun s hs => happart s ?_
        · rw [scope?_after h.left, config_after h.left] at hrun
          exact hrun
        · -- The scope after the move is the old one or that of the move.
          rw [scope?_after h.left, config_after h.left, Option.or_eq_some_iff] at hs
          rw [Move.mem_scopesOf_cons]
          rcases hs with (hmove | ⟨-, hold⟩) | hlater
          · exact Or.inr (Or.inl hmove)
          · exact Or.inl hold
          · exact Or.inr (Or.inr hlater)
      simp only [Move.onlyFor, run, outcomesIn_append]
      split
      · next hforeign =>
          -- The operation is left out, and its outcome is none of the scope.
          rcases Bool.and_eq_true_iff.mp hforeign with ⟨hm, hany⟩
          rcases Move.exists_of_isOperation hm with ⟨o, rfl⟩
          have hscopes : ∃ scope, x.scope? = some scope ∧ scope ≠ own := by
            simpa [Option.any_eq_true] using hany
          rcases hscopes with ⟨scope, hscope, hother⟩
          have hafter := h.perform_left hscope hother (fun hbacking hfile =>
            hother (happart scope (Or.inl hscope) hbacking hfile)) o
          have hnone : outcomesIn own (x.answer? (.perform o)).toList = [] := by
            simp [outcomesIn, answer?, hscope, hother]
          rw [hnone, List.nil_append]
          exact hrest hafter
      · next hkept =>
          have hown : m.isOperation = true → ∀ s, x.scope? = some s → s = own := by
            intro hm s hs
            simpa [hm, hs] using hkept
          rcases h.after hown with ⟨hanswer, hafter⟩
          simp only [run, outcomesIn_append, hanswer, hrest hafter]

end Twins

/-- Without the operations in other scopes, every operation in a scope has the same outcome, as long
as no other scope has the same store file.  The run is that of a new cache, which finds nothing but
files from before. -/
theorem outcomesIn_onlyFor (config : Config) (listening : Bool) {own : Scope} {w : World Vault}
    (hw : w.Idle own) (moves : List Move)
    (happart : ∀ s ∈ Move.scopesOf config moves,
      s.backing = .persistent → s.fileName = own.fileName → s = own) :
    outcomesIn own ((start config listening w).run (Move.onlyFor config own none moves)) =
      outcomesIn own ((start config listening w).run moves) := by
  have hsound : (start config listening w).Sound := by
    refine ⟨⟨hw.held, ?_⟩, hw.filed, ?_, ?_⟩
    · intro n s hs
      simp only [start, hw.opened] at hs
      cases hs
    · intro r hr
      cases hr
    · intro r hr
      cases hr
  refine Twins.outcomesIn_run moves (x := start config listening w) ?_ ?_
  · refine ⟨⟨hw.legible, rfl, ?_⟩, hsound, hsound, ⟨_, rfl⟩, rfl, .refl _⟩
    intro r n hr
    cases hr
  · rintro s (hs | hs)
    · cases hs
    · exact happart s hs

/-- Two users take turns, the second one also with a store in memory. -/
def twoUsers : List Move :=
  [.authenticate (some "ada"), .perform (.write onePosting), .hold,
    .rescope (.of .memory "" (some "bob") ""), .perform (.write onePosting),
    .authenticate (some "bob"), .perform (.stats 2),
    .authenticate (some "ada"), .perform (.read 3 "item")]

/-- What the second user asks for is left out. -/
theorem outcomesIn_onlyFor_twoUsers :
    let config : Config := { Config.default with backing := .persistent }
    let own := config.scopeFor (some "ada")
    let w : World Vault := ⟨.empty, [], [], 0, .empty false⟩
    w.Idle own ∧
      (∀ s ∈ Move.scopesOf config twoUsers,
        s.backing = .persistent → s.fileName = own.fileName → s = own) ∧
      (Move.onlyFor config own none twoUsers).length = 7 ∧
      outcomesIn own ((start config false w).run (Move.onlyFor config own none twoUsers)) =
        outcomesIn own ((start config false w).run twoUsers) := by
  intro config own w
  have hidle : w.Idle own := by
    refine ⟨rfl, rfl, ⟨?_, ?_⟩, ?_⟩
    · intro l file hl
      cases hl
    · intro l l' file hl
      cases hl
    · intro tables htables
      cases htables
  have happart : ∀ s ∈ Move.scopesOf config twoUsers,
      s.backing = .persistent → s.fileName = own.fileName → s = own := by
    decide +kernel
  exact ⟨hidle, happart, by decide +kernel, outcomesIn_onlyFor config false hidle twoUsers happart⟩

end Setting
end EntityCache
