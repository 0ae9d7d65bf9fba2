import EntityCache.Proofs.Cache.Rescoping
import EntityCache.Proofs.Store.Metered

/-!
# What is done to a cache, turn by turn

* `Turn`, `Stage.turn`: what is done to a cache, and what happens elsewhere meanwhile.
* `Beat`: what is to be seen of a turn: the samples that a write takes of the size of the store,
  and the signals of the cache.
* `Cache.write_of_store`, `Cache.review_of_store`: a cache does what it does through the backend of
  its store.
* `Cache.aloof_write` and so on: nothing that a cache does looks back.
* `Stage.config_run`: the settings stay.
-/

namespace EntityCache

/-! ## Turns -/

/-- What others do meanwhile: callbacks of the queue begin and end, stores, records and schedules
change, time passes.  They do not look at what was reported. -/
abbrev Interlude : Type :=
  Option Republish.Queue × World Vault → Option Republish.Queue × World Vault

/-- What is done to a cache, or elsewhere.  With a change of its store comes which stores are in use
then. -/
inductive Turn where
  /-- Others go on before a write looks at the size of the store. -/
  | write (e : Posting) (others : Interlude)
  | read (time : Time) (q : QueryKey)
  | lookup (time : Time) (q : QueryKey) (policy : FetchPolicy)
  | stats (time : Time)
  | rescope (inUse : StoreRef → Bool) (scope : Scope)
  | authenticate (inUse : StoreRef → Bool) (user : Option String)
  | install (inUse : StoreRef → Bool) (r : StoreRef)
  | elsewhere (others : Interlude)

/-- What is to be seen of a turn. -/
structure Beat where
  /-- The cache was to come to another store. -/
  swapped : Bool
  /-- A write came past its records. -/
  absorbed : Bool
  /-- What the store answered when a write asked for its numbers. -/
  samples : List Sample
  /-- What the cache reported. -/
  signals : Journal
  outcome : Option Outcome

namespace Beat

/-- How often too large a store was warned of. -/
def warnings (b : Beat) : Nat :=
  b.signals.count (.notice .oversize)

/-- A sample shows more entries than `limit`. -/
def isOversize (limit : Nat) (b : Beat) : Bool :=
  b.samples.any (exceeds limit)

end Beat

/-- A cache and all stores. -/
structure Stage where
  cache : Cache
  world : World Vault

namespace Stage

def meanwhile (x : Stage) (others : Interlude) : Stage :=
  let (queue, w) := others (x.cache.queue?, x.world.hearing [])
  ⟨{ x.cache with upkeep := { x.cache.upkeep with queue := queue } },
    w.hearing (x.world.journal ++ w.journal)⟩

/-- What the current store answers when a task asks for its numbers. -/
def samples {α : Type} (x : Stage)
    (task : (b : Backend (Vault × List Sample)) → StateM (World (Vault × List Sample)) α) :
    List Sample :=
  match x.cache.store? with
  | none => []
  | some r => (task r.backend.metered x.world.metered).2.store.2

/-- Whether a write comes past its records. -/
def absorbs (x : Stage) (e : Posting) : Bool :=
  x.cache.store?.any (fun r => (r.backend.absorb e.response.data e.response.ids e.requestor
    (x.world.setTime e.time)).1.isOk)

/-- A write, and after an interlude the look at the size that follows it. -/
def write (x : Stage) (e : Posting) (others : Interlude) : Beat × Stage :=
  let w := x.world.setTime e.time
  let ((outcome, c), w₁) := x.cache.write e.query e.response e.requestor w
  let y := Stage.meanwhile ⟨c, w₁⟩ others
  let (c', w') := y.cache.review y.world
  (⟨false, x.absorbs e,
      samples ⟨x.cache, w⟩ (fun b =>
        b.write x.cache.config e.query e.response e.requestor x.cache.upkeep) ++
      y.samples (fun b => y.cache.upkeep.review b y.cache.config.maxEntries),
      signalsSince w w₁ ++ signalsSince y.world w',
      some (.written outcome)⟩,
    ⟨c', w'⟩)

/-- Any other operation leaves the cache as it is. -/
def ask (x : Stage) (time : Time) (answer : StateM (World Vault) Outcome) : Beat × Stage :=
  let (outcome, w) := answer (x.world.setTime time)
  (⟨false, false, [], signalsSince x.world w, some outcome⟩, ⟨x.cache, w⟩)

/-- A change of the store, or an attempt. -/
def retarget (x : Stage) (swapped : Bool) (task : StateM (World Vault) Cache) : Beat × Stage :=
  let (c, w) := task x.world
  (⟨swapped, false, [], signalsSince x.world w, none⟩, ⟨c, w⟩)

/-- A turn.  A change to the current scope is none. -/
def turn (x : Stage) : Turn → Beat × Stage
  | .write e others => x.write e others
  | .read time q => x.ask time (Outcome.shown <$> x.cache.read q)
  | .lookup time q policy => x.ask time (Outcome.decided <$> x.cache.lookup q policy)
  | .stats time => x.ask time (Outcome.counted <$> x.cache.stats)
  | .rescope inUse scope =>
      x.retarget (x.cache.target.scope? != some scope) (x.cache.rescope inUse scope)
  | .authenticate inUse user =>
      x.retarget (x.cache.target.scope? != some (x.cache.config.scopeFor user))
        (x.cache.authenticate inUse user)
  | .install inUse r => x.retarget true (x.cache.install inUse r)
  | .elsewhere others => (⟨false, false, [], [], none⟩, x.meanwhile others)

def run (x : Stage) : List Turn → Stage
  | [] => x
  | t :: rest => (x.turn t).2.run rest

/-- What is to be seen of a run. -/
def beats (x : Stage) : List Turn → List Beat
  | [] => []
  | t :: rest => (x.turn t).1 :: (x.turn t).2.beats rest

end Stage

/-! ## Calls of the cache -/

namespace Cache

variable {c : Cache} {r : StoreRef}

theorem write_of_store (hstore : c.store? = some r) {q : QueryKey} {response : Response}
    {requestor : Option QueryKey} {w w' : World Vault} {answer : WriteOutcome} {u : Upkeep}
    (hwrite : r.backend.write c.config q response requestor c.upkeep w = ((answer, u), w')) :
    c.write q response requestor w = ((answer, { c with upkeep := u }), w') := by
  simp only [write, hstore]
  exact (bindM_apply hwrite).trans rfl

theorem review_of_store (hstore : c.store? = some r) {w w' : World Vault} {u : Upkeep}
    (hreview : c.upkeep.review r.backend c.config.maxEntries w = (u, w')) :
    c.review w = ({ c with upkeep := u }, w') := by
  simp only [review, hstore]
  exact (bindM_apply hreview).trans rfl

theorem write_of_none (hstore : c.store? = none) (q : QueryKey) (response : Response)
    (requestor : Option QueryKey) (w : World Vault) :
    c.write q response requestor w = ((.dropped, c), w) := by
  simp only [write, hstore]
  rfl

theorem review_of_none (hstore : c.store? = none) (w : World Vault) : c.review w = (c, w) := by
  simp only [review, hstore]
  rfl

theorem config_write (c : Cache) (q : QueryKey) (response : Response)
    (requestor : Option QueryKey) (w : World Vault) :
    (c.write q response requestor w).1.2.config = c.config := by
  cases hstore : c.store? with
  | none =>
      rw [write_of_none hstore]
  | some r =>
      simp only [write, hstore]
      rfl

theorem config_review (c : Cache) (w : World Vault) : (c.review w).1.config = c.config := by
  cases hstore : c.store? with
  | none =>
      rw [review_of_none hstore]
  | some r =>
      simp only [review, hstore]
      rfl

theorem aloof_write (c : Cache) (q : QueryKey) (response : Response)
    (requestor : Option QueryKey) : Aloof Signal.IsMild (c.write q response requestor) := by
  simp only [write]
  cases c.store? with
  | none =>
      exact .pureM _
  | some r =>
      exact .bindM (r.aloof.write _ _ _ _ _) fun answer => .pureM _

theorem aloof_read (c : Cache) (q : QueryKey) : Aloof Signal.IsMild (c.read q) := by
  simp only [read]
  cases c.store? with
  | none =>
      exact .pureM none
  | some r =>
      exact r.aloof.read q

theorem aloof_lookup (c : Cache) (q : QueryKey) (policy : FetchPolicy) :
    Aloof Signal.IsMild (c.lookup q policy) := by
  simp only [lookup]
  cases c.store? with
  | none =>
      exact .pureM _
  | some r =>
      exact r.aloof.lookup q policy

theorem aloof_stats (c : Cache) : Aloof Signal.IsMild c.stats := by
  simp only [stats]
  cases c.store? with
  | none =>
      exact .pureM none
  | some r =>
      exact r.aloof.countEntries

theorem aloof_acquire (c : Cache) (inUse : StoreRef → Bool) (scope : Scope) :
    Aloof Signal.IsMild (c.acquire inUse scope) := by
  have hretrying : ∀ s, s = Signal.notice .retrying → s.IsMild := by
    rintro s rfl hs
    cases hs
  simp only [acquire]
  cases c.revive? inUse scope with
  | some r =>
      exact .pure r
  | none =>
      exact (Vault.aloof_openFor scope _).mono hretrying

end Cache

namespace Stage

variable {x : Stage}

/-- Without a store a write is dropped, and only what happens elsewhere happens. -/
theorem write_of_none (hstore : x.cache.store? = none) (e : Posting) (others : Interlude) :
    x.write e others = (⟨false, false, [], [], some (.written .dropped)⟩,
      Stage.meanwhile ⟨x.cache, x.world.setTime e.time⟩ others) := by
  have hnone : (Stage.meanwhile ⟨x.cache, x.world.setTime e.time⟩ others).cache.store? = none :=
    hstore
  simp only [write, Cache.write_of_none hstore]
  generalize Stage.meanwhile ⟨x.cache, x.world.setTime e.time⟩ others = y at hnone
  simp only [Cache.review_of_none hnone, absorbs, samples, hstore, hnone, signalsSince,
    List.drop_length]
  rfl

/-- A change to the current scope is none. -/
theorem retarget_of_same {inUse : StoreRef → Bool} {scope : Scope}
    (hsame : x.cache.target.scope? = some scope) (swapped : Bool) :
    x.retarget swapped (x.cache.rescope inUse scope) = (⟨swapped, false, [], [], none⟩, x) := by
  have hrescope : x.cache.rescope inUse scope x.world = (x.cache, x.world) := by
    simp only [Cache.rescope, if_pos hsame]
    rfl
  simp only [retarget, hrescope, signalsSince, List.drop_length]

theorem config_rescope (x : Stage) (inUse : StoreRef → Bool) (scope : Scope) (swapped : Bool) :
    (x.retarget swapped (x.cache.rescope inUse scope)).2.cache.config = x.cache.config := by
  rcases x.cache.rescope_cases inUse scope x.world with
    ⟨-, hrun⟩ | ⟨-, answer, v', signals, hrun, -⟩
  · simp only [retarget, hrun]
  · simp only [retarget, hrun]
    rfl

theorem config_turn (x : Stage) (t : Turn) : (x.turn t).2.cache.config = x.cache.config := by
  cases t with
  | write e others =>
      exact (Cache.config_review _ _).trans (x.cache.config_write _ _ _ _)
  | read _ _ | lookup _ _ _ | stats _ | elsewhere _ | install _ _ =>
      rfl
  | rescope inUse scope =>
      exact config_rescope x inUse scope _
  | authenticate inUse user =>
      exact config_rescope x inUse _ _

theorem config_run (turns : List Turn) : ∀ x : Stage,
    (x.run turns).cache.config = x.cache.config := by
  induction turns with
  | nil =>
      exact fun x => rfl
  | cons t rest ih =>
      exact fun x => (ih (x.turn t).2).trans (x.config_turn t)

theorem run_concat (x : Stage) (before : List Turn) (t : Turn) :
    x.run (before ++ [t]) = ((x.run before).turn t).2 := by
  induction before generalizing x with
  | nil =>
      rfl
  | cons first rest ih =>
      exact ih (x.turn first).2

end Stage
end EntityCache
