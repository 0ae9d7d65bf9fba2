import EntityCache.Proofs.Cache.Turns

/-!
# Caches with different limits

The limit on the size of a store decides on a warning and on nothing else:

* `Stage.Matches`: two caches that differ in their limits, in worlds that differ in what was
  reported.
* `Stage.Matches.turn`: they answer a turn alike and leave the same; `Stage.Matches.run` for runs.
-/

namespace EntityCache

/-- The cache with another limit, and perhaps another memory of warnings. -/
def Cache.limited (c : Cache) (limit : Nat) (warned : Bool) : Cache :=
  { c with
    config := { c.config with maxEntries := limit }
    upkeep := { c.upkeep with sizing := { c.upkeep.sizing with warned := warned } } }

namespace Stage

/-- Two caches differ in their limits, and the worlds in what was reported. -/
structure Matches (limit : Nat) (x y : Stage) : Prop where
  cache : ∃ warned, y.cache = x.cache.limited limit warned
  world : y.world.hearing [] = x.world.hearing []

namespace Matches

variable {limit : Nat} {x y : Stage}

theorem setTime (h : Matches limit x y) (t : Time) :
    (y.world.setTime t).hearing [] = (x.world.setTime t).hearing [] :=
  congrArg (fun w : World Vault => w.setTime t) h.world

theorem meanwhile (h : Matches limit x y) (others : Interlude) :
    Matches limit (x.meanwhile others) (y.meanwhile others) := by
  rcases h with ⟨⟨warned, hcache⟩, hworld⟩
  have hothers : others (y.cache.queue?, y.world.hearing []) =
      others (x.cache.queue?, x.world.hearing []) := by
    rw [hcache, hworld]
    rfl
  refine ⟨⟨warned, ?_⟩, ?_⟩
  · simp only [Stage.meanwhile, hothers]
    rw [hcache]
    rfl
  · simp only [Stage.meanwhile, hothers]
    rfl

theorem ask (h : Matches limit x y) (time : Time) {answer : StateM (World Vault) Outcome}
    (hanswer : Aloof Signal.IsMild answer) :
    (y.ask time answer).1.outcome = (x.ask time answer).1.outcome ∧
      Matches limit (x.ask time answer).2 (y.ask time answer).2 := by
  rcases hanswer.alike (h.setTime time) with ⟨hsame, hworld⟩
  exact ⟨congrArg some hsame, h.cache, hworld⟩

theorem rescope (h : Matches limit x y) (inUse : StoreRef → Bool) (scope : Scope)
    (swapped swapped' : Bool) :
    Matches limit (x.retarget swapped (x.cache.rescope inUse scope)).2
      (y.retarget swapped' (y.cache.rescope inUse scope)).2 := by
  rcases h with ⟨⟨warned, hcache⟩, hworld⟩
  have htarget : y.cache.target.scope? = x.cache.target.scope? := by
    rw [hcache]
    rfl
  by_cases hscope : x.cache.target.scope? = some scope
  · rw [retarget_of_same hscope, retarget_of_same (htarget.trans hscope)]
    exact ⟨⟨warned, hcache⟩, hworld⟩
  · have hacquire : y.cache.acquire inUse scope = x.cache.acquire inUse scope := by
      rw [hcache]
      rfl
    -- Acquiring a store reads no limit, and with the new store warnings start anew.
    rcases (x.cache.aloof_acquire inUse scope).alike hworld with ⟨hanswer, hafter⟩
    have hx := Cache.rescope_apply hscope (Prod.eta (x.cache.acquire inUse scope x.world)).symm
    have hy := Cache.rescope_apply (fun hsame => hscope (htarget.symm.trans hsame))
      (Prod.eta (y.cache.acquire inUse scope y.world)).symm
    simp only [hacquire, hanswer] at hy
    simp only [retarget, hx, hy]
    refine ⟨⟨false, ?_⟩, hafter⟩
    rw [hcache]
    rfl

/-- A look at the size may be warned of or not, and that is all. -/
theorem review (h : Matches limit x y) :
    Matches limit ⟨(x.cache.review x.world).1, (x.cache.review x.world).2⟩
      ⟨(y.cache.review y.world).1, (y.cache.review y.world).2⟩ := by
  rcases h with ⟨⟨warned, hcache⟩, hworld⟩
  have hstores : y.cache.store? = x.cache.store? := by
    rw [hcache]
    rfl
  have hdues : y.cache.upkeep.sizing.due = x.cache.upkeep.sizing.due := by
    rw [hcache]
    rfl
  -- Whether a look is due does not depend on the limit; only what it warns of does.
  cases hstore : x.cache.store? with
  | none =>
      rw [Cache.review_of_none hstore, Cache.review_of_none (hstores.trans hstore)]
      exact ⟨⟨warned, hcache⟩, hworld⟩
  | some r =>
      cases hdue : x.cache.upkeep.sizing.due with
      | false =>
          rw [Cache.review_of_store hstore (Upkeep.review_undue hdue r.backend _ x.world),
            Cache.review_of_store (hstores.trans hstore)
              (Upkeep.review_undue (hdues.trans hdue) r.backend _ y.world)]
          exact ⟨⟨warned, hcache⟩, hworld⟩
      | true =>
          rcases r.aloof.counts.alike hworld with ⟨hanswer, hafter⟩
          rw [Cache.review_of_store hstore
              (Upkeep.review_due hdue (Prod.eta (r.backend.counts x.world)).symm _),
            Cache.review_of_store (hstores.trans hstore)
              (Upkeep.review_due (hdues.trans hdue)
                (Prod.eta (r.backend.counts y.world)).symm _)]
          refine ⟨⟨warned || exceeds limit (r.backend.counts x.world).1, ?_⟩, hafter⟩
          rw [hcache, hanswer]
          rfl

/-- What a write answers and stores depends neither on the limit nor on earlier warnings. -/
theorem stored (h : Matches limit x y) (e : Posting) :
    (y.cache.write e.query e.response e.requestor y.world).1.1 =
        (x.cache.write e.query e.response e.requestor x.world).1.1 ∧
      Matches limit
        ⟨(x.cache.write e.query e.response e.requestor x.world).1.2,
          (x.cache.write e.query e.response e.requestor x.world).2⟩
        ⟨(y.cache.write e.query e.response e.requestor y.world).1.2,
          (y.cache.write e.query e.response e.requestor y.world).2⟩ := by
  rcases h with ⟨⟨warned, hcache⟩, hworld⟩
  rw [hcache]
  rcases ((x.cache.limited limit warned).aloof_write e.query e.response e.requestor).alike hworld
    with ⟨hanswer, hafter⟩
  rw [hanswer]
  cases hstore : x.cache.store? with
  | none =>
      have hstore' : (x.cache.limited limit warned).store? = none := hstore
      simp only [Cache.write_of_none hstore, Cache.write_of_none hstore'] at hafter ⊢
      exact ⟨trivial, ⟨warned, rfl⟩, hafter⟩
  | some r =>
      have hstore' : (x.cache.limited limit warned).store? = some r := hstore
      -- The outcome and the queue are the same for every limit, so only the size can differ.
      rcases r.backend.write_apply x.cache.config e.query e.response e.requestor
        x.cache.upkeep.queue x.world with ⟨answer, queue, w₁, hrun⟩
      have hx := Cache.write_of_store hstore
        (hrun x.cache.config.maxEntries x.cache.upkeep.sizing)
      have hy := Cache.write_of_store hstore'
        (hrun limit (x.cache.limited limit warned).upkeep.sizing)
      simp only [hx, hy] at hafter ⊢
      refine ⟨trivial, ⟨warned, ?_⟩, hafter⟩
      split <;> rfl

theorem write (h : Matches limit x y) (e : Posting) (others : Interlude) :
    (y.write e others).1.outcome = (x.write e others).1.outcome ∧
      Matches limit (x.write e others).2 (y.write e others).2 := by
  have htimed : Matches limit ⟨x.cache, x.world.setTime e.time⟩
      ⟨y.cache, y.world.setTime e.time⟩ := ⟨h.cache, h.setTime e.time⟩
  rcases htimed.stored e with ⟨hanswer, hstored⟩
  exact ⟨congrArg (fun answer => some (Outcome.written answer)) hanswer,
    (hstored.meanwhile others).review⟩

/-- The limit is of no concern for what a cache answers and leaves. -/
theorem turn (h : Matches limit x y) (t : Turn) :
    (y.turn t).1.outcome = (x.turn t).1.outcome ∧ Matches limit (x.turn t).2 (y.turn t).2 := by
  rcases h.cache with ⟨warned, hcache⟩
  -- Only a write looks at the limit; the other calls do not depend on it.
  cases t with
  | write e others =>
      exact h.write e others
  | read time q =>
      have hsame : y.cache.read q = x.cache.read q := by
        rw [hcache]
        rfl
      simp only [Stage.turn, hsame]
      exact h.ask time ((x.cache.aloof_read q).map _)
  | lookup time q policy =>
      have hsame : y.cache.lookup q policy = x.cache.lookup q policy := by
        rw [hcache]
        rfl
      simp only [Stage.turn, hsame]
      exact h.ask time ((x.cache.aloof_lookup q policy).map _)
  | stats time =>
      have hsame : y.cache.stats = x.cache.stats := by
        rw [hcache]
        rfl
      simp only [Stage.turn, hsame]
      exact h.ask time (x.cache.aloof_stats.map _)
  | rescope inUse scope =>
      exact ⟨rfl, h.rescope inUse scope _ _⟩
  | authenticate inUse user =>
      have hscope : y.cache.config.scopeFor user = x.cache.config.scopeFor user := by
        rw [hcache]
        rfl
      refine ⟨rfl, ?_⟩
      simp only [Stage.turn, Cache.authenticate, hscope]
      exact h.rescope inUse _ _ _
  | install inUse r =>
      refine ⟨rfl, ⟨false, ?_⟩, h.world⟩
      simp only [Stage.turn]
      rw [hcache]
      rfl
  | elsewhere others =>
      exact ⟨rfl, h.meanwhile others⟩

theorem run (turns : List Turn) : ∀ {x y : Stage}, Matches limit x y →
    (y.beats turns).map Beat.outcome = (x.beats turns).map Beat.outcome ∧
      Matches limit (x.run turns) (y.run turns) := by
  induction turns with
  | nil =>
      intro x y h
      exact ⟨rfl, h⟩
  | cons t rest ih =>
      intro x y h
      rcases h.turn t with ⟨hfirst, hstep⟩
      rcases ih hstep with ⟨hrest, hrun⟩
      refine ⟨?_, hrun⟩
      simp only [beats, List.map_cons, hfirst, hrest]

end Matches
end Stage
end EntityCache
