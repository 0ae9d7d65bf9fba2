import EntityCache.Proofs.Cache.Limits
import EntityCache.Proofs.Cache.Notified

/-!
# When a cache looks at the size of its store

* `Sizing.since`: what a cache knows of the turns since it came to its store.
* `Beat.Due`: a turn is sampled and warned of as it should.
* `Stage.step`: every turn is, and the cache knows of it; `Stage.beats_due` for runs.
* `Stage.sampled_in_turn`: so for every stretch between two changes of the store, and the limit
  decides on nothing but the warning.
-/

namespace EntityCache

/-! ## What a cache knows -/

/-- What is known after the turns since the cache came to its store. -/
def Sizing.since (limit : Nat) (past : List Beat) : Sizing :=
  ⟨past.countP Beat.absorbed, false, past.any (Beat.isOversize limit)⟩

/-- A turn is sampled exactly if it is a write whose number is a multiple of the interval, and it is
warned of exactly if it is the first one that shows too large a store. -/
structure Beat.Due (limit : Nat) (past : List Beat) (b : Beat) : Prop where
  samples : b.samples.length =
    if b.absorbed && decide (past.countP Beat.absorbed % Sizing.interval = 0) then 1 else 0
  warnings : b.warnings =
    if b.isOversize limit && !past.any (Beat.isOversize limit) then 1 else 0

theorem Sizing.since_concat (limit : Nat) (past : List Beat) (b : Beat) :
    Sizing.since limit (past ++ [b]) =
      ⟨past.countP Beat.absorbed + if b.absorbed then 1 else 0, false,
        past.any (Beat.isOversize limit) || b.isOversize limit⟩ := by
  simp only [since, List.countP_append, List.countP_singleton, List.any_append, List.any_cons,
    List.any_nil, Bool.or_false]

/-- A turn without samples and without warnings. -/
theorem Beat.Due.of_none {limit : Nat} {past : List Beat} {b : Beat}
    (habsorbed : b.absorbed = false) (hsamples : b.samples = []) (hwarnings : b.warnings = 0) :
    b.Due limit past where
  samples := by
    rw [hsamples, habsorbed]
    rfl
  warnings := by
    rw [hwarnings, isOversize, hsamples]
    rfl

namespace Stage

variable {x : Stage} {r : StoreRef} {past : List Beat}

/-- A turn is sampled and warned of as it should, and the cache knows of it afterwards. -/
structure Steps (past : List Beat) (x : Stage) (b : Beat) (y : Stage) : Prop where
  due : b.Due x.cache.config.maxEntries past
  sizing : y.cache.upkeep.sizing = .since x.cache.config.maxEntries (past ++ [b])

/-- A turn that is not counted and that keeps what is known. -/
theorem Steps.of_kept {b : Beat} {y : Stage}
    (hknown : x.cache.upkeep.sizing = .since x.cache.config.maxEntries past)
    (habsorbed : b.absorbed = false) (hsamples : b.samples = []) (hwarnings : b.warnings = 0)
    (hsizing : y.cache.upkeep.sizing = x.cache.upkeep.sizing) : Steps past x b y where
  due := .of_none habsorbed hsamples hwarnings
  sizing := by
    rw [hsizing, hknown, Sizing.since_concat, habsorbed, Beat.isOversize, hsamples, List.any_nil,
      Bool.or_false]
    rfl

/-- A look at the size in terms of the samples that it takes. -/
theorem review_apply (hstore : x.cache.store? = some r) : ∃ samples w',
    x.samples (fun b => x.cache.upkeep.review b x.cache.config.maxEntries) = samples ∧
    samples.length = (if x.cache.upkeep.sizing.due then 1 else 0) ∧
    x.cache.review x.world = ({ x.cache with upkeep := { x.cache.upkeep with
      sizing := x.cache.upkeep.sizing.seen x.cache.config.maxEntries samples } }, w') ∧
    (signalsSince x.world w').count (.notice .oversize) =
      (if samples.any (exceeds x.cache.config.maxEntries) && !x.cache.upkeep.sizing.warned
        then 1 else 0) := by
  rcases Upkeep.review_sampled r.aloof x.cache.upkeep x.cache.config.maxEntries x.world with
    ⟨samples, w', hsamples, hlength, hreview, hwarned⟩
  refine ⟨samples, w', ?_, hlength, Cache.review_of_store hstore hreview, hwarned⟩
  simp only [Stage.samples, hstore]
  exact hsamples

/-- A write through a store.  It is counted once its records are saved, and others go on before the
size is looked at. -/
theorem write_of_store (hstore : x.cache.store? = some r) (e : Posting) (others : Interlude) :
    ∃ answer w₁, ∃ y : Stage, ∃ samples w',
      y.cache.config = x.cache.config ∧
      y.cache.upkeep.sizing =
        (if x.absorbs e then x.cache.upkeep.sizing.count else x.cache.upkeep.sizing) ∧
      samples.length = (if y.cache.upkeep.sizing.due then 1 else 0) ∧
      x.write e others = (⟨false, x.absorbs e, samples,
          signalsSince (x.world.setTime e.time) w₁ ++ signalsSince y.world w',
          some (.written answer)⟩,
        ⟨{ y.cache with upkeep := { y.cache.upkeep with
          sizing := y.cache.upkeep.sizing.seen y.cache.config.maxEntries samples } }, w'⟩) ∧
      (signalsSince (x.world.setTime e.time) w₁).count (.notice .oversize) = 0 ∧
      (signalsSince y.world w').count (.notice .oversize) =
        (if samples.any (exceeds y.cache.config.maxEntries) && !y.cache.upkeep.sizing.warned
          then 1 else 0) := by
  have hmild := (r.aloof.write x.cache.config e.query e.response e.requestor x.cache.upkeep).tells
    (x.world.setTime e.time)
  have hunsampled := r.backend.sameLog_write x.cache.config e.query e.response e.requestor
    x.cache.upkeep (x.world.setTime e.time).metered
  have habsorbs : (r.backend.absorb e.response.data e.response.ids e.requestor
      (x.world.setTime e.time)).1.isOk = x.absorbs e := by
    simp only [absorbs, hstore]
    rfl
  rcases r.backend.write_apply x.cache.config e.query e.response e.requestor x.cache.upkeep.queue
    (x.world.setTime e.time) with ⟨answer, queue, w₁, hrun⟩
  simp only [habsorbs] at hrun
  have hbackend : r.backend.write x.cache.config e.query e.response e.requestor x.cache.upkeep
      (x.world.setTime e.time) = ((answer, ⟨if x.absorbs e
        then x.cache.upkeep.sizing.count else x.cache.upkeep.sizing, queue⟩), w₁) :=
    hrun x.cache.config.maxEntries x.cache.upkeep.sizing
  simp only [hbackend] at hmild
  have hwrite := Cache.write_of_store hstore hbackend
  -- The stage after the write and the interlude, where the size is looked at.
  let y := Stage.meanwhile ⟨{ x.cache with upkeep := ⟨if x.absorbs e
    then x.cache.upkeep.sizing.count else x.cache.upkeep.sizing, queue⟩ }, w₁⟩ others
  have hstore' : y.cache.store? = some r := hstore
  rcases review_apply hstore' with ⟨samples, w', hsamples, hlength, hreview, hwarned⟩
  refine ⟨answer, w₁, y, samples, w', rfl, rfl, hlength, ?_, hmild.count_oversize, hwarned⟩
  -- The write itself looks at no counts, so all samples are those of the review.
  have hnone : Stage.samples ⟨x.cache, x.world.setTime e.time⟩ (fun b =>
      b.write x.cache.config e.query e.response e.requestor x.cache.upkeep) = [] := by
    simp only [Stage.samples, hstore]
    exact hunsampled
  simp only [write, hwrite, hnone, List.nil_append]
  show (Beat.mk _ _ (y.samples _) (_ ++ signalsSince _ (y.cache.review y.world).2) _,
    Stage.mk (y.cache.review y.world).1 (y.cache.review y.world).2) = _
  rw [hsamples, hreview]

/-- A write is sampled and warned of as it should. -/
theorem steps_write (hknown : x.cache.upkeep.sizing = .since x.cache.config.maxEntries past)
    (e : Posting) (others : Interlude) :
    Steps past x (x.write e others).1 (x.write e others).2 := by
  cases hstore : x.cache.store? with
  | none =>
      rw [write_of_none hstore]
      exact .of_kept hknown rfl rfl rfl rfl
  | some r =>
      rcases write_of_store hstore e others with
        ⟨answer, w₁, y, samples, w', hconfig, hsizing, hlength, hwrite, hmild, hwarned⟩
      rw [hconfig] at hwarned
      rw [hwrite, hconfig]
      cases habsorbs : x.absorbs e with
      | false =>
          -- Nothing is due.
          simp only [habsorbs, Bool.false_eq_true, if_false, hknown] at hsizing
          simp only [hsizing, Sizing.since, Bool.false_eq_true, if_false,
            List.length_eq_zero_iff] at hlength
          subst hlength
          refine .of_kept hknown rfl rfl ?_ ?_
          · simp only [Beat.warnings, List.count_append, hmild, hwarned]
            rfl
          · simp only [hsizing, hknown]
            exact Sizing.seen_nil rfl _
      | true =>
          simp only [habsorbs, if_true, hknown] at hsizing
          simp only [hsizing] at hlength hwarned
          refine ⟨⟨?_, ?_⟩, ?_⟩
          · simp only [hlength, Bool.true_and]
            rfl
          · simp only [Beat.warnings, List.count_append, hmild, hwarned, Nat.zero_add]
            rfl
          · rw [Sizing.since_concat]
            simp only [hsizing]
            rfl

/-- Any other operation is neither sampled nor warned of. -/
theorem steps_ask (hknown : x.cache.upkeep.sizing = .since x.cache.config.maxEntries past)
    (time : Time) {answer : StateM (World Vault) Outcome} (hanswer : Aloof Signal.IsMild answer) :
    Steps past x (x.ask time answer).1 (x.ask time answer).2 :=
  .of_kept hknown rfl rfl (hanswer.tells (x.world.setTime time)).count_oversize rfl

theorem steps_rescope (hknown : x.cache.upkeep.sizing = .since x.cache.config.maxEntries past)
    {inUse : StoreRef → Bool} {scope : Scope}
    (hstay : (x.cache.target.scope? != some scope) = false) :
    Steps past x (x.retarget (x.cache.target.scope? != some scope)
        (x.cache.rescope inUse scope)).1
      (x.retarget (x.cache.target.scope? != some scope) (x.cache.rescope inUse scope)).2 := by
  rw [retarget_of_same (bne_eq_false_iff_eq.mp hstay)]
  exact .of_kept hknown rfl rfl rfl rfl

/-- Whatever is done, if only the cache stays with its store. -/
theorem step (hknown : x.cache.upkeep.sizing = .since x.cache.config.maxEntries past) (t : Turn)
    (hstay : (x.turn t).1.swapped = false) : Steps past x (x.turn t).1 (x.turn t).2 := by
  cases t with
  | write e others =>
      exact steps_write hknown e others
  | read time q =>
      exact steps_ask hknown time ((x.cache.aloof_read q).map _)
  | lookup time q policy =>
      exact steps_ask hknown time ((x.cache.aloof_lookup q policy).map _)
  | stats time =>
      exact steps_ask hknown time (x.cache.aloof_stats.map _)
  | rescope inUse scope =>
      exact steps_rescope hknown hstay
  | authenticate inUse user =>
      exact steps_rescope hknown hstay
  | install inUse r =>
      cases hstay
  | elsewhere others =>
      exact .of_kept hknown rfl rfl rfl rfl

theorem swap_rescope {inUse : StoreRef → Bool} {scope : Scope}
    (hswap : (x.cache.target.scope? != some scope) = true) (swapped : Bool) :
    (x.retarget swapped (x.cache.rescope inUse scope)).2.cache.upkeep.sizing = .start := by
  rcases x.cache.rescope_cases inUse scope x.world with
    ⟨hsame, -⟩ | ⟨-, answer, v', signals, hrun, -⟩
  · exact absurd hsame (bne_iff_ne.mp hswap)
  · simp only [retarget, hrun]
    rfl

/-- When the cache comes to another store, nothing is known of its size. -/
theorem swap (t : Turn) (hswap : (x.turn t).1.swapped = true) :
    (x.turn t).2.cache.upkeep.sizing = .start := by
  cases t with
  | write _ _ | read _ _ | lookup _ _ _ | stats _ | elsewhere _ =>
      cases hswap
  | rescope inUse scope =>
      exact swap_rescope hswap _
  | authenticate inUse user =>
      exact swap_rescope hswap _
  | install inUse r =>
      rfl

/-- As long as the cache stays with its store, every turn is sampled and warned of as it should. -/
theorem beats_due {limit : Nat} (turns : List Turn) :
    ∀ {x : Stage} {past : List Beat}, x.cache.config.maxEntries = limit →
      x.cache.upkeep.sizing = .since limit past →
      (∀ b ∈ x.beats turns, b.swapped = false) →
      ∀ (i : Nat) (b : Beat), (x.beats turns)[i]? = some b →
        b.Due limit (past ++ (x.beats turns).take i) := by
  induction turns with
  | nil =>
      intro x past _ _ _ i b hb
      cases hb
  | cons t rest ih =>
      intro x past hlimit hknown hstay i b hb
      rcases List.forall_mem_cons.mp hstay with ⟨hfirst, hrest⟩
      subst hlimit
      have hstep := step hknown t hfirst
      cases i with
      | zero =>
          obtain rfl : (x.turn t).1 = b := Option.some.inj hb
          rw [List.take_zero, List.append_nil]
          exact hstep.due
      | succ i =>
          -- The first turn belongs to the past of the later ones.
          have hlater := ih (congrArg Config.maxEntries (x.config_turn t)) hstep.sizing hrest i b hb
          rw [List.append_assoc] at hlater
          exact hlater

end Stage

/-- Of turns that are warned of as they should at most one is warned of. -/
theorem count_warnings {limit : Nat} (beats : List Beat) : ∀ {past : List Beat},
    (∀ (i : Nat) (b : Beat), beats[i]? = some b → b.Due limit (past ++ beats.take i)) →
    (beats.flatMap Beat.signals).count (.notice .oversize) =
      if beats.any (Beat.isOversize limit) && !past.any (Beat.isOversize limit) then 1 else 0 := by
  induction beats with
  | nil =>
      intro past _
      rfl
  | cons b rest ih =>
      intro past hdue
      have hfirst : b.signals.count (.notice .oversize) = _ := (hdue 0 b rfl).warnings
      rw [List.take_zero, List.append_nil] at hfirst
      have hlater : ∀ (i : Nat) (b' : Beat), rest[i]? = some b' →
          b'.Due limit (past ++ [b] ++ rest.take i) := by
        intro i b' hb'
        rw [List.append_assoc]
        exact hdue (i + 1) b' hb'
      rw [List.flatMap_cons, List.count_append, hfirst, ih hlater]
      simp only [List.any_cons, List.any_append, List.any_nil, Bool.or_false]
      -- At most one of three has it: the turns before, this one, or the rest.
      by_cases hpast : past.any (Beat.isOversize limit) = true
      · simp [hpast]
      · by_cases hb : b.isOversize limit = true
        · simp [hpast, hb]
        · simp [hpast, hb]

namespace Stage

/-- The stage whose cache has another limit. -/
def limited (x : Stage) (limit : Nat) : Stage :=
  ⟨x.cache.limited limit x.cache.upkeep.sizing.warned, x.world⟩

/-- Between two changes of its store a cache samples the size of the store with those writes that
come past their records and whose number is a multiple of 64, and with no other ones.  It warns of
too large a store at most once, when a sample shows that first.  What the cache answers and leaves
does not depend on the limit; and a store does the same whether its samples are logged or not. -/
theorem sampled_in_turn (x : Stage) (before stretch : List Turn) (change : Turn) {beats : List Beat}
    (hchange : ((x.run before).turn change).1.swapped = true)
    (hbeats : (x.run (before ++ [change])).beats stretch = beats)
    (hstay : ∀ b ∈ beats, b.swapped = false) :
    (∀ (i : Nat) (b : Beat), beats[i]? = some b →
      b.samples.length =
        (if b.absorbed = true ∧ (beats.take i).countP Beat.absorbed % 64 = 0 then 1 else 0) ∧
      b.warnings =
        (if b.isOversize x.cache.config.maxEntries = true ∧
          ∀ b' ∈ beats.take i, b'.isOversize x.cache.config.maxEntries = false then 1 else 0)) ∧
    (beats.flatMap Beat.signals).count (.notice .oversize) ≤ 1 ∧
    (∀ (limit : Nat) (turns : List Turn),
      ((x.limited limit).beats turns).map Beat.outcome = (x.beats turns).map Beat.outcome ∧
      ((x.limited limit).run turns).cache.target = (x.run turns).cache.target ∧
      ((x.limited limit).run turns).world.hearing [] = (x.run turns).world.hearing []) ∧
    ∀ r : StoreRef, r.backend.metered.Mirrors Prod.fst r.backend := by
  subst hbeats
  have hconfig : (x.run (before ++ [change])).cache.config = x.cache.config := config_run _ x
  have hknown : (x.run (before ++ [change])).cache.upkeep.sizing =
      .since x.cache.config.maxEntries [] := by
    rw [run_concat]
    exact (swap change hchange)
  have hdue := beats_due stretch (congrArg Config.maxEntries hconfig) hknown hstay
  refine ⟨fun i b hb => ?_, ?_, fun limit turns => ?_, fun r => r.backend.metered_mirrors⟩
  · rcases hdue i b hb with ⟨hsamples, hwarnings⟩
    simp only [Bool.and_eq_true, decide_eq_true_eq, Bool.not_eq_true', List.any_eq_false,
      List.nil_append, Bool.not_eq_true] at hsamples hwarnings
    exact ⟨hsamples, hwarnings⟩
  · rw [count_warnings _ hdue]
    split <;> decide
  · have hsame : Matches limit x (x.limited limit) := ⟨⟨_, rfl⟩, rfl⟩
    rcases hsame.run turns with ⟨houtcomes, ⟨warned, hcache⟩, hworld⟩
    refine ⟨houtcomes, ?_, hworld⟩
    rw [hcache]
    rfl

/-- A cache in memory whose store is too large with a list and its item. -/
def unsigned : Stage :=
  ⟨Cache.new { Config.default with maxEntries := 1 } false, ⟨.empty, [], [], 0, .empty false⟩⟩

def signIn : Turn :=
  .authenticate (fun _ => false) (some "ada")

/-- Of two writes the first one is sampled and warned of; to sign in again does not matter. -/
theorem sampled_in_turn_small : ∃ first again second,
    (unsigned.run [signIn]).beats [.write listPosting id, signIn, .write itemPosting id] =
      [first, again, second] ∧
    first.samples.length = 1 ∧ first.warnings = 1 ∧ again.warnings = 0 ∧
    second.absorbed = true ∧ second.samples.length = 0 ∧
    ((unsigned.limited 5).beats [signIn, .write listPosting id]).map Beat.outcome =
      (unsigned.beats [signIn, .write listPosting id]).map Beat.outcome := by
  rcases sampled_in_turn unsigned [] [.write listPosting id, signIn, .write itemPosting id] signIn
    (by decide +kernel) rfl (by decide +kernel) with ⟨hdue, -, hlimit, -⟩
  refine ⟨_, _, _, rfl, (hdue 0 _ rfl).1.trans (by decide +kernel),
    (hdue 0 _ rfl).2.trans (by decide +kernel), (hdue 1 _ rfl).2.trans (by decide +kernel),
    by decide +kernel, (hdue 2 _ rfl).1.trans (by decide +kernel), (hlimit 5 _).1⟩

end Stage
end EntityCache
