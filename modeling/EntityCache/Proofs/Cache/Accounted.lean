import EntityCache.Proofs.Cache.Counters
import EntityCache.Proofs.Cache.Notified
import EntityCache.Proofs.Cache.Operations
import EntityCache.Proofs.Store.Aloof
import EntityCache.Proofs.Store.Within

/-!
# Every operation is accounted for

* `Backend.ReadAccount`: how a read ends, with the status and the damage that it is to report.
* `Account`: the same for every operation of a cache.
* `Cache.perform_accounted`: an operation reports what its account says, whatever is stored and
  whichever calls fail.
* `History`: operations of a cache, and whatever happens in between without ending an activity;
  by `Cache.aside_rescope` and `Cache.aside_install` the cache may come to another store so.
* `Cache.history_accounted`: over a whole history the journal and its counters have what the
  accounts say, and nothing else.
-/

namespace EntityCache

open Normalize

variable {σ α β : Type}

/-! ## What was reported -/

/-- Between two worlds these activities have ended and this damage was met. -/
def Told (w w' : World σ) (ended damage : Journal) : Prop :=
  ∃ signals, w'.journal = w.journal ++ signals ∧ endings signals = ended ∧ damages signals = damage

namespace Told

variable {w w₁ w₂ : World σ} {ended later damage more : Journal}

theorem report (w : World σ) (signals : Journal) :
    Told w (w.report signals) (endings signals) (damages signals) :=
  ⟨signals, rfl, rfl, rfl⟩

theorem trans (h : Told w w₁ ended damage) (h' : Told w₁ w₂ later more) :
    Told w w₂ (ended ++ later) (damage ++ more) := by
  rcases h with ⟨first, hfirst, rfl, rfl⟩
  rcases h' with ⟨second, hsecond, rfl, rfl⟩
  exact ⟨first ++ second, by rw [hsecond, hfirst, List.append_assoc], endings_append _ _,
    damages_append _ _⟩

theorem of_journal_eq (h : w₁.journal = w.journal) : Told w w₁ [] [] :=
  ⟨[], by rw [h, List.append_nil], rfl, rfl⟩

/-- Signals of one other kind are neither ends nor damage. -/
theorem of_tells (s : Signal) (hended : s.isEnding = false) (hdamage : s.isDamage = false)
    (h : Tells (fun s' => s' = s) w w₁) : Told w w₁ [] [] := by
  rcases h with ⟨signals, hjournal, hsame⟩
  refine ⟨signals, hjournal, List.filter_eq_nil_iff.mpr fun s' hs' => ?_,
    List.filter_eq_nil_iff.mpr fun s' hs' => ?_⟩
  · rw [hsame s' hs', hended]
    decide
  · rw [hsame s' hs', hdamage]
    decide

theorem of_unended (h : Unended w w₁) : ∃ damage, Told w w₁ [] damage := by
  rcases h with ⟨signals, hjournal, hnone⟩
  refine ⟨_, signals, hjournal, List.filter_eq_nil_iff.mpr fun s hs => ?_, rfl⟩
  rw [hnone s hs]
  decide

/-- The signals themselves are the later part of the journal. -/
theorem drop_eq (h : Told w w₁ ended damage) :
    endings (w₁.journal.drop w.journal.length) = ended ∧
      damages (w₁.journal.drop w.journal.length) = damage := by
  rcases h with ⟨signals, hjournal, hended, hdamage⟩
  rw [hjournal, List.drop_left]
  exact ⟨hended, hdamage⟩

end Told

/-- No activity has ended and no damage was met. -/
abbrev Aside (w w' : World σ) : Prop :=
  Told w w' [] []

theorem Told.composes : Composes (σ := σ) Aside where
  refl _ := .of_journal_eq rfl
  trans h h' := h.trans h'

/-! ## Reads -/

namespace Backend

/-- What a read of a query fails to get, and with what failure. -/
def failure? (b : Backend σ) (q : QueryKey) (w : World σ) : Option (Table × StoreError) :=
  match b.tree? q w with
  | (.error e, _) => some (.trees, e)
  | (.ok none, _) => none
  | (.ok (some e), w) =>
      match e.root? with
      | .error fault => some (.trees, .codec q (.undecodable fault))
      | .ok root =>
          match b.project root w with
          | (.error e, _) => some (.entities, e)
          | (.ok _, _) => none

/-- How a read of a query is accounted for: by its status, and by the damage that it has met. -/
inductive ReadAccount (b : Backend σ) (q : QueryKey) (w : World σ) :
    Option CachedResult → Status → Journal → Prop
  /-- A cached result is shown, which is stale or not. -/
  | shown {r : CachedResult} (hfailure : b.failure? q w = none) :
      ReadAccount b q w (some r) (if r.stale then .stale else .hit) []
  /-- The store has no tree of the query. -/
  | absent (htree : (b.tree? q w).1 = .ok none) : ReadAccount b q w none .miss []
  /-- Only a failure of the codec is damage. -/
  | failed {table : Table} {e : StoreError} (hfailure : b.failure? q w = some (table, e)) :
      ReadAccount b q w none .error (if e.isCodec then [.undecodable b.backing table] else [])

variable {b : Backend σ}

theorem told_failure (w : World σ) (store : Backing) (table : Table) (activity : Activity)
    (e : StoreError) :
    Told w (w.report (failureSignals store table activity e)) [.operation store activity .error]
      (if e.isCodec then [.undecodable store table] else []) := by
  refine ⟨_, rfl, ?_, ?_⟩
  · simp only [failureSignals]
    split <;> rfl
  · simp only [failureSignals]
    split <;> rfl

namespace Aloof

/-- A skeleton that was found is shown, or something in it cannot be decoded. -/
theorem told_present (h : b.Aloof) {q : QueryKey} {w w₁ : World σ} {e : Entry}
    (htree : b.tree? q w = (.ok (some e), w₁)) : ∃ status damage,
      b.ReadAccount q w (b.present q e w₁).1 status damage ∧
        Told w₁ (b.present q e w₁).2 [.operation b.backing .read status] damage := by
  -- The skeleton cannot be decoded, or not be assembled, or else it is shown.
  cases hroot : e.root? with
  | error fault =>
      have hfailure : b.failure? q w = some (.trees, .codec q (.undecodable fault)) := by
        simp only [failure?, htree, hroot]
      simp only [Backend.present, hroot]
      exact ⟨_, _, .failed hfailure, .report w₁ _⟩
  | ok root =>
      have hproject := Told.of_tells _ rfl rfl ((h.project root).tells w₁)
      cases hanswer : b.project root w₁ with
      | mk answer w₂ =>
      simp only [hanswer] at hproject
      cases answer with
      | error failed =>
          have hfailure : b.failure? q w = some (.entities, failed) := by
            simp only [failure?, htree, hroot, hanswer]
          simp only [Backend.present, hroot, bindM_apply (m := (b.project root).outcome) hanswer]
          exact ⟨_, _, .failed hfailure, hproject.trans (told_failure w₂ _ _ _ failed)⟩
      | ok data =>
          have hfailure : b.failure? q w = none := by
            simp only [failure?, htree, hroot, hanswer]
          simp only [Backend.present, hroot, bindM_apply (m := (b.project root).outcome) hanswer]
          exact ⟨_, _, .shown hfailure, hproject.trans (.report w₂ _)⟩

/-- A read reports one status, and damage exactly if that is what it failed with. -/
theorem told_read (h : b.Aloof) (q : QueryKey) (w : World σ) : ∃ status damage,
    b.ReadAccount q w (b.read q w).1 status damage ∧
      Told w (b.read q w).2 [.operation b.backing .read status] damage := by
  have hentry : ∃ status damage, b.ReadAccount q w (b.readEntry q w).1 status damage ∧
      Told w (b.readEntry q w).2 [.operation b.backing .read status] damage := by
    have hsame := ((h.tree? q).tells w).journal_eq
    cases hanswer : b.tree? q w with
    | mk answer w₁ =>
    simp only [hanswer] at hsame
    have htold := Told.of_journal_eq hsame
    simp only [readEntry, bindM_apply (m := (b.tree? q).outcome) hanswer]
    cases answer with
    | error failed =>
        have hfailure : b.failure? q w = some (.trees, failed) := by
          simp only [failure?, hanswer]
        exact ⟨_, _, .failed hfailure, htold.trans (told_failure w₁ _ _ _ failed)⟩
    | ok found =>
        cases found with
        | none =>
            exact ⟨_, _, .absent (congrArg Prod.fst hanswer), htold.trans (.report w₁ _)⟩
        | some e =>
            rcases h.told_present hanswer with ⟨status, damage, haccount, hpresent⟩
            exact ⟨status, damage, haccount, htold.trans hpresent⟩
  rcases hentry with ⟨status, damage, haccount, htold⟩
  refine ⟨status, damage, haccount, ?_⟩
  -- The time of the read is measured in any case.
  have hall := htold.trans (.report _ [.timed b.backing .read])
  simp only [show endings [.timed b.backing .read] = [] from rfl,
    show damages [.timed b.backing .read] = [] from rfl, List.append_nil] at hall
  exact hall

end Aloof
end Backend

/-! ## Writes -/

/-- Requests for impacted queries may be coalesced, nothing else is reported of them. -/
theorem aside_schedule (u : Upkeep) (queries : KeySet QueryKey) :
    Within Aside (u.schedule queries : StateM (World σ) Upkeep) :=
  fun w => .of_tells _ rfl rfl ((aloof_schedule u queries).tells w)

namespace Backend.Aloof

variable {b : Backend σ}

theorem aside_levels (h : b.Aloof) : EntityCache.Within Aside b.levels := by
  refine .bindM Told.composes (fun w => .of_journal_eq (h.counts.tells w).journal_eq) fun r => ?_
  cases r with
  | ok n =>
      exact .bindM Told.composes (fun w => .report w _) fun _ => .pureM Told.composes _
  | error _ =>
      exact .bindM Told.composes (.pureM Told.composes _) fun _ => .pureM Told.composes _

theorem aside_countEntries (h : b.Aloof) : EntityCache.Within Aside b.countEntries := by
  refine .bindM Told.composes h.aside_levels fun r => ?_
  cases r with
  | ok n =>
      exact .pureM Told.composes _
  | error _ =>
      exact .bindM Told.composes (fun w => .report w _) fun _ => .pureM Told.composes _

theorem aside_review (h : b.Aloof) (u : Upkeep) (limit : Nat) :
    EntityCache.Within Aside (u.review b limit) := by
  have hsizing : EntityCache.Within Aside (u.sizing.review b limit) := by
    simp only [Sizing.review]
    split
    · refine .bindM Told.composes h.aside_levels fun r => ?_
      cases r with
      | error _ =>
          exact .pureM Told.composes _
      | ok n =>
          by_cases hlimit : (decide (limit < n.trees + n.entities) && !u.sizing.warned) = true
          · simp only [if_pos hlimit]
            exact .bindM Told.composes (fun w => .report w _) fun _ => .pureM Told.composes _
          · simp only [if_neg hlimit]
            exact .pureM Told.composes _
    · exact .pureM Told.composes _
  exact .bindM Told.composes hsizing fun _ => .pureM Told.composes _

/-- The skeleton of a result is stored or not, and one status says which. -/
theorem told_storeTree (h : b.Aloof) (q : QueryKey) (root : Skeleton) (ttl : Span) (w : World σ) :
    ∃ damage, Told w (b.storeTree q root ttl w).2
      [.operation b.backing .write (if (b.storeTree q root ttl w).1 then .success else .error)]
      damage := by
  have hsame := ((h.setTree q (Entry.new q root.text ttl (some root) w.now)).tells w).journal_eq
  cases hset : b.setTree q (Entry.new q root.text ttl (some root) w.now) w with
  | mk answer w₁ =>
  simp only [hset] at hsame
  have htold := Told.of_journal_eq hsame
  simp only [Backend.storeTree, bindM_apply (m := get) rfl,
    bindM_apply (m := (b.setTree _ _).outcome) hset]
  cases answer with
  | ok _ =>
      exact ⟨_, htold.trans (.report w₁ _)⟩
  | error failed =>
      exact ⟨_, htold.trans (told_failure w₁ _ _ _ failed)⟩

/-- What follows the attempt to store the skeleton is no matter of its status. -/
theorem told_complete (h : b.Aloof) (config : Config) (q : QueryKey) (ttl : Option Span)
    (pass : Pass) (u : Upkeep) (w : World σ) :
    ∃ damage, Told w (b.complete config q ttl pass u w).2
      [.operation b.backing .write
        (if (b.complete config q ttl pass u w).1.1.stored then .success else .error)] damage := by
  rcases h.told_storeTree q pass.root (ttl.getD config.defaultSpan) w with ⟨damage, hstored⟩
  cases hstore : b.storeTree q pass.root (ttl.getD config.defaultSpan) w with
  | mk stored w₁ =>
  simp only [hstore] at hstored
  have hscheduled := aside_schedule u pass.impacted (w₁.report [.impacted pass.impacted.size])
  cases hschedule : u.schedule pass.impacted (w₁.report [.impacted pass.impacted.size]) with
  | mk u' w₂ =>
  simp only [hschedule] at hscheduled
  have hrun : b.complete config q ttl pass u w =
      ((⟨stored, pass.impacted⟩, { u' with sizing := u'.sizing.count }), w₂) := by
    simp only [Backend.complete, bindM_apply hstore, bindM_apply (note_apply _ _),
      bindM_apply hschedule]
    rfl
  simp only [hrun]
  exact ⟨_, (hstored.trans (.report w₁ [.impacted pass.impacted.size])).trans hscheduled⟩

/-- A write reports one status: whether its result was stored. -/
theorem told_write (h : b.Aloof) (config : Config) (q : QueryKey) (response : Response)
    (requestor : Option QueryKey) (u : Upkeep) (w : World σ) :
    ∃ damage, Told w (b.write config q response requestor u w).2
      [.operation b.backing .write
        (if (b.write config q response requestor u w).1.1.stored then .success else .error)]
      damage := by
  -- Absorbing ends no operation: the one status comes from what follows it.
  have hunended : Unended w (b.absorb response.data response.ids requestor w).2 :=
    ((h.absorb response.data response.ids requestor).tells w).mono fun _ hs => hs.1
  cases habsorb : b.absorb response.data response.ids requestor w with
  | mk answer w₁ =>
  simp only [habsorb] at hunended
  rcases Told.of_unended hunended with ⟨first, hfirst⟩
  cases answer with
  | error failed =>
      have hrun : b.write config q response requestor u w =
          ((.dropped, u), (w₁.report (failureSignals b.backing .entities .write failed)).report
            [.timed b.backing .write]) := by
        simp only [Backend.write, bindM_apply (m := (b.absorb _ _ _).outcome) habsorb]
        rfl
      simp only [hrun]
      exact ⟨_, hfirst.trans ((told_failure w₁ b.backing .entities .write failed).trans
        (.report _ [.timed b.backing .write]))⟩
  | ok pass =>
      rcases h.told_complete config q response.ttl pass u w₁ with ⟨second, hsecond⟩
      cases hcomplete : b.complete config q response.ttl pass u w₁ with
      | mk answer w₂ =>
      simp only [hcomplete] at hsecond
      have hrun : b.write config q response requestor u w =
          (answer, w₂.report [.timed b.backing .write]) := by
        simp only [Backend.write, bindM_apply (m := (b.absorb _ _ _).outcome) habsorb]
        exact (bindM_apply hcomplete).trans rfl
      simp only [hrun]
      exact ⟨_, hfirst.trans (hsecond.trans (.report _ [.timed b.backing .write]))⟩

theorem told_post (h : b.Aloof) (config : Config) (u : Upkeep) (e : Posting) (w : World σ) :
    ∃ damage, Told w (b.post config u e w).2
      [.operation b.backing .write
        (if (b.post config u e w).1.1.stored then .success else .error)] damage := by
  rcases h.told_write config e.query e.response e.requestor u (w.setTime e.time) with
    ⟨damage, hwritten⟩
  cases hwrite : b.write config e.query e.response e.requestor u (w.setTime e.time) with
  | mk answer w₁ =>
  simp only [hwrite] at hwritten
  have hreviewed := h.aside_review answer.2 config.maxEntries w₁
  cases hreview : answer.2.review b config.maxEntries w₁ with
  | mk u' w₂ =>
  simp only [hreview] at hreviewed
  simp only [post_eq hwrite hreview]
  exact ⟨_, hwritten.trans hreviewed⟩

end Backend.Aloof

/-! ## Operations of a cache -/

/-- How an operation of a cache with this store is accounted for: by the activities that it is to
report as ended, and by the damage. -/
inductive Account (store : Option StoreRef) (w : World Vault) :
    Operation → Outcome → Journal → Journal → Prop
  /-- Without a store nothing is reported. -/
  | unserved {o : Operation} (hstore : store = none) : Account store w o o.unserved [] []
  /-- The status of a write is whether its result was stored.  Entities that had to be started over
  are damage whether it was or not. -/
  | write {r : StoreRef} {e : Posting} {answer : WriteOutcome} {damage : Journal}
      (hstore : store = some r) :
      Account store w (.write e) (.written answer)
        [.operation r.backing .write (if answer.stored then .success else .error)] damage
  | read {r : StoreRef} {t : Time} {q : QueryKey} {result : Option CachedResult} {status : Status}
      {damage : Journal} (hstore : store = some r)
      (hread : r.backend.ReadAccount q (w.setTime t) result status damage) :
      Account store w (.read t q) (.shown result) [.operation r.backing .read status] damage
  /-- A policy that consults the cache comes to a read. -/
  | lookup {r : StoreRef} {t : Time} {q : QueryKey} {policy : FetchPolicy}
      {result : Option CachedResult} {status : Status} {damage : Journal} (hstore : store = some r)
      (hpolicy : policy ≠ .serverOnly)
      (hread : r.backend.ReadAccount q (w.setTime t) result status damage) :
      Account store w (.lookup t q policy) (.decided (policy.choose result))
        [.operation r.backing .read status] damage
  | passed {t : Time} {q : QueryKey} :
      Account store w (.lookup t q .serverOnly) (.decided (.fetch none)) [] []
  | stats {t : Time} {counts : Option Counts} : Account store w (.stats t) (.counted counts) [] []

/-- An operation through a backend reports what its account says. -/
theorem StoreRef.perform_accounted (r : StoreRef) (config : Config) (u : Upkeep) (o : Operation)
    (w : World Vault) : ∃ ended damage,
      Account (some r) w o (r.backend.perform config u o w).1.1 ended damage ∧
        Told w (r.backend.perform config u o w).2 ended damage := by
  have h := r.aloof
  cases o with
  | write e =>
      rcases h.told_post config u e w with ⟨damage, htold⟩
      cases hpost : r.backend.post config u e w with
      | mk answer w₁ =>
      simp only [hpost] at htold
      simp only [Backend.perform, bindM_apply hpost]
      exact ⟨_, damage, .write rfl, htold⟩
  | read t q =>
      rcases h.told_read q (w.setTime t) with ⟨status, damage, hread, htold⟩
      exact ⟨_, damage, .read rfl hread, htold⟩
  | lookup t q policy =>
      rcases h.told_read q (w.setTime t) with ⟨status, damage, hread, htold⟩
      -- A look-up that only the server may answer reads nothing, and so it ends nothing.
      cases policy with
      | serverOnly =>
          exact ⟨[], [], .passed, .of_journal_eq rfl⟩
      | preferCache =>
          exact ⟨_, damage, .lookup rfl (by decide) hread, htold⟩
      | cacheOnly =>
          exact ⟨_, damage, .lookup rfl (by decide) hread, htold⟩
  | stats t =>
      exact ⟨[], [], .stats, h.aside_countEntries (w.setTime t)⟩

/-- An operation of a cache reports what its account says, whatever is stored and whichever calls
fail. -/
theorem Cache.perform_accounted (c : Cache) (o : Operation) (w : World Vault) :
    ∃ ended damage, Account c.store? w o (c.perform o w).1.1 ended damage ∧
      Told w (c.perform o w).2 ended damage := by
  cases hstore : c.store? with
  | none =>
      simp only [perform_of_none hstore]
      exact ⟨[], [], .unserved rfl, .of_journal_eq rfl⟩
  | some r =>
      have haccount := r.perform_accounted c.config c.upkeep o w
      cases hrun : r.backend.perform c.config c.upkeep o w with
      | mk answer w' =>
      simp only [hrun] at haccount
      simp only [perform_apply hstore hrun]
      exact haccount

/-! ## Histories -/

/-- What a cache was asked for, with the store that it had and the worlds before and after. -/
structure Performed where
  store : Option StoreRef
  operation : Operation
  before : World Vault
  outcome : Outcome
  after : World Vault

namespace Performed

/-- What was reported meanwhile. -/
def signals (p : Performed) : Journal :=
  p.after.journal.drop p.before.journal.length

def ended (p : Performed) : Journal :=
  endings p.signals

def damage (p : Performed) : Journal :=
  damages p.signals

/-- What was reported is what the account says. -/
def Accounted (p : Performed) : Prop :=
  Account p.store p.before p.operation p.outcome p.ended p.damage

end Performed

/-- What a cache has been through: operations, and in between whatever reports neither the end of
an activity nor damage.  Stores may change or be damaged by hand, schedules be put before them, and
the cache be pointed at another store. -/
inductive History (c : Cache) (w : World Vault) :
    List Performed → Cache → World Vault → Prop
  | start : History c w [] c w
  | perform {c₁ : Cache} {w₁ : World Vault} {done : List Performed}
      (h : History c w done c₁ w₁) (o : Operation) :
      History c w
        (done ++ [⟨c₁.store?, o, w₁, (c₁.perform o w₁).1.1, (c₁.perform o w₁).2⟩])
        (c₁.perform o w₁).1.2 (c₁.perform o w₁).2
  | meanwhile {c₁ : Cache} {w₁ : World Vault} {done : List Performed}
      (h : History c w done c₁ w₁) (c₂ : Cache) {w₂ : World Vault} (haside : Aside w₁ w₂) :
      History c w done c₂ w₂

namespace Cache

/-- Opening a store reports attempts at most. -/
theorem aside_openFor (scope : Scope) (policy : Retry.Policy) :
    Within Aside (Vault.openFor scope policy) :=
  fun w => .of_tells _ rfl rfl ((Vault.aloof_openFor scope policy).tells w)

/-- A change of the scope ends no activity. -/
theorem aside_rescope (c : Cache) (inUse : StoreRef → Bool) (scope : Scope) :
    Within Aside (c.rescope inUse scope) := by
  simp only [rescope]
  split
  · exact .pureM Told.composes c
  · have hacquire : Within Aside (c.acquire inUse scope) := by
      simp only [acquire]
      split
      · exact .pure Told.composes _
      · exact aside_openFor scope _
    refine .bindM Told.composes hacquire fun answer => ?_
    refine .bindM Told.composes (fun w => ?_) fun _ => .pureM Told.composes _
    cases answer with
    | ok r =>
        exact .report w _
    | error _ =>
        exact .report w _

theorem aside_install (c : Cache) (inUse : StoreRef → Bool) (r : StoreRef) :
    Within Aside (c.install inUse r) :=
  .bindM Told.composes (fun w => .report w _) fun _ => .pureM Told.composes _

end Cache

/-- What is counted of a kind of signals is counted of those that were told. -/
theorem Told.count_ended {w w' : World σ} {ended damage : Journal} (h : Told w w' ended damage)
    {s : Signal} (hs : s.isEnding = true) :
    w'.journal.count s = w.journal.count s + ended.count s := by
  rcases h with ⟨signals, hjournal, rfl, -⟩
  rw [hjournal, List.count_append, endings, List.count_filter hs]

theorem Told.count_damage {w w' : World σ} {ended damage : Journal} (h : Told w w' ended damage)
    {s : Signal} (hs : s.isDamage = true) :
    w'.journal.count s = w.journal.count s + damage.count s := by
  rcases h with ⟨signals, hjournal, -, rfl⟩
  rw [hjournal, List.count_append, damages, List.count_filter hs]

/-- No operation ends more than once. -/
theorem Account.ended_cases {store : Option StoreRef} {w : World Vault} {o : Operation}
    {outcome : Outcome} {ended damage : Journal} (h : Account store w o outcome ended damage) :
    ended = [] ∨ ∃ s, ended = [s] := by
  cases h with
  | unserved _ | passed | stats =>
      exact Or.inl rfl
  | write _ | read _ _ | lookup _ _ _ =>
      exact Or.inr ⟨_, rfl⟩

/-- Every end is that of one operation. -/
theorem count_ended_of {done : List Performed} {s : Signal} (h : ∀ p ∈ done, p.Accounted) :
    (done.flatMap Performed.ended).count s = (done.map Performed.ended).count [s] := by
  induction done with
  | nil =>
      rfl
  | cons p rest ih =>
      rcases List.forall_mem_cons.mp h with ⟨hfirst, hrest⟩
      rw [List.flatMap_cons, List.count_append, ih hrest, List.map_cons, List.count_cons,
        Nat.add_comm]
      congr 1
      rcases hfirst.ended_cases with hnone | ⟨s', hone⟩
      · rw [hnone]
        rfl
      · rw [hone]
        simp only [List.count_singleton, beq_iff_eq, List.cons.injEq, and_true]

theorem History.accounted {c c' : Cache} {w w' : World Vault} {done : List Performed}
    (h : History c w done c' w') :
    (∀ p ∈ done, p.Accounted) ∧
      Told w w' (done.flatMap Performed.ended) (done.flatMap Performed.damage) := by
  -- Along the history: an operation adds its own account to what was told before it.
  induction h with
  | start =>
      exact ⟨fun _ hp => absurd hp List.not_mem_nil, .of_journal_eq rfl⟩
  | @perform c₁ w₁ done h o ih =>
      rcases ih with ⟨haccounted, htold⟩
      rcases c₁.perform_accounted o w₁ with ⟨ended, damage, haccount, hlast⟩
      rcases hlast.drop_eq with ⟨hended, hdamage⟩
      let p : Performed := ⟨c₁.store?, o, w₁, (c₁.perform o w₁).1.1, (c₁.perform o w₁).2⟩
      have hended : p.ended = ended := hended
      have hdamage : p.damage = damage := hdamage
      refine ⟨fun p' hp' => ?_, ?_⟩
      · rcases List.mem_append.mp hp' with hold | hnew
        · exact haccounted p' hold
        · rw [List.mem_singleton.mp hnew]
          show Account c₁.store? w₁ o _ p.ended p.damage
          rw [hended, hdamage]
          exact haccount
      · simp only [List.flatMap_append, List.flatMap_singleton]
        show Told _ _ (_ ++ p.ended) (_ ++ p.damage)
        rw [hended, hdamage]
        exact htold.trans hlast
  | meanwhile h c₂ haside ih =>
      rcases ih with ⟨haccounted, htold⟩
      refine ⟨haccounted, ?_⟩
      have hall := htold.trans haside
      simp only [List.append_nil] at hall
      exact hall

namespace Cache

/-- Each operation is accounted for.  Over the whole history the journal tells of those ends and
that damage and of no other, and so do the counters. -/
theorem history_accounted {c c' : Cache} {w w' : World Vault} {done : List Performed}
    (h : History c w done c' w') :
    (∀ p ∈ done, p.Accounted) ∧
    Told w w' (done.flatMap Performed.ended) (done.flatMap Performed.damage) ∧
    (∀ store activity status, (Metrics.of w'.journal).ended store activity status =
      (Metrics.of w.journal).ended store activity status +
        (done.map Performed.ended).count [.operation store activity status]) ∧
    ∀ store table, (Metrics.of w'.journal).damaged store table =
      (Metrics.of w.journal).damaged store table +
        (done.flatMap Performed.damage).count (.undecodable store table) := by
  rcases h.accounted with ⟨haccounted, htold⟩
  refine ⟨haccounted, htold, fun store activity status => ?_, fun store table => ?_⟩
  · rw [Metrics.ended_of, Metrics.ended_of, htold.count_ended rfl, count_ended_of haccounted]
  · rw [Metrics.damaged_of, Metrics.damaged_of, htold.count_damage rfl]

/-- The item in the file cannot be decoded any more, and a schedule lets the first call fail. -/
def spoiled (w : World Vault) : World Vault :=
  { w with
    store :=
      { w.store with
        files := w.store.files.insert 0
          ⟨{ w.store.tables 0 with entities := some (.ofList [("P1", "?".toUTF8)]) }, .written⟩
        schedules := .ofList [(2, .new fun n =>
          if n = 1 then some (.codec "list" (.told "injected failure")) else none)] } }

theorem aside_spoiled (w : World Vault) : Aside w (spoiled w) :=
  .of_journal_eq rfl

/-- A cache on the file behind the schedule. -/
def guardedCache : Cache :=
  { fileCache with target := .ready ⟨Scope.of .persistent "shop" none "local", .file 1, [2]⟩ }

/-- A list is written.  Later the look-up of its tree is refused, then its item cannot be decoded,
another query is missing, and at last there is no store. -/
theorem history_accounted_spoiled : ∃ done c' w', History fileCache newFileWorld done c' w' ∧
    done.map Performed.ended =
      [[.operation .persistent .write .success], [.operation .persistent .read .error],
        [.operation .persistent .read .error], [.operation .persistent .read .miss], []] ∧
    done.map Performed.damage =
      [[], [.undecodable .persistent .trees], [.undecodable .persistent .entities], [], []] ∧
    (∀ p ∈ done, p.Accounted) ∧
    (Metrics.of w'.journal).ended .persistent .read .error = 2 ∧
    (Metrics.of w'.journal).damaged .persistent .entities = 1 := by
  have hwritten := History.start (c := fileCache) (w := newFileWorld) |>.perform
    (.write listPosting)
  have hguarded := hwritten.meanwhile guardedCache (aside_spoiled _)
  have hread := ((hguarded.perform (.read 3 "list")).perform (.lookup 4 "list" .cacheOnly)).perform
    (.read 5 "other")
  have hunserved := (hread.meanwhile (Cache.new .default false) (.of_journal_eq rfl)).perform
    (.read 6 "list")
  have hrun : ∃ done c' w', History fileCache newFileWorld done c' w' ∧
      done.map Performed.ended =
        [[.operation .persistent .write .success], [.operation .persistent .read .error],
          [.operation .persistent .read .error], [.operation .persistent .read .miss], []] ∧
      done.map Performed.damage =
        [[], [.undecodable .persistent .trees], [.undecodable .persistent .entities], [], []] :=
    ⟨_, _, _, hunserved, by decide +kernel, by decide +kernel⟩
  rcases hrun with ⟨done, c', w', hhistory, hends, hmet⟩
  rcases history_accounted hhistory with ⟨haccounted, -, hended, hdamaged⟩
  refine ⟨done, c', w', hhistory, hends, hmet, haccounted, ?_, ?_⟩
  · rw [hended, hends]
    rfl
  · rw [hdamaged, List.flatMap_def, hmet]
    rfl

end Cache

end EntityCache
