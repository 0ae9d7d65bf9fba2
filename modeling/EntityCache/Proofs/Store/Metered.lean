import EntityCache.Proofs.Cache.Operations
import EntityCache.Proofs.Store.Aloof
import EntityCache.Proofs.Store.Within

/-!
# Asking a store for its size

* `Sample`: what a store answers when it is asked for its numbers of entries.
* `Backend.metered`: a log of these answers, which changes nothing else (`metered_mirrors`).
* `Backend.write_apply`: a write counts itself once its records are saved, whatever the limit;
  by `sameLog_write` it asks for no numbers.
* `Upkeep.review_due`, `Upkeep.review_undue`: what a look at the size comes to; by `samples_review`
  it asks for the numbers once if it is due, and `review_sampled` says what it makes of the answer.
-/

namespace EntityCache

variable {σ : Type}

/-- What a store answers when it is asked for its numbers of entries. -/
abbrev Sample : Type := Except StoreError Counts

/-- Whether the numbers are there and come to more than `limit`. -/
def exceeds (limit : Nat) : Sample → Bool
  | .ok n => decide (limit < n.trees + n.entities)
  | .error _ => false

/-- The numbers as current levels. -/
def levelSignals (store : Backing) : Sample → Journal
  | .ok n => [.entries store n.trees n.entities]
  | .error _ => []

/-- What is known of the size after samples were taken. -/
def Sizing.seen (limit : Nat) (samples : List Sample) (s : Sizing) : Sizing :=
  { s with due := false, warned := s.warned || samples.any (exceeds limit) }

theorem Sizing.seen_nil {s : Sizing} (hdue : s.due = false) (limit : Nat) :
    s.seen limit [] = s := by
  simp only [seen, List.any_nil, Bool.or_false]
  rw [← hdue]

/-- What was reported from one world to another. -/
def signalsSince (w w' : World σ) : Journal :=
  w'.journal.drop w.journal.length

/-- What reports only mild signals warns of nothing. -/
theorem Tells.count_oversize {w w' : World σ} (h : Tells Signal.IsMild w w') :
    (signalsSince w w').count (.notice .oversize) = 0 := by
  rcases h with ⟨signals, hjournal, hmild⟩
  rw [signalsSince, hjournal, List.drop_left]
  exact List.count_eq_zero.mpr fun hmem => hmild _ hmem rfl

/-- The world with an empty log beside its stores. -/
def World.metered (w : World σ) : World (σ × List Sample) :=
  w.withStore (w.store, [])

namespace Backend

/-- The backend with a log of what it answers when it is asked for its numbers. -/
def metered (b : Backend σ) : Backend (σ × List Sample) :=
  { b.zoom Prod.fst (fun t s => (s, t.2)) with
    counts := do
      let r ← .attempt (b.counts.zoom Prod.fst (fun t s => (s, t.2)))
      .update (fun w => { w with store := (w.store.1, w.store.2 ++ [r]) })
      .ofExcept r }

variable {b : Backend σ}

/-- But for its log the metered backend does what the backend does. -/
theorem metered_mirrors (b : Backend σ) : b.metered.Mirrors Prod.fst b :=
  have hput : ∀ (t : σ × List Sample) (s : σ), (s, t.2).1 = s := fun _ _ => rfl
  { b.zoom_mirrors hput with counts := fun _ => ⟨rfl, rfl⟩ }

/-! ## Writes -/

/-- The log stays as it is. -/
def SameLog (w w' : World (σ × List Sample)) : Prop :=
  w'.store.2 = w.store.2

theorem frame_sameLog : Frame (SameLog (σ := σ)) where
  refl _ := rfl
  trans h h' := h'.trans h
  aside h _ := congrArg Prod.snd h

/-- A write asks for no numbers, and no other call looks at the log. -/
theorem sameLog_write (b : Backend σ) (config : Config) (q : QueryKey) (response : Response)
    (requestor : Option QueryKey) (u : Upkeep) :
    EntityCache.Within SameLog (b.metered.write config q response requestor u) := by
  have hR := frame_sameLog (σ := σ)
  have hC := hR.toComposes
  have hsave : ∀ h, EntityCache.Within SameLog (b.metered.save h) := fun _ _ => rfl
  have habsorb : EntityCache.Within SameLog
      (b.metered.absorb response.data response.ids requestor) := by
    refine .of_tidy (.holding hR (.bind hC (fun _ => rfl) fun index => ?_))
    refine .bind hC (.splitOver hR _ _ index requestor) fun pass => ?_
    refine .bind hC ((Act.closed_within hC).each hsave _) fun _ => ?_
    exact .bind hC (fun _ => rfl) fun _ => .pure hC pass
  have hset : ∀ q e, EntityCache.Within SameLog (b.metered.setTree q e) := fun _ _ _ => rfl
  exact (closed_within hC fun _ _ => rfl).write hset habsorb config q u

/-- Once the records are saved, a write counts itself.  Its answer depends neither on what was
counted before nor on the limit. -/
theorem write_apply (b : Backend σ) (config : Config) (q : QueryKey) (response : Response)
    (requestor : Option QueryKey) (queue : Option Republish.Queue) (w : World σ) :
    ∃ answer queue' w', ∀ limit sizing,
      b.write { config with maxEntries := limit } q response requestor ⟨sizing, queue⟩ w =
        ((answer, ⟨if (b.absorb response.data response.ids requestor w).1.isOk
          then sizing.count else sizing, queue'⟩), w') := by
  cases habsorb : b.absorb response.data response.ids requestor w with
  | mk r w₁ =>
  cases r with
  | error failed =>
      refine ⟨.dropped, queue,
        (w₁.report (failureSignals b.backing .entities .write failed)).report
          [.timed b.backing .write], fun limit sizing => ?_⟩
      simp only [write, bindM_apply (m := (b.absorb _ _ _).outcome) habsorb]
      rfl
  | ok pass =>
      cases hstore : b.storeTree q pass.root (response.ttl.getD config.defaultSpan) w₁ with
      | mk stored w₂ =>
      -- The queue takes the requests, and what is counted stays.
      have hschedule : ∃ queue' w₃, ∀ sizing,
          (Upkeep.mk sizing queue).schedule pass.impacted
            (w₂.report [.impacted pass.impacted.size]) = (⟨sizing, queue'⟩, w₃) := by
        cases queue with
        | none =>
            exact ⟨_, _, fun _ => rfl⟩
        | some queue =>
            exact ⟨_, _, fun _ => rfl⟩
      rcases hschedule with ⟨queue', w₃, hschedule⟩
      refine ⟨⟨stored, pass.impacted⟩, queue', w₃.report [.timed b.backing .write],
        fun limit sizing => ?_⟩
      have hcomplete : b.complete { config with maxEntries := limit } q response.ttl pass
          ⟨sizing, queue⟩ w₁ = ((⟨stored, pass.impacted⟩, ⟨sizing.count, queue'⟩), w₃) := by
        simp only [complete]
        refine (bindM_apply hstore).trans ?_
        simp only [bindM_apply (note_apply _ _), bindM_apply (hschedule sizing)]
        rfl
      simp only [write, bindM_apply (m := (b.absorb _ _ _).outcome) habsorb]
      exact (bindM_apply hcomplete).trans rfl

end Backend

/-! ## Looks at the size -/

namespace Upkeep

variable {b : Backend σ} {u : Upkeep}

theorem review_undue (hdue : u.sizing.due = false) (b : Backend σ) (limit : Nat) (w : World σ) :
    u.review b limit w = (u, w) := by
  simp only [review, Sizing.review, hdue, Bool.false_eq_true, if_false]
  rfl

/-- The store is asked once.  Too large a store is reported unless that was done before. -/
theorem review_due (hdue : u.sizing.due = true) {w w' : World σ} {r : Sample}
    (hcounts : b.counts w = (r, w')) (limit : Nat) :
    u.review b limit w =
      ({ u with sizing := { u.sizing with
          due := false
          warned := u.sizing.warned || exceeds limit r } },
        w'.report (levelSignals b.backing r ++
          if exceeds limit r && !u.sizing.warned then [.notice .oversize] else [])) := by
  have hlevels : b.levels w = (r, w'.report (levelSignals b.backing r)) := by
    simp only [Backend.levels, bindM_apply (m := b.counts.outcome) hcounts]
    cases r with
    | error e =>
        simp only [levelSignals, World.report_nil]
        rfl
    | ok n =>
        rfl
  have hsizing : u.sizing.review b limit w =
      ({ u.sizing with due := false, warned := u.sizing.warned || exceeds limit r },
        w'.report (levelSignals b.backing r ++
          if exceeds limit r && !u.sizing.warned then [.notice .oversize] else [])) := by
    simp only [Sizing.review, hdue, if_true, bindM_apply hlevels]
    cases r with
    | error e =>
        simp only [exceeds, Bool.or_false, Bool.false_and, Bool.false_eq_true, if_false,
          List.append_nil]
        rfl
    | ok n =>
        have hlarge : decide (limit < n.trees + n.entities) = exceeds limit (.ok n) := rfl
        simp only [hlarge]
        -- A warning is given unless there was one before.
        cases u.sizing.warned with
        | true =>
            simp only [Bool.not_true, Bool.and_false, Bool.true_or, Bool.false_eq_true, if_false,
              List.append_nil]
            rfl
        | false =>
            cases exceeds limit (.ok n) with
            | true =>
                simp only [← World.report_report]
                rfl
            | false =>
                simp only [Bool.false_and, Bool.false_or, Bool.false_eq_true, if_false,
                  List.append_nil]
                rfl
  simp only [review, bindM_apply hsizing]
  rfl

/-- A look at the size asks for the numbers once if it is due. -/
theorem samples_review (b : Backend σ) (u : Upkeep) (limit : Nat) (w : World σ) :
    (u.review b.metered limit w.metered).2.store.2 =
      if u.sizing.due then [(b.counts w).1] else [] := by
  cases hdue : u.sizing.due with
  | true =>
      have hcounts : b.metered.counts w.metered = ((b.counts w).1,
          (b.counts w).2.withStore ((b.counts w).2.store, [(b.counts w).1])) := rfl
      rw [review_due hdue hcounts]
      rfl
  | false =>
      rw [review_undue hdue]
      rfl

/-- A look at the size in terms of the samples that it takes. -/
theorem review_sampled (hb : b.Aloof) (u : Upkeep) (limit : Nat) (w : World σ) : ∃ samples w',
    (u.review b.metered limit w.metered).2.store.2 = samples ∧
    samples.length = (if u.sizing.due then 1 else 0) ∧
    u.review b limit w = ({ u with sizing := u.sizing.seen limit samples }, w') ∧
    (signalsSince w w').count (.notice .oversize) =
      (if samples.any (exceeds limit) && !u.sizing.warned then 1 else 0) := by
  refine ⟨_, (u.review b limit w).2, samples_review b u limit w, ?_⟩
  cases hdue : u.sizing.due with
  | false =>
      refine ⟨rfl, ?_, ?_⟩
      · simp only [review_undue hdue, Bool.false_eq_true, if_false, Sizing.seen_nil hdue]
      · rw [review_undue hdue, signalsSince, List.drop_length]
        rfl
  | true =>
      have hsilent := (hb.counts.tells w).journal_eq
      cases hcounts : b.counts w with
      | mk r w₁ =>
      simp only [hcounts] at hsilent
      -- The levels are reported as they are, and only a second signal may warn of them.
      have hlevels : (levelSignals b.backing r).count (.notice .oversize) = 0 := by
        cases r with
        | error e =>
            rfl
        | ok n =>
            rfl
      refine ⟨rfl, ?_, ?_⟩
      · rw [review_due hdue hcounts]
        simp only [Sizing.seen, if_true, List.any_cons, List.any_nil, Bool.or_false]
      · rw [review_due hdue hcounts, signalsSince]
        simp only [World.report, hsilent, List.drop_left, List.count_append, hlevels, if_true,
          List.any_cons, List.any_nil, Bool.or_false, Nat.zero_add]
        split <;> rfl

end Upkeep
end EntityCache
