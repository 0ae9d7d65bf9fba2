import EntityCache.Proofs.Republish.Bookkeeping

/-!
# No request is lost

A request for a query that waits already is coalesced, and a callback leaves the pending set before
it runs.

* `Queue.waits_or_started`: a request waits until its callback begins.
* `Queue.AtRest`: no callback can begin or end.  Then none waits.
* `Queue.remaining_run`: callbacks alone come to rest, after a number of steps that is known.
* `Queue.started_after_request`: after every request a callback begins.
-/

namespace EntityCache
namespace Republish

/-- An event that a callback takes part in. -/
def Event.OfCallback : Event → Prop
  | .schedule _ => False
  | .start _ => True
  | .finish _ _ => True

namespace Queue

variable {s t : Queue} {e : Event} {q : QueryKey} {j : Journal} {events : List Event} {c : Nat}

/-! ## What waits goes on waiting -/

theorem waiting_request (q' : QueryKey) (hq : q ∈ s.waiting) :
    q ∈ (s.request q').1.waiting := by
  by_cases hpending : s.pending.mem q' = true
  · rw [request_of_pending hpending]
    exact hq
  · rw [request_of_not_pending hpending]
    exact List.mem_append_left _ hq

/-- What is requested waits, whether the request was coalesced or not. -/
theorem waiting_requested (h : Balanced c s) (q : QueryKey) : q ∈ (s.request q).1.waiting := by
  by_cases hpending : s.pending.mem q = true
  · rw [request_of_pending hpending]
    exact (h.pending q).mp hpending
  · rw [request_of_not_pending hpending]
    exact List.mem_append_right _ (List.mem_singleton_self q)

theorem waiting_requestAll (h : Balanced c s) {queries : List QueryKey}
    (hq : q ∈ queries ∨ q ∈ s.waiting) : q ∈ (s.requestAll queries).1.waiting := by
  induction queries generalizing s with
  | nil =>
      rcases hq with hq | hq
      · exact absurd hq List.not_mem_nil
      · exact hq
  | cons q' rest ih =>
      refine ih (h.request q') ?_
      rcases hq with hq | hq
      · rcases List.mem_cons.mp hq with rfl | hq
        · exact .inr (waiting_requested h q)
        · exact .inl hq
      · exact .inr (waiting_request q' hq)

/-- One event leaves a waiting callback waiting, unless it is its beginning. -/
theorem waits_or_starts (h : Balanced c s) (hstep : s.step? e = some (t, j))
    (hq : q ∈ s.waiting) : q ∈ t.waiting ∨ e = .start q := by
  cases e with
  | schedule queries =>
      have ht : (s.requestAll queries.toList).1 = t :=
        congrArg Prod.fst (Option.some.inj hstep)
      exact .inl (ht ▸ waiting_requestAll h (.inr hq))
  | start q' =>
      rcases start?_eq_some.mp hstep with ⟨-, -, rfl, -⟩
      by_cases heq : q = q'
      · exact .inr (heq ▸ rfl)
      · exact .inl ((List.mem_erase_of_ne heq).mpr hq)
  | finish q' outcome =>
      rcases finish?_eq_some.mp hstep with ⟨-, rfl, -⟩
      exact .inl hq

theorem waits_or_started (h : Balanced c s) (hrun : s.run? events = some (t, j))
    (hq : q ∈ s.waiting) : q ∈ t.waiting ∨ .start q ∈ events := by
  induction events generalizing s j with
  | nil =>
      simp only [run?, Option.some.injEq, Prod.mk.injEq] at hrun
      exact .inl (hrun.1 ▸ hq)
  | cons e rest ih =>
      rcases run?_cons.mp hrun with ⟨s₁, first, later, hfirst, hrest, -⟩
      rcases waits_or_starts h hfirst hq with hq | rfl
      · rcases ih (h.step hfirst) hrest hq with hq | hstart
        · exact .inl hq
        · exact .inr (List.mem_cons_of_mem e hstart)
      · exact .inr List.mem_cons_self

/-! ## Coming to rest -/

/-- No callback can begin or end. -/
def AtRest (s : Queue) : Prop :=
  ∀ e, e.OfCallback → s.step? e = none

theorem AtRest.waiting_eq_nil (h : Balanced c s) (hrest : s.AtRest) : s.waiting = [] := by
  -- A running callback could end.
  have hidle : s.running = [] := by
    refine List.eq_nil_iff_forall_not_mem.mpr fun q hq => ?_
    have hfinish : s.step? (.finish q (.ok ())) = some _ := finish?_eq_some.mpr ⟨hq, rfl, rfl⟩
    exact absurd (hfinish.symm.trans (hrest (.finish q (.ok ())) trivial)) (Option.some_ne_none _)
  -- With no callback running there is room for another one.
  refine List.eq_nil_iff_forall_not_mem.mpr fun q hq => ?_
  have hroom : s.running.length < s.capacity := by
    rw [hidle, h.capacity, List.length_nil]
    exact Nat.lt_of_lt_of_le Nat.one_pos (Nat.le_max_right c 1)
  have hstart : s.step? (.start q) = some _ := start?_eq_some.mpr ⟨hroom, hq, rfl, rfl⟩
  exact absurd (hstart.symm.trans (hrest (.start q) trivial)) (Option.some_ne_none _)

/-- Every step of a callback is one of those that remained. -/
theorem remaining_step (hcallback : e.OfCallback) (hstep : s.step? e = some (t, j)) :
    t.remaining + 1 = s.remaining := by
  cases e with
  | schedule queries =>
      exact hcallback.elim
  | start q =>
      rcases start?_eq_some.mp hstep with ⟨-, hmem, rfl, -⟩
      have hlength := List.length_erase_of_mem hmem
      have hpos := List.length_pos_of_mem hmem
      simp only [remaining, hlength, List.length_append, List.length_singleton]
      omega
  | finish q outcome =>
      rcases finish?_eq_some.mp hstep with ⟨hmem, rfl, -⟩
      have hlength := List.length_erase_of_mem hmem
      have hpos := List.length_pos_of_mem hmem
      simp only [remaining, hlength]
      omega

theorem remaining_run (hcallbacks : ∀ e ∈ events, e.OfCallback)
    (hrun : s.run? events = some (t, j)) : t.remaining + events.length = s.remaining := by
  induction events generalizing s j with
  | nil =>
      simp only [run?, Option.some.injEq, Prod.mk.injEq] at hrun
      rw [hrun.1]
      rfl
  | cons e rest ih =>
      rcases run?_cons.mp hrun with ⟨s₁, first, later, hfirst, hrest, -⟩
      rcases List.forall_mem_cons.mp hcallbacks with ⟨he, hcallbacks⟩
      have hstep := remaining_step he hfirst
      have hlater := ih hcallbacks hrest
      rw [List.length_cons]
      omega

/-! ## Delivery -/

/-- A query that was requested is pending, with one callback that waits, or a callback for it has
begun since the request.  However the run goes on, a callback has begun since the request by the
time that no callback can go on; and callbacks alone go on for no more steps than remain. -/
theorem started_after_request {c : Nat} {before after : List Event} {queries : KeySet QueryKey}
    {q : QueryKey} {s : Queue} {j : Journal}
    (hrun : (new c).run? (before ++ .schedule queries :: after) = some (s, j))
    (hq : queries.mem q = true) :
    (s.pending.mem q = true ∧ s.waiting.count q = 1 ∨ .start q ∈ after) ∧
    ∀ more t j', s.run? more = some (t, j') →
      (t.AtRest → .start q ∈ after ++ more) ∧
      ((∀ e ∈ more, e.OfCallback) → t.remaining + more.length = s.remaining) := by
  rcases run?_append.mp hrun with ⟨s₁, _, _, hbefore, hafter, -⟩
  rcases run?_cons.mp hafter with ⟨s₂, first, later, hschedule, hafter, -⟩
  have h₁ := Balanced.run hbefore
  have h₂ := h₁.step hschedule
  have hs₂ : (s₁.requestAll queries.toList).1 = s₂ :=
    congrArg Prod.fst (Option.some.inj hschedule)
  have hwaits : q ∈ s₂.waiting :=
    hs₂ ▸ waiting_requestAll h₁ (.inl ((KeySet.mem_iff_mem_toList queries q).mp hq))
  refine ⟨?_, fun more t j' hmore => ⟨fun hrest => ?_, fun hcallbacks => ?_⟩⟩
  · have h := Balanced.run hrun
    rcases waits_or_started h₂ hafter hwaits with hwaits | hstart
    · exact .inl ⟨(h.pending q).mpr hwaits, by rw [h.once.count, if_pos hwaits]⟩
    · exact .inr hstart
  · have hwhole := run?_append.mpr ⟨s, _, _, hafter, hmore, rfl⟩
    have ht := run_induction (fun _ _ _ _ hs hstep => Balanced.step hs hstep) hwhole h₂
    rcases waits_or_started h₂ hwhole hwaits with hwaits | hstart
    · rw [hrest.waiting_eq_nil ht] at hwaits
      exact absurd hwaits List.not_mem_nil
    · exact hstart
  · exact remaining_run hcallbacks hmore

/-- The callbacks that are left after `requestedAgain`. -/
def leftOver : List Event :=
  [.finish "B" (.ok ()), .start "A", .finish "A" (.ok ())]

/-- The first query is requested again while its callback runs: it waits for another one, which has
begun when the callbacks come to rest. -/
theorem started_after_request_again :
    ∃ s j t j', (new 1).run? (requestedAgain.take 2 ++
        .schedule (KeySet.ofKeys ["A", "B"]) :: requestedAgain.drop 3) = some (s, j) ∧
      s.run? leftOver = some (t, j') ∧ t.waiting = [] ∧ t.running = [] ∧
      (s.pending.mem "A" = true ∧ s.waiting.count "A" = 1 ∨
        .start "A" ∈ requestedAgain.drop 3) ∧
      (t.AtRest → .start "A" ∈ requestedAgain.drop 3 ++ leftOver) ∧
      ((∀ e ∈ leftOver, e.OfCallback) → t.remaining + leftOver.length = s.remaining) := by
  have hsome : ((new 1).run? (requestedAgain.take 2 ++
      .schedule (KeySet.ofKeys ["A", "B"]) :: requestedAgain.drop 3)).isSome = true := by
    decide
  have hrun := (Option.some_get hsome).symm
  have hlater : ((((new 1).run? _).get hsome).1.run? leftOver).isSome = true := rfl
  have hmore := (Option.some_get hlater).symm
  have hmem : (KeySet.ofKeys ["A", "B"]).mem "A" = true := by
    decide
  have h := started_after_request hrun hmem
  exact ⟨_, _, _, _, hrun, hmore, rfl, rfl, h.1, h.2 leftOver _ _ hmore⟩

end Queue
end Republish
end EntityCache
