import EntityCache.Republish
import EntityCache.Proofs.Data.Bindings

/-!
# The books of a re-publish queue

Requests are made, callbacks begin and callbacks end in any order.

* `Event`, `Queue.run?`: what happens to a queue, one event after the other.
* `Queue.Balanced`: what holds of every queue that events lead to.  The counter is the number of
  running callbacks, and the pending set is the list of the waiting ones.
* `Metrics.deliveries_of`: the counters of a journal count its signals.
* `Queue.books_balance`: every id that was requested is coalesced, pending, in flight or ended.
-/

namespace EntityCache

/-! ## Counters -/

namespace Metrics

/-- How many requests ended in the way `d`, as the counters have it. -/
def deliveries (m : Metrics) (d : Delivery) : Nat :=
  (m.counters.get? (metricKey "query_cache_republish_total" [("status", d.label)])).getD 0

/-- A metric key begins like its name, whatever the labels are. -/
theorem take_metricKey (name : String) (labels : List (String × String)) {n : Nat}
    (hn : n ≤ name.toList.length) :
    (metricKey name labels).toList.take n = name.toList.take n := by
  cases labels with
  | nil =>
      rfl
  | cons l rest =>
      simp only [metricKey, String.toList_append, List.append_assoc]
      exact List.take_append_of_le_length hn

/-- Counters whose names differ early on are kept apart. -/
theorem metricKey_ne {name name' : String} {labels labels' : List (String × String)} (n : Nat)
    (hn : n ≤ name.toList.length) (hn' : n ≤ name'.toList.length)
    (h : name.toList.take n ≠ name'.toList.take n) :
    metricKey name labels ≠ metricKey name' labels' := by
  intro heq
  refine h ?_
  rw [← take_metricKey name labels hn, heq, take_metricKey name' labels' hn']

theorem deliveries_count_other (m : Metrics) {name : String} (labels : List (String × String))
    (d : Delivery) (hn : 15 ≤ name.toList.length)
    (h : name.toList.take 15 ≠ "query_cache_republish_total".toList.take 15) :
    (m.count name labels).deliveries d = m.deliveries d := by
  have hne : metricKey "query_cache_republish_total" [("status", d.label)] ≠
      metricKey name labels :=
    metricKey_ne 15 (by decide) hn (Ne.symm h)
  simp only [deliveries, count, Dict.get?_insert, if_neg hne]

theorem deliveries_count (m : Metrics) (d d' : Delivery) :
    (m.count "query_cache_republish_total" [("status", d'.label)]).deliveries d =
      m.deliveries d + if d' = d then 1 else 0 := by
  by_cases h : d' = d
  · subst h
    simp only [deliveries, count, Dict.get?_insert_self, Option.getD_some, if_true]
  · have hne : metricKey "query_cache_republish_total" [("status", d.label)] ≠
        metricKey "query_cache_republish_total" [("status", d'.label)] := by
      revert h
      cases d <;> cases d' <;> decide
    simp only [deliveries, count, Dict.get?_insert, if_neg hne, if_neg h, Nat.add_zero]

/-- One signal moves the counter of `d` only if it reports an end of that kind. -/
theorem deliveries_add (m : Metrics) (signal : Signal) (d : Delivery) :
    (m.add signal).deliveries d =
      m.deliveries d + if signal = .republish d then 1 else 0 := by
  cases signal with
  | republish d' =>
      simp only [add, deliveries_count, Signal.republish.injEq]
  | operation store activity status =>
      exact deliveries_count_other m _ d (by decide) (by decide)
  | anomaly kind =>
      exact deliveries_count_other m _ d (by decide) (by decide)
  | undecodable store table =>
      exact deliveries_count_other m _ d (by decide) (by decide)
  | openFailure backing =>
      exact deliveries_count_other m _ d (by decide) (by decide)
  | rescoped store =>
      exact deliveries_count_other m _ d (by decide) (by decide)
  -- The other signals leave all counters alone.
  | timed store activity =>
      rfl
  | impacted count =>
      rfl
  | touched count =>
      rfl
  | entries store trees entities =>
      rfl
  | inflight count =>
      rfl
  | notice message =>
      rfl

theorem deliveries_of (j : Journal) (d : Delivery) :
    (Metrics.of j).deliveries d = j.count (.republish d) := by
  have hall : ∀ m : Metrics,
      (j.foldl add m).deliveries d = m.deliveries d + j.count (.republish d) := by
    induction j with
    | nil =>
        intro m
        rfl
    | cons signal rest ih =>
        intro m
        simp only [List.foldl_cons, ih, deliveries_add, List.count_cons, beq_iff_eq]
        omega
  have hempty : Metrics.empty.deliveries d = 0 := rfl
  simp only [Metrics.of, hall, hempty, Nat.zero_add]

end Metrics

namespace Republish

/-! ## Runs -/

/-- Something that happens to a queue. -/
inductive Event where
  /-- Callbacks are requested. -/
  | schedule (queries : KeySet QueryKey)
  /-- A waiting callback begins. -/
  | start (q : QueryKey)
  /-- A running callback ends. -/
  | finish (q : QueryKey) (outcome : Except DeliveryError Unit)

/-- How many ids an event requests. -/
def Event.requested : Event → Nat
  | .schedule queries => queries.size
  | .start _ => 0
  | .finish _ _ => 0

/-- How many ids are requested altogether. -/
def Event.requestedIn : List Event → Nat
  | [] => 0
  | e :: rest => e.requested + requestedIn rest

namespace Queue

variable {s s' t : Queue} {e : Event} {q : QueryKey} {j j' : Journal} {events : List Event}
  {c : Nat}

/-- The queue after an event, with what is reported, if the event can happen. -/
def step? (s : Queue) : Event → Option (Queue × Journal)
  | .schedule queries => some (s.schedule queries)
  | .start q => s.start? q
  | .finish q outcome => s.finish? q outcome

/-- The queue after events, with all that is reported, if they can happen in this order. -/
def run? (s : Queue) : List Event → Option (Queue × Journal)
  | [] => some (s, [])
  | e :: rest =>
      (s.step? e).bind fun next => (next.1.run? rest).map fun last =>
        (last.1, next.2 ++ last.2)

theorem run?_cons :
    s.run? (e :: events) = some (t, j) ↔ ∃ s₁ first later,
      s.step? e = some (s₁, first) ∧ s₁.run? events = some (t, later) ∧ j = first ++ later := by
  simp only [run?, Option.bind_eq_some_iff, Option.map_eq_some_iff, Prod.mk.injEq, Prod.exists]
  constructor
  · rintro ⟨s₁, first, hstep, t, later, hrun, rfl, rfl⟩
    exact ⟨s₁, first, later, hstep, hrun, rfl⟩
  · rintro ⟨s₁, first, later, hstep, hrun, rfl⟩
    exact ⟨s₁, first, hstep, t, later, hrun, rfl, rfl⟩

theorem run?_append {more : List Event} :
    s.run? (events ++ more) = some (t, j) ↔ ∃ s₁ first later,
      s.run? events = some (s₁, first) ∧ s₁.run? more = some (t, later) ∧ j = first ++ later := by
  induction events generalizing s j with
  | nil =>
      simp only [List.nil_append, run?, Option.some.injEq, Prod.mk.injEq]
      constructor
      · intro hrun
        exact ⟨s, [], j, ⟨rfl, rfl⟩, hrun, rfl⟩
      · rintro ⟨_, _, later, ⟨rfl, rfl⟩, hrun, rfl⟩
        exact hrun
  | cons e rest ih =>
      simp only [List.cons_append, run?_cons, ih]
      constructor
      · rintro ⟨s₁, first, _, hstep, ⟨s₂, mid, later, hrest, hmore, rfl⟩, rfl⟩
        exact ⟨s₂, first ++ mid, later, ⟨s₁, first, mid, hstep, hrest, rfl⟩, hmore,
          (List.append_assoc first mid later).symm⟩
      · rintro ⟨s₂, _, later, ⟨s₁, first, mid, hstep, hrest, rfl⟩, hmore, rfl⟩
        exact ⟨s₁, first, mid ++ later, hstep, ⟨s₂, mid, later, hrest, hmore, rfl⟩,
          List.append_assoc first mid later⟩

/-- What every event that can happen preserves holds after every run. -/
theorem run_induction {P : Queue → Prop}
    (hstep : ∀ s e s' j, P s → s.step? e = some (s', j) → P s')
    (hrun : s.run? events = some (t, j)) (hs : P s) : P t := by
  induction events generalizing s j with
  | nil =>
      simp only [run?, Option.some.injEq, Prod.mk.injEq] at hrun
      exact hrun.1 ▸ hs
  | cons e rest ih =>
      rcases run?_cons.mp hrun with ⟨s₁, first, later, hfirst, hrest, -⟩
      exact ih hrest (hstep s e s₁ first hs hfirst)

/-! ## What one event does -/

theorem request_of_pending (hq : s.pending.mem q = true) :
    s.request q = (s, [.republish .coalesced]) :=
  if_pos hq

theorem request_of_not_pending (hq : ¬ s.pending.mem q = true) :
    s.request q =
      ({ s with pending := s.pending.add q, waiting := s.waiting ++ [q] }, []) :=
  if_neg hq

theorem start?_eq_some : s.start? q = some (t, j) ↔
    s.running.length < s.capacity ∧ q ∈ s.waiting ∧
      t = { s with
        pending := s.pending.erase q
        waiting := s.waiting.erase q
        running := s.running ++ [q]
        inflight := s.inflight + 1 } ∧
      j = [.inflight (s.inflight + 1)] := by
  simp only [start?, hasRoom, Bool.and_eq_true, decide_eq_true_eq, List.contains_iff_mem]
  split
  next h =>
    simp only [Option.some.injEq, Prod.mk.injEq, h, true_and, eq_comm]
  next h =>
    simp only [reduceCtorEq, false_iff]
    rintro ⟨hroom, hmem, -⟩
    exact h ⟨hroom, hmem⟩

theorem finish?_eq_some {outcome : Except DeliveryError Unit} :
    s.finish? q outcome = some (t, j) ↔ q ∈ s.running ∧
      t = { s with running := s.running.erase q, inflight := s.inflight - 1 } ∧
      j = outcomeSignals outcome ++ [.inflight (s.inflight - 1)] := by
  simp only [finish?, List.contains_iff_mem]
  split
  next h =>
    simp only [Option.some.injEq, Prod.mk.injEq, h, true_and, eq_comm]
  next h =>
    simp only [reduceCtorEq, false_iff]
    rintro ⟨hmem, -⟩
    exact h hmem

/-- What one request preserves a whole list of requests preserves. -/
theorem requestAll_induction {P : Queue → Prop} (hrequest : ∀ s q, P s → P (s.request q).1)
    (queries : List QueryKey) (hs : P s) : P (s.requestAll queries).1 := by
  induction queries generalizing s with
  | nil =>
      exact hs
  | cons q rest ih =>
      exact ih (hrequest s q hs)

/-! ## The invariant -/

/-- The parts of a queue that may run `c` callbacks at once agree. -/
structure Balanced (c : Nat) (s : Queue) : Prop where
  capacity : s.capacity = max c 1
  inflight : s.inflight = s.running.length
  bounded : s.running.length ≤ s.capacity
  once : s.waiting.Nodup
  pending : ∀ q, s.pending.mem q = true ↔ q ∈ s.waiting

theorem Balanced.new (c : Nat) : Balanced c (new c) where
  capacity := rfl
  inflight := rfl
  bounded := Nat.zero_le _
  once := List.nodup_nil
  pending q := by
    simp [Queue.new]

theorem Balanced.request (h : Balanced c s) (q : QueryKey) : Balanced c (s.request q).1 := by
  by_cases hq : s.pending.mem q = true
  · rw [request_of_pending hq]
    exact h
  · have hnew : q ∉ s.waiting := mt (h.pending q).mpr hq
    rw [request_of_not_pending hq]
    refine ⟨h.capacity, h.inflight, h.bounded, ?_, ?_⟩
    · exact (List.perm_append_singleton q s.waiting).nodup_iff.mpr
        (List.nodup_cons.mpr ⟨hnew, h.once⟩)
    · intro q'
      simp only [KeySet.mem_add, Bool.or_eq_true, decide_eq_true_eq, h.pending, List.mem_append,
        List.mem_singleton, or_comm]

theorem Balanced.start (h : Balanced c s) (hstart : s.start? q = some (t, j)) :
    Balanced c t := by
  rcases start?_eq_some.mp hstart with ⟨hroom, hmem, rfl, -⟩
  refine ⟨h.capacity, ?_, ?_, h.once.erase q, ?_⟩
  · simp only [h.inflight, List.length_append, List.length_singleton]
  · simp only [List.length_append, List.length_singleton]
    exact hroom
  · -- The id waits once, so that it waits no longer.
    intro q'
    simp only [KeySet.mem_erase, Bool.and_eq_true, decide_eq_true_eq, h.pending,
      h.once.mem_erase_iff]

theorem Balanced.finish (h : Balanced c s) {outcome : Except DeliveryError Unit}
    (hfinish : s.finish? q outcome = some (t, j)) : Balanced c t := by
  rcases finish?_eq_some.mp hfinish with ⟨hmem, rfl, -⟩
  have hlength := List.length_erase_of_mem hmem
  refine ⟨h.capacity, ?_, ?_, h.once, h.pending⟩
  · simp only [h.inflight, hlength]
  · simp only [hlength]
    exact Nat.le_trans (Nat.sub_le _ 1) h.bounded

theorem Balanced.step (h : Balanced c s) (hstep : s.step? e = some (t, j)) : Balanced c t := by
  cases e with
  | schedule queries =>
      have ht : t = (s.requestAll queries.toList).1 :=
        (congrArg Prod.fst (Option.some.inj hstep)).symm
      rw [ht]
      exact requestAll_induction (fun s q hs => hs.request q) queries.toList h
  | start q =>
      exact h.start hstep
  | finish q outcome =>
      exact h.finish hstep

theorem Balanced.run (hrun : (Queue.new c).run? events = some (t, j)) : Balanced c t :=
  run_induction (fun _ _ _ _ hs hstep => hs.step hstep) hrun (Balanced.new c)

/-- The pending set has one id for each waiting callback. -/
theorem Balanced.size_pending (h : Balanced c s) : s.pending.size = s.waiting.length := by
  have hperm : s.pending.toList.Perm s.waiting :=
    (List.perm_ext_iff_of_nodup (KeySet.nodup_toList s.pending) h.once).mpr fun q => by
      rw [← KeySet.mem_iff_mem_toList, h.pending]
  rw [← hperm.length_eq]
  exact (List.length_map _).symm

/-! ## The balance -/

/-- How many requests a journal reports as ended. -/
def ended (j : Journal) : Nat :=
  j.count (.republish .coalesced) + j.count (.republish .success) + j.count (.republish .error)

@[simp] theorem ended_append (j j' : Journal) : ended (j ++ j') = ended j + ended j' := by
  simp only [ended, List.count_append]
  omega

/-- How many callbacks a queue has at hand. -/
def atHand (s : Queue) : Nat :=
  s.waiting.length + s.running.length

theorem atHand_request (s : Queue) (q : QueryKey) :
    s.atHand + 1 = ended (s.request q).2 + (s.request q).1.atHand := by
  by_cases hq : s.pending.mem q = true
  · rw [request_of_pending hq]
    exact Nat.add_comm _ 1
  · rw [request_of_not_pending hq]
    have hnone : ended [] = 0 := rfl
    simp only [atHand, List.length_append, List.length_singleton, hnone]
    omega

theorem atHand_requestAll (s : Queue) (queries : List QueryKey) :
    s.atHand + queries.length =
      ended (s.requestAll queries).2 + (s.requestAll queries).1.atHand := by
  induction queries generalizing s with
  | nil =>
      have hnone : ended [] = 0 := rfl
      simp only [requestAll, List.length_nil, hnone, Nat.zero_add, Nat.add_zero]
  | cons q rest ih =>
      have hone := atHand_request s q
      have hrest := ih (s.request q).1
      simp only [requestAll, List.length_cons, ended_append]
      omega

theorem atHand_start (hstart : s.start? q = some (t, j)) : s.atHand = ended j + t.atHand := by
  rcases start?_eq_some.mp hstart with ⟨-, hmem, rfl, rfl⟩
  have hlength := List.length_erase_of_mem hmem
  have hpos := List.length_pos_of_mem hmem
  have hnone : ended [.inflight (s.inflight + 1)] = 0 := rfl
  simp only [atHand, hlength, List.length_append, List.length_singleton, hnone]
  omega

theorem ended_outcomeSignals (outcome : Except DeliveryError Unit) :
    ended (outcomeSignals outcome) = 1 := by
  cases outcome <;> rfl

theorem atHand_finish {outcome : Except DeliveryError Unit}
    (hfinish : s.finish? q outcome = some (t, j)) : s.atHand = ended j + t.atHand := by
  rcases finish?_eq_some.mp hfinish with ⟨hmem, rfl, rfl⟩
  have hlength := List.length_erase_of_mem hmem
  have hpos := List.length_pos_of_mem hmem
  have hnone : ended [.inflight (s.inflight - 1)] = 0 := rfl
  simp only [atHand, hlength, ended_append, ended_outcomeSignals, hnone]
  omega

/-- One event neither loses a request nor invents one. -/
theorem atHand_step (hstep : s.step? e = some (t, j)) :
    s.atHand + e.requested = ended j + t.atHand := by
  cases e with
  | schedule queries =>
      have hsize : queries.size = queries.toList.length := (List.length_map _).symm
      have hall := atHand_requestAll s queries.toList
      simp only [step?, schedule, Option.some.injEq] at hstep
      simp only [Event.requested, hsize, hall, hstep]
  | start q =>
      exact atHand_start hstep
  | finish q outcome =>
      exact atHand_finish hstep

theorem atHand_run (hrun : s.run? events = some (t, j)) :
    s.atHand + Event.requestedIn events = ended j + t.atHand := by
  induction events generalizing s j with
  | nil =>
      simp only [run?, Option.some.injEq, Prod.mk.injEq] at hrun
      rcases hrun with ⟨rfl, rfl⟩
      have hnone : ended [] = 0 := rfl
      simp only [Event.requestedIn, hnone, Nat.zero_add, Nat.add_zero]
  | cons e rest ih =>
      rcases run?_cons.mp hrun with ⟨s₁, first, later, hfirst, hrest, rfl⟩
      have hstep := atHand_step hfirst
      have hlater := ih hrest
      simp only [Event.requestedIn, ended_append]
      omega

/-- After any requests, beginnings and ends of callbacks, at most `max 1 c` of which may run at
once: the counter is the number of running callbacks, the pending set is the set of the waiting
ones, every id that was requested is accounted for, and no end takes the counter below zero. -/
theorem books_balance {c : Nat} {events : List Event} {s : Queue} {j : Journal}
    (hrun : (new c).run? events = some (s, j)) :
    s.running.length = s.inflight ∧ s.inflight ≤ max 1 c ∧
    (∀ q, s.pending.mem q = true ↔ q ∈ s.waiting) ∧ s.waiting.Nodup ∧
    Event.requestedIn events =
      (Metrics.of j).deliveries .coalesced + s.pending.size + s.inflight +
        (Metrics.of j).deliveries .success + (Metrics.of j).deliveries .error ∧
    (∀ q outcome s' j', s.finish? q outcome = some (s', j') → s'.inflight + 1 = s.inflight) ∧
    (s.waiting = [] → s.running = [] → s.pending.size = 0 ∧ s.inflight = 0) := by
  have h := Balanced.run hrun
  have hcapacity := h.capacity
  have hinflight := h.inflight
  have hbounded := h.bounded
  have hsize := h.size_pending
  refine ⟨hinflight.symm, by omega, h.pending, h.once, ?_, ?_, ?_⟩
  · have hsum := atHand_run hrun
    have hnew : (new c).atHand = 0 := rfl
    rw [hnew, ended, atHand] at hsum
    simp only [Metrics.deliveries_of, hsize, hinflight]
    omega
  · intro q outcome s' j' hfinish
    rcases finish?_eq_some.mp hfinish with ⟨hmem, rfl, -⟩
    have hpos := List.length_pos_of_mem hmem
    simp only
    omega
  · intro hwaiting hrunning
    simp only [hsize, hinflight, hwaiting, hrunning, List.length_nil, and_self]

/-- Both queries are requested again while the callback for the first one runs.  It fails, and the
other callback begins. -/
def requestedAgain : List Event :=
  [.schedule (KeySet.ofKeys ["A", "B"]), .start "A", .schedule (KeySet.ofKeys ["A", "B"]),
    .finish "A" (.error (.failed "gone")), .start "B"]

theorem books_balance_requestedAgain :
    ∃ s j, (new 1).run? requestedAgain = some (s, j) ∧ s.waiting = ["A"] ∧ s.running = ["B"] ∧
      Event.requestedIn requestedAgain =
        (Metrics.of j).deliveries .coalesced + s.pending.size + s.inflight +
          (Metrics.of j).deliveries .success + (Metrics.of j).deliveries .error := by
  have hsome : ((new 1).run? requestedAgain).isSome = true := by decide
  have hrun : (new 1).run? requestedAgain = some (_, _) := (Option.some_get hsome).symm
  exact ⟨_, _, hrun, rfl, rfl, (books_balance hrun).2.2.2.2.1⟩

end Queue
end Republish
end EntityCache
