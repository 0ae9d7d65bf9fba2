import EntityCache.Retry

/-!
# Attempts and pauses

A run of attempts stops at the first success, or at the last attempt that is allowed:

* `Retry.Waited`: what a run has done between two attempts.
* `Retry.Ends`: how a run ends that starts with a given attempt; `Ends.stop`, `Ends.broken` and
  `Ends.again` for a single attempt, `ends_runFrom` for a whole run.
* `Ends.waited_iff`: the states between two attempts of a run.
* `Retry.run_attempts`: the number of calls, the outcome and the pauses of a run.
-/

namespace EntityCache
namespace Retry

variable {ε α : Type} {p : Policy} {call : Nat → Except ε α} {n last : Nat} {r : Run ε α}

/-- So many attempts have failed, and a pause was made after each of them; more attempts are
allowed. -/
inductive Waited (p : Policy) (call : Nat → Except ε α) : Nat → List Span → Prop
  | start : Waited p call 0 []
  | again {n : Nat} {pauses : List Span} {pause : Span} (before : Waited p call n pauses)
      (failed : (call (n + 1)).isOk = false) (more : n + 1 < max 1 p.attempts)
      (paused : p.pauseAfter? (n + 1) = some pause) : Waited p call (n + 1) (pauses ++ [pause])

/-- No attempt is counted beyond the last one that is allowed. -/
theorem Waited.lt {pauses : List Span} (h : Waited p call n pauses) : n < max 1 p.attempts := by
  cases h with
  | start =>
      exact Nat.lt_of_lt_of_le Nat.one_pos (Nat.le_max_left 1 p.attempts)
  | again before failed more paused =>
      exact more

/-! ## How a run ends -/

/-- The attempts from `n` on, where `last` is the last one that is allowed.  All but the last one of
them failed and were followed by a pause.  That one succeeded or no other was allowed, and gives the
outcome; or else the pause after it was no span of time, and there is no outcome. -/
structure Ends (p : Policy) (call : Nat → Except ε α) (n last : Nat) (r : Run ε α) : Prop where
  first_le : n ≤ r.calls
  le_last : r.calls ≤ last
  failed : ∀ i, n ≤ i → i < r.calls → (call i).isOk = false
  pauses : r.pauses.map some = (List.range' n (r.calls - n)).map p.pauseAfter?
  ended : (r.outcome = some (call r.calls) ∧ ((call r.calls).isOk = true ∨ r.calls = last)) ∨
    (r.outcome = none ∧ (call r.calls).isOk = false ∧ r.calls < last ∧
      p.pauseAfter? r.calls = none)

namespace Ends

/-- After a success, or where no other attempt is allowed, nothing more is done. -/
theorem stop (hle : n ≤ last) (hstop : (call n).isOk = true ∨ n = last) :
    Ends p call n last ⟨n, some (call n), []⟩ where
  first_le := Nat.le_refl n
  le_last := hle
  failed i hni hin := absurd hni (Nat.not_le.mpr hin)
  pauses := by
    simp only [Nat.sub_self, List.range'_zero, List.map_nil]
  ended := .inl ⟨rfl, hstop⟩

theorem broken (hlt : n < last) (hfailed : (call n).isOk = false)
    (hpause : p.pauseAfter? n = none) : Ends p call n last ⟨n, none, []⟩ where
  first_le := Nat.le_refl n
  le_last := Nat.le_of_lt hlt
  failed i hni hin := absurd hni (Nat.not_le.mpr hin)
  pauses := by
    simp only [Nat.sub_self, List.range'_zero, List.map_nil]
  ended := .inr ⟨rfl, hfailed, hlt, hpause⟩

/-- A failed attempt and its pause come before the other attempts. -/
theorem again {pause : Span} (h : Ends p call (n + 1) last r) (hfailed : (call n).isOk = false)
    (hpause : p.pauseAfter? n = some pause) :
    Ends p call n last { r with pauses := pause :: r.pauses } where
  first_le := Nat.le_of_succ_le h.first_le
  le_last := h.le_last
  failed i hni hi := by
    rcases Nat.eq_or_lt_of_le hni with rfl | hlt
    · exact hfailed
    · exact h.failed i hlt hi
  pauses := by
    have hcount : r.calls - n = r.calls - (n + 1) + 1 := by
      have := h.first_le
      omega
    calc
      (pause :: r.pauses).map some
          = p.pauseAfter? n :: (List.range' (n + 1) (r.calls - (n + 1))).map p.pauseAfter? := by
            rw [List.map_cons, h.pauses, hpause]
      _ = (List.range' n (r.calls - n)).map p.pauseAfter? := by
            rw [hcount, List.range'_succ, List.map_cons]
  ended := h.ended

/-- Each attempt but the last one is followed by its own pause. -/
theorem pause_of_lt (h : Ends p call n last r) {i : Nat} (hi : n + i < r.calls) :
    ∃ pause, r.pauses[i]? = some pause ∧ p.pauseAfter? (n + i) = some pause := by
  have hlt : i < r.calls - n := by omega
  have hget := congrArg (fun pauses => pauses[i]?) h.pauses
  simp only [List.getElem?_map, List.getElem?_range' hlt, Nat.one_mul, Option.map_some] at hget
  rcases Option.map_eq_some_iff.mp hget with ⟨pause, hpause, hsame⟩
  exact ⟨pause, hpause, hsame.symm⟩

/-- Between two attempts, as many as are counted have been made, and so have the pauses after
them. -/
theorem waited_iff (h : Ends p call 1 (max 1 p.attempts) r) (n : Nat) (pauses : List Span) :
    Waited p call n pauses ↔ n < r.calls ∧ pauses = r.pauses.take n := by
  constructor
  · intro hwaited
    induction hwaited with
    | start =>
        exact ⟨h.first_le, rfl⟩
    | @again n pauses pause before failed more paused ih =>
        rcases ih with ⟨hlt, rfl⟩
        -- The run goes on, as none of the reasons to end it is there.
        have hne : n + 1 ≠ r.calls := by
          rintro hsame
          rcases h.ended with ⟨-, hok | hlast⟩ | ⟨-, -, -, hnone⟩
          · rw [← hsame, failed] at hok
            cases hok
          · exact absurd (hsame.trans hlast) (Nat.ne_of_lt more)
          · rw [← hsame, paused] at hnone
            cases hnone
        have hmore : 1 + n < r.calls := by omega
        rcases h.pause_of_lt hmore with ⟨pause', hget, hpause'⟩
        rw [Nat.add_comm, paused] at hpause'
        cases hpause'
        refine ⟨by omega, ?_⟩
        rw [List.take_add_one, hget]
        rfl
  · rintro ⟨hlt, rfl⟩
    induction n with
    | zero =>
        exact .start
    | succ n ih =>
        have hmore : 1 + n < r.calls := by omega
        rcases h.pause_of_lt hmore with ⟨pause, hget, hpause⟩
        rw [Nat.add_comm] at hpause
        have hfailed := h.failed (n + 1) (Nat.succ_pos n) hlt
        rw [List.take_add_one, hget]
        exact .again (ih (Nat.lt_of_succ_lt hlt)) hfailed (Nat.lt_of_lt_of_le hlt h.le_last) hpause

/-- Where every pause is a span of time, the last attempt gives the outcome. -/
theorem outcome_eq (h : Ends p call n last r)
    (hpauses : ∀ i, n ≤ i → i < last → (p.pauseAfter? i).isSome = true) :
    r.outcome = some (call r.calls) ∧ ((call r.calls).isOk = true ∨ r.calls = last) := by
  refine h.ended.resolve_right ?_
  rintro ⟨-, -, hlt, hnone⟩
  have hsome := hpauses r.calls h.first_le hlt
  rw [hnone] at hsome
  cases hsome

/-- The first success ends a run if it is allowed. -/
theorem calls_eq_min (h : Ends p call n last r)
    (hstop : (call r.calls).isOk = true ∨ r.calls = last) {first : Nat} (hfirst : n ≤ first)
    (hok : (call first).isOk = true)
    (hbefore : ∀ i, n ≤ i → i < first → (call i).isOk = false) : r.calls = min first last := by
  have hle : r.calls ≤ first := by
    refine Nat.le_of_not_lt fun hlt => ?_
    have hfailed := h.failed first hfirst hlt
    rw [hok] at hfailed
    cases hfailed
  rcases hstop with hsuccess | hlast
  · have hge : first ≤ r.calls := by
      refine Nat.le_of_not_lt fun hlt => ?_
      rw [hbefore _ h.first_le hlt] at hsuccess
      cases hsuccess
    have hsame := Nat.le_antisymm hle hge
    rw [hsame, Nat.min_eq_left (hsame ▸ h.le_last)]
  · rw [hlast, Nat.min_eq_right (hlast ▸ hle)]

end Ends

/-! ## Runs -/

theorem ends_runFrom (p : Policy) (call : Nat → Except ε α) (left : Nat) :
    ∀ n, Ends p call n (n + left) (runFrom p call left n) := by
  induction left with
  | zero =>
      intro n
      exact .stop (Nat.le_refl n) (.inr rfl)
  | succ left ih =>
      intro n
      have hlt : n < n + (left + 1) := Nat.lt_add_of_pos_right (Nat.succ_pos left)
      simp only [runFrom]
      -- An attempt succeeds, fails for good, or fails with a pause before the next one.
      cases hcall : call n with
      | ok a =>
          have hstop : Ends p call n (n + (left + 1)) ⟨n, some (call n), []⟩ :=
            .stop (Nat.le_of_lt hlt) (.inl (by rw [hcall]; rfl))
          rw [hcall] at hstop
          exact hstop
      | error e =>
          have hfailed : (call n).isOk = false := by
            rw [hcall]
            rfl
          cases hpause : p.pauseAfter? n with
          | none =>
              exact .broken hlt hfailed hpause
          | some pause =>
              have hlater := ih (n + 1)
              rw [Nat.add_right_comm] at hlater
              exact hlater.again hfailed hpause

theorem ends_run (p : Policy) (call : Nat → Except ε α) :
    Ends p call 1 (max 1 p.attempts) (run p call) := by
  have hlast : 1 + (p.attempts - 1) = max 1 p.attempts := by omega
  rw [← hlast]
  exact ends_runFrom p call (p.attempts - 1) 1

/-- A run of attempts succeeds only through one that does. -/
theorem exists_of_run {a : α} (h : (run p call).outcome = some (.ok a)) : ∃ n, call n = .ok a := by
  rcases (ends_run p call).ended with ⟨houtcome, -⟩ | ⟨hnone, -⟩
  · exact ⟨_, Option.some.inj (houtcome.symm.trans h)⟩
  · cases hnone.symm.trans h

/-- A pause is never longer than the longest one. -/
theorem Policy.pauseAfter?_le {pause : Span} (h : p.pauseAfter? n = some pause) :
    pause.nanos ≤ p.longest.nanos := by
  rcases Option.map_eq_some_iff.mp h with ⟨d, -, rfl⟩
  exact Nat.min_le_right d.nanos p.longest.nanos

/-- Let every pause that may be needed be a span of time.  The calls stop with the first success or
with the last attempt that is allowed, at least one; the outcome is that of the last call.  There is
one pause fewer, the one after each failed attempt but the last, and none is too long.  Between two
attempts the counter and the pauses are those of the attempts so far, and a word that holds the
allowed number of attempts holds the next count, too. -/
theorem run_attempts (p : Policy) (call : Nat → Except ε α)
    (hpauses : ∀ n, 1 ≤ n → n < p.attempts → (p.pauseAfter? n).isSome = true) :
    (∀ first, 1 ≤ first → (call first).isOk = true →
      (∀ n, 1 ≤ n → n < first → (call n).isOk = false) →
        (run p call).calls = min first (max 1 p.attempts)) ∧
    ((∀ n, 1 ≤ n → (call n).isOk = false) → (run p call).calls = max 1 p.attempts) ∧
    (run p call).outcome = some (call (run p call).calls) ∧
    (run p call).pauses.map some =
      (List.range' 1 ((run p call).calls - 1)).map p.pauseAfter? ∧
    (∀ pause ∈ (run p call).pauses, pause.nanos ≤ p.longest.nanos) ∧
    (∀ n pauses, Waited p call n pauses ↔
      n < (run p call).calls ∧ pauses = (run p call).pauses.take n) ∧
    ∀ n pauses size, Waited p call n pauses → 1 < size → p.attempts < size → n + 1 < size := by
  have hends := ends_run p call
  have hspans : ∀ n, 1 ≤ n → n < max 1 p.attempts → (p.pauseAfter? n).isSome = true := by
    intro n hn hlt
    exact hpauses n hn (by omega)
  rcases hends.outcome_eq hspans with ⟨houtcome, hstop⟩
  refine ⟨?_, ?_, houtcome, hends.pauses, ?_, hends.waited_iff, ?_⟩
  · intro first hfirst hok hbefore
    exact hends.calls_eq_min hstop hfirst hok hbefore
  · intro hnone
    refine hstop.resolve_left fun hsuccess => ?_
    rw [hnone _ hends.first_le] at hsuccess
    cases hsuccess
  · intro pause hpause
    have hmem : some pause ∈ (run p call).pauses.map some := List.mem_map_of_mem hpause
    rw [hends.pauses] at hmem
    rcases List.mem_map.mp hmem with ⟨n, -, hn⟩
    exact Policy.pauseAfter?_le hn
  · intro n pauses size hwaited hsize hattempts
    have := hwaited.lt
    omega

/-- As many attempts as 64 bits can count, and otherwise as for opening a store. -/
def patient : Policy :=
  { Policy.storeOpen with attempts := 0xFFFFFFFFFFFFFFFF }

/-- Two failures before the first success. -/
def thirdTime (n : Nat) : Except Nat Nat :=
  if n < 3 then .error n else .ok n

/-- The growth stops, so only the first few pauses differ. -/
theorem isSome_pauseAfter?_patient (n : Nat) : (patient.pauseAfter? n).isSome = true := by
  have hall : ∀ k ≤ Policy.maxExponent,
      (spanOf? ((patient.factor.pow k).mul (seconds patient.initial))).isSome = true := by
    decide +kernel
  rw [Policy.pauseAfter?, Option.isSome_map]
  exact hall _ (Nat.min_le_right _ _)

/-- Three calls with two pauses, however many attempts are allowed; and a single call if none is. -/
theorem run_attempts_patient :
    ((run patient thirdTime).calls = 3 ∧ (run patient thirdTime).outcome = some (.ok 3) ∧
      (run patient thirdTime).pauses = [.ofMillis 50, .ofMillis 150]) ∧
    (run { patient with attempts := 0 } thirdTime).calls = 1 ∧
      (run { patient with attempts := 0 } thirdTime).outcome = some (.error 1) := by
  have hthird := run_attempts patient thirdTime fun n _ _ => isSome_pauseAfter?_patient n
  have hcalls : (run patient thirdTime).calls = 3 := by
    refine hthird.1 3 (by decide) (by decide) fun n _ hn => ?_
    rw [thirdTime, if_pos hn]
    rfl
  have hnone := run_attempts { patient with attempts := 0 } thirdTime
    fun n _ hn => absurd hn (Nat.not_lt_zero n)
  have hone : (run { patient with attempts := 0 } thirdTime).calls = 1 :=
    hnone.1 3 (by decide) (by decide) fun n _ hn => by rw [thirdTime, if_pos hn]; rfl
  refine ⟨⟨hcalls, ?_, ?_⟩, hone, ?_⟩
  · rw [hthird.2.2.1, hcalls]
    rfl
  · have hpauses := hthird.2.2.2.1
    have hvalues : [patient.pauseAfter? 1, patient.pauseAfter? 2] =
        [.ofMillis 50, .ofMillis 150].map some := by
      decide +kernel
    rw [hcalls] at hpauses
    exact (List.map_inj_right fun _ _ => Option.some.inj).mp (hpauses.trans hvalues)
  · rw [hnone.2.2.1, hone]
    rfl

end Retry
end EntityCache
