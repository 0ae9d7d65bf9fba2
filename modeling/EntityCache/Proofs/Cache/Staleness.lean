import EntityCache.Entry
import Mathlib.Algebra.Order.Ring.Int
import Mathlib.Data.Nat.Cast.Order.Ring

/-!
# Staleness at the limits

Times are clamped to 64 signed bits and lifetimes to 64 bits, and fractions of milliseconds are
dropped; none of this changes whether a cached result is stale:

* `saturate_mono`, `lt_saturate_iff`, `min_maxTtl_lt_iff`: what clamping keeps of the order of
  times.
* `Entry.isStaleAt_iff`: a lifetime that is longer than every time needs no clamping.
* `Entry.staleness_exact`: an entry is stale exactly if it is older than its lifetime, it stays
  stale, and it is as old as the unclamped times say.
-/

namespace EntityCache

/-! ## Spans -/

theorem Span.ofMillis_lt_ofMillis (m n : Nat) :
    (Span.ofMillis m).nanos < (Span.ofMillis n).nanos ↔ m < n :=
  Nat.mul_lt_mul_right (by decide)

/-! ## Clamped times -/

theorem saturate_mono {s t : Int} (h : s ≤ t) : saturate s ≤ saturate t :=
  max_le_max_left _ (min_le_min_left _ h)

theorem saturate_le (t : Int) : saturate t ≤ maxTime :=
  max_le (by decide) (min_le_left _ _)

/-- A time that is no later than the longest lifetime exceeds a lifetime exactly if it exceeds what
the lifetime is clamped to. -/
theorem min_maxTtl_lt_iff {t : Int} (ht : t ≤ maxTtl) (n : Nat) :
    ((min n maxTtl : Nat) : Int) < t ↔ (n : Int) < t := by
  rw [Nat.cast_min, min_lt_iff]
  exact ⟨fun h => h.resolve_right (not_lt.mpr ht), Or.inl⟩

/-- A time that is not too late exceeds what is no earlier than the earliest time by as much as it
does when it is clamped. -/
theorem lt_saturate_iff {n t : Int} (hn : minTime ≤ n) (ht : t ≤ maxTime) :
    n < saturate t ↔ n < t := by
  simp only [saturate, min_eq_right ht]
  exact ⟨fun h => (lt_max_iff.mp h).resolve_left (not_lt.mpr hn), fun h => lt_max_of_lt_right h⟩

namespace Entry

/-! ## Entries -/

variable (e : Entry)

/-- No time exceeds a lifetime beyond the latest one, clamped or not. -/
theorem isStaleAt_iff (now : Time) : e.isStaleAt now = true ↔ (e.ttl : Int) < e.elapsedAt now := by
  have hle : e.elapsedAt now ≤ maxTime := saturate_le _
  simp only [isStaleAt, decide_eq_true_eq, min_lt_iff]
  exact ⟨fun h => h.resolve_right (not_lt.mpr hle), Or.inl⟩

/-- A lifetime is exceeded by an age exactly if it is by the time since caching, which may be
negative. -/
theorem isStaleAt_iff_ageAt (now : Time) : e.isStaleAt now = true ↔ e.ttl < e.ageAt now := by
  rw [isStaleAt_iff, ageAt, Int.lt_toNat]

theorem isStaleAt_mono {now later : Time} (h : now ≤ later) :
    e.isStaleAt now = true → e.isStaleAt later = true := by
  intro hstale
  rw [isStaleAt_iff] at hstale ⊢
  have hlonger : e.elapsedAt now ≤ e.elapsedAt later :=
    saturate_mono (Int.sub_le_sub_right h e.cachedAt)
  exact lt_of_lt_of_le hstale hlonger

theorem not_isStaleAt_of_maxTime_le (h : maxTime ≤ (e.ttl : Int)) (now : Time) :
    e.isStaleAt now = false := by
  rw [← Bool.not_eq_true, isStaleAt_iff]
  exact not_lt.mpr ((saturate_le _).trans h)

/-- An entry that was cached no earlier than at time zero is stale exactly if more whole
milliseconds have passed than its lifetime has, however long that was before it was clamped. -/
theorem isStaleAt_iff_millis {d : Span} {now : Time} (httl : e.ttl = min d.millis maxTtl)
    (hcached : 0 ≤ e.cachedAt) (hnow : now ≤ maxTime) :
    e.isStaleAt now = true ↔ (d.millis : Int) < now - e.cachedAt := by
  have helapsed : now - e.cachedAt ≤ maxTime := (Int.sub_le_self now hcached).trans hnow
  have hlow : minTime ≤ (e.ttl : Int) := (by decide : minTime ≤ 0).trans (Int.natCast_nonneg _)
  -- No time since caching exceeds the longest lifetime.
  have hlong : now - e.cachedAt ≤ (maxTtl : Int) := helapsed.trans (by decide)
  rw [isStaleAt_iff, elapsedAt, lt_saturate_iff hlow helapsed, httl, min_maxTtl_lt_iff hlong]

/-- An entry is stale exactly if its age exceeds its lifetime, and it does not become fresh again.
If it was made with a lifetime `d` and cached no earlier than at time zero, then it is stale exactly
if the time that has passed, without any clamping, exceeds `d`, without any rounding; and never if
`d` is no shorter than the latest time. -/
theorem staleness_exact :
    (∀ (e : Entry) (now : Time), e.isStaleAt now = true ↔
      (Span.ofMillis e.ttl).nanos < (Span.ofMillis (e.ageAt now)).nanos) ∧
    (∀ (e : Entry) (now later : Time), now ≤ later →
      e.isStaleAt now = true → e.isStaleAt later = true) ∧
    ∀ (query : QueryKey) (data : String) (d : Span) (root : Option Skeleton)
      (made cachedAt now : Time),
      (0 ≤ cachedAt → now ≤ maxTime →
        ({ new query data d root made with cachedAt := cachedAt }.isStaleAt now = true ↔
          (d.nanos : Int) < (now - cachedAt) * 1000000)) ∧
      (maxTime * 1000000 ≤ (d.nanos : Int) →
        { new query data d root made with cachedAt := cachedAt }.isStaleAt now = false) := by
  refine ⟨fun e now => ?_, fun e now later => e.isStaleAt_mono, ?_⟩
  · rw [isStaleAt_iff_ageAt, Span.ofMillis_lt_ofMillis]
  intro query data d root made cachedAt now
  let e : Entry := { new query data d root made with cachedAt := cachedAt }
  refine ⟨fun hcached hnow => ?_, fun hlong => ?_⟩
  · have hstale : e.isStaleAt now = true ↔ (d.millis : Int) < now - cachedAt :=
      e.isStaleAt_iff_millis rfl hcached hnow
    rw [hstale, Span.millis, Int.natCast_ediv]
    exact Int.ediv_lt_iff_lt_mul (by decide)
  · have hmillis : maxTime ≤ (d.millis : Int) := by
      rw [Span.millis, Int.natCast_ediv]
      exact Int.le_ediv_of_mul_le (by decide) hlong
    have hmax : maxTime ≤ (maxTtl : Int) := by decide
    refine e.not_isStaleAt_of_maxTime_le ?_ now
    show maxTime ≤ ((min d.millis maxTtl : Nat) : Int)
    rw [Nat.cast_min]
    exact le_min hmillis hmax

/-- An entry cached at time zero is stale at the latest time if its lifetime is a nanosecond shorter
than that, and not if it is just as long. -/
theorem staleness_exact_latest :
    { new "q" "{}" ⟨9223372036854775806999999⟩ none 5 with cachedAt := 0 }.isStaleAt maxTime = true ∧
    { new "q" "{}" ⟨9223372036854775807000000⟩ none 5 with cachedAt := 0 }.isStaleAt maxTime =
      false := by
  obtain ⟨hshorter, -⟩ :=
    staleness_exact.2.2 "q" "{}" ⟨9223372036854775806999999⟩ none 5 0 maxTime
  obtain ⟨-, hequal⟩ :=
    staleness_exact.2.2 "q" "{}" ⟨9223372036854775807000000⟩ none 5 0 maxTime
  exact ⟨(hshorter (by decide) (by decide)).mpr (by decide), hequal (by decide)⟩

end Entry
end EntityCache
