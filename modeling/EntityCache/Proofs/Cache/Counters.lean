import EntityCache.Proofs.Republish.Bookkeeping
import EntityCache.Proofs.Store.Signals
import Mathlib.Data.List.Nodup

/-!
# Counters of activities, of damage and of anomalies

* `Metrics.counted`: how often something was counted under a name with labels.
* `Metrics.ended`, `Metrics.damaged`, `Metrics.anomalies`: how often an activity has ended in some
  way, how often stored data could not be decoded, and how often an oddity was found, as the
  counters have it.
* `Metrics.ended_of`, `Metrics.damaged_of`, `Metrics.anomalies_of`: the counters of a journal count
  its signals.
-/

namespace EntityCache
namespace Metrics

/-- How often something was counted. -/
def counted (m : Metrics) (name : String) (labels : List (String × String)) : Nat :=
  (m.counters.get? (metricKey name labels)).getD 0

theorem counted_count (m : Metrics) (name name' : String)
    (labels labels' : List (String × String)) :
    (m.count name labels).counted name' labels' = m.counted name' labels' +
      if metricKey name' labels' = metricKey name labels then 1 else 0 := by
  simp only [counted, count, Dict.get?_insert]
  split
  · next hkey =>
      rw [hkey, Option.getD_some]
  · rfl

/-- Names of counters differ within their first letters after the common prefix. -/
theorem counted_count_other (m : Metrics) {name name' : String}
    (labels labels' : List (String × String)) (hn : 15 ≤ name.toList.length)
    (hn' : 15 ≤ name'.toList.length) (h : name'.toList.take 15 ≠ name.toList.take 15) :
    (m.count name labels).counted name' labels' = m.counted name' labels' := by
  rw [counted_count, if_neg (metricKey_ne 15 hn' hn h)]
  rfl

/-- A counter that moves exactly with one signal counts it. -/
theorem of_eq_count {f : Metrics → Nat} {s : Signal} (hempty : f empty = 0)
    (hadd : ∀ m s', f (m.add s') = f m + if s' = s then 1 else 0) (j : Journal) :
    f (Metrics.of j) = j.count s := by
  have hall : ∀ m, f (j.foldl add m) = f m + j.count s := by
    induction j with
    | nil =>
        intro m
        rfl
    | cons s' rest ih =>
        intro m
        simp only [List.foldl_cons, ih, hadd, List.count_cons, beq_iff_eq]
        omega
  rw [Metrics.of, hall, hempty, Nat.zero_add]

/-! ## Activities -/

/-- The labels of an activity that has ended. -/
def endedLabels (store : Backing) (activity : Activity) (status : Status) :
    List (String × String) :=
  [("operation", activity.label), ("provider", store.storeName), ("status", status.label)]

/-- How often an activity has ended in this way. -/
def ended (m : Metrics) (store : Backing) (activity : Activity) (status : Status) : Nat :=
  m.counted "query_cache_operations_total" (endedLabels store activity status)

/-- All ends of activities. -/
def allEnds : List (Backing × Activity × Status) :=
  [Backing.memory, .persistent].flatMap fun store => [Activity.read, .write].flatMap fun activity =>
    [Status.hit, .stale, .miss, .success, .error].map fun status => (store, activity, status)

theorem mem_allEnds (e : Backing × Activity × Status) : e ∈ allEnds := by
  rcases e with ⟨store, activity, status⟩
  cases store <;> cases activity <;> cases status <;> decide

/-- Each end of an activity has a counter of its own. -/
theorem endedKey_eq_iff {store store' : Backing} {activity activity' : Activity}
    {status status' : Status} :
    metricKey "query_cache_operations_total" (endedLabels store activity status) =
        metricKey "query_cache_operations_total" (endedLabels store' activity' status') ↔
      Signal.operation store' activity' status' = .operation store activity status := by
  let key (e : Backing × Activity × Status) : String :=
    metricKey "query_cache_operations_total" (endedLabels e.1 e.2.1 e.2.2)
  have hnodup : (allEnds.map key).Nodup := by decide +kernel
  constructor
  · intro hkey
    have hsame : (store, activity, status) = (store', activity', status') :=
      List.inj_on_of_nodup_map hnodup (mem_allEnds _) (mem_allEnds _) hkey
    cases hsame
    rfl
  · rintro ⟨⟩
    rfl

theorem ended_add (m : Metrics) (s : Signal) (store : Backing) (activity : Activity)
    (status : Status) : (m.add s).ended store activity status =
      m.ended store activity status + if s = .operation store activity status then 1 else 0 := by
  cases s with
  | operation store' activity' status' =>
      have hcount := counted_count m "query_cache_operations_total" "query_cache_operations_total"
        (endedLabels store' activity' status') (endedLabels store activity status)
      simp only [endedKey_eq_iff] at hcount
      exact hcount
  | republish _ | anomaly _ | undecodable _ _ | openFailure _ | rescoped _ =>
      exact counted_count_other m _ _ (by decide) (by decide) (by decide)
  -- The other signals leave all counters alone.
  | timed _ _ | impacted _ | touched _ | entries _ _ _ | inflight _ | notice _ =>
      rfl

theorem ended_of (j : Journal) (store : Backing) (activity : Activity) (status : Status) :
    (Metrics.of j).ended store activity status = j.count (.operation store activity status) :=
  of_eq_count (f := fun m => m.ended store activity status) rfl
    (fun m s => ended_add m s store activity status) j

/-! ## Damage -/

def damagedLabels (store : Backing) (table : Table) : List (String × String) :=
  [("provider", store.storeName), ("table", table.label)]

/-- How often stored data could not be decoded. -/
def damaged (m : Metrics) (store : Backing) (table : Table) : Nat :=
  m.counted "query_cache_codec_errors_total" (damagedLabels store table)

theorem damagedKey_eq_iff {store store' : Backing} {table table' : Table} :
    metricKey "query_cache_codec_errors_total" (damagedLabels store table) =
        metricKey "query_cache_codec_errors_total" (damagedLabels store' table') ↔
      Signal.undecodable store' table' = .undecodable store table := by
  cases store <;> cases store' <;> cases table <;> cases table' <;> decide

theorem damaged_add (m : Metrics) (s : Signal) (store : Backing) (table : Table) :
    (m.add s).damaged store table =
      m.damaged store table + if s = .undecodable store table then 1 else 0 := by
  cases s with
  | undecodable store' table' =>
      have hcount := counted_count m "query_cache_codec_errors_total"
        "query_cache_codec_errors_total" (damagedLabels store' table') (damagedLabels store table)
      simp only [damagedKey_eq_iff] at hcount
      exact hcount
  | operation _ _ _ | republish _ | anomaly _ | openFailure _ | rescoped _ =>
      exact counted_count_other m _ _ (by decide) (by decide) (by decide)
  | timed _ _ | impacted _ | touched _ | entries _ _ _ | inflight _ | notice _ =>
      rfl

theorem damaged_of (j : Journal) (store : Backing) (table : Table) :
    (Metrics.of j).damaged store table = j.count (.undecodable store table) :=
  of_eq_count (f := fun m => m.damaged store table) rfl
    (fun m s => damaged_add m s store table) j

/-! ## Anomalies -/

/-- How often an oddity was found. -/
def anomalies (m : Metrics) (kind : Anomaly) : Nat :=
  m.counted "query_cache_anomalies_total" [("kind", kind.label)]

theorem anomaliesKey_eq_iff {kind kind' : Anomaly} :
    metricKey "query_cache_anomalies_total" [("kind", kind.label)] =
        metricKey "query_cache_anomalies_total" [("kind", kind'.label)] ↔
      Signal.anomaly kind' = .anomaly kind := by
  cases kind <;> cases kind' <;> decide

theorem anomalies_add (m : Metrics) (s : Signal) (kind : Anomaly) :
    (m.add s).anomalies kind = m.anomalies kind + if s = .anomaly kind then 1 else 0 := by
  cases s with
  | anomaly kind' =>
      have hcount := counted_count m "query_cache_anomalies_total" "query_cache_anomalies_total"
        [("kind", kind'.label)] [("kind", kind.label)]
      simp only [anomaliesKey_eq_iff] at hcount
      exact hcount
  | operation _ _ _ | republish _ | undecodable _ _ | openFailure _ | rescoped _ =>
      exact counted_count_other m _ _ (by decide) (by decide) (by decide)
  | timed _ _ | impacted _ | touched _ | entries _ _ _ | inflight _ | notice _ =>
      rfl

theorem anomalies_of (j : Journal) (kind : Anomaly) :
    (Metrics.of j).anomalies kind = j.count (.anomaly kind) :=
  of_eq_count (f := fun m => m.anomalies kind) rfl (fun m s => anomalies_add m s kind) j

end Metrics
end EntityCache
