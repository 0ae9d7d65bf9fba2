import EntityCache.Data.Dict
import EntityCache.Scope

/-!
# Signals

Everything that a cache reports beside its answers, in the order in which it happens:

* `Signal`: a count, a measurement, a level or a message.
* `Notice`: the messages, with their level and wording.
* `Metrics.of`: the totals of a journal under their metric names.
* `notices`: the messages of a journal.
-/

namespace EntityCache

/-- What a caller does with a cached result. -/
inductive Activity where
  | read
  | write
  deriving DecidableEq

/-- How an activity ended. -/
inductive Status where
  | hit
  | stale
  | miss
  | success
  | error
  deriving DecidableEq

/-- The stored forms that can be damaged. -/
inductive Table where
  | trees
  | entities
  deriving DecidableEq

/-- Oddities of a result that are counted. -/
inductive Anomaly where
  /-- A path was given a second, different id. -/
  | duplicatePath
  /-- The root of a result is no object. -/
  | rootNotObject
  deriving DecidableEq

/-- What became of a request to re-publish a query. -/
inductive Delivery where
  | coalesced
  | success
  | error
  deriving DecidableEq

/-- A message. -/
inductive Notice where
  | metadataNotList
  | entryWithoutPath
  | idsNotText
  | duplicatePath
  | recordMissing
  | entityStartedOver
  | retrying
  | treeUndecodable
  | operationFailed
  | statsFailed
  | oversize
  | republishFailed
  | openFailed
  deriving DecidableEq

/-- One report. -/
inductive Signal where
  /-- An activity ended. -/
  | operation (store : Backing) (activity : Activity) (status : Status)
  /-- The time of an activity was measured. -/
  | timed (store : Backing) (activity : Activity)
  /-- How many other queries a write impacted. -/
  | impacted (count : Nat)
  /-- How many records a pass touched. -/
  | touched (count : Nat)
  | republish (delivery : Delivery)
  | anomaly (kind : Anomaly)
  /-- Stored data could not be decoded. -/
  | undecodable (store : Backing) (table : Table)
  | openFailure (backing : Backing)
  | rescoped (store : Backing)
  /-- The current numbers of trees and entities. -/
  | entries (store : Backing) (trees entities : Nat)
  /-- The current number of running callbacks. -/
  | inflight (count : Nat)
  | notice (message : Notice)
  deriving DecidableEq

/-- Signals, the oldest first. -/
abbrev Journal : Type := List Signal

/-! ## Wording -/

def Activity.label : Activity → String
  | .read => "read"
  | .write => "write"

def Status.label : Status → String
  | .hit => "hit"
  | .stale => "stale"
  | .miss => "miss"
  | .success => "success"
  | .error => "error"

def Table.label : Table → String
  | .trees => "result_tree"
  | .entities => "entity_data"

def Anomaly.label : Anomaly → String
  | .duplicatePath => "duplicate_path_id"
  | .rootNotObject => "non_object_root"

def Delivery.label : Delivery → String
  | .coalesced => "coalesced"
  | .success => "success"
  | .error => "error"

namespace Notice

def level : Notice → String
  | .openFailed => "ERROR"
  | _ => "WARN"

def wording : Notice → String
  | .metadataNotList => "Entity path metadata is not a list, ignoring"
  | .entryWithoutPath => "Skipping entity path record without a valid path"
  | .idsNotText => "Skipping entityIds with non-string elements"
  | .duplicatePath => "Duplicate entity id for path, keeping latest"
  | .recordMissing => "Entity record missing during hydration"
  | .entityStartedOver => "Undecodable entity blob, starting entity over"
  | .retrying => "Operation failed, retrying"
  | .treeUndecodable => "Cached result tree undecodable, treating as miss"
  | .operationFailed => "Cache operation failed, treating as miss"
  | .statsFailed => "Failed to read cache stats"
  | .oversize => "Cache exceeds advisory size, nothing is evicted"
  | .republishFailed => "Re-publish of impacted query failed"
  | .openFailed => "Cache provider failed to open, cache disabled for this identity"

def text (n : Notice) : String :=
  n.level ++ " " ++ n.wording

end Notice

/-- The messages of a journal. -/
def notices (j : Journal) : List Notice :=
  j.filterMap (fun s => match s with
    | .notice n => some n
    | _ => none)

/-! ## Metrics -/

/-- A metric name with its labels, which are given in order. -/
def metricKey (name : String) (labels : List (String × String)) : String :=
  match labels with
  | [] => name
  | _ => name ++ "\x7b" ++ ",".intercalate (labels.map (fun l => l.1 ++ "=" ++ l.2)) ++ "\x7d"

/-- Totals under metric names. -/
structure Metrics where
  /-- Numbers of occurrences. -/
  counters : Dict String Nat
  /-- Latest levels. -/
  gauges : Dict String Nat
  /-- Measured values, the oldest first. -/
  samples : Dict String (List Nat)
  /-- Numbers of measured times. -/
  timings : Dict String Nat

namespace Metrics

def empty : Metrics :=
  ⟨.empty, .empty, .empty, .empty⟩

def count (m : Metrics) (name : String) (labels : List (String × String)) : Metrics :=
  let key := metricKey name labels
  { m with counters := m.counters.insert key ((m.counters.get? key).getD 0 + 1) }

def setLevel (m : Metrics) (name : String) (labels : List (String × String)) (n : Nat) : Metrics :=
  { m with gauges := m.gauges.insert (metricKey name labels) n }

def sample (m : Metrics) (name : String) (n : Nat) : Metrics :=
  { m with samples := m.samples.insert name ((m.samples.get? name).getD [] ++ [n]) }

def time (m : Metrics) (name : String) (labels : List (String × String)) : Metrics :=
  let key := metricKey name labels
  { m with timings := m.timings.insert key ((m.timings.get? key).getD 0 + 1) }

/-- The totals after one more signal. -/
def add (m : Metrics) : Signal → Metrics
  | .operation store activity status =>
      m.count "query_cache_operations_total"
        [("operation", activity.label), ("provider", store.storeName), ("status", status.label)]
  | .timed store activity =>
      m.time "query_cache_operation_seconds"
        [("operation", activity.label), ("provider", store.storeName)]
  | .impacted count =>
      m.sample "query_cache_impacted_queries" count
  | .touched count =>
      m.sample "query_cache_entities_touched" count
  | .republish delivery =>
      m.count "query_cache_republish_total" [("status", delivery.label)]
  | .anomaly kind =>
      m.count "query_cache_anomalies_total" [("kind", kind.label)]
  | .undecodable store table =>
      m.count "query_cache_codec_errors_total"
        [("provider", store.storeName), ("table", table.label)]
  | .openFailure backing =>
      m.count "query_cache_provider_init_failures_total" [("provider", backing.label)]
  | .rescoped store =>
      m.count "query_cache_rescopes_total" [("provider", store.storeName)]
  | .entries store trees entities =>
      (m.setLevel "query_cache_result_trees" [("provider", store.storeName)] trees).setLevel
        "query_cache_entities" [("provider", store.storeName)] entities
  | .inflight count =>
      m.setLevel "query_cache_republish_inflight" [] count
  | .notice _ =>
      m

/-- The totals of a journal. -/
def of (j : Journal) : Metrics :=
  j.foldl add empty

end Metrics
end EntityCache
