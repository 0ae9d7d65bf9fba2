import EntityCache.Entry
import EntityCache.IdIndex

/-!
# What goes into a cache and comes out of it

* `Response`: a result as the server sent it, with its lifetime and the ids of its entities.
* `CachedResult`: a result as a cache shows it, with its freshness.
* `WriteOutcome`: what became of a write.
* `FetchPolicy`, `Decision`: how a query is to be served, and what follows from it.
-/

namespace EntityCache

/-- A result of the server. -/
structure Response where
  data : Value
  /-- The lifetime given by the server, if any. -/
  ttl : Option Span
  ids : IdIndex

namespace Response

/-- A result from its text, its lifetime in seconds and its metadata. -/
def ofText? (text : String) (seconds : Option Nat) (metadata : Value) :
    Except Json.Fault (Response × Journal) :=
  (Value.ofText? text).map (fun data =>
    let (ids, flaws) := IdIndex.ofMetadata metadata
    (⟨data, seconds.map .ofSeconds, ids⟩, flaws))

end Response

/-- A result shown from a cache. -/
structure CachedResult where
  query : QueryKey
  data : Value
  stale : Bool
  /-- Lifetime in milliseconds. -/
  ttl : Nat
  cachedAt : Time

/-- What became of a write. -/
structure WriteOutcome where
  /-- Whether the result itself was stored. -/
  stored : Bool
  /-- Other queries whose shown data may have changed. -/
  impacted : KeySet QueryKey

/-- A write without any effect. -/
def WriteOutcome.dropped : WriteOutcome :=
  ⟨false, .empty⟩

/-- How a query consults the cache before the server. -/
inductive FetchPolicy where
  /-- A fresh cached result is shown, else the server is asked. -/
  | preferCache
  /-- The server is never asked. -/
  | cacheOnly
  /-- The cache is not read. -/
  | serverOnly
  deriving DecidableEq

/-- How a query is to be served. -/
inductive Decision where
  | hit (result : CachedResult)
  /-- The server is to be asked; a cached result may be shown meanwhile. -/
  | fetch (meanwhile : Option CachedResult)
  | miss

/-- What a policy makes of a cached result, or of none. -/
def FetchPolicy.choose : FetchPolicy → Option CachedResult → Decision
  | .serverOnly, _ => .fetch none
  | .cacheOnly, some result => .hit result
  | .cacheOnly, none => .miss
  | .preferCache, some result => if result.stale then .fetch (some result) else .hit result
  | .preferCache, none => .fetch none

end EntityCache
