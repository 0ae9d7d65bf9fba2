import EntityCache.Skeleton

/-!
# Cached results

* `Entry`: the stored skeleton of a query's latest result with its freshness.
* `Entry.isStaleAt`, `Entry.ageAt`: freshness at a given time.  Times are milliseconds in 64 signed
  bits, lifetimes milliseconds in 64 bits; both saturate.
* `Entry.backdate`: the entry as if it were older.
* `Entry.root?`: the skeleton itself.
* `Entry.text`, `Entry.read`: the stored form, which does not hold the parsed root.

Staleness is advice: nothing is dropped because of it.
-/

namespace EntityCache

open Json (Symbols Scan Fault)

/-- Milliseconds since the epoch. -/
abbrev Time : Type := Int

/-- The latest time, `2 ^ 63 - 1`. -/
def maxTime : Int :=
  9223372036854775807

/-- The earliest time, `- 2 ^ 63`. -/
def minTime : Int :=
  -9223372036854775808

/-- The nearest representable time. -/
def saturate (t : Int) : Time :=
  max minTime (min maxTime t)

/-- The longest lifetime in milliseconds, `2 ^ 64 - 1`. -/
def maxTtl : Nat :=
  18446744073709551615

/-- A span of time in nanoseconds. -/
structure Span where
  nanos : Nat
  deriving DecidableEq

namespace Span

def ofSeconds (n : Nat) : Span :=
  ⟨n * 1000000000⟩

def ofMillis (n : Nat) : Span :=
  ⟨n * 1000000⟩

/-- Whole milliseconds. -/
def millis (d : Span) : Nat :=
  d.nanos / 1000000

/-- Milliseconds, where one that has begun counts as a whole one. -/
def startedMillis (d : Span) : Nat :=
  (d.nanos + 999999) / 1000000

end Span

/-- A cached result. -/
structure Entry where
  query : QueryKey
  /-- The skeleton as text. -/
  data : String
  /-- Lifetime in milliseconds. -/
  ttl : Nat
  cachedAt : Time
  lastAccessed : Time
  /-- The skeleton itself, as long as the entry stays in memory. -/
  root : Option Skeleton

namespace Entry

/-- An entry cached at time `now`. -/
def new (query : QueryKey) (data : String) (ttl : Span) (root : Option Skeleton) (now : Time) :
    Entry :=
  ⟨query, data, min ttl.millis maxTtl, now, now, root⟩

/-- The time since caching, which may be negative. -/
def elapsedAt (e : Entry) (now : Time) : Time :=
  saturate (now - e.cachedAt)

/-- The age in milliseconds, never negative. -/
def ageAt (e : Entry) (now : Time) : Nat :=
  (e.elapsedAt now).toNat

/-- Whether more time than the lifetime has passed. -/
def isStaleAt (e : Entry) (now : Time) : Bool :=
  decide (min (e.ttl : Int) maxTime < e.elapsedAt now)

def touch (e : Entry) (now : Time) : Entry :=
  { e with lastAccessed := now }

/-- The entry as if it had been cached so many milliseconds earlier. -/
def backdate (e : Entry) (millis : Int) : Entry :=
  { e with cachedAt := saturate (e.cachedAt - millis) }

/-- The skeleton: the one at hand, or else read from the text. -/
def root? (e : Entry) : Except Fault Skeleton :=
  match e.root with
  | some root => .ok root
  | none => Skeleton.ofText? e.data

/-! ## Stored form -/

def chars (e : Entry) : List Char :=
  objectChars
    [("query_id", quoted e.query), ("data", quoted e.data), ("ttl_ms", intChars e.ttl),
      ("cached_at", intChars e.cachedAt), ("last_accessed", intChars e.lastAccessed)]

def text (e : Entry) : String :=
  String.ofList e.chars

def fieldNames : List String :=
  ["query_id", "data", "ttl_ms", "cached_at", "last_accessed"]

/-- What has been read of an entry. -/
structure Draft where
  query : Option QueryKey
  data : Option String
  ttl : Option Int
  cachedAt : Option Time
  lastAccessed : Option Time

def readField (name : String) (d : Draft) (s : Symbols) : Scan Draft :=
  if name = "query_id" then
    (Json.readText s).map (fun (x, rest) => ({ d with query := x }, rest))
  else if name = "data" then
    (Json.readText s).map (fun (x, rest) => ({ d with data := x }, rest))
  else if name = "ttl_ms" then
    (Json.readInteger 0 maxTtl s).map (fun (x, rest) => ({ d with ttl := x }, rest))
  else if name = "cached_at" then
    (Json.readInteger minTime maxTime s).map (fun (x, rest) => ({ d with cachedAt := x }, rest))
  else
    (Json.readInteger minTime maxTime s).map (fun (x, rest) => ({ d with lastAccessed := x }, rest))

/-- All fields are required. -/
def finish (d : Draft) : Except Fault Entry :=
  match d.query, d.data, d.ttl, d.cachedAt, d.lastAccessed with
  | some query, some data, some ttl, some cachedAt, some lastAccessed =>
      .ok ⟨query, data, ttl.toNat, cachedAt, lastAccessed, none⟩
  | _, _, _, _, _ => .error .unexpected

def read (room : Nat) (s : Symbols) : Scan Entry :=
  Json.readRecord fieldNames room readField ⟨none, none, none, none, none⟩ finish s

def ofSymbols? (s : Symbols) : Except Fault Entry :=
  Json.document (read Json.maxRoom) s

def ofText? (text : String) : Except Fault Entry :=
  ofSymbols? (Json.symbolsOf text)

end Entry
end EntityCache
