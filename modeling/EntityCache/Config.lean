import EntityCache.Retry
import EntityCache.Scope

/-!
# Configuration

* `Config`: the settings of a cache, with their defaults.
* `Config.read`: reading, every field being optional.
* `Config.scopeFor`: the scope of a user under a configuration.
* `Backing.read`: a backing by name, or as an object with the name as its only key.
-/

namespace EntityCache

open Json (Symbols Scan Fault)

namespace Backing

def ofLabel? (label : String) : Option Backing :=
  [memory, persistent].find? (fun b => b.label == label)

def named (r : Scan String) : Scan Backing :=
  match r with
  | .error e => .error e
  | .ok (name, rest) =>
      match ofLabel? name with
      | some b => .ok (b, rest)
      | none => .error .unexpected

/-- The name in the object form. -/
def readTag (s : Symbols) : Scan Backing :=
  match Json.skipBlank s with
  | [] => .error .ended
  | some '"' :: rest => named (Json.readString rest)
  | _ => .error .malformed

/-- The rest of the object form: one known name, and `null`. -/
def readTagged (s : Symbols) : Scan Backing :=
  match readTag s with
  | .error e => .error e
  | .ok (b, rest) =>
      match Json.readColon rest with
      | .error e => .error e
      | .ok rest =>
          match Json.readNull rest with
          | .error e => .error e
          | .ok ((), rest) =>
              match Json.skipBlank rest with
              | [] => .error .ended
              | x :: rest => if x = some '}' then .ok (b, rest) else .error .malformed

def read (room : Nat) (s : Symbols) : Scan Backing :=
  match Json.skipBlank s with
  | [] => .error .ended
  | some '"' :: rest => named (Json.readString rest)
  | some '{' :: rest => if room = 0 then .error .malformed else readTagged rest
  | _ => .error .malformed

def ofText? (text : String) : Except Fault Backing :=
  Json.document (read Json.maxRoom) (Json.symbolsOf text)

end Backing

/-- The settings of a cache. -/
structure Config where
  backing : Backing
  /-- Where store files lie; a place among the temporary files if absent. -/
  directory : Option String
  project : String
  host : String
  /-- Advisory bound on trees and entities together. -/
  maxEntries : Nat
  /-- Lifetime in seconds of results that come without one. -/
  defaultTtl : Nat
  /-- How many callbacks may run at once. -/
  concurrency : Nat
  /-- Attempts at opening a store. -/
  openAttempts : Nat

namespace Config

def default : Config :=
  ⟨.memory, none, "", "", 100000, 0, 8, 3⟩

instance : Inhabited Config := ⟨default⟩

/-- The directory of store files, below `temporary` unless one is configured. -/
def resolvedDirectory (c : Config) (temporary : String) : String :=
  c.directory.getD (temporary ++ "/query-cache")

def defaultSpan (c : Config) : Span :=
  .ofSeconds c.defaultTtl

def openPolicy (c : Config) : Retry.Policy :=
  Retry.Policy.storeOpen.withAttempts c.openAttempts

def scopeFor (c : Config) (user : Option String) : Scope :=
  .of c.backing c.project user c.host

/-! ## Reading -/

def fieldNames : List String :=
  ["storage", "cache_dir", "project_id", "host", "max_entries", "default_ttl_secs",
    "republish_concurrency", "open_attempts"]

/-- A whole number of 64 bits. -/
def readCount (s : Symbols) : Scan Nat :=
  (Json.readInteger 0 Json.maxWord s).map (fun (n, rest) => (n.toNat, rest))

def readField (room : Nat) (name : String) (c : Config) (s : Symbols) : Scan Config :=
  if name = "storage" then
    (Backing.read (room - 1) s).map (fun (x, rest) => ({ c with backing := x }, rest))
  else if name = "cache_dir" then
    (Json.readOptional Json.readText s).map (fun (x, rest) => ({ c with directory := x }, rest))
  else if name = "project_id" then
    (Json.readText s).map (fun (x, rest) => ({ c with project := x }, rest))
  else if name = "host" then
    (Json.readText s).map (fun (x, rest) => ({ c with host := x }, rest))
  else if name = "max_entries" then
    (readCount s).map (fun (x, rest) => ({ c with maxEntries := x }, rest))
  else if name = "default_ttl_secs" then
    (readCount s).map (fun (x, rest) => ({ c with defaultTtl := x }, rest))
  else if name = "republish_concurrency" then
    (readCount s).map (fun (x, rest) => ({ c with concurrency := x }, rest))
  else
    (readCount s).map (fun (x, rest) => ({ c with openAttempts := x }, rest))

def read (room : Nat) (s : Symbols) : Scan Config :=
  Json.readRecord fieldNames room (readField room) default .ok s

def ofText? (text : String) : Except Fault Config :=
  Json.document (read Json.maxRoom) (Json.symbolsOf text)

end Config
end EntityCache
