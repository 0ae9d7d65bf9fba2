import EntityCache.Cache.Access
import EntityCache.Store.Vault

/-!
# Caches and their scopes

A cache serves one scope at a time.  Each change of the scope brings a store of its own; the old one
is neither moved nor cleared, so nothing that one user has written is visible to another.

* `Cache`: configuration, the current store, and the stores that were swapped out.
* `Cache.rescope`: another scope.  A persistent store that somebody still holds is taken up again,
  so there is one instance for each scope; else a store is opened.
* `Cache.install`: a store that somebody else has made.
* `Cache.read`, `Cache.write`, `Cache.lookup`, `Cache.stats`: access to the current store.  Without
  one, reads miss and writes are dropped.
* `Cache.review`: a look at the size of the current store, which follows a write.
-/

namespace EntityCache

/-- What a cache points at. -/
inductive Target where
  | unscoped
  /-- The store is open. -/
  | ready (store : StoreRef)
  /-- The store of this scope could not be opened. -/
  | disabled (scope : Scope)
  deriving DecidableEq

namespace Target

def store? : Target → Option StoreRef
  | ready r => some r
  | _ => none

def scope? : Target → Option Scope
  | unscoped => none
  | ready r => some r.scope
  | disabled scope => some scope

def text : Target → String
  | unscoped => "Unscoped"
  | ready r => "Ready(" ++ r.scope.text ++ ")"
  | disabled scope => "Disabled(" ++ scope.text ++ ")"

end Target

/-- A cache. -/
structure Cache where
  config : Config
  target : Target
  /-- Persistent stores that were swapped out, at most one for each scope. -/
  retired : List StoreRef
  upkeep : Upkeep

namespace Cache

/-- A cache without scope.  Callbacks for impacted queries are queued only if somebody listens. -/
def new (config : Config) (listening : Bool) : Cache :=
  ⟨config, .unscoped, [],
    ⟨.start, if listening then some (.new config.concurrency) else none⟩⟩

def store? (c : Cache) : Option StoreRef :=
  c.target.store?

def queue? (c : Cache) : Option Republish.Queue :=
  c.upkeep.queue

/-! ## Scopes -/

/-- The store of a scope that was swapped out and is still in use. -/
def revive? (c : Cache) (inUse : StoreRef → Bool) (scope : Scope) : Option StoreRef :=
  (c.retired.find? (fun r => r.scope == scope)).filter inUse

/-- Stores that were swapped out, after `previous` was.  A store in memory starts empty in every
scope and is not kept. -/
def retire (retired : List StoreRef) (inUse : StoreRef → Bool) (previous : Target) :
    List StoreRef :=
  match previous with
  | .ready r =>
      if r.scope.backing = .persistent then
        r :: (retired.filter (fun p => inUse p && p.scope != r.scope))
      else retired
  | _ => retired

/-- The cache with another target. -/
def swap (c : Cache) (inUse : StoreRef → Bool) (target : Target) : Cache :=
  { c with
    target := target
    retired := retire c.retired inUse c.target
    upkeep := { c.upkeep with sizing := .start } }

/-- The store for a new scope: one still in use, or else one that is opened. -/
def acquire (c : Cache) (inUse : StoreRef → Bool) (scope : Scope) : Act Vault StoreRef :=
  match c.revive? inUse scope with
  | some r => pure r
  | none => Vault.openFor scope c.config.openPolicy

/-- The target after an attempt to acquire a store. -/
def settle (scope : Scope) : Except StoreError StoreRef → Target × Journal
  | .ok r => (.ready r, [.rescoped r.backing])
  | .error _ => (.disabled scope, [.notice .openFailed, .openFailure scope.backing])

/-- Points the cache at a scope.  Nothing happens if it is the current one, even where its store
could not be opened. -/
def rescope (c : Cache) (inUse : StoreRef → Bool) (scope : Scope) : StateM (World Vault) Cache := do
  if c.target.scope? = some scope then pure c
  else
    let (target, signals) := settle scope (← (c.acquire inUse scope).outcome)
    note signals
    -- Whether taken up again or no longer in use, the store of this scope is not retired now.
    let retired := c.retired.filter (fun r => r.scope != scope)
    pure ({ c with retired := retired }.swap inUse target)

/-- Points the cache at the scope of a user, or of nobody. -/
def authenticate (c : Cache) (inUse : StoreRef → Bool) (user : Option String) :
    StateM (World Vault) Cache :=
  c.rescope inUse (c.config.scopeFor user)

/-- Points the cache at a store, even where the scope stays the same. -/
def install (c : Cache) (inUse : StoreRef → Bool) (r : StoreRef) : StateM (World Vault) Cache := do
  note [.rescoped r.backing]
  pure (c.swap inUse (.ready r))

/-! ## Access -/

def read (c : Cache) (q : QueryKey) : StateM (World Vault) (Option CachedResult) :=
  match c.store? with
  | none => pure none
  | some r => r.backend.read q

def lookup (c : Cache) (q : QueryKey) (policy : FetchPolicy) : StateM (World Vault) Decision :=
  match c.store? with
  | none => pure (policy.choose none)
  | some r => r.backend.lookup q policy

def stats (c : Cache) : StateM (World Vault) (Option Counts) :=
  match c.store? with
  | none => pure none
  | some r => r.backend.countEntries

def write (c : Cache) (q : QueryKey) (response : Response) (requestor : Option QueryKey) :
    StateM (World Vault) (WriteOutcome × Cache) := do
  match c.store? with
  | none => pure (.dropped, c)
  | some r =>
      let (outcome, upkeep) ← r.backend.write c.config q response requestor c.upkeep
      pure (outcome, { c with upkeep := upkeep })

/-- Looks at the size of the current store after a write, if that is due. -/
def review (c : Cache) : StateM (World Vault) Cache := do
  match c.store? with
  | none => pure c
  | some r =>
      let upkeep ← c.upkeep.review r.backend c.config.maxEntries
      pure { c with upkeep := upkeep }

/-- Whether calls on the current store wait for a file, so that callbacks go on meanwhile. -/
def waits (c : Cache) : Bool :=
  c.store?.any (fun r => decide (r.backing = .persistent))

end Cache
end EntityCache
