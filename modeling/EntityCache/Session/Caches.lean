import EntityCache.Session.Basic

/-!
# Steps on caches

* `Session.onCache`: a task of the cache of a name, which is made when it is first used.
* `Session.rescope`, `Session.authenticate`, `Session.install`: changes of the current store.
* `Session.write` and the other ways of access.
* `Session.backlog`, `Session.grantPermits`: the callbacks for impacted queries, and permits for
  them.
* `Session.restart`: all that is held in the process goes, the store files stay.
* `Session.perform`: any step, with what goes before and what follows.
-/

namespace EntityCache
namespace Session

/-! ## Caches and stores in use -/

/-- The number and state of a cache in use. -/
def cache? (s : Session) (name : String) : Option (Nat × Cache) :=
  (s.names.get? name).bind (fun n => (s.caches.get? n).map (fun c => (n, c)))

/-- The stores that somebody holds. -/
def holders (s : Session) : List StoreRef :=
  s.slots.values.map Slot.store ++
    s.names.values.filterMap (fun n => (s.caches.get? n).bind Cache.store?)

/-- Whether somebody holds a store. -/
def inUse (s : Session) (p : StoreRef) : Bool :=
  s.holders.any (fun r => r.reaches p)

/-- The cache of a name; a new one if there is none. -/
def cacheNamed (name : String) : Call (Nat × Cache) := do
  let s ← get
  match s.cache? name with
  | some found => pure found
  | none =>
      if s.listening && Republish.Queue.maxCapacity < s.config.concurrency then
        throw .tooManyCallbacks
      -- Caches are never removed, so their number is not in use.
      let n := s.caches.size
      let c := Cache.new s.config s.listening
      set { s with caches := s.caches.insert n c, names := s.names.insert name n }
      pure (n, c)

/-- A task that changes the cache of a name. -/
def changeCache {α : Type} (name : String) (task : Cache → StateM (World Vault) (α × Cache)) :
    Call α := do
  let (n, c) ← cacheNamed name
  let (a, c) ← Call.onWorld (task c)
  modify (fun s => { s with caches := s.caches.insert n c })
  pure a

/-- A task that leaves the cache of a name as it is. -/
def onCache {α : Type} (name : String) (task : Cache → StateM (World Vault) α) : Call α := do
  let (_, c) ← cacheNamed name
  Call.onWorld (task c)

/-- The store in a slot, or else the current one of a cache. -/
def storeAt (slot : Option String) (name : String) : Call StoreRef := do
  match slot with
  | some key =>
      let s ← get
      match s.slots.get? key with
      | some held => pure held.store
      | none => throw .noSlot
  | none =>
      let (_, c) ← cacheNamed name
      match c.store? with
      | some r => pure r
      | none => throw .noStore

/-! ## Scopes -/

/-- A change of what a cache points at, and the new target. -/
def retarget (name : String)
    (task : Cache → (StoreRef → Bool) → StateM (World Vault) Cache) : Call Target := do
  let s ← get
  changeCache name (fun c => do
    let c ← task c s.inUse
    pure (c.target, c))

def target (name : String) : Call Target :=
  onCache name (fun c => pure c.target)

def rescope (name : String) (scope : Scope) : Call Target :=
  retarget name (fun c inUse => c.rescope inUse scope)

def authenticate (name : String) (user : Option String) : Call Target :=
  retarget name (fun c inUse => c.authenticate inUse user)

/-- Installs a held store, through a schedule of failures if one is given. -/
def install (name : String) (slot : Option String) (plan : Option (Nat → Option StoreError)) :
    Call Target := do
  let r ← storeAt slot name
  let r ←
    match plan with
    | none => pure r
    | some plan => Call.onVault (Vault.edit (Vault.guard plan r))
  retarget name (fun c inUse => c.install inUse r)

/-! ## Access -/

def read (name : String) (q : QueryKey) : Call (Option CachedResult) :=
  onCache name (fun c => c.read q)

def lookup (name : String) (q : QueryKey) (policy : FetchPolicy) : Call Decision :=
  onCache name (fun c => c.lookup q policy)

def stats (name : String) : Call (Option Counts) :=
  onCache name Cache.stats

/-- Writes a response; the flaws of its metadata are reported first.  While the size of a store in
a file is looked at, the callbacks for impacted queries go on. -/
def write (name : String) (q : QueryKey) (response : Response) (flaws : Journal)
    (requestor : Option QueryKey) : Call WriteOutcome := do
  modify (fun s => s.report flaws)
  let outcome ← changeCache name (fun c => c.write q response requestor)
  let (_, c) ← cacheNamed name
  if c.waits then modify settle
  changeCache name (fun c => do
    let c ← c.review
    pure (outcome, c))

/-! ## Callbacks -/

/-- The callbacks that wait and run, and the queries called since the last look. -/
structure Backlog where
  pending : Nat
  inflight : Nat
  called : List QueryKey

def backlog (name : String) : Call Backlog := do
  let (_, c) ← cacheNamed name
  let s ← get
  set { s with called := [] }
  pure
    ⟨(c.queue?.map (fun queue => queue.pending.size)).getD 0,
      (c.queue?.map Republish.Queue.inflight).getD 0,
      s.called⟩

/-- Gives permits to the gate. -/
def grantPermits (name : String) (permits : Nat) : Call Backlog := do
  let s ← get
  match s.gate.grant? permits with
  | none => throw .tooManyPermits
  | some gate =>
      set { s with gate := gate }.settle
      backlog name

/-! ## Reports -/

def metrics : Call Metrics := do
  let s ← get
  pure (Metrics.of s.world.journal)

/-- The messages since the last call. -/
def newNotices : Call (List Notice) := do
  let s ← get
  set { s with told := s.world.journal.length }
  pure (notices (s.world.journal.drop s.told))

/-! ## Endings -/

def dropCache (name : String) : Call Unit :=
  modify (fun s => { s with names := s.names.erase name })

/-- Drops all caches, held stores and held records. -/
def restart : Call Unit :=
  modify (fun s => { s with names := .empty, slots := .empty, records := .empty })

/-! ## Any step -/

/-- Exactly the held records and stores stay in use. -/
def letGo (s : Session) : Session :=
  let kept := s.holders.map StoreRef.store
  { s with
    world :=
      { s.world with
        held := s.records.values
        store := s.world.store.release (fun id => kept.contains id) } }

/-- A step and the callbacks that follow it.  The cache that the step names is made even if the step
does without one. -/
def perform {α : Type} (name : String) (step : Call α) (s : Session) :
    Except Refusal α × Session :=
  let named : Call α := do
    let _ ← cacheNamed name
    step
  let (answer, s) := named.run s
  (answer, s.settle.letGo)

end Session
end EntityCache
