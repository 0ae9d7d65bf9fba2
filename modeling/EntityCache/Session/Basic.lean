import EntityCache.Cache.Scoping

/-!
# Sessions

Several caches share a directory of store files, and stores and records are held outside of them.

* `Session`: caches by name, held stores, held records, the gate for callbacks and the world.
* `Session.Call`: a step of a session, which gives an answer or is refused.
* `Session.settle`: the callbacks for impacted queries run until none can go on.
-/

namespace EntityCache

/-- What callbacks have to pass before they end. -/
structure Gate where
  /-- Whether each callback needs a permit. -/
  guarded : Bool
  permits : Nat
  /-- The caches and queries of the callbacks at the gate, the first to come first. -/
  waiting : List (Nat × QueryKey)

namespace Gate

def new (guarded : Bool) : Gate :=
  ⟨guarded, 0, []⟩

def isOpen (g : Gate) : Bool :=
  !g.guarded || decide (0 < g.permits)

def arrive (g : Gate) (caller : Nat × QueryKey) : Gate :=
  { g with waiting := g.waiting ++ [caller] }

/-- The largest number of permits that nobody waits for. -/
def maxPermits : Nat :=
  Republish.Queue.maxCapacity

/-- The gate with more permits, if it can hold those that nobody waits for. -/
def grant? (g : Gate) (permits : Nat) : Option Gate :=
  if g.guarded && decide (maxPermits + g.waiting.length < g.permits + permits) then none
  else some { g with permits := g.permits + permits }

/-- The first callback at the gate, if it may pass, and the gate after it. -/
def pass? (g : Gate) : Option ((Nat × QueryKey) × Gate) :=
  match g.waiting with
  | [] => none
  | first :: rest =>
      if g.isOpen then some (first, { g with permits := g.permits - 1, waiting := rest })
      else none

end Gate

/-- A held store. -/
structure Slot where
  store : StoreRef
  /-- Whether the store was opened for this slot. -/
  opened : Bool

/-- Caches that share a directory of store files. -/
structure Session where
  /-- The configuration of every cache. -/
  config : Config
  /-- Whether somebody listens for impacted queries. -/
  listening : Bool
  /-- The queries whose callbacks fail. -/
  failing : Dict QueryKey DeliveryError
  /-- The caches that were made, by number.  The callbacks of a dropped cache go on. -/
  caches : Dict Nat Cache
  /-- The caches in use. -/
  names : Dict String Nat
  slots : Dict String Slot
  records : Dict String Handle
  gate : Gate
  /-- The caches in which a callback has ended for which another one waits, the first to do so
  first.  In this order they begin the next one. -/
  turns : List Nat
  /-- The callbacks that began since the last look at them, the latest first. -/
  called : List QueryKey
  world : World Vault
  /-- How much of the journal has been looked through for messages. -/
  told : Nat

/-- Why a step is refused. -/
inductive Refusal where
  /-- Nothing is held under the name. -/
  | noSlot
  /-- The cache has no store. -/
  | noStore
  /-- No record is held under the name. -/
  | noRecord
  /-- More callbacks at once are configured than a queue can allow. -/
  | tooManyCallbacks
  /-- More permits are given than the gate can hold. -/
  | tooManyPermits
  | unreadable (fault : Json.Fault)
  | failed (error : StoreError)

namespace Session

/-- The first state of a session. -/
def start (config : Config) (blocked : Bool) (listening gated : Bool)
    (failing : Dict QueryKey DeliveryError) (now : Time) : Session where
  config := config
  listening := listening
  failing := failing
  caches := .empty
  names := .empty
  slots := .empty
  records := .empty
  gate := .new gated
  turns := []
  called := []
  world := ⟨.empty, [], [], now, .empty blocked⟩
  told := 0

/-! ## Callbacks -/

def updateQueue (s : Session) (n : Nat) (queue : Republish.Queue) : Session :=
  match s.caches.get? n with
  | none => s
  | some c =>
      { s with
        caches := s.caches.insert n { c with upkeep := { c.upkeep with queue := some queue } } }

def report (s : Session) (signals : Journal) : Session :=
  { s with world := s.world.report signals }

def queueOf? (s : Session) (n : Nat) : Option Republish.Queue :=
  (s.caches.get? n).bind Cache.queue?

/-- The callback that can begin next, with the number of its cache. -/
def next? (s : Session) : Option (Nat × QueryKey) :=
  (s.turns ++ s.caches.keys).findSome? (fun n =>
    ((s.queueOf? n).bind Republish.Queue.next?).map (fun q => (n, q)))

/-- A callback begins and goes to the gate. -/
def begin? (s : Session) (caller : Nat × QueryKey) : Option Session :=
  ((s.queueOf? caller.1).bind (fun queue => queue.start? caller.2)).map (fun (queue, signals) =>
    let s := (s.updateQueue caller.1 queue).report signals
    { s with
      gate := s.gate.arrive caller
      turns := s.turns.erase caller.1
      called := caller.2 :: s.called })

/-- How the callback for a query ends. -/
def outcomeOf (s : Session) (q : QueryKey) : Except DeliveryError Unit :=
  match s.failing.get? q with
  | some e => .error e
  | none => .ok ()

/-- The first callback at the gate passes it and ends. -/
def conclude? (s : Session) : Option Session :=
  s.gate.pass?.bind (fun (caller, gate) =>
    ((s.queueOf? caller.1).bind (fun queue => queue.finish? caller.2 (s.outcomeOf caller.2))).map
      (fun (queue, signals) =>
        let s := (s.updateQueue caller.1 queue).report signals
        { s with
          gate := gate
          turns := if queue.waiting.isEmpty then s.turns else s.turns ++ [caller.1] }))

/-- A callback that may pass the gate ends; if there is none, another one begins. -/
def advance? (s : Session) : Option Session :=
  match s.conclude? with
  | some s => some s
  | none => s.next?.bind s.begin?

/-- A bound on the number of advances: a callback that waits takes two, one that runs takes one. -/
def remaining (s : Session) : Nat :=
  s.caches.values.foldl (fun n c => n + (c.queue?.map Republish.Queue.remaining).getD 0) 0

def settleFor : (fuel : Nat) → Session → Session
  | 0, s => s
  | fuel + 1, s =>
      match s.advance? with
      | some s => settleFor fuel s
      | none => s

/-- Callbacks begin and end until none can go on.  Nobody has a turn then. -/
def settle (s : Session) : Session :=
  { settleFor s.remaining s with turns := [] }

/-! ## Steps -/

/-- A step of a session. -/
abbrev Call (α : Type) : Type :=
  ExceptT Refusal (StateM Session) α

namespace Call

variable {α : Type}

/-- A task on the world. -/
def onWorld (task : StateM (World Vault) α) : Call α := do
  let s ← get
  let (a, w) := task s.world
  set { s with world := w }
  pure a

/-- A store call. -/
def onVault (call : Act Vault α) : Call α := do
  match ← onWorld call.outcome with
  | .ok a => pure a
  | .error e => throw (.failed e)

/-- The result of reading a text. -/
def ofReading (r : Except Json.Fault α) : Call α :=
  match r with
  | .ok a => pure a
  | .error f => throw (.unreadable f)

end Call
end Session
end EntityCache
