import EntityCache.Proofs.Store.Calls
import EntityCache.Proofs.Store.Signals
import EntityCache.Store.File
import EntityCache.Store.Memory

/-!
# What is put together has what its parts have

Calls on a store are put together from simpler ones, and reading and writing from calls, from looks
at the world and from reports.  A property that is kept by putting things together is inherited:

* `Act.Closed`: such a property of calls that may fail.
* `MemoryStore.closed_entity`, `MemoryStore.closed_save`: calls of a store in memory have it if
  adopting a record does.
* `FileStore.Connected.closed_tree?` and so on: the calls of a store in a file have it if changing
  the tables does, and if handing out a record does.
* `Closed`: such a property of what never fails, which mild reports have.
* `Closed.read`, `Closed.lookup`, `Closed.levels`, `Closed.countEntries`, `Closed.write`: an
  operation has it if the calls that it makes on its store have it.
-/

namespace EntityCache

variable {σ : Type} {M : {α : Type} → (World σ → α × World σ) → Prop}

/-! ## Calls that may fail -/

namespace Act

/-- Putting together calls with the property gives a call with it. -/
structure Closed (M : {α : Type} → (World σ → α × World σ) → Prop) : Prop where
  pure : ∀ {α : Type} (a : α), M (Pure.pure a : Act σ α)
  bind : ∀ {α β : Type} {a : Act σ α} {f : α → Act σ β}, M a → (∀ x, M (f x)) → M (a >>= f)
  /-- What follows a look at the world may depend on all of it but the journal. -/
  world : ∀ {α : Type} {f : World σ → Act σ α},
    (∀ w j, f { w with journal := j } = f w) → (∀ w, M (f w)) → M (Act.world >>= f)
  ofExcept : ∀ {α : Type} (r : Except StoreError α), M (Act.ofExcept r : Act σ α)
  attempt : ∀ {α : Type} {a : Act σ α}, M a → M (Act.attempt a)

namespace Closed

theorem fail (hM : Act.Closed M) {α : Type} (e : StoreError) : M (Act.fail e : Act σ α) :=
  hM.ofExcept (.error e)

theorem each (hM : Act.Closed M) {β : Type} {f : β → Act σ Unit} (hf : ∀ b, M (f b)) (l : List β) :
    M (Act.each f l) := by
  induction l with
  | nil =>
      exact hM.pure ()
  | cons b rest ih =>
      exact hM.bind (hf b) fun _ => ih

/-- Only the calls for the entities that are asked for matter. -/
theorem oneByOne_of_mem (hM : Act.Closed M) {entity : Guid → Act σ Handle} (guids : List Guid) :
    (∀ guid ∈ guids, M (entity guid)) → ∀ found, M (Backend.oneByOne entity guids found) := by
  induction guids with
  | nil =>
      exact fun _ found => hM.pure found
  | cons guid rest ih =>
      intro hentity found
      refine hM.bind (hentity guid List.mem_cons_self) fun h => ?_
      exact ih (fun guid' hguid' => hentity guid' (List.mem_cons_of_mem _ hguid'))
        (found.insert guid h)

theorem oneByOne (hM : Act.Closed M) {entity : Guid → Act σ Handle}
    (hentity : ∀ guid, M (entity guid)) (guids : List Guid) :
    ∀ found, M (Backend.oneByOne entity guids found) :=
  hM.oneByOne_of_mem guids fun guid _ => hentity guid

end Closed
end Act

/-! ## Stores in memory -/

namespace MemoryStore

variable {M : {α : Type} → (World MemoryStore → α × World MemoryStore) → Prop}
  (hadopt : ∀ guid r, M (adopt guid r))

include hadopt

theorem closed_entity (hM : Act.Closed M) (guid : Guid) : M (entity guid) := by
  refine hM.world (fun _ _ => rfl) fun w => ?_
  cases w.store.entities.get? guid with
  | some h =>
      exact hM.pure h
  | none =>
      exact hadopt guid _

/-- A record of the store is saved already. -/
theorem closed_save (hM : Act.Closed M) (h : Handle) : M (save h) := by
  refine hM.world (fun _ _ => rfl) fun w => ?_
  cases w.pool.get? h with
  | none =>
      exact hM.pure ()
  | some r =>
      by_cases hknown : w.store.entities.get? r.guid = some h
      · simp only [if_pos hknown]
        exact hM.pure ()
      · simp only [if_neg hknown]
        exact hM.bind (hadopt r.guid r) fun _ => hM.pure ()

end MemoryStore

/-! ## Stores in files -/

namespace FileStore.Connected

variable {M : {α : Type} → (World Connected → α × World Connected) → Prop}

theorem closed_table (hM : Act.Closed M) {α : Type} (pick : Tables → Option α) :
    M (table pick) := by
  refine hM.world (fun _ _ => rfl) fun w => ?_
  cases pick w.store.reachable with
  | none =>
      exact hM.fail noTable
  | some rows =>
      exact hM.pure rows

theorem closed_counts (hM : Act.Closed M) : M counts :=
  hM.bind (closed_table hM _) fun _ => hM.bind (closed_table hM _) fun _ => hM.pure _

section Trees

variable (hput : ∀ q row, M (change fun t => t.putTree? q row))

include hput

theorem closed_tree? (hM : Act.Closed M) (q : QueryKey) : M (tree? q) := by
  refine hM.bind (closed_table hM _) fun rows => ?_
  cases rows.get? q with
  | none =>
      exact hM.pure none
  | some row =>
      refine hM.bind (hM.ofExcept _) fun e => hM.world (fun _ _ => rfl) fun w => ?_
      exact hM.bind (hput q _) fun _ => hM.pure _

theorem closed_setTree (hM : Act.Closed M) (q : QueryKey) (e : Entry) : M (setTree q e) :=
  hM.bind (hM.ofExcept _) fun _ => hput q _

end Trees

theorem closed_dependentsOf (hM : Act.Closed M) (guid : Guid) : M (dependentsOf guid) :=
  hM.bind (closed_table hM _) fun _ => hM.pure _

theorem closed_readEntity (hM : Act.Closed M) (guid : Guid) : M (readEntity guid) := by
  refine hM.bind (closed_table hM _) fun rows => ?_
  cases rows.get? guid with
  | none =>
      exact hM.pure none
  | some blob =>
      refine hM.bind (hM.ofExcept _) fun s => ?_
      exact hM.bind (closed_dependentsOf hM guid) fun _ => hM.pure _

/-- An entity that cannot be decoded is started over, which is reported and writes nothing. -/
theorem closed_readOrCreate (hM : Act.Closed M) (hwrite : ∀ r, M (writeEntity r))
    (hreport : M (Act.report [.notice .entityStartedOver, .undecodable .persistent .entities] :
      Act Connected Unit)) (guid : Guid) : M (readOrCreate guid) := by
  refine hM.bind (hM.attempt (closed_readEntity hM guid)) fun r => ?_
  cases r with
  | ok found =>
      cases found with
      | some r =>
          exact hM.pure r
      | none =>
          exact hM.bind (hwrite _) fun _ => hM.pure _
  | error e =>
      by_cases hcodec : e.isCodec = true
      · simp only [if_pos hcodec]
        exact hM.bind hreport fun _ => hM.bind (closed_dependentsOf hM guid) fun _ => hM.pure _
      · simp only [if_neg hcodec]
        exact hM.fail e

section Records

variable (hhandOut : ∀ r, M (handOut r))

include hhandOut

theorem closed_entity (hM : Act.Closed M) (hread : ∀ guid, M (readOrCreate guid)) (guid : Guid) :
    M (entity guid) := by
  refine hM.world (fun _ _ => rfl) fun w => ?_
  cases live? w guid with
  | some h =>
      exact hM.pure h
  | none =>
      exact hM.bind (hread guid) hhandOut

theorem closed_find? (hM : Act.Closed M) (guid : Guid) : M (find? guid) := by
  refine hM.world (fun _ _ => rfl) fun w => ?_
  cases live? w guid with
  | some h =>
      exact hM.pure _
  | none =>
      refine hM.bind (closed_readEntity hM guid) fun found => ?_
      cases found with
      | none =>
          exact hM.pure none
      | some r =>
          exact hM.bind (hhandOut r) fun h => hM.pure _

end Records

theorem closed_findAll (hM : Act.Closed M) (hfind : ∀ guid, M (find? guid)) (guids : List Guid) :
    ∀ found, M (findAll guids found) := by
  induction guids with
  | nil =>
      exact fun found => hM.pure found
  | cons guid rest ih =>
      intro found
      refine hM.bind (hfind guid) fun h => ?_
      cases h with
      | none =>
          exact ih found
      | some h =>
          exact ih (found.insert guid h)

theorem closed_batch (hM : Act.Closed M) (hentity : ∀ guid, M (entity guid))
    (guids : KeySet Guid) : M (batch guids) :=
  hM.world (fun _ _ => rfl) fun _ => hM.oneByOne hentity _ _

end FileStore.Connected

/-! ## Calls that never fail -/

/-- Putting together what has the property gives what has it, and so does a mild report. -/
structure Closed (M : {α : Type} → (World σ → α × World σ) → Prop) : Prop where
  pure : ∀ {α : Type} (a : α), M (Pure.pure a : StateM (World σ) α)
  bind : ∀ {α β : Type} {m : StateM (World σ) α} {f : α → StateM (World σ) β},
    M m → (∀ x, M (f x)) → M (m >>= f)
  /-- What follows a look at the world may depend on all of it but the journal. -/
  world : ∀ {α : Type} {f : World σ → StateM (World σ) α},
    (∀ w j, f { w with journal := j } = f w) → (∀ w, M (f w)) → M (get >>= f)
  note : ∀ {signals : Journal}, (∀ s ∈ signals, s.IsMild) → M (note signals)

/-- Requests for impacted queries may be coalesced, nothing else is reported of them. -/
theorem Republish.Queue.coalesced_requestAll (queries : List QueryKey) :
    ∀ (queue : Republish.Queue), ∀ s ∈ (queue.requestAll queries).2,
      s = .republish .coalesced := by
  induction queries with
  | nil =>
      intro queue s hs
      exact absurd hs List.not_mem_nil
  | cons q rest ih =>
      intro queue s hs
      rcases (List.mem_append.mp hs : s ∈ (queue.request q).2 ∨ _) with hs | hs
      · simp only [request] at hs
        split at hs
        · exact List.mem_singleton.mp hs
        · exact absurd hs List.not_mem_nil
      · exact ih _ s hs

/-- A failed call is reported, and does not mean that a store is too large. -/
theorem mild_failureSignals (store : Backing) (table : Table) (activity : Activity)
    (e : StoreError) : ∀ s ∈ failureSignals store table activity e, s.IsMild := by
  intro s hs heq
  subst heq
  simp only [failureSignals] at hs
  split at hs
  · simp at hs
  · simp at hs

namespace Closed

variable {b : Backend σ}

/-- A failed call is reported, and there is an answer all the same. -/
theorem failed (hM : Closed M) {α : Type} (store : Backing) (table : Table) (activity : Activity)
    (e : StoreError) (a : α) :
    M (EntityCache.note (failureSignals store table activity e) >>= fun _ => Pure.pure a) :=
  hM.bind (hM.note (mild_failureSignals store table activity e)) fun _ => hM.pure a

/-! ## Reading -/

theorem present (hM : Closed M) (hproject : ∀ root, M (b.project root)) (q : QueryKey) (e : Entry) :
    M (b.present q e) := by
  simp only [Backend.present]
  -- The skeleton cannot be decoded, cannot be assembled, or is shown.
  cases e.root? with
  | error f =>
      exact hM.bind (hM.note (by simp)) fun _ => hM.pure none
  | ok root =>
      refine hM.bind (hproject root) fun r => ?_
      cases r with
      | error e =>
          exact hM.failed _ _ _ e none
      | ok data =>
          refine hM.world (fun _ _ => rfl) fun w => ?_
          exact hM.bind (hM.note (by simp)) fun _ => hM.pure _

theorem read (hM : Closed M) (htree : ∀ q, M (b.tree? q)) (hproject : ∀ root, M (b.project root))
    (q : QueryKey) : M (b.read q) := by
  have hentry : M (b.readEntry q) := by
    refine hM.bind (htree q) fun r => ?_
    cases r with
    | error e =>
        exact hM.failed _ _ _ e none
    | ok found =>
        cases found with
        | none =>
            exact hM.bind (hM.note (by simp)) fun _ => hM.pure none
        | some e =>
            exact hM.present hproject q e
  exact hM.bind hentry fun result => hM.bind (hM.note (by simp)) fun _ => hM.pure result

/-- Only the server is asked without a read. -/
theorem lookup (hM : Closed M) (hread : ∀ q, M (b.read q)) (q : QueryKey) (policy : FetchPolicy) :
    M (b.lookup q policy) := by
  cases policy with
  | serverOnly =>
      exact hM.pure _
  | preferCache =>
      exact hM.bind (hread q) fun result => hM.pure _
  | cacheOnly =>
      exact hM.bind (hread q) fun result => hM.pure _

/-! ## Counting -/

theorem levels (hM : Closed M) (hcounts : M b.counts) : M b.levels := by
  refine hM.bind hcounts fun r => ?_
  cases r with
  | error _ =>
      exact hM.bind (hM.pure _) fun _ => hM.pure _
  | ok n =>
      exact hM.bind (hM.note (by simp)) fun _ => hM.pure _

theorem countEntries (hM : Closed M) (hcounts : M b.counts) : M b.countEntries := by
  refine hM.bind (hM.levels hcounts) fun r => ?_
  cases r with
  | error _ =>
      exact hM.bind (hM.note (by simp)) fun _ => hM.pure none
  | ok n =>
      exact hM.pure _

/-! ## Writing -/

theorem storeTree (hM : Closed M) (hset : ∀ q e, M (b.setTree q e)) (q : QueryKey) (root : Skeleton)
    (ttl : Span) : M (b.storeTree q root ttl) := by
  refine hM.world (fun _ _ => rfl) fun w => hM.bind (hset _ _) fun r => ?_
  cases r with
  | error e =>
      exact hM.failed _ _ _ e false
  | ok _ =>
      exact hM.bind (hM.note (by simp)) fun _ => hM.pure true

theorem schedule (hM : Closed M) (u : Upkeep) (queries : KeySet QueryKey) :
    M (u.schedule queries : StateM (World σ) Upkeep) := by
  simp only [Upkeep.schedule]
  cases u.queue with
  | none =>
      exact hM.pure u
  | some queue =>
      refine hM.bind (hM.note fun s hs => ?_) fun _ => hM.pure _
      rw [queue.coalesced_requestAll queries.toList s hs]
      simp

/-- What follows absorbing does not depend on how the records were split and saved. -/
theorem write (hM : Closed M) (hset : ∀ q e, M (b.setTree q e)) {response : Response}
    {requestor : Option QueryKey} (habsorb : M (b.absorb response.data response.ids requestor))
    (config : Config) (q : QueryKey) (u : Upkeep) :
    M (b.write config q response requestor u) := by
  have hcomplete : ∀ pass, M (b.complete config q response.ttl pass u) := by
    intro pass
    refine hM.bind (hM.storeTree hset _ _ _) fun stored => ?_
    exact hM.bind (hM.note (by simp)) fun _ => hM.bind (hM.schedule u _) fun u => hM.pure _
  have htimed : ∀ answer : WriteOutcome × Upkeep,
      M (EntityCache.note [.timed b.backing .write] >>= fun _ => Pure.pure answer) :=
    fun answer => hM.bind (hM.note (by simp)) fun _ => hM.pure answer
  refine hM.bind habsorb fun r => ?_
  cases r with
  | error e =>
      exact hM.bind (hM.note (mild_failureSignals _ _ _ e)) fun _ => hM.bind (hM.pure _) htimed
  | ok pass =>
      exact hM.bind (hcomplete pass) htimed

end Closed
end EntityCache
