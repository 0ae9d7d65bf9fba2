import EntityCache.Cache.Scoping
import EntityCache.Proofs.Normalize.Passes
import EntityCache.Proofs.Store.Calls
import EntityCache.Proofs.Store.Mirror

/-!
# Runs of writes

* `Posting`: one write with its time.
* `Backend.post`, `Cache.post`: a write and the look at the size of the store that follows it.
* `Cache.postAll`: a run of writes through a cache.
* `Cache.post_apply`: a cache writes through the backend of its store.
* `Backend.post_eq`: what a write through a backend comes to, given how its result is absorbed.
-/

namespace EntityCache

open Normalize

/-- A write: a result with its query, the query that it was asked for, and the time. -/
structure Posting where
  time : Time
  query : QueryKey
  response : Response
  requestor : Option QueryKey

namespace Posting

/-- The record fields that a write overwrites, in order; none if its result is refused. -/
def assignments (e : Posting) : List Assignment :=
  Normalize.assignments e.response.ids e.response.data

/-- The skeleton that a write stores, unless its result is refused. -/
def skeleton? (e : Posting) : Option Skeleton :=
  match e.response.data with
  | .map fields => some (skeletonOf e.response.ids fields)
  | _ => none

theorem skeleton?_of_map {e : Posting} {fields : List (String × Value)} :
    e.response.data = .map fields → e.skeleton? = some (skeletonOf e.response.ids fields) := by
  intro hfields
  simp only [skeleton?, hfields]

theorem skeleton?_of_other {e : Posting} : e.response.data.isMap = false → e.skeleton? = none := by
  intro hdata
  simp only [skeleton?]
  split
  · next fields hfields =>
      simp only [hfields] at hdata
      cases hdata
  · rfl

/-- Only the result of a write that is an object has a skeleton. -/
theorem exists_fields_of_skeleton {e : Posting} {n : Skeleton} : e.skeleton? = some n →
    ∃ fields, e.response.data = .map fields ∧ n = skeletonOf e.response.ids fields := by
  intro hn
  cases hdata : e.response.data.isMap with
  | false =>
      cases (skeleton?_of_other hdata).symm.trans hn
  | true =>
      rcases exists_fields_of_isMap hdata with ⟨fields, hfields⟩
      cases (skeleton?_of_map hfields).symm.trans hn
      exact ⟨fields, hfields, rfl⟩

/-- The lifetime that a write gives its result. -/
def span (e : Posting) (config : Config) : Span :=
  e.response.ttl.getD config.defaultSpan

/-- The entry that is stored for a skeleton. -/
def entry (e : Posting) (config : Config) (n : Skeleton) : Entry :=
  Entry.new e.query n.text (e.span config) (some n) e.time

end Posting

/-- The world at another time. -/
def World.setTime {σ : Type} (w : World σ) (t : Time) : World σ :=
  { w with now := t }

/-! ## Single writes -/

/-- A write through a backend. -/
def Backend.post {σ : Type} (b : Backend σ) (config : Config) (u : Upkeep) (e : Posting) :
    StateM (World σ) (WriteOutcome × Upkeep) := do
  modify (fun w => w.setTime e.time)
  let (outcome, u) ← b.write config e.query e.response e.requestor u
  let u ← u.review b config.maxEntries
  pure (outcome, u)

theorem Backend.post_eq {σ : Type} {b : Backend σ} {config : Config} {u u₁ u₂ : Upkeep}
    {e : Posting} {w w₁ w₂ : World σ} {outcome : WriteOutcome}
    (hwrite : b.write config e.query e.response e.requestor u (w.setTime e.time) =
      ((outcome, u₁), w₁))
    (hreview : u₁.review b config.maxEntries w₁ = (u₂, w₂)) :
    b.post config u e w = ((outcome, u₂), w₂) := by
  simp only [post, bindM_apply (m := modify _) rfl, bindM_apply hwrite]
  exact (bindM_apply hreview).trans rfl

theorem Backend.Mirrors.post {σ τ : Type} {view : τ → σ} {b' : Backend τ} {b : Backend σ}
    (h : b'.Mirrors view b) (config : Config) (u : Upkeep) (e : Posting) :
    EntityCache.Mirrors view (b'.post config u e) (b.post config u e) := by
  have htime : EntityCache.Mirrors view
      (modify (fun w => w.setTime e.time) : StateM (World τ) PUnit)
      (modify (fun w => w.setTime e.time) : StateM (World σ) PUnit) := by
    intro w
    exact ⟨rfl, rfl⟩
  refine .bindM htime fun _ => .bindM (h.write _ _ _ _ _) fun answer => ?_
  exact .bindM (Backend.review_mirrors h.backing h.counts _ _) fun _ => .pureM _

namespace Cache

/-- A write through a cache. -/
def post (c : Cache) (e : Posting) : StateM (World Vault) (WriteOutcome × Cache) := do
  modify (fun w => w.setTime e.time)
  let (outcome, c) ← c.write e.query e.response e.requestor
  let c ← c.review
  pure (outcome, c)

/-- Writes through a cache, one after the other. -/
def postAll (c : Cache) : List Posting → StateM (World Vault) Cache
  | [] => pure c
  | e :: rest => do
      let (_, c) ← c.post e
      c.postAll rest

/-- A cache writes through the backend of its store. -/
theorem post_apply {c : Cache} {r : StoreRef} (hstore : c.store? = some r) (e : Posting)
    {w w' : World Vault} {outcome : WriteOutcome} {u : Upkeep}
    (hpost : r.backend.post c.config c.upkeep e w = ((outcome, u), w')) :
    c.post e w = ((outcome, { c with upkeep := u }), w') := by
  cases hwrite : r.backend.write c.config e.query e.response e.requestor c.upkeep
      (w.setTime e.time) with
  | mk answer w₁ =>
      rcases answer with ⟨outcome₁, u₁⟩
      cases hreview : u₁.review r.backend c.config.maxEntries w₁ with
      | mk u₂ w₂ =>
          -- Both steps together are the write that is given.
          have hsame := (Backend.post_eq hwrite hreview).symm.trans hpost
          cases hsame
          have hcwrite : c.write e.query e.response e.requestor (w.setTime e.time) =
              ((outcome, { c with upkeep := u₁ }), w₁) := by
            simp only [Cache.write, hstore]
            exact (bindM_apply hwrite).trans rfl
          have hcreview : Cache.review { c with upkeep := u₁ } w₁ =
              ({ c with upkeep := u }, w') := by
            have hstore' : Cache.store? { c with upkeep := u₁ } = some r := hstore
            simp only [Cache.review, hstore']
            exact (bindM_apply hreview).trans rfl
          simp only [post, bindM_apply (m := modify _) rfl, bindM_apply hcwrite]
          exact (bindM_apply hcreview).trans rfl

theorem postAll_cons {c c₁ : Cache} {e : Posting} {w w₁ : World Vault} {outcome : WriteOutcome}
    (hpost : c.post e w = ((outcome, c₁), w₁)) (rest : List Posting) :
    c.postAll (e :: rest) w = c₁.postAll rest w₁ := by
  simp only [postAll, bindM_apply hpost]

end Cache

/-! ## Stores without schedules -/

theorem StoreRef.backend_eq_of_guards {r : StoreRef} (hguards : r.guards = []) :
    r.backend = r.store.backend := by
  simp only [StoreRef.backend, hguards]
  rfl

theorem StoreRef.backend_mirrors_memory {r : StoreRef} {n : Nat} (hstore : r.store = .memory n)
    (hguards : r.guards = []) : r.backend.Mirrors (Vault.memory n) MemoryStore.backend := by
  simp only [backend_eq_of_guards hguards, hstore]
  exact Backend.zoom_mirrors (Vault.memory_putMemory n) MemoryStore.backend

theorem StoreRef.backend_mirrors_file {r : StoreRef} {n : Nat} (hstore : r.store = .file n)
    (hguards : r.guards = []) : r.backend.Mirrors (Vault.connected n) FileStore.backend := by
  simp only [backend_eq_of_guards hguards, hstore]
  exact Backend.zoom_mirrors (Vault.connected_putConnected n) FileStore.backend

end EntityCache
