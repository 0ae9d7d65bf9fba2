import EntityCache.Proofs.Normalize.Levels
import EntityCache.Proofs.Store.MemoryLedger

/-!
# Stores of few levels

* `Shallow`: what is stored has no more levels than a reader follows.
* `MemoryStore.Holdings.Within`: what a store in memory has of results with so many levels at most;
  every operation keeps it so.
* `Cache.shallow_performAll`: with results of no more than sixty-three levels a reader follows
  everything.
-/

namespace EntityCache

open Normalize
open MemoryStore (Holdings)

/-- What is stored has no more levels than a reader follows. -/
structure Shallow (tree? : QueryKey → Option Entry) (record? : Guid → Option Record) : Prop where
  skeleton : ∀ {q e n}, tree? q = some e → e.root = some n → n.nesting ≤ Json.maxRoom
  snapshot : ∀ {guid r}, record? guid = some r → r.snapshot.nesting ≤ Json.maxRoom

/-- The result of a write has no more levels. -/
def Operation.Within (d : Nat) : Operation → Prop
  | .write e => e.response.data.nesting ≤ d
  | _ => True

/-- What a store in memory has of results with so many levels at most. -/
structure MemoryStore.Holdings.Within (d : Nat) (s : Holdings) : Prop where
  skeleton : ∀ {q e n}, s.trees.get? q = some e → e.root = some n → n.nesting ≤ 2 * d
  fields : ∀ guid, Value.nestingFields (s.record guid).fields.bindings ≤ d

namespace MemoryStore.Holdings.Within

variable {d : Nat} {s : Holdings}

theorem empty (d : Nat) : Holdings.empty.Within d where
  skeleton h := by cases h
  fields _ := Nat.zero_le d

/-- With no more than sixty-three levels a reader follows all of a skeleton. -/
theorem shallow (h : s.Within 63) : Shallow s.trees.get? s.records.get? where
  skeleton hentry hroot := Nat.le_trans (h.skeleton hentry hroot) (by decide)
  snapshot := by
    intro guid r hr
    have hfields := h.fields guid
    simp only [record, hr, Option.getD_some] at hfields
    exact Nat.le_trans (Nat.add_le_add_right hfields 2) (by decide)

theorem made (h : s.Within d) (guids : List Guid) : (s.made guids).Within d where
  skeleton := h.skeleton
  fields guid := by
    simp only [record_made]
    exact h.fields guid

theorem absorbed (h : s.Within d) {ids : IdIndex} {fields : List (String × Value)}
    {requestor : Option QueryKey} (hfields : (Value.map fields).nesting ≤ d) :
    (s.absorbed ids fields requestor).Within d where
  skeleton := h.skeleton
  fields guid := by
    simp only [record_absorbed]
    split
    · exact nestingFields_merged_le ids (h.fields guid) hfields
    · exact h.fields guid

theorem stored (h : s.Within d) {e : Entry} {n : Skeleton} (q : QueryKey) (hroot : e.root = some n)
    (hlevels : n.nesting ≤ 2 * d) : (s.stored q e).Within d where
  skeleton := by
    intro q' e' n' hentry hroot'
    simp only [Holdings.stored, Dict.get?_insert] at hentry
    split at hentry
    · cases hentry
      cases hroot.symm.trans hroot'
      exact hlevels
    · exact h.skeleton hentry hroot'
  fields := h.fields

theorem accessed (h : s.Within d) (now : Time) (q : QueryKey) : (s.accessed now q).Within d where
  skeleton := by
    intro q' e n hentry hroot
    simp only [get?_accessed] at hentry
    split at hentry
    · rcases Option.map_eq_some_iff.mp hentry with ⟨e₀, he₀, rfl⟩
      exact h.skeleton he₀ hroot
    · exact h.skeleton hentry hroot
  fields := h.fields

theorem post (h : s.Within d) (config : Config) {e : Posting} (he : e.response.data.nesting ≤ d) :
    (ledger.post config e s).2.Within d := by
  cases hdata : e.response.data.isMap with
  | false =>
      simp only [Ledger.post_other _ config hdata]
      exact h.made _
  | true =>
      rcases exists_fields_of_isMap hdata with ⟨fields, hfields⟩
      simp only [Ledger.post_map _ config hfields]
      simp only [hfields] at he
      exact (h.absorbed he).stored e.query rfl
        (Nat.le_trans (nesting_skeletonOf_le e.response.ids fields) (Nat.mul_le_mul_left 2 he))

theorem perform (h : s.Within d) (config : Config) {o : Operation} (ho : o.Within d) :
    (ledger.perform config o s).2.Within d := by
  cases o with
  | write e =>
      exact h.post config ho
  | read now q =>
      exact h.accessed now q
  | lookup now q policy =>
      cases policy with
      | serverOnly =>
          exact h
      | preferCache =>
          exact h.accessed now q
      | cacheOnly =>
          exact h.accessed now q
  | stats now =>
      exact h

theorem performAll (config : Config) (run : List Operation) : ∀ {s : Holdings}, s.Within d →
    (∀ o ∈ run, o.Within d) →
      (ledger.performAll (run.map (fun o => (config, o))) s).2.Within d := by
  induction run with
  | nil =>
      intro s h _
      exact h
  | cons o rest ih =>
      intro s h hrun
      rcases List.forall_mem_cons.mp hrun with ⟨ho, hrest⟩
      exact ih (h.perform config ho) hrest

end MemoryStore.Holdings.Within

/-! ## Through a cache -/

variable {c : Cache} {r : StoreRef} {n : Nat} {w : World Vault}

/-- A run through a cache on a new store in memory. -/
theorem Cache.performAll_memory (run : List Operation) (hstore : c.store? = some r)
    (hr : r.store = .memory n) (hguards : r.guards = []) (hempty : w.store.memory n = .empty) :
    ∃ c' w', c.performAll run w =
        (((MemoryStore.ledger.performAll (run.map (fun o => (c.config, o))) .empty).1, c'), w') ∧
      MemoryStore.Settled (w'.focus (Vault.memory n))
        (MemoryStore.ledger.performAll (run.map (fun o => (c.config, o))) .empty).2 :=
  performAll_of_keeps (StoreRef.backend_mirrors_memory hr hguards) MemoryStore.keeps run hstore
    (MemoryStore.settled_empty hempty)

/-- Results with no more than sixty-three levels leave nothing that a reader does not follow. -/
theorem Cache.shallow_performAll (run : List Operation) (hstore : c.store? = some r)
    (hr : r.store = .memory n) (hguards : r.guards = []) (hempty : w.store.memory n = .empty)
    (hlevels : ∀ o ∈ run, o.Within 63) :
    let v := (c.performAll run w).2.focus (Vault.memory n)
    Shallow v.store.trees.get? v.records.get? := by
  rcases performAll_memory run hstore hr hguards hempty with ⟨c', w', hrun, hw'⟩
  have hholdings := MemoryStore.Holdings.Within.performAll c.config run (.empty 63) hlevels
  simp only [hrun, hw'.trees, funext hw'.records]
  exact hholdings.shallow

end EntityCache
