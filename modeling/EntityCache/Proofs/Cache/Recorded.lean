import EntityCache.Proofs.Cache.Agreement

/-!
# What runs of operations leave

A run of operations leaves in a store what its writes alone say, however often it is read in
between:

* `postings`: the writes of a run.
* `MemoryStore.Holdings.Records`: a store in memory holds what a run of writes has left; kept by
  every operation.
* `Posting.Legible`: a reader follows everything that a write stores; so everything that a run of
  such writes leaves is shallow.
* `Fresh`: a cache on a new store of either kind.
* `Fresh.shown`: what a query shows after a run is `shown` of its writes.
-/

namespace EntityCache

open Normalize
open FileStore (Contents)
open MemoryStore (Holdings)

/-! ## Writes of a run -/

/-- The write among operations. -/
def Operation.posting? : Operation → Option Posting
  | .write e => some e
  | _ => none

/-- The writes of a run, in order. -/
def postings (run : List Operation) : List Posting :=
  run.filterMap Operation.posting?

theorem mem_of_latest? {run : List Posting} {q : QueryKey} {e : Posting} {n : Skeleton} :
    latest? run q = some (e, n) → e ∈ run ∧ e.skeleton? = some n := by
  intro h
  rcases List.exists_of_findSome?_eq_some h with ⟨e', hmem, hfound⟩
  split at hfound
  · rcases Option.map_eq_some_iff.mp hfound with ⟨n', hskeleton, hsame⟩
    cases hsame
    exact ⟨List.mem_reverse.mp hmem, hskeleton⟩
  · cases hfound

/-- The value that was written last was the last one of some write. -/
theorem mem_of_get?_written {guid : Guid} {k : String} {v : Value} (run : List Posting) :
    Assoc.get? (guid, k) (written run).reverse = some v →
      ∃ e ∈ run, Assoc.get? (guid, k) e.assignments.reverse = some v := by
  intro h
  induction run with
  | nil =>
      cases h
  | cons e rest ih =>
      have hsplit : written (e :: rest) = e.assignments ++ written rest := rfl
      simp only [hsplit, List.reverse_append, Assoc.get?_append] at h
      rcases Option.or_eq_some_iff.mp h with hlater | ⟨-, hnow⟩
      · rcases ih hlater with ⟨e', he', hget⟩
        exact ⟨e', List.mem_cons_of_mem _ he', hget⟩
      · exact ⟨e, List.mem_cons_self, hnow⟩

/-! ## Stores in memory -/

namespace MemoryStore.Holdings

/-- A store in memory holds what a run of writes has left in it.  When its results were looked at
last does not matter. -/
structure Records (config : Config) (run : List Posting) (s : Holdings) : Prop where
  own : ∀ guid, (s.record guid).guid = guid
  field? : ∀ guid k,
    (s.record guid).fields.get? k = Assoc.get? (guid, k) (written run).reverse
  tree? : ∀ q, (s.trees.get? q).map (fun e => e.touch 0) =
    (latest? run q).map (fun (e, n) => (e.entry config n).touch 0)

namespace Records

variable {config : Config} {run : List Posting} {s : Holdings}

theorem empty (config : Config) : Records config [] .empty where
  own _ := rfl
  field? _ _ := rfl
  tree? _ := rfl

/-- A refused write is recorded: it wrote nothing, and the records that were made are fresh. -/
theorem post_other (h : Records config run s) {e : Posting} (hdata : e.response.data.isMap = false) :
    Records config (run ++ [e]) (ledger.post config e s).2 := by
  have hskeleton : e.skeleton? = none := Posting.skeleton?_of_other hdata
  have hassignments : e.assignments = [] := assignments_of_other e.response.ids hdata
  simp only [Ledger.post_other _ config hdata]
  exact
    { own := by
        intro guid
        simp only [ledger, record_made]
        exact h.own guid
      field? := by
        intro guid k
        simp only [ledger, record_made, written_append, hassignments, List.append_nil]
        exact h.field? guid k
      tree? := by
        intro q
        simp only [latest?_append, hskeleton, Option.map_none, ite_self, Option.none_or]
        exact h.tree? q }

/-- The write of an object is recorded: its values go before those that were written earlier, and
its skeleton takes the place of what the query showed. -/
theorem post_map (h : Records config run s) {e : Posting} {fields : List (String × Value)}
    (hfields : e.response.data = .map fields) :
    Records config (run ++ [e]) (ledger.post config e s).2 := by
  have hskeleton := Posting.skeleton?_of_map hfields
  have hassignments : e.assignments = assignments e.response.ids (.map fields) := by
    simp only [Posting.assignments, hfields]
  simp only [Ledger.post_map _ config hfields]
  exact
    { own := by
        intro guid
        show ((s.absorbed e.response.ids fields e.requestor).record guid).guid = guid
        simp only [record_absorbed]
        split
        · exact h.own guid
        · exact h.own guid
      field? := by
        intro guid k
        show ((s.absorbed e.response.ids fields e.requestor).record guid).fields.get? k = _
        simp only [record_absorbed, written_append, List.reverse_append, Assoc.get?_append,
          hassignments, ← h.field?]
        split
        · simp only [Record.get?_fields_merged, h.own]
          rfl
        · next hguid =>
            -- Only entities of the object are written to.
            simp only [get?_assignments_of_not_mem hguid, Option.none_or]
      tree? := by
        intro q
        show (((s.absorbed e.response.ids fields e.requestor).trees.insert e.query
          (e.entry config (skeletonOf e.response.ids fields))).get? q).map _ = _
        simp only [Dict.get?_insert, latest?_append, hskeleton, Option.map_some]
        by_cases hq : q = e.query
        · simp only [hq, if_true, Option.map_some, Option.some_or]
        · simp only [if_neg hq, if_neg (Ne.symm hq), Option.none_or]
          exact h.tree? q }

/-- One more write is recorded. -/
theorem post (h : Records config run s) (e : Posting) :
    Records config (run ++ [e]) (ledger.post config e s).2 := by
  cases hdata : e.response.data.isMap with
  | false =>
      exact h.post_other hdata
  | true =>
      rcases exists_fields_of_isMap hdata with ⟨fields, hfields⟩
      exact h.post_map hfields

/-- Looking at a result leaves the same. -/
theorem accessed (h : Records config run s) (now : Time) (q : QueryKey) :
    Records config run (s.accessed now q) where
  own := h.own
  field? := h.field?
  tree? q' := by
    have hsame : ((s.accessed now q).trees.get? q').map (fun e => e.touch 0) =
        (s.trees.get? q').map (fun e => e.touch 0) := by
      simp only [get?_accessed]
      split
      · simp only [Option.map_map]
        rfl
      · rfl
    exact hsame.trans (h.tree? q')

/-- Only writes are recorded. -/
theorem append_other (h : Records config run s) {o : Operation} :
    o.posting? = none → Records config (run ++ postings [o]) s := by
  intro ho
  have hnone : postings [o] = [] := List.filterMap_cons_none ho
  simp only [hnone, List.append_nil]
  exact h

theorem perform (h : Records config run s) (o : Operation) :
    Records config (run ++ postings [o]) (ledger.perform config o s).2 := by
  cases o with
  | write e =>
      exact h.post e
  | read now q =>
      exact (h.accessed now q).append_other rfl
  | lookup now q policy =>
      cases policy with
      | serverOnly =>
          exact h.append_other rfl
      | preferCache =>
          exact (h.accessed now q).append_other rfl
      | cacheOnly =>
          exact (h.accessed now q).append_other rfl
  | stats now =>
      exact h.append_other rfl

/-- A store shows what the run that it records shows. -/
theorem shown_eq (h : Records config run s) (now : Time) {q : QueryKey}
    (hordered : ∀ e, lastStored? run q = some e → e.response.data.Ordered) :
    ledger.shown now q s = shown config run now q := by
  -- The records hold the values that were written last, so they assemble to the same.
  have hview : ∀ n, assemble s.view n = assemble (lastWritten run) n := by
    intro n
    refine assemble_congr n fun guid _ => ?_
    have hfields : (s.view guid).getD [] = (s.record guid).fields.bindings := by
      simp only [view, record]
      cases s.records.get? guid <;> rfl
    simp only [hfields]
    refine Assoc.eq_of_get?_eq (s.record guid).fields.sorted (Assoc.sorted_ofList _) fun k => ?_
    exact (h.field? guid k).trans (get?_lastWritten run guid k).symm
  have htree := h.tree? q
  simp only [ledger, resultOf, EntityCache.shown_eq config now hordered]
  cases hlatest : latest? run q with
  | none =>
      simp only [hlatest, Option.map_none, Option.map_eq_none_iff] at htree
      simp only [htree, Option.bind_none, Option.map_none]
  | some found =>
      rcases found with ⟨e, n⟩
      simp only [hlatest, Option.map_some] at htree
      rcases Option.map_eq_some_iff.mp htree with ⟨e', hentry, hsame⟩
      -- The entries differ in the time of access at most.
      have hback : (e'.touch 0).touch e'.lastAccessed =
          ((e.entry config n).touch 0).touch e'.lastAccessed := by rw [hsame]
      have hkept : ∃ t, e' = (e.entry config n).touch t := ⟨e'.lastAccessed, hback⟩
      rcases hkept with ⟨t, rfl⟩
      have hroot : ((e.entry config n).touch t).root? = .ok n := rfl
      simp only [hentry, Option.bind_some, hroot, hview, Option.map_some]
      rfl

end Records
end MemoryStore.Holdings

/-! ## Writes that a reader follows -/

/-- A reader follows everything that a write stores: a result that reads back but for its marks, a
time of 64 bits, and no more levels than a reader has room for. -/
structure Posting.Legible (e : Posting) : Prop where
  stable : e.response.data.Stable
  timely : Entry.Timely e.time
  skeleton : ∀ {n}, e.skeleton? = some n → n.nesting ≤ Json.maxRoom
  field : ∀ {guid k v}, Assoc.get? (guid, k) e.assignments.reverse = some v →
    v.nesting + 2 ≤ Json.maxRoom

/-- A reader follows such results with no more than sixty-three levels. -/
theorem Posting.legible_of_nesting {e : Posting} (hstable : e.response.data.Stable)
    (htime : Entry.Timely e.time) (hlevels : e.response.data.nesting ≤ 63) : e.Legible where
  stable := hstable
  timely := htime
  skeleton := by
    intro n hn
    rcases exists_fields_of_skeleton hn with ⟨fields, hfields, rfl⟩
    simp only [hfields] at hlevels
    exact Nat.le_trans (nesting_skeletonOf_le e.response.ids fields)
      (Nat.le_trans (Nat.mul_le_mul_left 2 hlevels) (by decide))
  field := by
    intro guid k v hget
    have hmem := Assoc.mem_of_get?_reverse hget
    have hvalue : v.nesting ≤ 63 := by
      simp only [assignments, Normalize.assignments] at hmem
      split at hmem
      · next fields hfields =>
          simp only [hfields] at hlevels
          exact assigned_of_hereditary (Value.hereditary_nesting_le 63) hlevels hmem
      · cases hmem
    exact Nat.le_trans (Nat.add_le_add_right hvalue 2) (by decide)

/-- What such writes leave is shallow. -/
theorem MemoryStore.Holdings.Records.shallow {config : Config} {run : List Posting} {s : Holdings}
    (h : s.Records config run) (hlegible : ∀ e ∈ run, e.Legible) :
    Shallow s.trees.get? s.records.get? where
  skeleton := by
    intro q e n hentry hroot
    -- The entry comes from the query's last write, and each field from a last write as well.
    have htree := h.tree? q
    simp only [hentry, Option.map_some] at htree
    rcases Option.map_eq_some_iff.mp htree.symm with ⟨⟨e₀, n₀⟩, hlatest, hsame⟩
    have hroot' : some n₀ = some n := (congrArg Entry.root hsame).trans hroot
    rcases mem_of_latest? hlatest with ⟨hmem, hskeleton⟩
    exact (hlegible e₀ hmem).skeleton (hskeleton.trans hroot')
  snapshot := by
    intro guid r hr
    have hrecord : s.record guid = r := by
      simp only [Holdings.record, hr, Option.getD_some]
    have hfields : Value.nestingFields r.fields.bindings ≤ Json.maxRoom - 2 := by
      refine Value.nestingFields_le_iff.mpr fun b hb => ?_
      have hget := h.field? guid b.1
      simp only [hrecord, Dict.get?_eq_some_iff.mpr hb] at hget
      rcases mem_of_get?_written run hget.symm with ⟨e, he, hlast⟩
      exact Nat.le_sub_of_add_le ((hlegible e he).field hlast)
    exact Nat.add_le_of_le_sub (by decide) hfields

theorem Operation.stable_of_legible {o : Operation} :
    (∀ e ∈ postings [o], e.Legible) → o.Stable := by
  intro h
  cases o with
  | write e =>
      have he := h e List.mem_cons_self
      exact ⟨he.stable, he.timely⟩
  | _ =>
      trivial

/-! ## Runs -/

theorem postings_cons (o : Operation) (rest : List Operation) :
    postings (o :: rest) = postings [o] ++ postings rest :=
  List.filterMap_append (l := [o])

/-- What every operation keeps, given the writes before it, holds after a run. -/
theorem Ledger.performAll_induction {S : Type} (l : Ledger S) {config : Config}
    {P : List Posting → S → Prop}
    (hstep : ∀ {posted : List Posting} {s : S} (o : Operation), P posted s →
      P (posted ++ postings [o]) (l.perform config o s).2) (run : List Operation) :
    ∀ {posted : List Posting} {s : S}, P posted s →
      P (posted ++ postings run) (l.performAll (run.map (fun o => (config, o))) s).2 := by
  induction run with
  | nil =>
      intro posted s h
      simp only [postings, List.filterMap_nil, List.append_nil]
      exact h
  | cons o rest ih =>
      intro posted s h
      have hlater := ih (hstep o h)
      simp only [List.append_assoc, ← postings_cons] at hlater
      exact hlater

namespace MemoryStore.Holdings.Records

variable {config : Config}

theorem performAll (run : List Operation) {posted : List Posting} {s : Holdings}
    (h : s.Records config posted) :
    (ledger.performAll (run.map (fun o => (config, o))) s).2.Records config
      (posted ++ postings run) :=
  ledger.performAll_induction (P := fun posted s => s.Records config posted)
    (fun o h => h.perform o) run h

/-- A file keeps up with a store in memory along a run of writes that a reader follows. -/
theorem matches_performAll (run : List Operation) : ∀ {posted : List Posting} {s : Holdings}
    {t : Contents}, s.Records config posted → Matches s t →
    (∀ e ∈ posted ++ postings run, e.Legible) →
      Matches (ledger.performAll (run.map (fun o => (config, o))) s).2
        (FileStore.ledger.performAll (run.map (fun o => (config, o))) t).2 := by
  induction run with
  | nil =>
      intro posted s t _ hmatches _
      exact hmatches
  | cons o rest ih =>
      intro posted s t h hmatches hlegible
      simp only [postings_cons o rest, ← List.append_assoc] at hlegible
      have hfirst := h.perform o
      have hposted : ∀ e ∈ posted ++ postings [o], e.Legible := by
        intro e he
        exact hlegible e (List.mem_append_left _ he)
      have hstable : o.Stable := Operation.stable_of_legible fun e he =>
        hposted e (List.mem_append_right _ he)
      exact ih hfirst (hmatches.perform config hstable (hfirst.shallow hposted)).2 hlegible

end MemoryStore.Holdings.Records

theorem Ledger.performAll_append {S : Type} (l : Ledger S) (run : List (Config × Operation))
    (last : Config × Operation) : ∀ s : S, l.performAll (run ++ [last]) s =
      ((l.performAll run s).1 ++ [(l.perform last.1 last.2 (l.performAll run s).2).1],
        (l.perform last.1 last.2 (l.performAll run s).2).2) := by
  induction run with
  | nil =>
      intro s
      rfl
  | cons first rest ih =>
      intro s
      rcases first with ⟨config, o⟩
      simp only [List.cons_append, performAll_cons, ih]

/-! ## Caches on new stores -/

/-- A cache on a new store, and a run of which the store keeps everything: any in memory, and in a
file one whose writes a reader follows. -/
inductive Fresh (c : Cache) (w : World Vault) (run : List Operation) : Prop where
  | memory {r : StoreRef} {n : Nat} :
      c.store? = some r → r.store = .memory n → r.guards = [] → w.store.memory n = .empty →
        Fresh c w run
  | file {r : StoreRef} {n : Nat} :
      c.store? = some r → r.store = .file n → r.guards = [] →
        FileStore.Settled (w.focus (Vault.connected n)) .empty →
        (∀ e ∈ postings run, e.Legible) → Fresh c w run

/-- After a run on a new store a query shows what the writes of the run say. -/
theorem Fresh.last_shown {c : Cache} {w : World Vault} {run : List Operation} (h : Fresh c w run)
    (hordered : ∀ e ∈ postings run, e.response.data.Ordered) (now : Time) (q : QueryKey) :
    (c.performAll (run ++ [.read now q]) w).1.1.getLast? =
      some (.shown (shown c.config (postings run) now q)) := by
  have hrecords := (Holdings.Records.empty c.config).performAll run
  simp only [List.nil_append] at hrecords
  have hshown := hrecords.shown_eq now (q := q) fun e he => hordered e (mem_of_lastStored? he).1
  cases h with
  | memory hstore hr hguards hempty =>
      rcases Cache.performAll_memory (run ++ [.read now q]) hstore hr hguards hempty with
        ⟨c', w', hrun, -⟩
      simp only [hrun, List.map_append, List.map_cons, List.map_nil, Ledger.performAll_append,
        List.getLast?_append, List.getLast?_singleton, Option.some_or]
      exact congrArg (fun result => some (Outcome.shown result)) hshown
  | file hstore hr hguards hsettled hlegible =>
      rcases Cache.performAll_of_keeps (StoreRef.backend_mirrors_file hr hguards) FileStore.keeps
        (run ++ [.read now q]) hstore hsettled with ⟨c', w', hrun, -⟩
      have hmatches := Holdings.Records.matches_performAll run (.empty c.config) .empty hlegible
      simp only [hrun, List.map_append, List.map_cons, List.map_nil, Ledger.performAll_append,
        List.getLast?_append, List.getLast?_singleton, Option.some_or]
      exact congrArg (fun result => some (Outcome.shown result))
        ((hmatches.shown_eq now q).symm.trans hshown)

end EntityCache
