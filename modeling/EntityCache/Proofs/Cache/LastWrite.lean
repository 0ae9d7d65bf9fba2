import EntityCache.Proofs.Cache.Postings
import EntityCache.Proofs.Normalize.Merged
import EntityCache.Proofs.Normalize.Spared
import EntityCache.Proofs.Store.Memory

/-!
# The last write counts

A cache on a store in memory is described by the list of its writes alone:

* `written`: the record fields that a run of writes overwrites, in order.
* `lastStored?`: the latest write of a query whose result was an object; `latest?` has its skeleton
  besides.
* `shown`: what a query shows after a run: the result of its own latest write over the values that
  were written last to each entity, by whichever query.
* `shown_eq`: the skeleton of that write is assembled to just that.
* `Reflects`: a store in memory is described by a run; kept by every write.
* `Spared`: the paths at which a query does not show what a write of another one has written.
* `read_postAll`: after a run of writes a cache shows what the run says, and one more write of
  another query changes nothing of it at spared paths.
-/

namespace EntityCache

open Normalize

/-! ## Runs as data -/

/-- The record fields that a run overwrites, in order. -/
def written (run : List Posting) : List Assignment :=
  run.flatMap Posting.assignments

/-- The latest write of `q` that was not refused, with its skeleton. -/
def latest? (run : List Posting) (q : QueryKey) : Option (Posting × Skeleton) :=
  run.reverse.findSome? (fun e => if e.query = q then e.skeleton?.map (fun n => (e, n)) else none)

/-- The fields that each entity has after a run. -/
def lastWritten (run : List Posting) : FieldView := fun guid =>
  some (Assoc.ofList ((written run).filterMap (fun a =>
    if a.1.1 = guid then some (a.1.2, a.2) else none)))

/-- The latest write of `q` that was not refused. -/
def lastStored? (run : List Posting) (q : QueryKey) : Option Posting :=
  run.reverse.find? (fun e => decide (e.query = q) && e.response.data.isMap)

/-- What `q` shows at time `now` after a run. -/
def shown (config : Config) (run : List Posting) (now : Time) (q : QueryKey) :
    Option CachedResult :=
  (lastStored? run q).map (fun e =>
    let ttl := min (e.span config).millis maxTtl
    ⟨q, (overlaid (lastWritten run) e.response.ids e.response.data).plain,
      decide (min (ttl : Int) maxTime < saturate (now - e.time)), ttl, e.time⟩)

theorem written_append (run : List Posting) (e : Posting) :
    written (run ++ [e]) = written run ++ e.assignments := by
  simp [written]

theorem latest?_append (run : List Posting) (e : Posting) (q : QueryKey) :
    latest? (run ++ [e]) q =
      (if e.query = q then e.skeleton?.map (fun n => (e, n)) else none).or (latest? run q) := by
  simp only [latest?, List.reverse_append, List.reverse_cons, List.reverse_nil, List.nil_append,
    List.singleton_append, List.findSome?_cons]
  cases (if e.query = q then e.skeleton?.map (fun n => (e, n)) else none) with
  | none =>
      rfl
  | some found =>
      rfl

theorem get?_lastWritten (run : List Posting) (guid : Guid) (k : String) :
    Assoc.get? k ((lastWritten run guid).getD []) = Assoc.get? (guid, k) (written run).reverse := by
  simp only [lastWritten, Option.getD_some, Assoc.get?_ofList, ← List.filterMap_reverse,
    get?_filterMap_entity]

theorem orderedView_lastWritten (run : List Posting) : OrderedView (lastWritten run) :=
  fun _ => Assoc.sorted_ofList _

/-- A result that was not refused has a skeleton. -/
theorem latest?_eq (run : List Posting) (q : QueryKey) :
    latest? run q = (lastStored? run q).bind (fun e => e.skeleton?.map (fun n => (e, n))) := by
  rw [latest?, lastStored?]
  induction run.reverse with
  | nil =>
      rfl
  | cons e rest ih =>
      rw [List.findSome?_cons, List.find?_cons, ih]
      by_cases hq : e.query = q
      · cases hdata : e.response.data.isMap with
        | false =>
            simp [hq, Posting.skeleton?_of_other hdata]
        | true =>
            rcases exists_fields_of_isMap hdata with ⟨fields, hfields⟩
            simp [hq, Posting.skeleton?_of_map hfields]
      · simp [hq]

theorem mem_of_lastStored? {run : List Posting} {q : QueryKey} {e : Posting} :
    lastStored? run q = some e → e ∈ run ∧ ∃ fields, e.response.data = .map fields := by
  intro h
  have hfound := List.find?_some h
  rw [Bool.and_eq_true] at hfound
  exact ⟨List.mem_reverse.mp (List.mem_of_find?_eq_some h), exists_fields_of_isMap hfound.2⟩

/-- A query shows its latest skeleton, assembled from the values that were written last. -/
theorem shown_eq (config : Config) {run : List Posting} (now : Time) {q : QueryKey}
    (hordered : ∀ e, lastStored? run q = some e → e.response.data.Ordered) :
    shown config run now q = (latest? run q).map (fun (e, n) =>
      let entry := e.entry config n
      ⟨q, (assemble (lastWritten run) n).plain, entry.isStaleAt now, entry.ttl,
        entry.cachedAt⟩) := by
  rw [shown, latest?_eq]
  cases hlast : lastStored? run q with
  | none =>
      rfl
  | some e =>
      rcases mem_of_lastStored? hlast with ⟨-, fields, hfields⟩
      have hresult := hordered e hlast
      rw [hfields] at hresult
      have hskeleton := assemble_objectAt e.response.ids (orderedView_lastWritten run)
        (p := Path.root) hresult
      rw [Option.map_some, Option.bind_some, Posting.skeleton?_of_map hfields, hfields, overlaid,
        ← hskeleton]
      rfl

/-! ## Stores in memory -/

/-- A store in memory holds what a run of writes has left in it. -/
structure Reflects (config : Config) (run : List Posting) (w : World MemoryStore) : Prop where
  keyed : w.records.Keyed
  field? : ∀ guid k, w.records.field? guid k = Assoc.get? (guid, k) (written run).reverse
  tree? : ∀ q, w.store.trees.get? q = (latest? run q).map (fun (e, n) => e.entry config n)

namespace MemoryStore

/-- What a write leaves behind in memory, whether its result was refused or not. -/
theorem post_apply {w : World MemoryStore} (hw : w.records.Keyed) (config : Config) (u : Upkeep)
    (e : Posting) : ∃ outcome u' w', backend.post config u e w = ((outcome, u'), w') ∧
      RecordSet.Absorbs e.response.data e.response.ids e.requestor w.records w'.records ∧
      ∀ q, w'.store.trees.get? q =
        ((if e.query = q then e.skeleton? else none).map (e.entry config)).or
          (w.store.trees.get? q) := by
  have hcounts : ∀ w : World MemoryStore, backend.counts w = (.ok w.store.counts, w) := by
    intro w
    rfl
  have hw' : (w.setTime e.time).records.Keyed := hw
  cases hdata : e.response.data.isMap with
  -- Refused: records were made for the ids in the result, and nothing is stored.
  | false =>
      have hskeleton : e.skeleton? = none := Posting.skeleton?_of_other hdata
      rcases absorb_other hw' e.response.ids e.requestor hdata with
        ⟨failure, w₁, habsorb, habsorbs, htrees, -⟩
      rcases Backend.write_of_failed config e.query u habsorb with ⟨signals, hwrite⟩
      rcases Backend.review_apply (hcounts _) u config.maxEntries with ⟨u₂, signals', hreview⟩
      refine ⟨_, _, _, Backend.post_eq hwrite hreview, habsorbs, ?_⟩
      intro q
      simp only [hskeleton, ite_self, Option.map_none, Option.none_or]
      show w₁.store.trees.get? q = w.store.trees.get? q
      simp only [htrees]
      rfl
  -- Absorbed and stored: neither can fail in memory.
  | true =>
      rcases exists_fields_of_isMap hdata with ⟨fields, hfields⟩
      have hskeleton := Posting.skeleton?_of_map hfields
      rcases absorb_map hw' fields e.response.ids e.requestor with
        ⟨pass, w₁, habsorb, habsorbs, htrees, hnow, hroot, -⟩
      simp only [← hfields] at habsorb habsorbs
      rcases Backend.write_of_stored config e.query u habsorb rfl with ⟨u₁, signals, hwrite⟩
      rcases Backend.review_apply (hcounts _) u₁ config.maxEntries with ⟨u₂, signals', hreview⟩
      refine ⟨_, _, _, Backend.post_eq hwrite hreview, habsorbs, ?_⟩
      intro q
      have hentry : Entry.new e.query pass.root.text (e.span config) (some pass.root) w₁.now =
          e.entry config (skeletonOf e.response.ids fields) := by
        simp only [hroot, hnow]
        rfl
      show (w₁.store.trees.insert e.query (Entry.new e.query pass.root.text (e.span config)
        (some pass.root) w₁.now)).get? q = _
      simp only [Dict.get?_insert, hentry, htrees, hskeleton]
      by_cases hq : e.query = q
      · simp [hq]
      · simp only [if_neg hq, if_neg (Ne.symm hq), Option.map_none, Option.none_or]
        rfl

end MemoryStore

namespace Reflects

variable {config : Config} {run : List Posting} {w : World MemoryStore}

theorem start (hempty : w.store = .empty) : Reflects config [] w := by
  have hhandle : ∀ guid, w.records.handle? guid = none := by
    intro guid
    show w.store.entities.get? guid = none
    simp only [hempty]
    rfl
  exact
    { keyed := RecordSet.keyed_of_index_empty (congrArg MemoryStore.entities hempty)
      field? := by
        intro guid k
        simp only [RecordSet.field?, RecordSet.get?, hhandle]
        rfl
      tree? := by
        intro q
        simp only [hempty]
        rfl }

/-- One more write is reflected. -/
theorem post (h : Reflects config run w) (u : Upkeep) (e : Posting) :
    ∃ outcome u' w', MemoryStore.backend.post config u e w = ((outcome, u'), w') ∧
      Reflects config (run ++ [e]) w' := by
  rcases MemoryStore.post_apply h.keyed config u e with
    ⟨outcome, u', w', hpost, habsorbs, htrees⟩
  refine ⟨outcome, u', w', hpost, ?_⟩
  exact
    { keyed := habsorbs.keyed
      field? := by
        intro guid k
        calc
          w'.records.field? guid k
              = (Assoc.get? (guid, k) e.assignments.reverse).or (w.records.field? guid k) :=
                habsorbs.field? guid k
          _ = (Assoc.get? (guid, k) e.assignments.reverse).or
                (Assoc.get? (guid, k) (written run).reverse) := by rw [h.field?]
          _ = Assoc.get? (guid, k) (written (run ++ [e])).reverse := by
                rw [written_append, List.reverse_append, Assoc.get?_append]
      tree? := by
        intro q
        simp only [htrees, h.tree?, latest?_append]
        -- The last write of a query decides which tree is stored for it.
        by_cases hq : e.query = q
        · cases e.skeleton? <;> simp [hq]
        · simp [hq] }

/-- A store shows what the run that it reflects shows. -/
theorem read (h : Reflects config run w) {q : QueryKey}
    (hordered : ∀ e, lastStored? run q = some e → e.response.data.Ordered) :
    (MemoryStore.backend.read q w).1 = shown config run w.now q := by
  -- The records hold the values that were written last, so they assemble to the same.
  have hview : ∀ n, assemble w.records.view n = assemble (lastWritten run) n := by
    intro n
    refine assemble_congr n ?_
    intro guid _
    refine Assoc.eq_of_get?_eq (sorted_view w.records guid) (Assoc.sorted_ofList _) ?_
    intro k
    calc
      Assoc.get? k ((w.records.view guid).getD []) = w.records.field? guid k := get?_view ..
      _ = Assoc.get? (guid, k) (written run).reverse := h.field? guid k
      _ = Assoc.get? k ((lastWritten run guid).getD []) := (get?_lastWritten run guid k).symm
  rcases MemoryStore.read_apply q w with ⟨w', hread, -⟩
  simp only [hread, MemoryStore.resultOf, h.tree?, shown_eq config w.now hordered]
  cases latest? run q with
  | none =>
      rfl
  | some found =>
      rcases found with ⟨e, n⟩
      simp only [Option.map_some, Option.bind_some]
      simp only [show (e.entry config n).root? = .ok n from rfl, ← hview n]
      rfl

end Reflects

/-! ## Through a cache -/

theorem reflects_postAll {r : StoreRef} {n : Nat} (hr : r.store = .memory n)
    (hguards : r.guards = []) (rest : List Posting) :
    ∀ (run : List Posting) (c : Cache) (w : World Vault), c.store? = some r →
      Reflects c.config run (w.focus (Vault.memory n)) →
      ∃ c' w', c.postAll rest w = (c', w') ∧ c'.store? = some r ∧ c'.config = c.config ∧
        Reflects c.config (run ++ rest) (w'.focus (Vault.memory n)) := by
  have hmirrors := StoreRef.backend_mirrors_memory hr hguards
  induction rest with
  | nil =>
      intro run c w hstore hreflects
      refine ⟨c, w, rfl, hstore, rfl, ?_⟩
      simp only [List.append_nil]
      exact hreflects
  | cons e rest ih =>
      intro run c w hstore hreflects
      rcases hreflects.post c.upkeep e with ⟨outcome, u', v, hpost, hnext⟩
      rcases (hmirrors.post c.config c.upkeep e).eq hpost with ⟨w₁, hpost', rfl⟩
      obtain ⟨c', w', hrest, hstore', hconfig, hlast⟩ :=
        -- A write changes nothing of the cache but what is kept up.
        ih (run ++ [e]) { c with upkeep := u' } w₁ hstore hnext
      refine ⟨c', w', ?_, hstore', hconfig, ?_⟩
      · simp only [Cache.postAll_cons (Cache.post_apply hstore e hpost'), hrest]
      · simp only [List.append_assoc] at hlast
        exact hlast

/-! ## What other queries change -/

/-- What a cache shows of `q` at time `now` after a run of writes. -/
def Cache.shownAfter (c : Cache) (run : List Posting) (w : World Vault) (now : Time)
    (q : QueryKey) : Option CachedResult :=
  ((c.postAll run w).1.read q ((c.postAll run w).2.setTime now)).1

theorem shownAfter_eq {c : Cache} {r : StoreRef} {n : Nat} {w : World Vault} {run : List Posting}
    (hstore : c.store? = some r) (hmemory : r.store = .memory n) (hguards : r.guards = [])
    (hempty : w.store.memory n = .empty) {q : QueryKey}
    (hordered : ∀ e, lastStored? run q = some e → e.response.data.Ordered) (now : Time) :
    c.shownAfter run w now q = shown c.config run now q := by
  rcases reflects_postAll hmemory hguards run [] c w hstore (Reflects.start hempty) with
    ⟨c', w', hrun, hstore', -, hreflects⟩
  have hmirrors := StoreRef.backend_mirrors_memory hmemory hguards
  have hread : c'.read q (w'.setTime now) = r.backend.read q (w'.setTime now) := by
    simp only [Cache.read, hstore']
  have htime : Reflects c.config run ((w'.setTime now).focus (Vault.memory n)) := by
    exact ⟨hreflects.keyed, hreflects.field?, hreflects.tree?⟩
  simp only [Cache.shownAfter, hrun, hread, (hmirrors.read q (w'.setTime now)).1,
    htime.read hordered]
  rfl

/-- Two results of a query differ in the data alone, and in these at no path with `P`. -/
structure CachedResult.AgreesOn (P : Path → Prop) (r r' : CachedResult) : Prop where
  query : r'.query = r.query
  stale : r'.stale = r.stale
  ttl : r'.ttl = r.ttl
  cachedAt : r'.cachedAt = r.cachedAt
  data : ∀ p, P p → r'.data.at? p = r.data.at? p

/-- At a path a query shows nothing that `e` writes: the path meets no field of a record that `e`
writes and that the latest result of the query exposes. -/
def Spared (run : List Posting) (q : QueryKey) (e : Posting) (p : Path) : Prop :=
  ∀ own, lastStored? run q = some own →
    Spares own.response.ids (fun field => ∃ v, (field, v) ∈ e.assignments)
      (placed own.response.data) p

theorem lastStored?_append {q : QueryKey} {e : Posting} (run : List Posting) (he : e.query ≠ q) :
    lastStored? (run ++ [e]) q = lastStored? run q := by
  rw [lastStored?, lastStored?, List.reverse_concat, List.find?_cons_of_neg]
  simp [he]

/-- What a write does not assign stays as it was written last. -/
theorem get?_lastWritten_append (run : List Posting) (e : Posting) {guid : Guid} {k : String}
    (hother : ¬ ∃ v, ((guid, k), v) ∈ e.assignments) :
    Assoc.get? k ((lastWritten run guid).getD []) =
      Assoc.get? k ((lastWritten (run ++ [e]) guid).getD []) := by
  have hnone : Assoc.get? (guid, k) e.assignments.reverse = none :=
    Assoc.get?_reverse_eq_none fun v hv => hother ⟨v, hv⟩
  rw [get?_lastWritten, get?_lastWritten, written_append, List.reverse_append, Assoc.get?_append,
    hnone, Option.none_or]

/-- After a write of another query `q` shows the same result, and at spared paths the same data. -/
theorem agreesOn_shown_append (config : Config) {run : List Posting} (now : Time) {q : QueryKey}
    (hordered : ∀ e, lastStored? run q = some e → e.response.data.Ordered) {e : Posting}
    (he : e.query ≠ q) :
    Option.Rel (CachedResult.AgreesOn (Spared run q e)) (shown config run now q)
      (shown config (run ++ [e]) now q) := by
  rw [shown, shown, lastStored?_append run he]
  cases hown : lastStored? run q with
  | none =>
      exact .none
  | some own =>
      refine .some ⟨rfl, rfl, rfl, rfl, fun p hspared => ?_⟩
      have hsame := at?_overlaid_congr (orderedView_lastWritten run)
        (orderedView_lastWritten (run ++ [e])) (hordered own hown)
        (fun _ _ hother => get?_lastWritten_append run e hother) (hspared own hown)
      simp only [Value.at?_plain, hsame]

/-- After any run of writes through a cache on a new store in memory, every query shows the result
of its own latest write: each object that an entity backs shows the values written last to the
entity, by whichever query, and over these its own nested objects and lists of objects; any other
object shows its own values.  A further write of another query changes nothing of that, but for the
values that it writes itself, where the query exposes them.  That the keys of a result ascend is the
form in which the fields of any object are held. -/
theorem read_postAll (c : Cache) (r : StoreRef) (n : Nat) (w : World Vault) (run : List Posting)
    (hstore : c.store? = some r) (hmemory : r.store = .memory n) (hguards : r.guards = [])
    (hempty : w.store.memory n = .empty) (hordered : ∀ e ∈ run, e.response.data.Ordered)
    (now : Time) (q : QueryKey) :
    c.shownAfter run w now q = shown c.config run now q ∧
      ∀ e : Posting, e.query ≠ q →
        Option.Rel (CachedResult.AgreesOn (Spared run q e)) (c.shownAfter run w now q)
          (c.shownAfter (run ++ [e]) w now q) := by
  have hown : ∀ e, lastStored? run q = some e → e.response.data.Ordered :=
    fun e he => hordered e (mem_of_lastStored? he).1
  have hshown := shownAfter_eq hstore hmemory hguards hempty hown now
  refine ⟨hshown, fun e he => ?_⟩
  have hlater : c.shownAfter (run ++ [e]) w now q = shown c.config (run ++ [e]) now q := by
    refine shownAfter_eq hstore hmemory hguards hempty ?_ now
    -- The latest result of the query is still the same.
    rw [lastStored?_append run he]
    exact hown
  rw [hshown, hlater]
  exact agreesOn_shown_append c.config now hown he

/-- The cache of a user on a store in memory. -/
def memoryCache : Cache :=
  { Cache.new .default false with
    target := .ready ⟨Scope.of .memory "shop" none "local", .memory 0, []⟩ }

/-- Two queries that share an item, and a result that is no object. -/
def sharedRun : List Posting :=
  [⟨1, "list", ⟨.map [("items", .list
      [.map [("id", .id "P1"), ("owner", .null), ("price", .num (.int 3))]])], none, .empty⟩,
      some "list"⟩,
    ⟨2, "item", ⟨.map [("id", .id "P1"), ("owner", .map [("name", .str "Ada")]),
      ("price", .num (.int 5))], none, .empty⟩, some "item"⟩,
    ⟨3, "list", ⟨.list [.map [("id", .id "P1"), ("price", .num (.int 7))]], none, .empty⟩, none⟩]

theorem ordered_sharedRun : ∀ e ∈ sharedRun, e.response.data.Ordered := by
  simp only [sharedRun, List.forall_mem_cons, List.not_mem_nil, false_implies,
    implies_true, and_true, Value.Ordered, Value.OrderedFields, Value.OrderedItems, Assoc.Sorted,
    true_and]
  decide

theorem lastWritten_sharedRun : lastWritten sharedRun "P1" =
    some [("id", .id "P1"), ("owner", .null), ("price", .num (.int 5))] := by
  simp [lastWritten, written, sharedRun, Posting.assignments, assignments, assignmentsFrom,
    assignmentsIn, assignmentsAmong, objectId?, IdIndex.get?, IdIndex.empty, Value.idAmong,
    assigned, Value.isKept, Value.isMap]
  rfl

/-- The list and the item as their own queries report them. -/
def listFields : List (String × Value) :=
  [("items", .list [.map [("id", .id "P1"), ("owner", .null), ("price", .num (.int 3))]])]

def itemFields : List (String × Value) :=
  [("id", .id "P1"), ("owner", .map [("name", .str "Ada")]), ("price", .num (.int 5))]

theorem lastStored?_sharedRun :
    lastStored? sharedRun "list" = some ⟨1, "list", ⟨.map listFields, none, .empty⟩, some "list"⟩ ∧
    lastStored? sharedRun "item" =
      some ⟨2, "item", ⟨.map itemFields, none, .empty⟩, some "item"⟩ := by
  simp [lastStored?, sharedRun, Value.isMap, listFields, itemFields]

/-- Over the values written last the list shows the new price, and the item its own owner. -/
theorem overlaid_sharedRun :
    overlaid (lastWritten sharedRun) .empty (.map listFields) =
      .map [("items", .list
        [.map [("id", .id "P1"), ("owner", .null), ("price", .num (.int 5))]])] ∧
    overlaid (lastWritten sharedRun) .empty (.map itemFields) =
      .map [("id", .id "P1"), ("owner", .map [("name", .str "Ada")]),
        ("price", .num (.int 5))] := by
  constructor
  · simp [listFields, overlaid, overlaidAt, nestedIn, nestedAmong, ground, Value.isInline,
      Value.isKept, Value.isMap, objectId?, IdIndex.get?, IdIndex.empty, Value.idAmong,
      lastWritten_sharedRun, Assoc.union, Assoc.insert]
  · simp [itemFields, overlaid, overlaidAt, nestedIn, ground, Value.isInline, Value.isKept,
      objectId?, IdIndex.get?, IdIndex.empty, Value.idAmong, lastWritten_sharedRun, Assoc.union,
      Assoc.insert]
    decide

/-- Another price of the item, and again no owner. -/
def repricedPosting : Posting :=
  ⟨4, "list", ⟨.map [("items", .list
    [.map [("id", .id "P1"), ("owner", .null), ("price", .num (.int 7))]])], none, .empty⟩,
      some "list"⟩

/-- The new price leaves alone what the item shows of its owner, and it is shown itself. -/
theorem spared_repriced : Spared sharedRun "item" repricedPosting [.field "owner"] ∧
    ¬ Spared sharedRun "item" repricedPosting [.field "price"] := by
  have hwritten : repricedPosting.assignments =
      [(("P1", "id"), .id "P1"), (("P1", "owner"), .null), (("P1", "price"), .num (.int 7))] := by
    simp [repricedPosting, Posting.assignments, assignments, assignmentsFrom, assignmentsIn,
      assignmentsAmong, objectId?, IdIndex.get?, IdIndex.empty, Value.idAmong, assigned,
      Value.isKept, Value.isMap]
  have hplaced : placed (.map itemFields) =
      [⟨Path.root, itemFields⟩, ⟨Path.root.field "owner", [("name", .str "Ada")]⟩] := by
    simp [placed, placedFrom, placedIn, itemFields]
  constructor
  · intro e he o ho guid k hexposes hchanged
    cases lastStored?_sharedRun.2.symm.trans he
    rcases hchanged with ⟨v, hv⟩
    simp only [hwritten, hplaced] at hv ho
    rcases List.mem_pair.mp ho with rfl | rfl
    -- The item nests its owner, so it exposes its id and its price alone.
    · have howner : k ≠ "owner" := by
        rintro rfl
        cases hexposes.bare (.map [("name", .str "Ada")]) (by simp [itemFields])
      simp [Path.Meets, Path.field, Path.root, howner, Ne.symm howner]
    · cases hexposes.backed
  · intro hspared
    refine hspared _ lastStored?_sharedRun.2 ⟨Path.root, itemFields⟩ ?_ "P1" "price" ⟨rfl, ?_⟩
      ⟨.num (.int 7), ?_⟩ (Or.inl List.prefix_rfl)
    · rw [hplaced]
      exact List.mem_cons_self
    · simp [itemFields, Value.isKept]
    · simp [hwritten]

/-- The list shows the price that the other query has written, but not its nested owner; the item
shows its owner, not that the list has put that there is none.  That stays so with another price. -/
theorem read_postAll_shared :
    memoryCache.store? = some ⟨Scope.of .memory "shop" none "local", .memory 0, []⟩ ∧
    (∀ e ∈ sharedRun, e.response.data.Ordered) ∧
    (memoryCache.shownAfter sharedRun ⟨.empty, [], [], 0, .empty false⟩ 9 "list").map
        CachedResult.data =
      some (.map [("items", .list
        [.map [("id", .str "P1"), ("owner", .null), ("price", .num (.int 5))]])]) ∧
    (memoryCache.shownAfter sharedRun ⟨.empty, [], [], 0, .empty false⟩ 9 "item").map
        CachedResult.data =
      some (.map [("id", .str "P1"), ("owner", .map [("name", .str "Ada")]),
        ("price", .num (.int 5))]) ∧
    Option.Rel (CachedResult.AgreesOn (Spared sharedRun "item" repricedPosting))
      (memoryCache.shownAfter sharedRun ⟨.empty, [], [], 0, .empty false⟩ 9 "item")
      (memoryCache.shownAfter (sharedRun ++ [repricedPosting]) ⟨.empty, [], [], 0, .empty false⟩ 9
        "item") ∧
    Spared sharedRun "item" repricedPosting [.field "owner"] ∧
    ¬ Spared sharedRun "item" repricedPosting [.field "price"] := by
  have hread := read_postAll memoryCache _ 0 ⟨.empty, [], [], 0, .empty false⟩ sharedRun rfl rfl rfl
    rfl ordered_sharedRun 9
  refine ⟨rfl, ordered_sharedRun, ?_, ?_, (hread "item").2 repricedPosting (by decide),
    spared_repriced⟩
  · rw [(hread "list").1, shown, lastStored?_sharedRun.1]
    simp only [Option.map_some, overlaid_sharedRun.1]
    rfl
  · rw [(hread "item").1, shown, lastStored?_sharedRun.2]
    simp only [Option.map_some, overlaid_sharedRun.2]
    rfl

end EntityCache
