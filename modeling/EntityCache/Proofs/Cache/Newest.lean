import EntityCache.Proofs.Cache.Recorded
import EntityCache.Proofs.Normalize.Placed

/-!
# The newest values show

A query shows the value that was put last on a field of an entity, by whichever query, at every node
of its tree that the entity backs.  Only what its own tree nests in that field shows instead.

* `at?_shown`: the fields of a node in what a query shows after a run of writes.
* `read_newest`: the same after a run of operations through a cache on a new store.
* `nestedRun`, `not_newest_of_nests`: a nested object shows on after another query has put a scalar
  in its place.
-/

namespace EntityCache

open Normalize

/-- After its last assignment a field is not assigned again. -/
theorem Assoc.get?_reverse_of_last {κ α : Type} [DecidableEq κ] {log before after : List (κ × α)}
    {k : κ} {v : α} (hlog : log = before ++ (k, v) :: after) :
    (∀ a ∈ after, a.1 ≠ k) → get? k log.reverse = some v := by
  intro hlast
  have hnone : get? k after.reverse = none :=
    get?_reverse_eq_none fun v' hmem => hlast _ hmem rfl
  simp only [hlog, List.reverse_append, List.reverse_cons, List.append_assoc,
    get?_append, hnone, Option.none_or, List.cons_append, List.nil_append, get?_cons,
    if_pos]

/-- At a node that an entity backs a query shows the value that was put last on the entity's record,
unless its own tree nests something there, which shows instead. -/
theorem at?_shown {posted : List Posting} {q : QueryKey} {e : Posting} {n node : Skeleton}
    {p : Path} {guid : Guid} (config : Config) (now : Time) (k : String)
    (hordered : ∀ e ∈ posted, e.response.data.Ordered) (htree : latest? posted q = some (e, n))
    (hnode : n.NodeAt p node) (hguid : node.guid = some guid) :
    ∃ result, shown config posted now q = some result ∧
      (¬ node.Nests k → result.data.at? (p.field k) =
        (Assoc.get? (guid, k) (written posted).reverse).map Value.plain) ∧
      (node.Nests k → ∃ v, result.data.at? (p.field k) = some v ∧ v.isNested = true) := by
  rcases mem_of_latest? htree with ⟨hmem, hskeleton⟩
  have hseparate : n.Every Skeleton.Separate := by
    rcases Posting.exists_fields_of_skeleton hskeleton with ⟨fields, hfields, rfl⟩
    have hresult := hordered e hmem
    simp only [hfields] at hresult
    exact separate_skeletonOf e.response.ids hresult
  have hview : OrderedView (lastWritten posted) := orderedView_lastWritten posted
  have hshown := shown_eq config now (q := q) fun e he => hordered e (mem_of_lastStored? he).1
  simp only [hshown, htree, Option.map_some, Option.some.injEq, exists_eq_left']
  refine ⟨?_, ?_⟩
  · intro hnests
    simp only [Value.at?_plain, at?_field hview hseparate hnode hguid hnests, get?_lastWritten]
  · intro hnests
    rcases at?_nested (lastWritten posted) hseparate hnode hnests with ⟨v, hv, hnested⟩
    refine ⟨v.plain, ?_, (Value.isNested_plain v).trans hnested⟩
    simp only [Value.at?_plain, hv, Option.map_some]

/-- Once a write of any query has put a value on a field of an entity, and until another write puts
one there, every query shows it (without its mark) at every node of its tree that the entity backs,
through a cache on a new store of either kind.  Only an object or a list of objects that the tree
itself nests in that field shows instead. -/
theorem read_newest {c : Cache} {w : World Vault} {run : List Operation} (hfresh : Fresh c w run)
    (hordered : ∀ e ∈ postings run, e.response.data.Ordered)
    {before after : List Assignment} {guid : Guid} {k : String} {v : Value}
    (hput : written (postings run) = before ++ ((guid, k), v) :: after)
    (hlast : ∀ a ∈ after, a.1 ≠ (guid, k))
    {q : QueryKey} {e : Posting} {n node : Skeleton} {p : Path}
    (htree : latest? (postings run) q = some (e, n)) (hnode : n.NodeAt p node)
    (hguid : node.guid = some guid) (now : Time) :
    ∃ result : CachedResult,
      (c.performAll (run ++ [.read now q]) w).1.1.getLast? = some (.shown (some result)) ∧
      (¬ node.Nests k → result.data.at? (p.field k) = some v.plain) ∧
      (node.Nests k → ∃ nested, result.data.at? (p.field k) = some nested ∧
        nested.isNested = true) := by
  rcases at?_shown c.config now k hordered htree hnode hguid with
    ⟨result, hshown, hfield, hnested⟩
  refine ⟨result, ?_, ?_, hnested⟩
  · simp only [hfresh.last_shown hordered, hshown]
  · intro hnests
    simp only [hfield hnests, Assoc.get?_reverse_of_last hput hlast, Option.map_some]

/-- A query nests an owner in an item of which another query then puts that there is none. -/
def nestedRun : List Operation :=
  [.write ⟨1, "item", ⟨.map [("item", .map [("id", .id "P1"),
      ("owner", .map [("name", .str "Ada")]), ("price", .num (.int 3))])], none, .empty⟩,
        some "item"⟩,
    .write ⟨2, "list", ⟨.map [("items", .list [.map [("id", .id "P1"), ("owner", .null),
      ("price", .num (.int 5))]])], none, .empty⟩, some "list"⟩]

/-- The item in the tree of the first query. -/
def nestedItem : Skeleton :=
  ⟨some "P1", [], [("owner", ⟨none, [("name", .str "Ada")], [], []⟩)], []⟩

theorem written_nestedRun : written (postings nestedRun) =
    [(("P1", "id"), .id "P1"), (("P1", "price"), .num (.int 3)), (("P1", "id"), .id "P1"),
      (("P1", "owner"), .null), (("P1", "price"), .num (.int 5))] := by
  simp [written, postings, nestedRun, Operation.posting?, Posting.assignments, assignments,
    assignmentsFrom, assignmentsIn, assignmentsAmong, objectId?, IdIndex.get?, IdIndex.empty,
    Value.idAmong, assigned, Value.isKept, Value.isMap]

theorem latest?_nestedRun : ∃ e, latest? (postings nestedRun) "item" =
    some (e, ⟨none, [], [("item", nestedItem)], []⟩) := by
  simp [latest?, postings, nestedRun, nestedItem, Operation.posting?, Posting.skeleton?, skeletonOf,
    objectAt, splitFields, Parts.store, Parts.nest, Parts.skeleton,
    Parts.empty, objectId?, IdIndex.get?, IdIndex.empty, Value.idAmong]

theorem nodeAt_nestedItem :
    Skeleton.NodeAt ⟨none, [], [("item", nestedItem)], []⟩ [.field "item"] nestedItem :=
  .ref rfl (.root nestedItem)

theorem exact_nestedRun : ∀ e ∈ postings nestedRun, e.response.data.Exact := by
  have hkeys : Key.before "id" "owner" = true ∧ Key.before "id" "price" = true ∧
      Key.before "owner" "price" = true := by decide
  have hnumbers : (Value.num (.int 3)).Exact ∧ (Value.num (.int 5)).Exact :=
    ⟨Value.exact_int (by decide), Value.exact_int (by decide)⟩
  simp [postings, nestedRun, Operation.posting?, Value.exact_map_iff, Value.exact_list_iff,
    Value.exact_null, Value.exact_str, Value.exact_id, Assoc.Sorted, hkeys, hnumbers]

theorem legible_nestedRun : ∀ e ∈ postings nestedRun, e.Legible := by
  have hshape : ∀ e ∈ postings nestedRun,
      (minTime ≤ e.time ∧ e.time ≤ maxTime) ∧ e.response.data.nesting ≤ 63 := by decide
  intro e he
  rcases hshape e he with ⟨htime, hlevels⟩
  exact Posting.legible_of_nesting (exact_nestedRun e he).stable htime hlevels

/-- The item shows the price that the other query has put last. -/
theorem read_newest_price : ∃ result : CachedResult,
    ((shopCache 1).performAll (nestedRun ++ [.read 9 "item"]) newFile).1.1.getLast? =
        some (.shown (some result)) ∧
      result.data.at? [.field "item", .field "price"] = some (.num (.int 5)) := by
  rcases latest?_nestedRun with ⟨e, htree⟩
  have hfresh : Fresh (shopCache 1) newFile nestedRun :=
    .file rfl rfl rfl settled_newFile legible_nestedRun
  have hordered : ∀ e ∈ postings nestedRun, e.response.data.Ordered := by
    intro e he
    exact (exact_nestedRun e he).ordered
  have hput : written (postings nestedRun) =
      [(("P1", "id"), .id "P1"), (("P1", "price"), .num (.int 3)), (("P1", "id"), .id "P1"),
        (("P1", "owner"), .null)] ++ (("P1", "price"), .num (.int 5)) :: [] := written_nestedRun
  rcases read_newest hfresh hordered hput (by simp) htree nodeAt_nestedItem rfl 9 with
    ⟨result, hresult, hfield, -⟩
  exact ⟨result, hresult, hfield (by decide)⟩

/-- The item shows its owner, not that another query has put last that there is none. -/
theorem not_newest_of_nests :
    Fresh memoryCache ⟨.empty, [], [], 0, .empty false⟩ nestedRun ∧
      ¬ ∀ (before after : List Assignment) (guid : Guid) (k : String) (v : Value) (q : QueryKey)
        (e : Posting) (n node : Skeleton) (p : Path),
        written (postings nestedRun) = before ++ ((guid, k), v) :: after →
        (∀ a ∈ after, a.1 ≠ (guid, k)) → latest? (postings nestedRun) q = some (e, n) →
        n.NodeAt p node → node.guid = some guid →
        ∃ result : CachedResult,
          (memoryCache.performAll (nestedRun ++ [.read 9 q])
            ⟨.empty, [], [], 0, .empty false⟩).1.1.getLast? = some (.shown (some result)) ∧
          result.data.at? (p.field k) = some v.plain := by
  have hfresh : Fresh memoryCache ⟨.empty, [], [], 0, .empty false⟩ nestedRun :=
    .memory rfl rfl rfl rfl
  refine ⟨hfresh, ?_⟩
  intro hnewest
  have hordered : ∀ e ∈ postings nestedRun, e.response.data.Ordered := by
    intro e he
    exact (exact_nestedRun e he).ordered
  rcases latest?_nestedRun with ⟨e, htree⟩
  have hput : written (postings nestedRun) =
      [(("P1", "id"), .id "P1"), (("P1", "price"), .num (.int 3)), (("P1", "id"), .id "P1")] ++
        (("P1", "owner"), .null) :: [(("P1", "price"), .num (.int 5))] := written_nestedRun
  -- What is shown is an object, and what was put is none.
  rcases hnewest _ _ "P1" "owner" .null "item" e _ nestedItem _ hput (by simp) htree
    nodeAt_nestedItem rfl with ⟨result, hresult, hnull⟩
  rcases at?_shown memoryCache.config 9 "owner" hordered htree nodeAt_nestedItem rfl with
    ⟨result', hshown, -, hnested⟩
  simp only [hfresh.last_shown hordered, hshown, Option.some.injEq, Outcome.shown.injEq] at hresult
  rcases hnested (by decide) with ⟨v, hv, hobject⟩
  simp only [hresult, hnull, Option.some.injEq] at hv
  simp only [← hv] at hobject
  cases hobject

end EntityCache
