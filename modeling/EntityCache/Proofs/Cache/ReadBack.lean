import EntityCache.Proofs.Codec.Nesting
import EntityCache.Proofs.Normalize.Inherited
import EntityCache.Proofs.Normalize.Named
import EntityCache.Proofs.Store.FileLedger

/-!
# Reading back what was written

A store in a file reads back what it has stored, as far as a reader follows nested containers:

* `Fits`: the skeleton of an object and the records of its entities have no more levels than a
  reader follows.
* `isSome_read_written`: what was written is shown exactly if it fits.
-/

namespace EntityCache

open Normalize FileStore

/-- The stored forms of an object that is split over records have no more levels than a reader
follows. -/
structure Fits (ids : IdIndex) (fields : List (String × Value)) (requestor : Option QueryKey)
    (record : Guid → Record) : Prop where
  skeleton : (skeletonOf ids fields).nesting ≤ Json.maxRoom
  records : ∀ guid ∈ (skeletonOf ids fields).guidList,
    ((record guid).merged ids fields requestor).snapshot.nesting ≤ Json.maxRoom

namespace FileStore.Contents

variable {t : Contents} {e : Entry} {n : Skeleton}

/-- A skeleton in order that was stored shows a result exactly if it and all of its entities read
back. -/
theorem isSome_result?_stored (q : QueryKey) (now : Time) (httl : e.ttl ≤ maxTtl)
    (hcached : Entry.Timely e.cachedAt) (haccessed : Entry.Timely e.lastAccessed)
    (hdata : e.data = n.text) (horder : n.Every Skeleton.InOrder) :
    ((t.stored q e).result? now q).isSome = true ↔ (n.reread Json.maxRoom).isSome = true ∧
      ∀ guid ∈ n.guidList, (t.catalog.fields? guid).isSome = true := by
  have hroot : ({ e with root := none } : Entry).root?.toOption = n.reread Json.maxRoom :=
    Entry.root?_of_text hdata
  simp only [result?, entryAt_stored q httl hcached haccessed, Option.bind_some, hroot]
  have hfields : (t.stored q e).catalog.fields? = t.catalog.fields? := rfl
  cases hread : n.reread Json.maxRoom with
  | none =>
      simp
  | some n' =>
      -- What was read back names the same entities.
      have hguids := Skeleton.guidList_of_reread n Json.maxRoom n' horder hread
      simp only [Option.bind_some, hguids, hfields, ← List.all_eq_true]
      split
      · next hall => simp [hall]
      · next hall => simp [hall]

end FileStore.Contents

/-- What was written through a cache on a store file is shown by the next read exactly if its
skeleton and the records of its entities have no more levels than a reader follows; the write itself
stores it in any case. -/
theorem isSome_read_written {c : Cache} {r : StoreRef} {m : Nat} {w : World Vault} {t : Contents}
    {e : Posting} {fields : List (String × Value)} (hstore : c.store? = some r)
    (hr : r.store = .file m) (hguards : r.guards = [])
    (hw : Settled (w.focus (Vault.connected m)) t) (hfields : e.response.data = .map fields)
    (hordered : e.response.data.Ordered)
    (hnumbers : e.response.data.EveryNumber Number.Legible)
    (hrecords : ∀ guid ∈ entitiesOf e.response.ids fields,
      Value.EveryNumberFields Number.Legible (t.record guid).fields.bindings)
    (htime : Entry.Timely e.time) (now : Time) :
    ∃ impacted result c₁ c₂ w₁ w₂,
      c.perform (.write e) w = ((.written ⟨true, impacted⟩, c₁), w₁) ∧
      c₁.perform (.read now e.query) w₁ = ((.shown result, c₂), w₂) ∧
      (result.isSome = true ↔ Fits e.response.ids fields e.requestor t.record) := by
  have hmirrors := StoreRef.backend_mirrors_file hr hguards
  rcases Cache.perform_of_keeps hstore hmirrors keeps (.write e) hw with ⟨u, w₁, hwrite, hw₁⟩
  rcases Cache.perform_of_keeps (c := { c with upkeep := u }) hstore hmirrors keeps
    (.read now e.query) hw₁ with ⟨u', w₂, hread, -⟩
  simp only [Ledger.perform, ledger.post_map c.config hfields] at hwrite hread
  refine ⟨_, _, _, _, w₁, w₂, hwrite, hread, ?_⟩
  simp only [hfields] at hordered hnumbers
  -- The skeleton is read back as far as its levels allow, and so is every record.
  have hskeleton : ((skeletonOf e.response.ids fields).reread Json.maxRoom).isSome = true ↔
      (skeletonOf e.response.ids fields).nesting ≤ Json.maxRoom :=
    Skeleton.isSome_reread _ _ (everyNumber_skeletonOf e.response.ids hnumbers)
  have hrecord : ∀ guid ∈ (skeletonOf e.response.ids fields).guidList,
      (((t.absorbed e.response.ids fields e.requestor).catalog.fields? guid).isSome = true ↔
        ((t.record guid).merged e.response.ids fields e.requestor).snapshot.nesting ≤
          Json.maxRoom) := by
    intro guid hguid
    have hentity := mem_entitiesOf_of_mem_skeletonOf hguid
    simp only [Contents.fields?_absorbed hw.keyed hentity, Option.isSome_map]
    have hmerged : Value.EveryNumberFields Number.Legible
        ((t.record guid).merged e.response.ids fields e.requestor).fields.bindings :=
      Value.everyNumberFields_iff.mpr (merged_of_hereditary (Value.hereditary_everyNumber _)
        (Value.everyNumberFields_iff.mp (hrecords guid hentity)) hnumbers)
    exact Snapshot.isSome_reread hmerged _
  have hresult := Contents.isSome_result?_stored (t := t.absorbed e.response.ids fields e.requestor)
    (e := e.entry c.config (skeletonOf e.response.ids fields)) e.query now
    (Nat.min_le_right _ _) htime htime rfl (everyInOrder_skeletonOf e.response.ids hordered)
  calc
    _ ↔ _ := hresult
    _ ↔ _ := and_congr hskeleton (forall₂_congr hrecord)
    _ ↔ Fits e.response.ids fields e.requestor t.record :=
      ⟨fun h => ⟨h.1, h.2⟩, fun h => ⟨h.skeleton, h.records⟩⟩

/-! ## Nested objects -/

/-- An object with so many objects in it, one in the other. -/
def nestedFields : Nat → List (String × Value)
  | 0 => []
  | n + 1 => [("a", .map (nestedFields n))]

/-- In a skeleton every nested object takes two levels. -/
theorem nesting_nestedFields (n : Nat) : ∀ p,
    (objectAt .empty (fun guid => guid) p (nestedFields n)).1.nesting = 2 * n + 1 := by
  induction n with
  | zero =>
      intro p
      simp [nestedFields, objectAt, splitFields, Parts.empty, Parts.skeleton, Skeleton.nesting,
        Skeleton.memberNesting]
  | succ n ih =>
      intro p
      show ((splitFields .empty (fun guid => guid) p (objectId? .empty p (nestedFields (n + 1)))
        [("a", .map (nestedFields n))]).skeleton _ _).nesting = _
      simp only [splitFields_map, splitFields, Parts.empty, Parts.nest, Parts.skeleton,
        Skeleton.nesting, Skeleton.memberNesting, Skeleton.nestingRefs, ih, List.isEmpty_nil,
        List.isEmpty_cons, if_true, Bool.false_eq_true, if_false]
      omega

theorem ordered_nestedFields (n : Nat) : (Value.map (nestedFields n)).Ordered := by
  induction n with
  | zero =>
      exact ⟨Assoc.sorted_nil, trivial⟩
  | succ n ih =>
      exact ⟨List.pairwise_singleton _ _, ih, trivial⟩

theorem everyNumber_nestedFields (P : Number → Prop) (n : Nat) :
    (Value.map (nestedFields n)).EveryNumber P := by
  induction n with
  | zero =>
      exact trivial
  | succ n ih =>
      exact ⟨ih, trivial⟩

/-- A result with sixty-four objects in it, one in the other. -/
def deepPosting : Posting :=
  ⟨1, "Q", ⟨.map (nestedFields 64), none, .empty⟩, some "Q"⟩

/-- A result with sixty-four objects in it, one in the other, is stored but not shown. -/
theorem isSome_read_written_deep : ∃ impacted c₁ c₂ w₁ w₂,
    (shopCache 1).perform (.write deepPosting) newFile = ((.written ⟨true, impacted⟩, c₁), w₁) ∧
      c₁.perform (.read 2 "Q") w₁ = ((.shown none, c₂), w₂) := by
  rcases isSome_read_written (c := shopCache 1) (e := deepPosting) rfl rfl rfl settled_newFile rfl
    (ordered_nestedFields 64) (everyNumber_nestedFields _ 64) (fun _ _ => trivial)
    ⟨by decide, by decide⟩ 2 with
    ⟨impacted, result, c₁, c₂, w₁, w₂, hwrite, hread, hresult⟩
  have hnone : result = none := by
    refine Option.not_isSome_iff_eq_none.mp fun hsome => ?_
    have hlevels : (skeletonOf .empty (nestedFields 64)).nesting ≤ Json.maxRoom :=
      (hresult.mp hsome).skeleton
    have hnesting : (skeletonOf .empty (nestedFields 64)).nesting = 2 * 64 + 1 :=
      nesting_nestedFields 64 Path.root
    simp only [hnesting] at hlevels
    exact absurd hlevels (by decide)
  simp only [hnone] at hread
  exact ⟨impacted, c₁, c₂, w₁, w₂, hwrite, hread⟩

end EntityCache
