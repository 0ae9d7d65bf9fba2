import EntityCache.Proofs.Cache.LocalReads
import EntityCache.Proofs.Cache.ReadBack
import EntityCache.Proofs.Cache.Worn
import EntityCache.Proofs.Codec.Entities
import EntityCache.Proofs.Normalize.Unmarked

/-!
# A write heals a damaged file

Whatever has become of the rows of a file, a write of a result that can be read back is shown again:

* `FileStore.Contents.fields_record`: the record of an entity has readable fields, as one that
  cannot be decoded starts over without any.
* `FileStore.Contents.rows_absorbed`: so every entity of an object can be decoded after the object
  was split over it, and `FileStore.Contents.showsWritten_absorbed`: shows what was written.
* `Cache.write_heals`: what a write through a cache, and the read that follows, make of any file.
-/

namespace EntityCache

open Json (maxRoom)
open Normalize

/-- The fields in rows stand in order. -/
theorem Rows.orderedView (rows : Rows) : OrderedView rows.view := by
  intro guid
  rw [view]
  cases (rows guid).join with
  | none =>
      exact Assoc.sorted_nil
  | some s =>
      exact s.fields.sorted

namespace FileStore.Contents

variable {t : Contents} {e : Entry} {n : Skeleton}

/-! ## Records -/

/-- What every value has that is read, the fields of a record have that is handed out. -/
theorem fields_record {P : Nat → Value → Prop}
    (hvalue : ∀ room, Json.Yields (Value.read room) (P room)) (t : Contents) (guid : Guid) :
    ∀ b ∈ (t.record guid).fields.bindings, P (maxRoom - 2) b.2 := by
  simp only [record, find]
  cases t.entities.get? guid with
  | none =>
      intro b hb
      cases hb
  | some blob =>
      cases hdecode : Blob.decode Snapshot.ofSymbols? guid blob with
      -- What cannot be decoded starts over.
      | error e =>
          simp only [hdecode, Except.map]
          intro b hb
          cases hb
      | ok s =>
          simp only [hdecode, Except.map]
          exact Snapshot.fields_of_decode hvalue hdecode

/-- The rows show what is found in them. -/
theorem getD_view_rows (t : Contents) (guid : Guid) :
    (t.rows.view guid).getD [] = (t.catalog.fields? guid).getD [] := by
  rw [Rows.view, fields?_catalog]
  rcases t.rows_of_find guid with ⟨e, hfind, hrow⟩ | ⟨hfind, hrow⟩ | ⟨r, hfind, hrow⟩
  all_goals
    rw [hfind, hrow]
    rfl

/-! ## Splitting an object -/

section Absorbed

variable {ids : IdIndex} {fields : List (String × Value)} (requestor : Option QueryKey)
  (hstable : (Value.map fields).Stable)
  (hlevels : ∀ a ∈ assignmentsFrom ids Path.root fields, a.2.nesting + 2 ≤ maxRoom)

include hstable hlevels

/-- An object leaves records that can be read back. -/
theorem isSome_reread_merged (t : Contents) (guid : Guid) :
    (((t.record guid).merged ids fields requestor).snapshot.reread maxRoom).isSome = true := by
  have hread := fields_record (P := Value.AsRead) Value.yields_read t guid
  have hlegible := fields_record (P := fun _ => Value.EveryNumber Number.Legible)
    Value.yields_legible t guid
  have hnumbers : Value.EveryNumberFields Number.Legible fields :=
    (Value.map fields).everyNumber_mono (fun x hx => by rw [Number.Legible, hx]; rfl)
      hstable.numbers
  -- Reading back needs no more than legible numbers and few enough levels.
  refine (Snapshot.isSome_reread ?_ maxRoom).mpr ?_
  · have hmerged : ∀ b ∈ ((t.record guid).merged ids fields requestor).fields.bindings,
        b.2.EveryNumber Number.Legible :=
      merged_of_hereditary (Value.hereditary_everyNumber _) hlegible hnumbers
    exact Value.everyNumberFields_iff.mpr hmerged
  · have hroom : 2 ≤ maxRoom := by decide
    have hfields : Value.nestingFields
        ((t.record guid).merged ids fields requestor).fields.bindings ≤ maxRoom - 2 := by
      refine Value.nestingFields_le_iff.mpr fun b hb => ?_
      rcases (t.record guid).mem_fields_merged ids fields requestor hb with hold | hnew
      · exact (hread b hold).within
      · have hwritten := hlevels _ hnew
        simp only at hwritten
        omega
    exact Nat.add_le_of_le_sub hroom hfields

/-- Every entity of an object can be decoded, and its fields are those that were written last. -/
theorem rows_absorbed (ht : t.Keyed) {guid : Guid} (hguid : guid ∈ entitiesOf ids fields) :
    ∃ s, (t.absorbed ids fields requestor).rows guid = some (some s) ∧ s.guid = guid ∧
      ∀ k, s.fields.get? k = (((Assoc.get? (guid, k)
        (assignmentsFrom ids Path.root fields).reverse).or ((t.record guid).fields.get? k)).bind
          (fun v => v.reread (maxRoom - 2))) := by
  rcases Option.isSome_iff_exists.mp (isSome_reread_merged requestor hstable hlevels t guid) with
    ⟨s, hs⟩
  have hown : (t.record guid).guid = guid := guid_record ht guid
  refine ⟨s, ?_, ?_, ?_⟩
  · have hdecode :=
      ((t.record guid).merged ids fields requestor).snapshot.decode_text guid
    simp only [rows, get?_absorbed ht, if_pos hguid, hdecode, hs, Option.map_some]
  · exact (Snapshot.guid_reread hs).trans hown
  · intro k
    have hmerged := (t.record guid).get?_fields_merged ids fields requestor k
    rw [hown] at hmerged
    rw [Snapshot.get?_reread hs k, ← hmerged]
    rfl

/-- The rows show what was written into them, but for marks. -/
theorem showsWritten_absorbed (ht : t.Keyed) :
    ShowsWritten (t.absorbed ids fields requestor).rows.view ids fields := by
  intro guid k v hv
  have hmem : ((guid, k), v) ∈ assignmentsFrom ids Path.root fields :=
    Assoc.mem_of_get?_reverse hv
  rcases mem_assignmentsFrom.mp hmem with ⟨o, ho, hkeeps⟩
  rcases rows_absorbed requestor hstable hlevels ht
    (mem_entitiesOf.mpr ⟨o, ho, hkeeps.1⟩) with ⟨s, hs, -, hget⟩
  have hvalue : v.Stable := assigned_of_hereditary Value.hereditary_stable hstable hmem
  have hroom : v.nesting ≤ maxRoom - 2 := by
    have hwritten := hlevels _ hmem
    simp only at hwritten
    omega
  have hfield := hget k
  rw [hv, Option.some_or, Option.bind_some,
    Value.reread_of_kept v _ hvalue.ordered hvalue.numbers hroom] at hfield
  simp only [Rows.view, hs, Option.join_some, Option.map_some, Option.getD_some]
  exact hfield

/-- The skeleton of the object can be read back, and so can every record that it names. -/
theorem isSome_result?_absorbed (ht : t.Keyed)
    (hskeleton : (skeletonOf ids fields).nesting ≤ maxRoom) (q : QueryKey) (now : Time)
    (httl : e.ttl ≤ maxTtl) (hcached : Entry.Timely e.cachedAt)
    (haccessed : Entry.Timely e.lastAccessed) (hdata : e.data = (skeletonOf ids fields).text) :
    (((t.absorbed ids fields requestor).stored q e).result? now q).isSome = true := by
  refine (isSome_result?_stored q now httl hcached haccessed hdata
    (everyInOrder_skeletonOf ids hstable.ordered)).mpr ⟨?_, fun guid hguid => ?_⟩
  · rw [Skeleton.reread_eq_plain _ maxRoom (everyStable_skeletonOf ids hstable) hskeleton]
    rfl
  · rw [fields?_absorbed ht (mem_entitiesOf_of_mem_skeletonOf hguid), Option.isSome_map]
    exact isSome_reread_merged requestor hstable hlevels t guid

end Absorbed

/-! ## Reading a result -/

/-- A result whose skeleton reads back but for its marks shows the rows. -/
theorem data_result?_stored {q : QueryKey} {now : Time} {result : CachedResult}
    (httl : e.ttl ≤ maxTtl) (hcached : Entry.Timely e.cachedAt)
    (haccessed : Entry.Timely e.lastAccessed) (hdata : e.data = n.text)
    (hstable : n.Every Skeleton.Stable) (hlevels : n.nesting ≤ maxRoom)
    (h : (t.stored q e).result? now q = some result) :
    result.data = (assemble t.rows.view n).plain := by
  have hroot : ({ e with root := none } : Entry).root?.toOption = some n.plain :=
    (Entry.root?_of_text hdata).trans (Skeleton.reread_eq_plain n maxRoom hstable hlevels)
  simp only [result?, entryAt_stored q httl hcached haccessed, Option.bind_some, hroot] at h
  split at h
  · cases h
    have hfields : (t.stored q e).catalog.fields? = t.catalog.fields? := rfl
    calc
      (assemble (t.stored q e).catalog.fields? n.plain).plain
          = (assemble t.catalog.fields? n).plain := by
            rw [hfields, Skeleton.assemble_plain_plain]
      _ = (assemble t.rows.view n).plain :=
            congrArg Value.plain (assemble_congr n fun guid _ => (getD_view_rows t guid).symm)
  · cases h

/-! ## Writing -/

/-- What the contents of a file are after a write, and what the next read of its query shows. -/
structure Healed (t t' : Contents) (e : Posting) (fields : List (String × Value))
    (impacted : KeySet QueryKey) (result : CachedResult) : Prop where
  /-- All of the written object is shown, where it does not contradict itself. -/
  data : Agreeing e.response.ids (visits (.map fields)) →
    result.data = (restored t'.rows.view e.response.ids (.map fields)).plain
  /-- Every entity of the object can be decoded. -/
  touched : ∀ guid ∈ entitiesOf e.response.ids fields,
    ∃ s, t'.rows guid = some (some s) ∧ s.guid = guid
  /-- Its dependents are what they were, and are told. -/
  dependents : ∀ guid ∈ entitiesOf e.response.ids fields, ∀ q,
    t.dependents.mem (guid, q) = true → t'.dependents.mem (guid, q) = true ∧
      (e.requestor ≠ some q → impacted.mem q = true)
  /-- The rows of all other entities stay, whether they can be decoded or not. -/
  entities : ∀ guid, guid ∉ entitiesOf e.response.ids fields → ∀ blob,
    t.entities.get? guid = some blob → t'.entities.get? guid = some blob
  /-- And so do those of other results. -/
  trees : ∀ q, q ≠ e.query → t'.trees.get? q = t.trees.get? q

/-- A result is stored in the contents of a file. -/
theorem healed (ht : t.Keyed) (hrowed : t.Rowed) {e : Posting} {entry : Entry}
    {fields : List (String × Value)} (hstable : (Value.map fields).Stable)
    (hlevels : ∀ a ∈ assignmentsFrom e.response.ids Path.root fields, a.2.nesting + 2 ≤ maxRoom)
    {result : CachedResult} (hdata : result.data = (assemble
      (t.absorbed e.response.ids fields e.requestor).rows.view
      (skeletonOf e.response.ids fields)).plain) :
    Healed t ((t.absorbed e.response.ids fields e.requestor).stored e.query entry) e fields
      (impactedBy e.response.ids fields e.requestor t.record) result where
  data hagree := hdata.trans (plain_assemble_skeletonOf (Rows.orderedView _) hstable.ordered
    (showsWritten_absorbed e.requestor hstable hlevels ht) hagree)
  touched guid hguid := by
    rcases rows_absorbed e.requestor hstable hlevels ht hguid with ⟨s, hs, hown, -⟩
    exact ⟨s, hs, hown⟩
  dependents guid hguid q hq := by
    refine ⟨(mem_dependents_absorbed ht guid q).mpr (Or.inl hq), fun hrequestor => ?_⟩
    exact (mem_impactedBy q).mpr ⟨hrequestor, guid, hguid, (hrowed.mem_record guid q).mpr hq⟩
  entities guid hguid blob hblob := by
    show (t.absorbed e.response.ids fields e.requestor).entities.get? guid = some blob
    rw [get?_absorbed ht, if_neg hguid, get?_makeAll, hblob]
    exact ite_self _
  trees q hq := by
    show ((t.absorbed e.response.ids fields e.requestor).trees.insert e.query _).get? q = _
    rw [Dict.get?_insert, if_neg hq, trees_absorbed]

end FileStore.Contents

/-- Whatever has become of a store in a file, and of the bytes in its rows, a write of an object
that can be read back is stored, and the next read shows it.  All entities of the object can be
decoded then; none has lost a dependent, all of which are told of the write; and nothing else has
changed in the rows of other entities and results. -/
theorem Cache.write_heals {n : Nat} {w : World Vault} (hw : Worn n w) {c : Cache} {r : StoreRef}
    (hstore : c.store? = some r) (hr : r.store = .file n) (hguards : r.guards = []) {e : Posting}
    {fields : List (String × Value)} (hfields : e.response.data = .map fields)
    (hexact : e.response.data.Exact) (htime : Entry.Timely e.time)
    (hskeleton : (skeletonOf e.response.ids fields).nesting ≤ maxRoom)
    (hlevels : ∀ a ∈ assignmentsFrom e.response.ids Path.root fields, a.2.nesting + 2 ≤ maxRoom)
    (now : Time) :
    ∃ impacted result c₁ c₂ w₁ w₂,
      c.perform (.write e) w = ((.written ⟨true, impacted⟩, c₁), w₁) ∧
      c₁.perform (.read now e.query) w₁ = ((.shown (some result), c₂), w₂) ∧
      FileStore.Contents.Healed (w.store.connected n).contents (w₁.store.connected n).contents e
        fields impacted result := by
  rcases hw.orderly with ⟨t, hsettled, hrowed⟩
  have hmirrors := StoreRef.backend_mirrors_file hr hguards
  rcases perform_of_keeps hstore hmirrors FileStore.keeps (.write e) hsettled with
    ⟨u, w₁, hwrite, hw₁⟩
  rcases perform_of_keeps (c := { c with upkeep := u }) hstore hmirrors FileStore.keeps
    (.read now e.query) hw₁ with ⟨u', w₂, hread, -⟩
  simp only [Ledger.perform, FileStore.ledger.post_map c.config hfields] at hwrite hread hw₁
  simp only [FileStore.ledger] at hwrite hread hw₁
  have hstable : (Value.map fields).Stable := hfields ▸ hexact.stable
  -- The result that was stored can be read back.
  rcases Option.isSome_iff_exists.mp (FileStore.Contents.isSome_result?_absorbed e.requestor hstable
    hlevels (e := e.entry c.config (skeletonOf e.response.ids fields)) hsettled.keyed hskeleton
    e.query now (Nat.min_le_right _ _) htime htime rfl) with ⟨result, hresult⟩
  rw [hresult] at hread
  refine ⟨_, result, _, _, w₁, w₂, hwrite, hread, ?_⟩
  have hbefore : (w.store.connected n).contents = t := FileStore.Orderly.contents_eq hsettled.holds
  have hafter := FileStore.Orderly.contents_eq hw₁.holds
  rw [hbefore, show (w₁.store.connected n).contents = _ from hafter]
  exact FileStore.Contents.healed hsettled.keyed hrowed hstable hlevels
    (FileStore.Contents.data_result?_stored (Nat.min_le_right _ _) htime htime rfl
      (everyStable_skeletonOf e.response.ids hstable) hskeleton hresult)

/-- A file with the list. -/
def listedFile : World Vault :=
  (fileCache.post listPosting newFileWorld).2

/-- The file with the list, where the item cannot be decoded any more. -/
def damagedFile : World Vault :=
  { listedFile with
    store := listedFile.store.putConnected 1
      ((listedFile.focus (Vault.connected 1)).withContents
        { (listedFile.store.connected 1).contents with
          entities := (listedFile.store.connected 1).contents.entities.insert "P1"
            "?".toUTF8 }).store }

theorem worn_damagedFile : Worn 1 damagedFile := by
  have hopened : newFileWorld.store.fileStore 1 = .new 0 := rfl
  have hnew : Worn 1 newFileWorld := .new rfl hopened rfl
  have hlisted : Worn 1 listedFile := .posted hnew (c := fileCache) rfl rfl listPosting
  rcases hlisted.orderly with ⟨t, hsettled, -⟩
  have hcontents : (listedFile.store.connected 1).contents = t :=
    FileStore.Orderly.contents_eq hsettled.holds
  refine hlisted.damage (t := (listedFile.store.connected 1).contents) (hcontents ▸ hsettled.holds)
    (FileStore.Contents.damaged_entity ?_ fun s hs => ?_)
  · decide +kernel
  · have hbad : (Blob.decode Snapshot.ofSymbols? "P1" "?".toUTF8).toOption.isNone = true := by
      decide +kernel
    rw [hs] at hbad
    cases hbad

/-- The item is written to a file where it could not be decoded: it is shown, it can be decoded
again, and the list is told. -/
theorem Cache.write_heals_item :
    (damagedFile.store.connected 1).contents.rows "P1" = none ∧
    ∃ impacted result c₁ c₂ w₁ w₂,
      fileCache.perform (.write itemPosting) damagedFile = ((.written ⟨true, impacted⟩, c₁), w₁) ∧
      c₁.perform (.read 3 "item") w₁ = ((.shown (some result), c₂), w₂) ∧
      (∃ s, (w₁.store.connected 1).contents.rows "P1" = some (some s)) ∧
      impacted.mem "list" = true := by
  have hdamaged : ((damagedFile.store.connected 1).contents.rows "P1").isNone = true := by
    decide +kernel
  have hlisted : (damagedFile.store.connected 1).contents.dependents.mem ("P1", "list") = true := by
    decide +kernel
  have hentity : "P1" ∈ entitiesOf itemPosting.response.ids
      [("id", .id "P1"), ("price", .num (.int 5))] := by
    decide +kernel
  have hexact : itemPosting.response.data.Exact := by
    have hsorted : Assoc.Sorted [("id", Value.id "P1"), ("price", .num (.int 5))] :=
      List.pairwise_pair.mpr (by decide +kernel)
    refine Value.exact_map_iff.mpr ⟨hsorted, ?_⟩
    simp only [List.forall_mem_cons]
    exact ⟨Value.exact_id _, Value.exact_int (by decide), fun _ h => absurd h List.not_mem_nil⟩
  rcases Cache.write_heals worn_damagedFile (c := fileCache) (e := itemPosting) rfl rfl rfl rfl
    hexact ⟨by decide, by decide⟩ (by decide +kernel) (by decide +kernel) 3 with
    ⟨impacted, result, c₁, c₂, w₁, w₂, hwrite, hread, hhealed⟩
  rcases hhealed.touched "P1" hentity with ⟨s, hs, -⟩
  exact ⟨Option.isNone_iff_eq_none.mp hdamaged, impacted, result, c₁, c₂, w₁, w₂, hwrite, hread,
    ⟨s, hs⟩, (hhealed.dependents "P1" hentity "list" hlisted).2 (by decide)⟩

end EntityCache
