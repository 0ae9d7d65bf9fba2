import EntityCache.Proofs.Codec.Stored
import EntityCache.Proofs.Store.Catalog
import EntityCache.Store.Tables

/-!
# The contents of a store file

What the tables of a file that misses none of them mean:

* `FileStore.Contents`: the three tables.
* `Contents.find`, `Contents.record`: the entity in a row, and the one that is handed out even where
  there is no row that can be decoded.
* `Contents.made`, `Contents.saved`: the contents after an entity was created or saved.
* `Contents.Lists`: a query depends on a stored entity.
* `Contents.Keyed`: every row holds the entity that it is found under.
* `Contents.catalog`: what the contents have to show; creating entities changes nothing of it, and
  saving some nothing but their fields.
* `Contents.result?`, `Contents.accessed`: what a query shows at a time, and the contents after it
  was looked at.
-/

namespace EntityCache

open Normalize

/-- The tables of a file that misses none. -/
structure FileStore.Contents where
  trees : Dict QueryKey TreeRow
  entities : Dict Guid Blob
  dependents : KeySet (Guid × QueryKey)

namespace FileStore.Contents

def tables (t : Contents) : Tables :=
  ⟨some t.trees, some t.entities, some t.dependents⟩

/-- The contents of a new file. -/
def empty : Contents :=
  ⟨.empty, .empty, .empty⟩

/-! ## Rows -/

/-- The entity in the row of `guid`. -/
def find (t : Contents) (guid : Guid) : Except StoreError (Option Record) :=
  match t.entities.get? guid with
  | none => .ok none
  | some blob =>
      (Blob.decode Snapshot.ofSymbols? guid blob).map
        (fun s => some (.restore s (Tables.queriesOf t.dependents guid)))

/-- The record that is handed out for `guid`, whatever is stored. -/
def record (t : Contents) (guid : Guid) : Record :=
  match t.find guid with
  | .ok (some r) => r
  | .ok none => .fresh guid
  | .error _ => .restore (Record.fresh guid).snapshot (Tables.queriesOf t.dependents guid)

/-- The contents once there is a row for `guid`. -/
def made (t : Contents) (guid : Guid) : Contents :=
  if (t.entities.get? guid).isSome then t
  else { t with entities := t.entities.insert guid (Record.fresh guid).snapshot.text.toUTF8 }

/-- The contents after a record was saved. -/
def saved (t : Contents) (r : Record) : Contents :=
  { t with
    entities := t.entities.insert r.guid r.snapshot.text.toUTF8
    dependents := t.dependents.union (Tables.pairsOf r.guid r.dependents) }

/-- There is a row for `guid`, and `q` depends on it. -/
def Lists (t : Contents) (guid : Guid) (q : QueryKey) : Prop :=
  (t.entities.get? guid).isSome = true ∧ t.dependents.mem (guid, q) = true

/-- Every row that can be decoded holds the entity that it is found under. -/
def Keyed (t : Contents) : Prop :=
  ∀ guid blob s, t.entities.get? guid = some blob →
    Blob.decode Snapshot.ofSymbols? guid blob = .ok s → s.guid = guid

variable {t : Contents}

theorem keyed_empty : empty.Keyed := by
  intro guid blob s h
  cases h

theorem guid_record (ht : t.Keyed) (guid : Guid) : (t.record guid).guid = guid := by
  simp only [record, find]
  cases hrow : t.entities.get? guid with
  | none =>
      rfl
  | some blob =>
      cases hdecode : Blob.decode Snapshot.ofSymbols? guid blob with
      | error e =>
          simp only [hdecode]
          rfl
      | ok s =>
          simp only [hdecode]
          exact ht guid blob s hrow hdecode

/-- A failure to find an entity concerns that entity only. -/
theorem isCodec_of_find {guid : Guid} {e : StoreError} :
    t.find guid = .error e → e.isCodec = true := by
  intro h
  simp only [find] at h
  cases hrow : t.entities.get? guid with
  | none =>
      simp only [hrow] at h
      cases h
  | some blob =>
      simp only [hrow] at h
      cases hdecode : Blob.decode Snapshot.ofSymbols? guid blob with
      | error e' =>
          simp only [hdecode] at h
          cases h
          exact Blob.isCodec_of_decode hdecode
      | ok s =>
          simp only [hdecode] at h
          cases h

/-- What has a row is found, or cannot be decoded. -/
theorem find_ne_none {guid : Guid} {blob : Blob} (hrow : t.entities.get? guid = some blob) :
    t.find guid ≠ .ok none := by
  simp only [find, hrow]
  cases hdecode : Blob.decode Snapshot.ofSymbols? guid blob with
  | error e =>
      simp [Except.map]
  | ok s =>
      simp [Except.map]

/-- What is found depends on the row of the entity and on its dependents alone. -/
theorem find_congr {t t' : Contents} {guid : Guid}
    (hrow : t'.entities.get? guid = t.entities.get? guid)
    (hdependents : ∀ q, t'.dependents.mem (guid, q) = t.dependents.mem (guid, q)) :
    t'.find guid = t.find guid := by
  have hlisted : Tables.queriesOf t'.dependents guid = Tables.queriesOf t.dependents guid := by
    refine KeySet.ext_mem fun q => ?_
    simp only [Tables.mem_queriesOf, hdependents]
  simp only [find, hrow, hlisted]

/-- The dependents of the record that is handed out are those that are listed. -/
theorem mem_dependents_record (guid : Guid) (q : QueryKey) :
    (t.record guid).dependents.mem q = true ↔ t.Lists guid q := by
  simp only [Lists, record, find]
  cases hrow : t.entities.get? guid with
  | none =>
      simp [Record.fresh]
  | some blob =>
      cases hdecode : Blob.decode Snapshot.ofSymbols? guid blob with
      | error e =>
          simp [hdecode, Except.map, Record.restore, Tables.mem_queriesOf]
      | ok s =>
          simp [hdecode, Except.map, Record.restore, Tables.mem_queriesOf]

/-! ## Changes -/

/-- A snapshot that was written is that of the same entity. -/
theorem guid_of_decode_text {s s' : Snapshot} {key : String} :
    Blob.decode Snapshot.ofSymbols? key s.text.toUTF8 = .ok s' → s'.guid = s.guid := by
  intro h
  have hreread := s.decode_text key
  simp only [h] at hreread
  exact Snapshot.guid_reread hreread.symm

theorem get?_made (guid guid' : Guid) :
    (t.made guid').entities.get? guid =
      if guid = guid' then
        some ((t.entities.get? guid).getD (Record.fresh guid).snapshot.text.toUTF8)
      else t.entities.get? guid := by
  simp only [made]
  by_cases hguid : guid = guid'
  · subst hguid
    cases hrow : t.entities.get? guid with
    | none =>
        simp
    | some blob =>
        simp [hrow]
  · simp only [if_neg hguid]
    split
    · rfl
    · simp only [Dict.get?_insert, if_neg hguid]

theorem dependents_made (guid : Guid) : (t.made guid).dependents = t.dependents := by
  simp only [made]
  split <;> rfl

theorem trees_made (guid : Guid) : (t.made guid).trees = t.trees := by
  simp only [made]
  split <;> rfl

theorem get?_made_of_isSome {guid : Guid} (guid' : Guid)
    (hrow : (t.entities.get? guid).isSome = true) :
    (t.made guid').entities.get? guid = t.entities.get? guid := by
  simp only [get?_made]
  split
  · rcases Option.isSome_iff_exists.mp hrow with ⟨blob, hblob⟩
    simp only [hblob]
    rfl
  · rfl

theorem Keyed.made (ht : t.Keyed) (guid : Guid) : (t.made guid).Keyed := by
  intro guid' blob s hrow hdecode
  simp only [get?_made] at hrow
  split at hrow
  · next hsame =>
      -- The row is new only where there was none.
      cases hold : t.entities.get? guid' with
      | none =>
          simp only [hold] at hrow
          cases hrow
          exact guid_of_decode_text hdecode
      | some blob' =>
          simp only [hold] at hrow
          cases hrow
          exact ht guid' _ s hold hdecode
  · exact ht guid' blob s hrow hdecode

theorem record_made_of_ne {guid guid' : Guid} (hne : guid ≠ guid') :
    (t.made guid').record guid = t.record guid := by
  simp only [record, find, get?_made, if_neg hne, dependents_made]

theorem Lists.made {guid : Guid} {q : QueryKey} (h : t.Lists guid q) (guid' : Guid) :
    (t.made guid').Lists guid q := by
  refine ⟨?_, ?_⟩
  · simp only [get?_made_of_isSome guid' h.1]
    exact h.1
  · simp only [dependents_made]
    exact h.2

theorem get?_saved (r : Record) (guid : Guid) :
    (t.saved r).entities.get? guid =
      if guid = r.guid then some r.snapshot.text.toUTF8 else t.entities.get? guid := by
  simp only [saved, Dict.get?_insert]

theorem Keyed.saved (ht : t.Keyed) (r : Record) : (t.saved r).Keyed := by
  intro guid blob s hrow hdecode
  simp only [get?_saved] at hrow
  split at hrow
  · next hsame =>
      cases hrow
      exact (guid_of_decode_text hdecode).trans hsame.symm
  · exact ht guid blob s hrow hdecode

theorem Lists.saved {guid : Guid} {q : QueryKey} (h : t.Lists guid q) (r : Record) :
    (t.saved r).Lists guid q := by
  refine ⟨?_, ?_⟩
  · simp only [get?_saved]
    split
    · rfl
    · exact h.1
  · simp only [Contents.saved, KeySet.mem_union, h.2]
    rfl

/-- Saving a record adds its dependents to those of its entity. -/
theorem mem_dependents_saved (r : Record) (guid : Guid) (q : QueryKey) :
    (t.saved r).dependents.mem (guid, q) = true ↔
      t.dependents.mem (guid, q) = true ∨ guid = r.guid ∧ r.dependents.mem q = true := by
  simp only [Contents.saved, KeySet.mem_union, Tables.mem_pairsOf, Bool.or_eq_true,
    Bool.and_eq_true, decide_eq_true_eq]

/-- The dependents of a saved record are listed. -/
theorem lists_saved {r : Record} {q : QueryKey} :
    r.dependents.mem q = true → (t.saved r).Lists r.guid q := by
  intro hq
  refine ⟨?_, (mem_dependents_saved r r.guid q).mpr (Or.inr ⟨rfl, hq⟩)⟩
  rw [get?_saved, if_pos rfl]
  rfl

/-! ## Several changes -/

/-- The contents once there is a row for each of the guids. -/
def makeAll (t : Contents) (guids : List Guid) : Contents :=
  guids.foldl Contents.made t

/-- The contents after several records were saved. -/
def saveAll (t : Contents) (records : List Record) : Contents :=
  records.foldl Contents.saved t

theorem Keyed.makeAll (ht : t.Keyed) (guids : List Guid) : (t.makeAll guids).Keyed := by
  refine List.foldlRecOn guids Contents.made ht ?_
  intro t' ht' guid _
  exact ht'.made guid

theorem Keyed.saveAll (ht : t.Keyed) (records : List Record) : (t.saveAll records).Keyed := by
  refine List.foldlRecOn records Contents.saved ht ?_
  intro t' ht' r _
  exact ht'.saved r

theorem Lists.saveAll {guid : Guid} {q : QueryKey} (h : t.Lists guid q) (records : List Record) :
    (t.saveAll records).Lists guid q := by
  refine List.foldlRecOn (motive := fun t' => t'.Lists guid q) records Contents.saved h ?_
  intro t' h' r _
  exact h'.saved r

theorem trees_saveAll (t : Contents) (records : List Record) :
    (t.saveAll records).trees = t.trees := by
  refine List.foldlRecOn (motive := fun t' => t'.trees = t.trees) records Contents.saved rfl ?_
  intro t' h' r _
  exact h'

/-- The rows of other entities stay. -/
theorem get?_saveAll_of_not_mem {guid : Guid} (records : List Record)
    (hother : ∀ r ∈ records, r.guid ≠ guid) :
    (t.saveAll records).entities.get? guid = t.entities.get? guid := by
  refine List.foldlRecOn (motive := fun t' => t'.entities.get? guid = t.entities.get? guid)
    records Contents.saved rfl ?_
  intro t' h' r hr
  calc
    (t'.saved r).entities.get? guid = t'.entities.get? guid := by
      rw [get?_saved, if_neg (Ne.symm (hother r hr))]
    _ = t.entities.get? guid := h'

/-- The dependents of every saved record are listed. -/
theorem lists_saveAll {r : Record} {q : QueryKey} (hq : r.dependents.mem q = true)
    (records : List Record) :
    ∀ {t : Contents}, r ∈ records → (t.saveAll records).Lists r.guid q := by
  induction records with
  | nil =>
      intro t hr
      cases hr
  | cons r' rest ih =>
      intro t hr
      rcases List.mem_cons.mp hr with rfl | hr
      -- What is listed once is listed after all later changes.
      · exact (lists_saved hq).saveAll rest
      · exact ih hr

/-! ## What is shown -/

/-- What the contents have to show. -/
def catalog (t : Contents) : Catalog where
  skeleton? q := (t.trees.get? q).bind (fun row =>
    (Blob.decode Entry.ofSymbols? q row.blob).toOption.bind (fun e => e.root?.toOption))
  fields? guid := (t.find guid).toOption.map (fun found =>
    (found.map (fun r => r.fields.bindings)).getD [])
  Lists := t.Lists

theorem skeleton?_catalog (t : Contents) (q : QueryKey) :
    t.catalog.skeleton? q = (t.trees.get? q).bind (fun row =>
      (Blob.decode Entry.ofSymbols? q row.blob).toOption.bind (fun e => e.root?.toOption)) := rfl

theorem fields?_catalog (t : Contents) (guid : Guid) :
    t.catalog.fields? guid = (t.find guid).toOption.map (fun found =>
      (found.map (fun r => r.fields.bindings)).getD []) := rfl

/-- Only the bytes of a row matter, and only where they differ. -/
theorem fields?_congr {t t' : Contents} {guid : Guid}
    (hrow : t'.entities.get? guid = t.entities.get? guid) :
    t'.catalog.fields? guid = t.catalog.fields? guid := by
  simp only [catalog, find, hrow]
  cases t.entities.get? guid with
  | none =>
      rfl
  | some blob =>
      cases hdecode : Blob.decode Snapshot.ofSymbols? guid blob with
      | error e =>
          simp [Except.map, Except.toOption, hdecode]
      | ok s =>
          simp [Except.map, Except.toOption, hdecode, Record.restore]

/-- A row that is made shows nothing. -/
theorem grows_made (t : Contents) (guid : Guid) :
    Catalog.Grows [] t.catalog (t.made guid).catalog where
  skeleton? q := by
    simp only [catalog, trees_made]
  fields? := by
    intro guid' _
    by_cases hmade : guid' = guid ∧ t.entities.get? guid' = none
    -- A fresh record has no fields, as an entity that is not stored.
    · rcases hmade with ⟨rfl, hnone⟩
      have hfresh : (Blob.decode Snapshot.ofSymbols? guid'
          (Record.fresh guid').snapshot.text.toUTF8).toOption = some ⟨guid', .empty⟩ :=
        (Record.fresh guid').snapshot.decode_text guid'
      have hrow : (t.made guid').entities.get? guid' =
          some (Record.fresh guid').snapshot.text.toUTF8 := by
        rw [get?_made, if_pos rfl, hnone]
        rfl
      simp only [catalog, find, hrow, hnone]
      cases hdecode : Blob.decode Snapshot.ofSymbols? guid'
          (Record.fresh guid').snapshot.text.toUTF8 with
      | error e =>
          simp only [hdecode] at hfresh
          cases hfresh
      | ok s =>
          simp only [hdecode] at hfresh
          cases hfresh
          rfl
    -- Any other row is the same as before.
    · refine fields?_congr ?_
      simp only [get?_made]
      split
      · next hsame =>
          cases hrow : t.entities.get? guid' with
          | none =>
              exact absurd ⟨hsame, hrow⟩ hmade
          | some blob =>
              rfl
      · rfl
  lists h := Lists.made h guid

theorem grows_makeAll (t : Contents) (guids : List Guid) :
    Catalog.Grows [] t.catalog (t.makeAll guids).catalog := by
  refine List.foldlRecOn (motive := fun t' => Catalog.Grows [] t.catalog t'.catalog)
    guids Contents.made (.refl _) ?_
  intro t' h' guid _
  exact h'.trans (grows_made t' guid)

/-- Only the saved entities may show something else. -/
theorem grows_saveAll {touched : List Guid} {records : List Record} (t : Contents)
    (htouched : ∀ r ∈ records, r.guid ∈ touched) :
    Catalog.Grows touched t.catalog (t.saveAll records).catalog where
  skeleton? q := by
    simp only [catalog, trees_saveAll]
  fields? := by
    intro guid hguid
    refine fields?_congr (get?_saveAll_of_not_mem records ?_)
    rintro r hr rfl
    exact hguid (htouched r hr)
  lists h := Lists.saveAll h records

/-! ## Cached results -/

/-- The entry in the row of `q`, if there is one that can be decoded. -/
def entryAt (t : Contents) (q : QueryKey) : Option Entry :=
  (t.trees.get? q).bind (fun row => (Blob.decode Entry.ofSymbols? q row.blob).toOption)

/-- What `q` shows at a time. -/
def result? (t : Contents) (now : Time) (q : QueryKey) : Option CachedResult :=
  (t.entryAt q).bind (fun e => e.root?.toOption.bind (fun n =>
    if n.guidList.all (fun guid => (t.catalog.fields? guid).isSome) then
      some ⟨q, (assemble t.catalog.fields? n).plain, e.isStaleAt now, e.ttl, e.cachedAt⟩
    else none))

/-- The contents after the cached result of `q` was looked at.  The bytes stay as they were
stored. -/
def accessed (t : Contents) (now : Time) (q : QueryKey) : Contents :=
  match t.trees.get? q with
  | none => t
  | some row =>
      if (t.entryAt q).isSome then
        { t with trees := t.trees.insert q { row with lastAccessed := now } }
      else t

theorem skeleton?_eq (t : Contents) (q : QueryKey) :
    t.catalog.skeleton? q = (t.entryAt q).bind (fun e => e.root?.toOption) := by
  simp only [skeleton?_catalog, entryAt, Option.bind_assoc]

/-- A result that is shown shows what the catalog says. -/
theorem map_data_result? (t : Contents) (now : Time) (q : QueryKey) :
    (t.result? now q).map CachedResult.data = t.catalog.shown q := by
  simp only [result?, Catalog.shown, skeleton?_eq, Option.bind_assoc, Option.map_bind]
  refine Option.bind_congr fun e _ => ?_
  refine Option.map_bind.trans (Option.bind_congr fun n _ => ?_)
  exact apply_ite (Option.map CachedResult.data) _ _ _

theorem accessed_of_none {now : Time} {q : QueryKey} :
    t.entryAt q = none → t.accessed now q = t := by
  intro hnone
  simp only [accessed, hnone]
  split <;> rfl

theorem accessed_of_row {now : Time} {q : QueryKey} {row : TreeRow}
    (hrow : t.trees.get? q = some row) (hsome : (t.entryAt q).isSome = true) :
    t.accessed now q = { t with trees := t.trees.insert q { row with lastAccessed := now } } := by
  simp only [accessed, hrow, hsome, if_true]

theorem entities_accessed (t : Contents) (now : Time) (q : QueryKey) :
    (t.accessed now q).entities = t.entities := by
  simp only [accessed]
  split
  · rfl
  · split <;> rfl

theorem dependents_accessed (t : Contents) (now : Time) (q : QueryKey) :
    (t.accessed now q).dependents = t.dependents := by
  simp only [accessed]
  split
  · rfl
  · split <;> rfl

theorem Keyed.accessed (ht : t.Keyed) (now : Time) (q : QueryKey) : (t.accessed now q).Keyed := by
  intro guid blob s hrow
  simp only [entities_accessed] at hrow
  exact ht guid blob s hrow

/-- Another time of access makes no difference to a row. -/
theorem get?_accessed (t : Contents) (now : Time) (q q' : QueryKey) :
    ((t.accessed now q).trees.get? q').map TreeRow.blob = (t.trees.get? q').map TreeRow.blob := by
  simp only [accessed]
  split
  · rfl
  · next row hrow =>
      split
      · simp only [Dict.get?_insert]
        split
        · next hq =>
            simp only [hq, hrow]
            rfl
        · rfl
      · rfl

theorem entryAt_accessed (t : Contents) (now : Time) (q q' : QueryKey) :
    (t.accessed now q).entryAt q' = t.entryAt q' := by
  have hentry : ∀ t : Contents, t.entryAt q' = ((t.trees.get? q').map TreeRow.blob).bind
      (fun blob => (Blob.decode Entry.ofSymbols? q' blob).toOption) := by
    intro t
    simp only [entryAt, Option.bind_map]
    rfl
  simp only [hentry, get?_accessed]

theorem catalog_accessed (t : Contents) (now : Time) (q : QueryKey) :
    (t.accessed now q).catalog = t.catalog := by
  refine Catalog.ext (funext fun q' => ?_) (funext fun guid => ?_)
    (funext fun guid => funext fun q' => ?_)
  · simp only [skeleton?_eq, entryAt_accessed]
  · refine fields?_congr ?_
    simp only [entities_accessed]
  · show Lists _ _ _ = Lists _ _ _
    simp only [Lists, entities_accessed, dependents_accessed]

end FileStore.Contents
end EntityCache
