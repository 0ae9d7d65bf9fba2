import EntityCache.Proofs.Cache.Operations
import EntityCache.Proofs.Codec.Plain
import EntityCache.Proofs.Store.FileCatalog

/-!
# The ledger of a store file

The contents of its file are all that a store answers from, as long as nobody holds a record:

* `FileStore.ledger`: how the contents of a file answer the calls and change with them.
* `FileStore.Settled`: an opened store between two operations, whose file has the given contents.
* `FileStore.keeps`: the calls of a store do to the contents of its file what they should.
-/

namespace EntityCache

open Normalize

namespace FileStore

namespace Contents

/-- The contents after an object was split over its entities. -/
def absorbed (t : Contents) (ids : IdIndex) (fields : List (String × Value))
    (requestor : Option QueryKey) : Contents :=
  (t.makeAll (idsWithin ids (.map fields)).toList).saveAll
    ((entitySet ids fields).toList.map (fun guid => (t.record guid).merged ids fields requestor))

/-- The contents after an entry was stored. -/
def stored (t : Contents) (q : QueryKey) (e : Entry) : Contents :=
  { t with trees := t.trees.insert q ⟨e.lastAccessed, e.text.toUTF8⟩ }

def counts (t : Contents) : Counts :=
  ⟨t.trees.size, t.entities.size⟩

/-- What an entry stores reads back, but its skeleton has to be read from its text. -/
theorem entryAt_stored {t : Contents} {e : Entry} (q : QueryKey) (httl : e.ttl ≤ maxTtl)
    (hcached : Entry.Timely e.cachedAt) (haccessed : Entry.Timely e.lastAccessed) :
    (t.stored q e).entryAt q = some { e with root := none } := by
  have hdecode := e.decode_text q
  simp only [Entry.reread_eq httl hcached haccessed] at hdecode
  simp only [entryAt, stored, Dict.get?_insert_self, Option.bind_some, hdecode]

/-! ## Rows -/

variable {t : Contents}

/-- A record whose snapshot is in a row is found, with the dependents that are listed. -/
theorem find_of_row {guid : Guid} {r r' : Record}
    (hrow : t.entities.get? guid = some r.snapshot.text.toUTF8) (hstable : r.Stable)
    (hlevels : r.snapshot.nesting ≤ Json.maxRoom)
    (hsame : r.snapshot.plain = r'.snapshot.plain)
    (hdependents : ∀ q, t.dependents.mem (guid, q) = true ↔ r'.dependents.mem q = true) :
    t.find guid = .ok (some r'.plain) := by
  have hdecode := r.snapshot.decode_text guid
  simp only [Snapshot.reread_eq_plain (s := r.snapshot) hstable hlevels, hsame] at hdecode
  have hlisted : Tables.queriesOf t.dependents guid = r'.dependents := by
    refine KeySet.ext_mem fun q => Bool.eq_iff_iff.mpr ?_
    simp only [Tables.mem_queriesOf, hdependents]
  simp only [Contents.find, hrow]
  cases hread : Blob.decode Snapshot.ofSymbols? guid r.snapshot.text.toUTF8 with
  | error e =>
      simp only [hread] at hdecode
      cases hdecode
  | ok snapshot =>
      simp only [hread] at hdecode
      cases hdecode
      simp only [Except.map, hlisted]
      rfl

theorem get?_makeAll (guids : List Guid) (guid : Guid) : ∀ t : Contents,
    (t.makeAll guids).entities.get? guid =
      if guid ∈ guids then
        some ((t.entities.get? guid).getD (Record.fresh guid).snapshot.text.toUTF8)
      else t.entities.get? guid := by
  induction guids with
  | nil =>
      intro t
      simp [makeAll]
  | cons g rest ih =>
      intro t
      have hrest : (t.makeAll (g :: rest)).entities.get? guid =
          ((t.made g).makeAll rest).entities.get? guid := rfl
      simp only [hrest, ih, get?_made]
      -- A row that is asked for twice is made once.
      by_cases hg : guid = g
      · simp [hg]
      · simp [hg]

theorem frame_makeAll (t : Contents) (guids : List Guid) :
    (t.makeAll guids).trees = t.trees ∧ (t.makeAll guids).dependents = t.dependents := by
  refine List.foldlRecOn
    (motive := fun t' : Contents => t'.trees = t.trees ∧ t'.dependents = t.dependents)
    guids Contents.made ⟨rfl, rfl⟩ ?_
  rintro t' ⟨htrees, hdependents⟩ guid _
  exact ⟨(trees_made guid).trans htrees, (dependents_made guid).trans hdependents⟩

/-- The rows of records that are saved, each under its own guid. -/
theorem get?_saveAll (record : Guid → Record) (hown : ∀ guid, (record guid).guid = guid)
    (guids : List Guid) (guid : Guid) : ∀ t : Contents,
    (t.saveAll (guids.map record)).entities.get? guid =
      if guid ∈ guids then some (record guid).snapshot.text.toUTF8
      else t.entities.get? guid := by
  induction guids with
  | nil =>
      intro t
      simp [saveAll]
  | cons g rest ih =>
      intro t
      have hrest : (t.saveAll ((g :: rest).map record)).entities.get? guid =
          ((t.saved (record g)).saveAll (rest.map record)).entities.get? guid := rfl
      simp only [hrest, ih, get?_saved, hown]
      by_cases hg : guid = g
      · simp [hg]
      · simp [hg]

theorem mem_dependents_saveAll (record : Guid → Record)
    (hown : ∀ guid, (record guid).guid = guid) (guids : List Guid) (guid : Guid) (q : QueryKey) :
    ∀ t : Contents,
    (t.saveAll (guids.map record)).dependents.mem (guid, q) = true ↔
      t.dependents.mem (guid, q) = true ∨ guid ∈ guids ∧ (record guid).dependents.mem q = true := by
  induction guids with
  | nil =>
      intro t
      simp [saveAll]
  | cons g rest ih =>
      intro t
      have hrest : (t.saveAll ((g :: rest).map record)).dependents =
          ((t.saved (record g)).saveAll (rest.map record)).dependents := rfl
      simp only [hrest, ih, saved, KeySet.mem_union, Tables.mem_pairsOf, hown, Bool.or_eq_true,
        Bool.and_eq_true, decide_eq_true_eq, List.mem_cons, or_assoc]
      refine or_congr_right ?_
      by_cases hg : guid = g
      · simp [hg]
      · simp [hg]

section Absorbed

variable {ids : IdIndex} {fields : List (String × Value)} {requestor : Option QueryKey}

/-- The entities of an object have their merged records, and the other ids in it at least fresh
ones. -/
theorem get?_absorbed (ht : t.Keyed) (guid : Guid) :
    (t.absorbed ids fields requestor).entities.get? guid =
      if guid ∈ entitiesOf ids fields then
        some ((t.record guid).merged ids fields requestor).snapshot.text.toUTF8
      else (t.makeAll (idsWithin ids (.map fields)).toList).entities.get? guid := by
  simp only [absorbed, mem_entitySet,
    get?_saveAll (fun guid => (t.record guid).merged ids fields requestor)
      fun guid => guid_record ht guid]

theorem mem_dependents_absorbed (ht : t.Keyed) (guid : Guid) (q : QueryKey) :
    (t.absorbed ids fields requestor).dependents.mem (guid, q) = true ↔
      t.dependents.mem (guid, q) = true ∨ guid ∈ entitiesOf ids fields ∧
        ((t.record guid).dependents.mem q = true ∨ requestor = some q) := by
  simp only [absorbed, mem_entitySet, (frame_makeAll t _).2, Record.mem_dependents_merged,
    mem_dependents_saveAll (fun guid => (t.record guid).merged ids fields requestor)
      fun guid => guid_record ht guid]

theorem trees_absorbed : (t.absorbed ids fields requestor).trees = t.trees :=
  (trees_saveAll _ _).trans (frame_makeAll t _).1

/-- An entity of an object shows what its merged record reads back as. -/
theorem fields?_absorbed (ht : t.Keyed) {guid : Guid} (hguid : guid ∈ entitiesOf ids fields) :
    (t.absorbed ids fields requestor).catalog.fields? guid =
      (((t.record guid).merged ids fields requestor).snapshot.reread Json.maxRoom).map
        (fun s => s.fields.bindings) := by
  have hrow : (t.absorbed ids fields requestor).entities.get? guid =
      some ((t.record guid).merged ids fields requestor).snapshot.text.toUTF8 :=
    (get?_absorbed ht guid).trans (if_pos hguid)
  simp only [fields?_catalog, find, hrow]
  have hdecode := ((t.record guid).merged ids fields requestor).snapshot.decode_text guid
  cases hread : Blob.decode Snapshot.ofSymbols? guid
      ((t.record guid).merged ids fields requestor).snapshot.text.toUTF8 with
  | error e =>
      simp only [hread] at hdecode
      simp only [← hdecode]
      rfl
  | ok s =>
      simp only [hread] at hdecode
      simp only [← hdecode]
      rfl

end Absorbed

end Contents

/-- The contents of a file as a ledger. -/
def ledger : Ledger Contents where
  record := Contents.record
  made guids t := t.makeAll guids.toList
  absorbed ids fields requestor t := t.absorbed ids fields requestor
  stored q e t := t.stored q e
  shown now q t := t.result? now q
  accessed now q t := t.accessed now q
  counts := Contents.counts

/-- Between two operations: the file has the given contents, in which every row holds the entity
that it is found under, and nobody holds a record. -/
structure Settled (w : World Connected) (t : Contents) : Prop where
  held : w.held = []
  bounded : w.Bounded
  holds : w.Holds t
  keyed : t.Keyed

variable {w : World Connected} {t : Contents}

theorem counts_apply (hw : w.Holds t) : backend.counts w = (.ok t.counts, w) := by
  have htrees : Connected.table Tables.trees w = (.ok t.trees, w) := Connected.table_apply hw rfl
  have hentities : Connected.table Tables.entities w = (.ok t.entities, w) :=
    Connected.table_apply hw rfl
  show Connected.counts w = _
  simp only [Connected.counts, Act.bind_ok htrees, Act.bind_ok hentities]
  rfl

/-- An object is absorbed: its entities are saved as they are after the split. -/
theorem absorb_apply (hw : Settled w t) (fields : List (String × Value)) (ids : IdIndex)
    (requestor : Option QueryKey) : ∃ pass w',
      backend.absorb (.map fields) ids requestor w = (.ok pass, w') ∧
      Settled w' (t.absorbed ids fields requestor) ∧ w'.now = w.now ∧
      pass.root = skeletonOf ids fields ∧
      pass.impacted = impactedBy ids fields requestor t.record := by
  rcases steps_map hw.holds hw.keyed hw.bounded hw.held fields ids requestor with
    ⟨index, w₁, pass, w₂, hbatch, hsplit, hw₂, hbounded₂, hpool, hpass, hnow, hrecord⟩
  rcases saves_touched hpass hw₂ hbounded₂ hpool pass.touched.values fun h hh => hh with
    ⟨w₃, hsaves, hw₃, hbounded₃, hnow₃, -⟩
  have htouched := hpass.touched_eq hrecord fun guid _ => Contents.guid_record hw.keyed guid
  simp only [htouched] at hw₃
  refine ⟨pass, _, Backend.absorb_of_saved hbatch hsplit hsaves, ?_, hnow₃.trans hnow,
    hpass.root_eq, ?_⟩
  · exact ⟨hw.held, hbounded₃, hw₃, (hw.keyed.makeAll _).saveAll _⟩
  · refine hpass.impacted_eq fun guid hguid q => ?_
    simp only [RecordSet.dependentsAt, hrecord guid hguid]
    rfl

/-- The calls of a store do to the contents of its file what they should. -/
theorem keeps : backend.Keeps ledger Settled where
  report _ hw := ⟨hw.held, hw.bounded, hw.holds, hw.keyed⟩
  time _ hw := ⟨hw.held, hw.bounded, hw.holds, hw.keyed⟩
  absorb := by
    intro fields ids requestor w t hw
    exact absorb_apply hw fields ids requestor
  refuse := by
    intro v ids requestor w t hv hw
    -- The entities of a result that is refused are made before it is refused.
    rcases Connected.batch_apply hw.holds hw.keyed hw.bounded hw.held (idsWithin ids v) with
      ⟨index, w₁, hbatch, hw₁, hloads, -, -⟩
    exact ⟨_, _, Backend.absorb_of_refused hbatch (Backend.splitOver_of_other hv),
      hw.held, hloads.bounded hw.bounded, hw₁, hw.keyed.makeAll _⟩
  setTree := by
    intro q n span w t hw
    exact ⟨_, Connected.setTree_apply hw.holds q _, hw.held, hw.bounded, hw.holds.withContents _,
      hw.keyed⟩
  read := by
    intro q w t hw
    rcases read_apply hw.holds hw.keyed hw.bounded hw.held q with
      ⟨w', hread, hholds, hbounded, hheld⟩
    exact ⟨w', hread, hheld, hbounded, hholds, hw.keyed.accessed w.now q⟩
  counts hw := counts_apply hw.holds

end FileStore

/-! ## A new file -/

/-- The cache of a user on the opened store with a number. -/
def shopCache (n : Nat) : Cache :=
  { Cache.new .default false with
    target := .ready ⟨Scope.of .persistent "shop" none "local", .file n, []⟩ }

/-- A new file, to which two stores are connected. -/
def newFile : World Vault :=
  ⟨.empty, [], [], 0, ⟨.empty false, .ofList [(0, ⟨.empty, .blank⟩)], .empty,
    .ofList [(1, .new 0), (2, .new 0)], .empty, 3⟩⟩

theorem settled_newFile :
    FileStore.Settled (newFile.focus (Vault.connected 1)) FileStore.Contents.empty where
  held := rfl
  bounded _ _ hlive := by cases hlive
  holds := ⟨rfl, rfl⟩
  keyed := FileStore.Contents.keyed_empty

end EntityCache
