import EntityCache.Proofs.Cache.Notified
import EntityCache.Proofs.Store.Lookup
import EntityCache.Proofs.Store.Through

/-!
# Reads are local and change nothing

A read looks at the cached result of its query and at the rows of the entities that are named
there, and at nothing else.  Rows may hold anything.

* `StoreId.rows`, `StoreId.Ready`: what a store holds of each entity, and that it answers calls.
* `StoreId.Accessed`: nothing but the time of the latest access to one result is another one.
* `StoreRef.read_accessed`: what a read shows and what it changes, through a store of either kind.
* `Cache.read_local`: when a read is a hit, what its data depends on, and what it leaves alone.
-/

namespace EntityCache

open Normalize

/-- The fields of the entities whose rows can be decoded. -/
def Rows.view (rows : Rows) : FieldView := fun guid =>
  (rows guid).join.map (fun s => s.fields.bindings)

/-! ## Stores -/

namespace StoreId

/-- What a store holds of each entity.  Nothing has to be decoded in memory. -/
def rows (id : StoreId) (w : World Vault) : Rows :=
  match id with
  | memory n => fun guid =>
      some (((w.focus (Vault.memory n)).records.get? guid).map Record.snapshot)
  | file n => (w.store.connected n).contents.rows

/-- The store answers calls.  One in a file is open, has all tables, and nobody holds a record of
it; what is in its rows does not matter. -/
def Ready (id : StoreId) (w : World Vault) : Prop :=
  match id with
  | memory _ => True
  | file n => w.held = [] ∧ (w.focus (Vault.connected n)).Bounded ∧
      ∃ t, (w.focus (Vault.connected n)).Holds t

/-- No row that is named in the cached result of `q` holds an entity of another row named there. -/
def Filed (id : StoreId) (w : World Vault) (q : QueryKey) : Prop :=
  match id with
  | memory _ => True
  | file _ => ∀ n, (id.catalog w).skeleton? q = some n → (id.rows w).Filed n.guidList

/-- What a skeleton stands for, unless one of its entities cannot be decoded. -/
def assembled? (id : StoreId) (w : World Vault) (n : Skeleton) : Option Value :=
  match id with
  | memory _ => some (assemble (id.rows w).view n)
  | file _ => ((id.rows w).seek n.guids.toList .empty .empty).map (fun found =>
      assemble (FileStore.viewOf found) n)

/-- Of the data of the store only the time of the latest access to the cached result of `q` may be
another one: the bytes of its row stay as well. -/
def Accessed (id : StoreId) (q : QueryKey) (w w' : World Vault) : Prop :=
  match id with
  | memory n => w'.store.memory n = { w.store.memory n with
      trees := MemoryStore.accessedTrees (w.store.memory n).trees w.now q }
  | file n => w'.store.tables (w.store.fileStore n).file =
      ((w.store.connected n).contents.accessed w.now q).tables

variable {id : StoreId} {w w' : World Vault} {n : Skeleton}

/-- Only the named rows matter. -/
theorem assembled?_congr (h : ∀ guid ∈ n.guidList, id.rows w' guid = id.rows w guid) :
    id.assembled? w' n = id.assembled? w n := by
  cases id with
  | memory m =>
      refine congrArg some (assemble_congr n fun guid hguid => ?_)
      simp only [Rows.view, h guid hguid]
  | file m =>
      have hrows : ∀ guid ∈ n.guids.toList,
          (StoreId.file m).rows w' guid = (StoreId.file m).rows w guid :=
        fun guid hguid => h guid (FileStore.mem_guids_toList.mp hguid)
      have hseek : ((file m).rows w').seek n.guids.toList .empty .empty =
          ((file m).rows w).seek n.guids.toList .empty .empty :=
        Rows.seek_congr .empty (fun _ _ => rfl) fun guid hguid _ => hrows guid hguid
      simp only [assembled?, hseek]

theorem isSome_assembled? (h : ∀ guid ∈ n.guidList, (id.rows w guid).isSome = true) :
    (id.assembled? w n).isSome = true := by
  cases id with
  | memory m =>
      rfl
  | file m =>
      rw [assembled?, Option.isSome_map]
      exact Rows.isSome_seek (fun guid hguid => h guid (FileStore.mem_guids_toList.mp hguid)) _ _

/-- An entity that cannot be decoded is passed over only if an earlier row holds it. -/
theorem hidden_of_assembled? (h : (id.assembled? w n).isSome = true) :
    ∀ guid ∈ n.guidList, id.rows w guid = none → ∃ guid' ∈ n.guidList,
      Key.before guid' guid = true ∧ ∃ s, id.rows w guid' = some (some s) ∧ s.guid = guid := by
  intro guid hguid hbad
  cases id with
  | memory m =>
      cases hbad
  | file m =>
      rw [assembled?, Option.isSome_map] at h
      have hsorted : n.guids.toList.Pairwise (fun a b => Key.before a b = true) :=
        List.pairwise_map.mpr n.guids.sorted
      rcases Rows.hidden_of_seek hsorted h guid (FileStore.mem_guids_toList.mpr hguid) hbad with
        hknown | ⟨guid', hguid', hhidden⟩
      · cases hknown
      · exact ⟨guid', FileStore.mem_guids_toList.mp hguid', hhidden⟩

section Filed

variable {q : QueryKey} (hfiled : id.Filed w q) (hn : (id.catalog w).skeleton? q = some n)

include hfiled hn

/-- Where the named rows are filed, none of them is passed over. -/
theorem all_of_filed (h : (id.assembled? w n).isSome = true) :
    ∀ guid ∈ n.guidList, (id.rows w guid).isSome = true := by
  intro guid hguid
  rw [Option.isSome_iff_ne_none]
  intro hbad
  cases id with
  | memory m =>
      cases hbad
  | file m =>
      rcases hidden_of_assembled? h guid hguid hbad with ⟨guid', hguid', hbefore, s, hs, rfl⟩
      rcases hfiled n hn guid' hguid' s hs with hsame | hout
      · exact Key.ne_of_before hbefore hsame.symm
      · exact hout hguid

/-- Where the named rows are filed, they are what is assembled. -/
theorem assembled?_of_filed (hall : ∀ guid ∈ n.guidList, (id.rows w guid).isSome = true) :
    id.assembled? w n = some (assemble (id.rows w).view n) := by
  cases id with
  | memory m =>
      rfl
  | file m =>
      have hfiled' : (((file m).rows w).knowing .empty).Filed n.guids.toList := by
        intro guid hguid s hs
        have hcases := hfiled n hn guid (FileStore.mem_guids_toList.mp hguid) s hs
        exact hcases.imp_right fun hout hin => hout (FileStore.mem_guids_toList.mp hin)
      rcases Rows.seek_of_filed n.guids.nodup_toList .empty .empty hfiled'
        (fun guid hguid => hall guid (FileStore.mem_guids_toList.mp hguid)) (fun _ _ => rfl) with
        ⟨found, hseek, hrows, -⟩
      simp only [assembled?, hseek, Option.map_some]
      refine congrArg some (assemble_congr n fun guid hguid => ?_)
      simp only [FileStore.viewOf, Rows.view, hrows guid (FileStore.mem_guids_toList.mpr hguid),
        Rows.knowing_empty]

end Filed

end StoreId

/-! ## Through a store -/

/-- What a query shows, as far as its entities can be decoded. -/
def StoreId.answer? (id : StoreId) (w : World Vault) (q : QueryKey) : Option Value :=
  ((id.catalog w).skeleton? q).bind (fun n => (id.assembled? w n).map Value.plain)

theorem MemoryStore.map_data_resultOf (trees : Dict QueryKey Entry) (view : FieldView) (now : Time)
    (q : QueryKey) : (resultOf trees view now q).map CachedResult.data =
      ((trees.get? q).bind (fun e => e.root?.toOption)).map (fun n => (assemble view n).plain) := by
  rw [resultOf, Option.map_bind, Option.map_bind]
  refine Option.bind_congr fun e _ => ?_
  exact Option.map_map ..

theorem FileStore.Contents.map_data_answer? (t : Contents) (now : Time) (q : QueryKey) :
    (t.answer? now q).map CachedResult.data = (t.catalog.skeleton? q).bind (fun n =>
      (t.named? n).map (fun found => (assemble (viewOf found) n).plain)) := by
  rw [answer?, skeleton?_eq, Option.map_bind, Option.bind_assoc]
  refine Option.bind_congr fun e _ => ?_
  refine Option.map_bind.trans (Option.bind_congr fun n _ => ?_)
  exact Option.map_map ..

/-- The rows of a store in memory are its records. -/
theorem StoreId.view_rows_memory (n : Nat) (w : World Vault) :
    ((memory n).rows w).view = (w.focus (Vault.memory n)).records.view := by
  funext guid
  simp only [rows, Rows.view, RecordSet.view, Option.join_some, Option.map_map]
  rfl

/-- A read through a store concerns no other one. -/
theorem StoreRef.through_read {r : StoreRef} (hguards : r.guards = []) (q : QueryKey)
    (w : World Vault) : Tidy r.store.Through w (r.backend.read q w).2 :=
  r.through hguards .default ⟨.start, none⟩ (.read w.now q) w

/-- A read through a store answers what its rows say and changes nothing but the time of access. -/
theorem StoreRef.read_accessed {r : StoreRef} {w : World Vault} (hguards : r.guards = [])
    (hready : r.store.Ready w) (q : QueryKey) : ∃ result w', r.backend.read q w = (result, w') ∧
      result.map CachedResult.data = r.store.answer? w q ∧ r.store.Accessed q w w' ∧
      ∀ h s, w.pool.get? h = some s → w'.pool.get? h = some s := by
  cases hstore : r.store with
  | memory n =>
      rcases MemoryStore.read_apply q (w.focus (Vault.memory n)) with ⟨v, hread, hrecords, htrees⟩
      rcases ((backend_mirrors_memory hstore hguards).read q).eq hread with ⟨w', hread', rfl⟩
      have hpool : w'.pool = w.pool := congrArg RecordSet.pool hrecords
      have hentities : (w'.store.memory n).entities = (w.store.memory n).entities :=
        congrArg RecordSet.index hrecords
      have htrees' : (w'.store.memory n).trees =
          MemoryStore.accessedTrees (w.store.memory n).trees w.now q := htrees
      refine ⟨_, w', hread', ?_, ?_, fun h s hs => by rwa [hpool]⟩
      · rw [MemoryStore.map_data_resultOf, ← StoreId.view_rows_memory]
        exact Option.map_eq_bind
      · show w'.store.memory n = MemoryStore.mk _ _
        rw [← htrees', ← hentities]
  | file n =>
      rw [hstore] at hready
      rcases hready with ⟨hheld, hbounded, t, hholds⟩
      rcases FileStore.read_answers hholds hbounded hheld q with ⟨v, hread, hv, hloads, -⟩
      rcases ((backend_mirrors_file hstore hguards).read q).eq hread with ⟨w', hread', rfl⟩
      have hcontents : (w.store.connected n).contents = t := by
        have htables : (w.store.connected n).state.tables = t.tables := hholds.2
        simp only [FileStore.Connected.contents, htables]
        rfl
      have hcatalog : (StoreId.file n).catalog w = t.catalog := FileStore.catalog_of_holds hholds
      refine ⟨_, w', hread', ?_, ?_, fun h s hs => hloads.pool hs⟩
      · rw [FileStore.Contents.map_data_answer?, StoreId.answer?, hcatalog]
        refine Option.bind_congr fun root _ => ?_
        simp only [StoreId.assembled?, StoreId.rows, hcontents, Option.map_map]
        rfl
      -- The store has stayed on its file.
      · have hfile : (w'.store.fileStore n).file = (w.store.fileStore n).file := by
          have hthrough := (through_read hguards q w).1
          rw [hread', hstore] at hthrough
          exact (hthrough.tied n rfl).file
        show w'.store.tables _ = _
        rw [← hfile, hcontents]
        exact hv.2

/-- A read is a hit if there is a skeleton that can be decoded and every row named in it can, too.
It is a hit only then, but that a damaged row may be passed over where an earlier row holds its
entity; where no row is filed so, a read is a hit exactly then, and shows the fields in the rows.
The data depends on the skeleton and the named rows alone, whatever else is stored.  And however it
ends, a read creates nothing and changes nothing but the time of the latest access to its result. -/
theorem Cache.read_local {c : Cache} {r : StoreRef} {w : World Vault} (hstore : c.store? = some r)
    (hguards : r.guards = []) (hready : r.store.Ready w) (q : QueryKey) :
    (∀ n, (r.store.catalog w).skeleton? q = some n →
      (∀ guid ∈ n.guidList, (r.store.rows w guid).isSome = true) →
      (c.read q w).1.isSome = true) ∧
    ((c.read q w).1.isSome = true → ∃ n, (r.store.catalog w).skeleton? q = some n ∧
      ∀ guid ∈ n.guidList, r.store.rows w guid = none → ∃ guid' ∈ n.guidList,
        Key.before guid' guid = true ∧ ∃ s, r.store.rows w guid' = some (some s) ∧ s.guid = guid) ∧
    (r.store.Filed w q →
      ((c.read q w).1.isSome = true ↔ ∃ n, (r.store.catalog w).skeleton? q = some n ∧
        ∀ guid ∈ n.guidList, (r.store.rows w guid).isSome = true) ∧
      ∀ result, (c.read q w).1 = some result → ∃ n, (r.store.catalog w).skeleton? q = some n ∧
        result.data = (assemble (r.store.rows w).view n).plain) ∧
    (∀ w₂, r.store.Ready w₂ → (r.store.catalog w₂).skeleton? q = (r.store.catalog w).skeleton? q →
      (∀ n, (r.store.catalog w).skeleton? q = some n →
        ∀ guid ∈ n.guidList, r.store.rows w₂ guid = r.store.rows w guid) →
      (c.read q w₂).1.map CachedResult.data = (c.read q w).1.map CachedResult.data) ∧
    Tidy r.store.Through w (c.read q w).2 ∧ r.store.Accessed q w (c.read q w).2 ∧
    ∀ h s, w.pool.get? h = some s → (c.read q w).2.pool.get? h = some s := by
  have hread : c.read q = r.backend.read q := by
    simp only [Cache.read, hstore]
  simp only [hread]
  have hanswer : ∀ w', r.store.Ready w' →
      (r.backend.read q w').1.map CachedResult.data = r.store.answer? w' q := by
    intro w' hw'
    rcases StoreRef.read_accessed hguards hw' q with ⟨result, v, hrun, hdata, -⟩
    rw [hrun]
    exact hdata
  -- A hit needs a skeleton, and then it is a matter of the named rows.
  have hit : ∀ n, (r.store.catalog w).skeleton? q = some n →
      (r.backend.read q w).1.map CachedResult.data = (r.store.assembled? w n).map Value.plain := by
    intro n hn
    simp only [hanswer w hready, StoreId.answer?, hn, Option.bind_some]
  have hsome : ∀ n, (r.store.catalog w).skeleton? q = some n →
      (r.backend.read q w).1.isSome = (r.store.assembled? w n).isSome := by
    intro n hn
    have h := congrArg Option.isSome (hit n hn)
    rwa [Option.isSome_map, Option.isSome_map] at h
  have hskeleton : (r.backend.read q w).1.isSome = true →
      ∃ n, (r.store.catalog w).skeleton? q = some n := by
    intro h
    rw [← Option.isSome_map (f := CachedResult.data), hanswer w hready] at h
    rcases Option.isSome_iff_exists.mp h with ⟨v, hv⟩
    rcases Option.bind_eq_some_iff.mp hv with ⟨n, hn, -⟩
    exact ⟨n, hn⟩
  refine ⟨?_, ?_, fun hfiled => ⟨⟨?_, ?_⟩, ?_⟩, ?_, StoreRef.through_read hguards q w, ?_⟩
  · intro n hn hall
    rw [hsome n hn]
    exact StoreId.isSome_assembled? hall
  · intro h
    rcases hskeleton h with ⟨n, hn⟩
    rw [hsome n hn] at h
    exact ⟨n, hn, StoreId.hidden_of_assembled? h⟩
  · intro h
    rcases hskeleton h with ⟨n, hn⟩
    rw [hsome n hn] at h
    exact ⟨n, hn, StoreId.all_of_filed hfiled hn h⟩
  · rintro ⟨n, hn, hall⟩
    rw [hsome n hn]
    exact StoreId.isSome_assembled? hall
  · intro result hresult
    have h : (r.backend.read q w).1.isSome = true := by rw [hresult]; rfl
    rcases hskeleton h with ⟨n, hn⟩
    rw [hsome n hn] at h
    have hall := StoreId.all_of_filed hfiled hn h
    have hdata := hit n hn
    rw [hresult, StoreId.assembled?_of_filed hfiled hn hall] at hdata
    exact ⟨n, hn, Option.some.inj hdata⟩
  · intro w₂ hw₂ hsame hrows
    rw [hanswer w hready, hanswer w₂ hw₂, StoreId.answer?, StoreId.answer?, hsame]
    exact Option.bind_congr fun n hn => by rw [StoreId.assembled?_congr (hrows n hn)]
  · rcases StoreRef.read_accessed hguards hready q with ⟨result, w', hrun, -, haccessed, hpool⟩
    rw [hrun]
    exact ⟨haccessed, hpool⟩

/-- Two items, where the row of the first one holds the second one, and that of the second one is
damaged. -/
def hiddenTables : Tables :=
  ⟨some (.ofList [("list", ⟨1, (Entry.new "list" (Skeleton.text ⟨none, [], [],
      [("items", [⟨some "P1", [], [], []⟩, ⟨some "P2", [], [], []⟩])]⟩)
      (.ofSeconds 60) none 1).text.toUTF8⟩)]),
    some (.ofList [
      ("P1", (Snapshot.text ⟨"P2", .ofList [("price", .num (.int 5))]⟩).toUTF8),
      ("P2", "?".toUTF8)]),
    some .empty⟩

/-- A store in a file with these tables. -/
def hiddenWorld : World Vault :=
  { newFileWorld with store := { newFileWorld.store with
      files := .ofList [(0, ⟨hiddenTables, .blank⟩)] } }

/-- The damaged row of the second item is passed over, as the row of the first one holds it. -/
theorem Cache.read_local_hidden :
    (StoreId.file 1).Ready hiddenWorld ∧ (fileCache.read "list" hiddenWorld).1.isSome = true ∧
      (∃ n, ((StoreId.file 1).catalog hiddenWorld).skeleton? "list" = some n ∧ "P2" ∈ n.guidList) ∧
      (StoreId.file 1).rows hiddenWorld "P2" = none ∧
      ¬ (StoreId.file 1).Filed hiddenWorld "list" := by
  have hready : (StoreId.file 1).Ready hiddenWorld :=
    ⟨rfl, fun _ _ hlive => (Option.some_ne_none _ hlive.symm).elim, ⟨_, _, _⟩, rfl, rfl⟩
  have hsome : (fileCache.read "list" hiddenWorld).1.isSome = true := by decide +kernel
  have hrow : (StoreId.file 1).rows hiddenWorld "P2" = none := by
    rw [← Option.isNone_iff_eq_none]
    decide +kernel
  have hnamed : ∃ n, ((StoreId.file 1).catalog hiddenWorld).skeleton? "list" = some n ∧
      "P2" ∈ n.guidList := by
    have hany : (((StoreId.file 1).catalog hiddenWorld).skeleton? "list").any
        (fun n => n.guidList.contains "P2") = true := by decide +kernel
    rcases (Option.any_eq_true _ _).mp hany with ⟨n, hn, hmem⟩
    exact ⟨n, hn, List.contains_iff_mem.mp hmem⟩
  have hlocal := Cache.read_local (c := fileCache) rfl rfl hready "list"
  refine ⟨hready, hsome, hnamed, hrow, fun hfiled => ?_⟩
  -- Were the rows filed, the list could not be shown without the second item.
  rcases (hlocal.2.2.1 hfiled).1.mp hsome with ⟨n, hn, hall⟩
  rcases hnamed with ⟨n', hn', hmem⟩
  cases hn.symm.trans hn'
  have hbad := hall "P2" hmem
  rw [hrow] at hbad
  cases hbad

end EntityCache
