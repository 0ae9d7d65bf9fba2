import EntityCache.Proofs.Cache.LocalReads
import EntityCache.Proofs.Store.Batches

/-!
# What a skeleton is assembled from

A store that assembles a skeleton looks up the records of the entities that are named there, and no
others:

* `Normalize.assemble_of_view`: what is shown and what is reported to be missing depends on the
  records of these entities alone.
* `Connected.heldRecords`, `Connected.atHand`: what a store in a file has of each entity.
* `FileStore.project_of_filed`, `FileStore.project_of_damaged`: it assembles what it has.
* `FileStore.project_congr`: so two stores that have the same of the named entities show the same.
* `FileStore.Attained.filed`: a store finds every entity under its own guid if others file it so.
* `project_of_named`: all this for stores of either kind.
-/

namespace EntityCache

open Normalize

namespace Normalize

/-- Records of entities that are not named do not matter. -/
theorem assemble_of_view {view view' : FieldView} {n : Skeleton}
    (h : ∀ guid, n.guids.mem guid = true → view guid = view' guid) :
    assemble view n = assemble view' n ∧ missing view n = missing view' n := by
  have hnamed : ∀ guid ∈ n.guidList, view guid = view' guid := by
    intro guid hguid
    refine h guid ?_
    rw [Skeleton.guids, KeySet.mem_ofKeys, decide_eq_true_eq]
    exact hguid
  refine ⟨assemble_congr n fun guid hguid => by rw [hnamed guid hguid], ?_⟩
  exact List.filter_congr fun guid hguid => by rw [hnamed guid hguid]

end Normalize

namespace FileStore

variable {w w' : World Connected} {n : Skeleton}

namespace Connected

/-- The records that are known and that somebody holds. -/
def heldRecords (w : World Connected) : Dict Guid Snapshot :=
  ⟨Assoc.filterMap (fun guid _ => (live? w guid).bind (fun h =>
      (w.pool.get? h).map Record.snapshot)) w.store.opened.live.bindings,
    w.store.opened.live.sorted.filterMap _⟩

/-- What a store has of each entity: a record that somebody holds, or else its row. -/
def atHand (w : World Connected) : Rows :=
  w.store.contents.rows.knowing (heldRecords w)

theorem get?_heldRecords (w : World Connected) (guid : Guid) :
    (heldRecords w).get? guid =
      (live? w guid).bind (fun h => (w.pool.get? h).map Record.snapshot) := by
  have hget := Assoc.get?_filterMap w.store.opened.live.sorted (fun guid _ =>
    (live? w guid).bind (fun h => (w.pool.get? h).map Record.snapshot)) guid
  refine Eq.trans hget ?_
  cases hlive : live? w guid with
  | none =>
      exact Option.bind_fun_none _
  | some h =>
      have hsome : Assoc.get? guid w.store.opened.live.bindings = some h :=
        (live?_eq_some_iff.mp hlive).1
      rw [hsome, Option.bind_some]

theorem standsFor_heldRecords (hbounded : w.Bounded) (guid : Guid) :
    StandsFor w (live? w guid) ((heldRecords w).get? guid) := by
  rw [get?_heldRecords]
  cases hlive : live? w guid with
  | none =>
      rfl
  | some h =>
      have hlt := hbounded guid h (live?_eq_some_iff.mp hlive).1
      have hr : w.pool.get? h = some w.pool.cells[h] := Array.getElem?_eq_getElem hlt
      rw [Option.bind_some, hr]
      exact .of_get? hr

end Connected

open Connected

/-- A skeleton is assembled from what is at hand. -/
theorem project_sought (hw : Usable w.store) (hbounded : w.Bounded) (n : Skeleton) :
    (backend.project n w).1.toOption = (w.store.contents.rows.seek n.guids.toList
      (heldRecords w) .empty).map (fun found => assemble (viewOf found) n) := by
  rcases hw with ⟨t, hopen, htables⟩
  have hw : w.Holds t := ⟨hopen, htables⟩
  rw [Orderly.contents_eq hw]
  rcases project_looks hw hbounded (standsFor_heldRecords hbounded) n with
    ⟨w', -, -, -, ⟨e, hrun, hseek⟩ | ⟨found, hrun, hseek⟩⟩
  · rw [hrun, hseek]
    rfl
  · rw [hrun, hseek]
    rfl

/-- Where no named entity is filed under another one, all that is at hand shows the same. -/
theorem project_of_filed (hw : Usable w.store) (hbounded : w.Bounded)
    (hfiled : (atHand w).Filed n.guids.toList)
    (hall : ∀ guid, n.guids.mem guid = true → (atHand w guid).isSome = true) :
    (backend.project n w).1.toOption = some (assemble (atHand w).view n) := by
  rcases Rows.seek_of_filed n.guids.nodup_toList (heldRecords w) .empty hfiled
    (fun guid hguid => hall guid ((KeySet.mem_iff_mem_toList _ _).mpr hguid)) (fun _ _ => rfl) with
    ⟨found, hseek, hrows, -⟩
  rw [project_sought hw hbounded, hseek, Option.map_some]
  refine congrArg some (assemble_of_view fun guid hguid => ?_).1
  rw [viewOf, hrows guid ((KeySet.mem_iff_mem_toList _ _).mp hguid)]
  rfl

/-- Nothing is shown there if one of them cannot be decoded. -/
theorem project_of_damaged (hw : Usable w.store) (hbounded : w.Bounded)
    (hfiled : (atHand w).Filed n.guids.toList) {guid : Guid} (hguid : n.guids.mem guid = true)
    (hbad : atHand w guid = none) : (backend.project n w).1.toOption = none := by
  rw [project_sought hw hbounded, Rows.seek_of_filed_damaged n.guids.nodup_toList _ _ hfiled
    ⟨guid, (KeySet.mem_iff_mem_toList _ _).mp hguid, hbad⟩]
  rfl

/-- Wherever entities are filed, those that are not named do not matter. -/
theorem project_congr (hw : Usable w.store) (hbounded : w.Bounded) (hw' : Usable w'.store)
    (hbounded' : w'.Bounded) (hsame : ∀ guid, n.guids.mem guid = true →
      (heldRecords w').get? guid = (heldRecords w).get? guid ∧ atHand w' guid = atHand w guid) :
    (backend.project n w').1.toOption = (backend.project n w).1.toOption := by
  have hmem : ∀ {guid}, guid ∈ n.guids.toList → n.guids.mem guid = true :=
    (KeySet.mem_iff_mem_toList _ _).mpr
  rw [project_sought hw hbounded, project_sought hw' hbounded']
  refine congrArg _ (Rows.seek_congr .empty (fun guid hguid => (hsame guid (hmem hguid)).1) ?_)
  intro guid hguid hnone
  rcases hsame guid (hmem hguid) with ⟨hheld, hrows⟩
  rwa [atHand, atHand, Rows.knowing_of_unknown hnone,
    Rows.knowing_of_unknown (hheld.trans hnone)] at hrows

/-- A store finds every entity under its own guid, as long as others file it there. -/
theorem Attained.filed (h : Attained w) (guids : List Guid) :
    Usable w.store ∧ w.Bounded ∧ (atHand w).Filed guids := by
  rcases h.tracks with ⟨log, t, htracks⟩
  refine ⟨⟨t, htracks.holds⟩, htracks.bounded, fun guid _ s hs => Or.inl ?_⟩
  cases hheld : (heldRecords w).get? guid with
  | some s' =>
      rw [atHand, Rows.knowing_of_known hheld] at hs
      cases hs
      rw [get?_heldRecords] at hheld
      rcases Option.bind_eq_some_iff.mp hheld with ⟨i, hlive, hi⟩
      rcases htracks.known hlive with ⟨r, hr, hguid, -⟩
      rw [hr] at hi
      cases hi
      exact hguid
  | none =>
      rw [atHand, Rows.knowing_of_unknown hheld, Orderly.contents_eq htracks.holds] at hs
      exact htracks.keyed.guid_of_row hs

end FileStore

/-- A skeleton needs the records of the entities that are named in it, and no others: two sets of
records that show the same of these show the same result.  So a store in memory shows what all its
records show.  So does a store in a file, whoever holds records of it, if no named entity is filed
under another one; if one of them cannot be decoded, nothing is shown.  And however entities are
filed, two files that have the same of those that are named show the same. -/
theorem project_of_named (n : Skeleton) :
    (∀ s s' : RecordSet, (∀ guid, n.guids.mem guid = true → s.view guid = s'.view guid) →
      assemble s.view n = assemble s'.view n ∧ missing s.view n = missing s'.view n) ∧
    (∀ w, (MemoryStore.backend.project n w).1.toOption = some (assemble w.records.view n)) ∧
    (∀ w : World FileStore.Connected, FileStore.Connected.Usable w.store → w.Bounded →
      (FileStore.Connected.atHand w).Filed n.guids.toList →
      ((∀ guid, n.guids.mem guid = true → (FileStore.Connected.atHand w guid).isSome = true) →
        (FileStore.backend.project n w).1.toOption =
          some (assemble (FileStore.Connected.atHand w).view n)) ∧
      ∀ guid, n.guids.mem guid = true → FileStore.Connected.atHand w guid = none →
        (FileStore.backend.project n w).1.toOption = none) ∧
    ∀ w w' : World FileStore.Connected, FileStore.Connected.Usable w.store → w.Bounded →
      FileStore.Connected.Usable w'.store → w'.Bounded →
      (∀ guid, n.guids.mem guid = true →
        (FileStore.Connected.heldRecords w').get? guid =
          (FileStore.Connected.heldRecords w).get? guid ∧
        FileStore.Connected.atHand w' guid = FileStore.Connected.atHand w guid) →
      (FileStore.backend.project n w').1.toOption = (FileStore.backend.project n w).1.toOption := by
  refine ⟨fun s s' h => assemble_of_view h, fun w => ?_, fun w hw hbounded hfiled => ⟨?_, ?_⟩, ?_⟩
  · rcases MemoryStore.project_eq n w with ⟨signals, hproject⟩
    rw [hproject]
    rfl
  · exact FileStore.project_of_filed hw hbounded hfiled
  · intro guid hguid hbad
    exact FileStore.project_of_damaged hw hbounded hfiled hguid hbad
  · intro w w' hw hbounded hw' hbounded' hsame
    exact FileStore.project_congr hw hbounded hw' hbounded' hsame

/-- A list of two entities. -/
def pairSkeleton : Skeleton :=
  ⟨none, [], [], [("items", [⟨some "P1", [], [], []⟩, ⟨some "P2", [], [], []⟩])]⟩

theorem mem_guids_pairSkeleton {guid : Guid} (h : pairSkeleton.guids.mem guid = true) :
    guid = "P1" ∨ guid = "P2" := by
  have hlist : pairSkeleton.guidList = ["P1", "P2"] := by decide +kernel
  rw [Skeleton.guids, KeySet.mem_ofKeys, decide_eq_true_eq, hlist, List.mem_pair] at h
  exact h

/-- What such a list shows if its entities show the given fields. -/
def pairOf (fields fields' : List (String × Value)) : Value :=
  .map [("items", .list [.map fields, .map fields'])]

/-- An open file in which both rows hold a record of `P2`, with further rows. -/
def pairFile (rows : List (Guid × Blob)) : World FileStore.Connected :=
  emptyFile.withContents ⟨.empty, .ofList ([
    ("P1", (Snapshot.text ⟨"P2", .ofList [("n", .num (.int 1))]⟩).toUTF8),
    ("P2", (Snapshot.text ⟨"P2", .ofList [("n", .num (.int 2))]⟩).toUTF8)] ++ rows), .empty⟩

/-- One record. -/
def lonePool : Pool :=
  ⟨#[⟨"P1", .ofList [("n", .num (.int 1))], .empty⟩]⟩

/-- A record of a third entity changes nothing.  Somebody holds the first entity of a file, and the
second one is read from its row, which shows nothing once it is damaged.  In a file where the row of
the first one holds a record of the second one, the second one shows what is in its own row if it is
named alone, and what is in the other row if the first one is named as well.  There, too, a further
row changes nothing. -/
theorem project_of_named_misfiled :
    assemble (RecordSet.view ⟨lonePool, .ofList [("P1", 0), ("P3", 0)]⟩) pairSkeleton =
      assemble (RecordSet.view ⟨lonePool, .ofList [("P1", 0)]⟩) pairSkeleton ∧
    (FileStore.backend.project pairSkeleton
      (FileStore.heldFile FileStore.listedRows)).1.toOption.any
        (pairOf [] [("n", .num (.int 1))]).same = true ∧
    (FileStore.backend.project pairSkeleton
      (FileStore.heldFile FileStore.damagedRows)).1.toOption = none ∧
    (FileStore.backend.project ⟨some "P2", [], [], []⟩ (pairFile [])).1.toOption.any
      (Value.map [("n", .num (.int 2))]).same = true ∧
    (FileStore.backend.project pairSkeleton (pairFile [])).1.toOption.any
      (pairOf [("n", .num (.int 1))] [("n", .num (.int 1))]).same = true ∧
    (FileStore.backend.project pairSkeleton (pairFile [("P3", .empty)])).1.toOption =
      (FileStore.backend.project pairSkeleton (pairFile [])).1.toOption := by
  refine ⟨?_, ?_, ?_, by decide +kernel, by decide +kernel, ?_⟩
  · refine ((project_of_named pairSkeleton).1 _ _ fun guid hguid => ?_).1
    rcases mem_guids_pairSkeleton hguid with rfl | rfl
    · rfl
    · rfl
  · have hkeyed : FileStore.listedRows.Keyed :=
      (FileStore.Contents.keyed_empty.made "P1").saved _
    rcases (FileStore.attained_heldFile hkeyed).filed pairSkeleton.guids.toList with
      ⟨husable, hbounded, hfiled⟩
    have hfile := (project_of_named pairSkeleton).2.2.1 _ husable hbounded hfiled
    rw [hfile.1 fun guid hguid => ?_]
    · decide +kernel
    · rcases mem_guids_pairSkeleton hguid with rfl | rfl
      · decide +kernel
      · decide +kernel
  · rcases (FileStore.attained_heldFile FileStore.keyed_damagedRows).filed
      pairSkeleton.guids.toList with ⟨husable, hbounded, hfiled⟩
    have hfile := (project_of_named pairSkeleton).2.2.1 _ husable hbounded hfiled
    refine hfile.2 "P2" (by decide +kernel) ?_
    rw [← Option.isNone_iff_eq_none]
    decide +kernel
  · have husable : ∀ rows, FileStore.Connected.Usable (pairFile rows).store := fun rows =>
      ⟨_, rfl, rfl⟩
    have hbounded : ∀ rows, (pairFile rows).Bounded := by
      intro rows guid h hlive
      cases hlive
    refine (project_of_named pairSkeleton).2.2.2 _ _ (husable _) (hbounded _) (husable _)
      (hbounded _) fun guid hguid => ⟨rfl, ?_⟩
    rcases mem_guids_pairSkeleton hguid with rfl | rfl
    · rfl
    · rfl

end EntityCache
