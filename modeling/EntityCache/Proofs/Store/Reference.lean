import EntityCache.Proofs.Store.Dependents
import EntityCache.Proofs.Store.FileLedger

/-!
# What a store in a file hands out

A record that a store hands out is what was saved of its entity, whoever held which record
meanwhile:

* `FileStore.lastFields`: the fields that were saved last for an entity.
* `FileStore.Stores`, `FileStore.Shows`: the file and the known records have them.
* `FileStore.account_fields`: both stay true as records are saved that can be read back.
* `FileStore.handsOut_reference`: the record of an entity has the fields that were saved last for
  it, and the dependents of all records that were saved for it.
-/

namespace EntityCache

open Normalize

/-- The marks of ids are lost from the fields. -/
theorem Record.fields_plain (r : Record) : r.plain.fields = r.fields.map Value.plain := by
  have hfields : ∀ fields : List (String × Value),
      Value.plainFields fields = fields.map (fun b => (b.1, b.2.plain)) := by
    intro fields
    induction fields with
    | nil =>
        rfl
    | cons b rest ih =>
        simp only [Value.plainFields, ih, List.map_cons]
  simp only [plain, restore, Snapshot.plain, snapshot, Dict.map, hfields]

namespace FileStore

/-- The fields that were saved last for an entity. -/
def lastFields (log : List Record) (guid : Guid) : Dict String Value :=
  (((log.filter (fun r => r.guid = guid)).getLast?).map Record.fields).getD .empty

/-- What the file has of each entity are the fields that were saved last, without marks. -/
def Stores (log : List Record) (t : Contents) : Prop :=
  ∀ guid, t.catalog.fields? guid = some ((lastFields log guid).map Value.plain).bindings

/-- The record has the fields that were saved last for its entity, with their marks or without. -/
def Shows (log : List Record) (r : Record) : Prop :=
  r.fields = lastFields log r.guid ∨ r.fields = (lastFields log r.guid).map Value.plain

/-- The record can be read back from a file. -/
structure Readable (r : Record) : Prop where
  stable : r.Stable
  levels : r.snapshot.nesting ≤ Json.maxRoom

variable {t : Contents} {log : List Record}

theorem lastFields_own (log : List Record) (r : Record) :
    lastFields (log ++ [r]) r.guid = r.fields := by
  simp [lastFields, List.filter_append]

theorem lastFields_other {r : Record} {guid : Guid} (hne : guid ≠ r.guid) :
    lastFields (log ++ [r]) guid = lastFields log guid := by
  simp [lastFields, List.filter_append, Ne.symm hne]

theorem stores_empty : Stores [] .empty := by
  intro guid
  rfl

/-- The record that is handed out has the fields that are found. -/
theorem fields_record {guid : Guid} {fields : Dict String Value} :
    t.catalog.fields? guid = some fields.bindings → (t.record guid).fields = fields := by
  intro hfields
  have hbindings : (t.record guid).fields.bindings = fields.bindings := by
    simp only [Contents.fields?_catalog, Contents.record] at hfields ⊢
    cases hfind : t.find guid with
    | error e =>
        simp only [hfind] at hfields
        cases hfields
    | ok found =>
        simp only [hfind] at hfields
        cases found with
        | none =>
            exact Option.some.inj hfields
        | some r =>
            exact Option.some.inj hfields
  exact Dict.ext_get? fun k => congrArg (Assoc.get? k) hbindings

/-- A saved record is found with its own fields, without marks. -/
theorem fields?_saved {r : Record} (hr : Readable r) :
    (t.saved r).catalog.fields? r.guid = some (r.fields.map Value.plain).bindings := by
  have hrow : (t.saved r).entities.get? r.guid = some r.snapshot.text.toUTF8 := by
    simp only [Contents.get?_saved, if_true]
  let found : Record := .restore r.snapshot (Tables.queriesOf (t.saved r).dependents r.guid)
  have hfind : (t.saved r).find r.guid = .ok (some found.plain) := by
    refine Contents.find_of_row hrow hr.stable hr.levels rfl fun q => ?_
    simp only [found, Record.restore, Tables.mem_queriesOf]
  have hfields : found.plain.fields = r.fields.map Value.plain := Record.fields_plain found
  simp only [Contents.fields?_catalog, hfind, ← hfields]
  rfl

/-- Saving records that can be read back keeps the file and the known records in step. -/
theorem account_fields : Account Readable Stores Shows where
  aside := by
    intro log t t' hentities _ h guid
    have hsame : t'.catalog.fields? guid = t.catalog.fields? guid :=
      Contents.fields?_congr (congrArg (fun rows => rows.get? guid) hentities)
    exact hsame.trans (h guid)
  made := by
    intro log t guid h guid'
    have hsame := (Contents.grows_made t guid).fields? guid' List.not_mem_nil
    exact hsame.trans (h guid')
  record := by
    intro log t guid ht h
    right
    simp only [Contents.guid_record ht]
    exact fields_record (h guid)
  saved := by
    intro log t r hr h guid
    -- The saved entity shows what was saved last, and the others what they showed.
    by_cases hguid : guid = r.guid
    · subst hguid
      simp only [lastFields_own]
      exact fields?_saved hr
    · have hrow : (t.saved r).entities.get? guid = t.entities.get? guid := by
        simp only [Contents.get?_saved, if_neg hguid]
      simp only [lastFields_other hguid]
      exact (Contents.fields?_congr hrow).trans (h guid)
  other := by
    intro log r s hne h
    simp only [Shows, lastFields_other hne]
    exact h
  own := by
    intro log r edits _
    exact Or.inl (lastFields_own log _).symm

/-- Whatever was held, let go of or made elsewhere since a store was opened on an empty file: as
long as every change of a record was saved at once, and as a record that can be read back, the store
hands out for an entity the fields that were saved last for it, with their marks or without, and the
dependents of all records that were saved for it. -/
theorem handsOut_reference {w : World Connected} {n : Nat} (hw : w.Holds .empty)
    (hopened : w.store.opened = .new n) (steps : List Handling)
    (hclean : ∀ s ∈ steps, s.isClean = true)
    (hreadable : ∀ r ∈ backend.saves steps w, Readable r) (guid : Guid) :
    backend.HandsOut (backend.handleAll steps w) guid (fun r =>
      (r.fields = lastFields (backend.saves steps w) guid ∨
        r.fields = (lastFields (backend.saves steps w) guid).map Value.plain) ∧
      ∀ q, r.dependents.mem q = true ↔
        ∃ s ∈ backend.saves steps w, guid = s.guid ∧ s.dependents.mem q = true) := by
  have hopen : Tracks Stores Shows [] w .empty :=
    .of_opened hw hopened Contents.keyed_empty stores_empty
  rcases hopen.handleAll account_fields steps hreadable (Or.inl hclean) with ⟨t, hfields⟩
  rcases tracks_dependents hw hopened Contents.keyed_empty Contents.rowed_empty steps with
    ⟨t', hdependents⟩
  have hboth := (hfields.handsOut account_fields guid).and
    (hdependents.handsOut (account_dependents .empty _) guid)
  refine hboth.imp ?_
  intro r hguid hr
  rcases hr with ⟨hshows, hcarries⟩
  subst hguid
  refine ⟨hshows, fun q => ?_⟩
  -- At the start, no query depends on any entity.
  have hnone : Registered .empty (backend.saves steps w) r.guid q ↔
      ∃ s ∈ backend.saves steps w, r.guid = s.guid ∧ s.dependents.mem q = true :=
    or_iff_right Bool.false_ne_true
  exact ⟨fun hq => hnone.mp (hcarries.only hclean q hq), fun hq => hcarries.all q (hnone.mpr hq)⟩

/-- A record is saved in place of one that is still held, and then that one is saved again. -/
def overtakenSteps : List Handling :=
  foreignSteps ++
    [.update 1 [], .update 0 [.put "owner" (.id "P1") (some "Q3")], .release 0, .release 1]

/-- The record of the entity as it is saved first. -/
def firstRecord : Record :=
  (Record.fresh "G1").editAll [.put "x" (.num (.int 1)) (some "Q1")]

/-- The record of the entity as it is saved last. -/
def latestRecord : Record :=
  firstRecord.editAll [.put "owner" (.id "P1") (some "Q3")]

theorem saves_overtakenSteps :
    backend.saves overtakenSteps emptyFile = [firstRecord, foreignRecord, latestRecord] := rfl

theorem readable_overtakenSteps :
    ∀ r ∈ [firstRecord, foreignRecord, latestRecord], Readable r := by
  have hone : (Value.num (.int 1)).Stable := (Value.exact_int (by decide)).stable
  have htwo : (Value.num (.int 2)).Stable := (Value.exact_int (by decide)).stable
  have hid : (Value.id "P1").Stable := (Value.exact_id "P1").stable
  have hstable : firstRecord.Stable ∧ foreignRecord.Stable ∧ latestRecord.Stable := by
    refine ⟨?_, ?_, ?_⟩
    · exact List.forall_mem_singleton.mpr hone
    · exact List.forall_mem_singleton.mpr htwo
    · exact List.forall_mem_cons.mpr ⟨hid, List.forall_mem_singleton.mpr hone⟩
  have hlevels : firstRecord.snapshot.nesting ≤ Json.maxRoom ∧
      foreignRecord.snapshot.nesting ≤ Json.maxRoom ∧
      latestRecord.snapshot.nesting ≤ Json.maxRoom := by decide
  simp only [List.forall_mem_cons]
  refine ⟨⟨hstable.1, hlevels.1⟩, ⟨hstable.2.1, hlevels.2.1⟩, ⟨hstable.2.2, hlevels.2.2⟩, ?_⟩
  intro r hr
  cases hr

/-- The entity has what was saved last, and the dependents of all three records. -/
theorem handsOut_reference_overtaken :
    backend.HandsOut (backend.handleAll overtakenSteps emptyFile) "G1" (fun r =>
      (r.fields = latestRecord.fields ∨ r.fields = latestRecord.fields.map Value.plain) ∧
      r.dependents.mem "Q1" = true ∧ r.dependents.mem "Q2" = true ∧
      r.dependents.mem "Q3" = true) := by
  have hclean : ∀ s ∈ overtakenSteps, s.isClean = true := by
    simp [overtakenSteps, foreignSteps, Handling.isClean]
  have hsaves := saves_overtakenSteps
  have hhands := handsOut_reference (w := emptyFile) ⟨rfl, rfl⟩ rfl overtakenSteps hclean
    (hsaves ▸ readable_overtakenSteps) "G1"
  refine hhands.imp ?_
  intro r _ hr
  simp only [hsaves] at hr
  refine ⟨hr.1, ?_, ?_, ?_⟩
  · exact (hr.2 "Q1").mpr ⟨firstRecord, List.mem_cons_self, rfl, rfl⟩
  · exact (hr.2 "Q2").mpr ⟨foreignRecord, List.mem_cons_of_mem _ List.mem_cons_self, rfl, rfl⟩
  · exact (hr.2 "Q3").mpr ⟨latestRecord,
      List.mem_cons_of_mem _ (List.mem_cons_of_mem _ List.mem_cons_self), rfl, rfl⟩

end FileStore
end EntityCache
