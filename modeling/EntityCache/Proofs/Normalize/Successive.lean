import EntityCache.Proofs.Normalize.AtHand
import EntityCache.Proofs.Normalize.FanOut
import EntityCache.Proofs.Normalize.Merged

/-!
# Passes one after the other

Splitting over a record overwrites fields and enrolls a query, so passes over the same records can
be compared by what they write:

* `Record.merged_merged`: the same object again changes nothing.
* `Pass.run_again`: nor does a whole pass, and its outcome is the same.
* `Record.merged_comm`: objects that write no common field can change places.
* `Submission.Undisturbed`: what one pass tells after another.
* `Submission.commute`: passes that write no common field leave the same records in either order.
-/

namespace EntityCache

open Normalize

/-- Of two logs that write no common field, at most one has a value for a field. -/
theorem get?_or_comm {log log' : List Assignment}
    (hapart : ∀ a ∈ log, ∀ a' ∈ log', a.1 ≠ a'.1) (field : Guid × String) :
    (Assoc.get? field log'.reverse).or (Assoc.get? field log.reverse) =
      (Assoc.get? field log.reverse).or (Assoc.get? field log'.reverse) := by
  cases h : Assoc.get? field log.reverse with
  | none =>
      rw [Option.or_none, Option.none_or]
  | some v =>
      have hnone : Assoc.get? field log'.reverse = none := by
        refine Assoc.get?_reverse_eq_none fun v' h' => ?_
        exact hapart _ (Assoc.mem_of_get?_reverse h) _ h' rfl
      rw [hnone, Option.or_none, Option.none_or]

/-! ## One record -/

namespace Record

/-- The value written last is there already. -/
theorem merged_merged (ids : IdIndex) (fields : List (String × Value))
    (requestor : Option QueryKey) (r : Record) :
    (r.merged ids fields requestor).merged ids fields requestor =
      r.merged ids fields requestor := by
  refine ext_get? rfl ?_ ?_
  · intro k
    have hguid : (r.merged ids fields requestor).guid = r.guid := rfl
    simp only [get?_fields_merged, hguid, ← Option.or_assoc, Option.or_self]
  · intro q
    simp only [mem_dependents_merged, or_assoc, or_self]

/-- Where no field is written twice, the order does not matter. -/
theorem merged_comm {ids ids' : IdIndex} {fields fields' : List (String × Value)}
    (hapart : ∀ a ∈ assignmentsFrom ids Path.root fields,
      ∀ a' ∈ assignmentsFrom ids' Path.root fields', a.1 ≠ a'.1)
    (requestor requestor' : Option QueryKey) (r : Record) :
    (r.merged ids fields requestor).merged ids' fields' requestor' =
      (r.merged ids' fields' requestor').merged ids fields requestor := by
  refine ext_get? rfl ?_ ?_
  · intro k
    have hguid : (r.merged ids fields requestor).guid = r.guid := rfl
    have hguid' : (r.merged ids' fields' requestor').guid = r.guid := rfl
    simp only [get?_fields_merged, hguid, hguid', ← Option.or_assoc]
    rw [get?_or_comm hapart]
  · intro q
    simp only [mem_dependents_merged]
    exact or_right_comm

end Record

namespace Normalize

/-- Records that are found alike and are alike are the same. -/
theorem RecordSet.ext_get? {s s' : RecordSet} (hindex : s.index = s'.index)
    (hpool : ∀ h, s.pool.get? h = s'.pool.get? h) : s = s' := by
  rcases s with ⟨pool, index⟩
  rcases s' with ⟨pool', index'⟩
  exact congr (congrArg RecordSet.mk (Pool.ext_get? hpool)) hindex

namespace Pass

variable {ids : IdIndex} {fields : List (String × Value)} {records : RecordSet}
  {requestor : Option QueryKey} {pass again : Pass}

/-! ## The same object again -/

/-- A second pass finds every record that it asks for. -/
theorem Describes.knows (hpass : pass.Describes ids fields records requestor) :
    (Progress.start pass.records).Knows (effectsOf ids fields) := by
  intro e he
  exact hpass.isSome_handle? e.guid (guid_mem_entitiesOf he)

/-- A second pass leaves every record as the first one left it. -/
theorem Describes.get?_again (hs : records.Keyed)
    (hpass : pass.Describes ids fields records requestor)
    (hagain : again.Describes ids fields pass.records requestor) (guid : Guid) :
    again.records.get? guid = pass.records.get? guid := by
  rw [hagain.get?_eq hpass.keyed]
  split
  · next hguid => rw [hpass.get?_eq hs, if_pos hguid, Option.getD_some, Record.merged_merged]
  · rfl

/-- Where no entity leads, the second pass changes nothing; elsewhere it writes what is there. -/
theorem records_again (hs : records.Keyed) (hpass : pass.Describes ids fields records requestor)
    (hagain : again.Describes ids fields pass.records requestor)
    (hrun : run? (.map fields) ids pass.records requestor = some again) :
    again.records = pass.records := by
  cases (run?_eq_last ids fields hpass.keyed requestor).symm.trans hrun
  have hknows := hpass.knows
  have hindex := Progress.index_applyAll requestor hknows
  refine RecordSet.ext_get? hindex fun h => ?_
  by_cases hentity : ∃ e ∈ effectsOf ids fields, pass.records.handle? e.guid = some h
  · rcases hentity with ⟨e, -, hh⟩
    have hget := hpass.get?_again hs hagain e.guid
    rwa [RecordSet.get?_of_handle? (hagain.handle? hh), RecordSet.get?_of_handle? hh] at hget
  · refine Progress.pool_applyAll_of_known requestor hknows ?_
    intro e he hh
    exact hentity ⟨e, he, hh⟩

/-- The requestor, who depends on the records by now, is not told of its own pass. -/
theorem impacted_again (hpass : pass.Describes ids fields records requestor)
    (hagain : again.Describes ids fields pass.records requestor) :
    again.impacted = pass.impacted := by
  refine KeySet.ext_mem fun q => Bool.eq_iff_iff.mpr ?_
  rw [hagain.mem_impacted, hpass.mem_impacted]
  refine and_congr_right fun hq => exists_congr fun guid => and_congr_right fun _ => ?_
  rw [hpass.mem_dependentsAt]
  exact or_iff_left fun h => hq h.1

theorem touched_again (hpass : pass.Describes ids fields records requestor)
    (hagain : again.Describes ids fields pass.records requestor) :
    again.touched = pass.touched := by
  refine Dict.ext_get? fun guid => ?_
  rw [hagain.touched, hpass.touched]
  split
  · next hguid =>
      rcases Option.isSome_iff_exists.mp (hpass.isSome_handle? guid hguid) with ⟨h, hh⟩
      rw [hh, hagain.handle? hh]
  · rfl

/-- A pass over an object succeeds, and the same pass over the records that it leaves has the same
outcome: skeleton, impacted queries, touched records and all records, whatever values the object
gives the fields of an entity. -/
theorem run_again (ids : IdIndex) (fields : List (String × Value)) {records : RecordSet}
    (requestor : Option QueryKey) :
    records.Keyed →
      ∃ pass, run? (.map fields) ids records requestor = some pass ∧
        run? (.map fields) ids pass.records requestor = some pass := by
  intro hs
  rcases run?_map ids fields hs requestor with ⟨pass, hrun, hpass⟩
  rcases run?_map ids fields hpass.keyed requestor with ⟨again, hrun', hagain⟩
  have hroot : again.root = pass.root := hagain.root_eq.trans hpass.root_eq.symm
  have himpacted := impacted_again hpass hagain
  have htouched := touched_again hpass hagain
  have hrecords := records_again hs hpass hagain hrun'
  have hsame : again = pass := by
    rcases again with ⟨root, impacted, touched, records'⟩
    simp only at hroot himpacted htouched hrecords
    rw [hroot, himpacted, htouched, hrecords]
  exact ⟨pass, hrun, hsame ▸ hrun'⟩

/-- The entity of `crowdedFields` has two prices, one within itself; the outer one is written
last.  The requestor depended on it before. -/
theorem run_again_crowded : crowdedRecords.Keyed ∧
    ∃ pass, run? (.map crowdedFields) .empty crowdedRecords (some "own") = some pass ∧
      run? (.map crowdedFields) .empty pass.records (some "own") = some pass := by
  exact ⟨keyed_crowdedRecords, run_again .empty crowdedFields (some "own") keyed_crowdedRecords⟩

end Pass

/-! ## Two results -/

/-- A result that a query brings to the records, with the ids known of it. -/
structure Submission where
  data : Value
  ids : IdIndex
  requestor : Option QueryKey

namespace Submission

/-- The pass over the result. -/
def run? (t : Submission) (s : RecordSet) : Option Pass :=
  Pass.run? t.data t.ids s t.requestor

/-- The records after the pass; a result that is no object leaves them as they are. -/
def leave (t : Submission) (s : RecordSet) : RecordSet :=
  ((t.run? s).map Pass.records).getD s

/-- The pass touches the record of a guid. -/
def Touches (t : Submission) (s : RecordSet) (guid : Guid) : Prop :=
  ∃ pass, t.run? s = some pass ∧ pass.Touched guid

/-- No field of a record is written by both results. -/
def Apart (t t' : Submission) : Prop :=
  ∀ a ∈ assignments t.ids t.data, ∀ a' ∈ assignments t'.ids t'.data, a.1 ≠ a'.1

/-- The record of a guid after the pass, if there was one or is one now. -/
def amend (t : Submission) (guid : Guid) (r? : Option Record) : Option Record :=
  match t.data with
  | .map fields =>
      if guid ∈ entitiesOf t.ids fields then
        some ((r?.getD (.fresh guid)).merged t.ids fields t.requestor)
      else r?
  | _ => r?

variable {t t' : Submission} {s : RecordSet}

theorem amend_of_other (hdata : t.data.isMap = false) (guid : Guid) (r? : Option Record) :
    t.amend guid r? = r? := by
  rcases t with ⟨data, ids, requestor⟩
  cases data with
  | map _ =>
      cases hdata
  | _ =>
      rfl

/-- A result is an object and its pass succeeds, or nothing happens. -/
theorem run?_cases (t : Submission) (hs : s.Keyed) :
    (∃ fields pass, t.data = .map fields ∧ t.run? s = some pass ∧ t.leave s = pass.records ∧
        pass.Describes t.ids fields s t.requestor) ∨
      (t.data.isMap = false ∧ t.run? s = none ∧ t.leave s = s) := by
  rcases t with ⟨data, ids, requestor⟩
  by_cases hdata : data.isMap = true
  · rcases exists_fields_of_isMap hdata with ⟨fields, rfl⟩
    rcases Pass.run?_map ids fields hs requestor with ⟨pass, hrun, hpass⟩
    have hrun' : Submission.run? ⟨.map fields, ids, requestor⟩ s = some pass := hrun
    refine Or.inl ⟨fields, pass, rfl, hrun', ?_, hpass⟩
    rw [leave, hrun']
    rfl
  · have hother : data.isMap = false := Bool.eq_false_iff.mpr hdata
    have hrun : Submission.run? ⟨data, ids, requestor⟩ s = none := Pass.run?_other hother
    refine Or.inr ⟨hother, hrun, ?_⟩
    rw [leave, hrun]
    rfl

theorem keyed_leave (t : Submission) (hs : s.Keyed) : (t.leave s).Keyed := by
  rcases t.run?_cases hs with ⟨fields, pass, -, -, hleave, hpass⟩ | ⟨-, -, hleave⟩
  · rw [hleave]
    exact hpass.keyed
  · rwa [hleave]

theorem handle?_leave (t : Submission) (hs : s.Keyed) {guid : Guid} {h : Handle}
    (hh : s.handle? guid = some h) : (t.leave s).handle? guid = some h := by
  rcases t.run?_cases hs with ⟨fields, pass, -, -, hleave, hpass⟩ | ⟨-, -, hleave⟩
  · rw [hleave]
    exact hpass.handle? hh
  · rwa [hleave]

theorem get?_leave (t : Submission) (hs : s.Keyed) (guid : Guid) :
    (t.leave s).get? guid = t.amend guid (s.get? guid) := by
  rcases t.run?_cases hs with ⟨fields, pass, hdata, -, hleave, hpass⟩ | ⟨hdata, -, hleave⟩
  · rw [hleave, hpass.get?_eq hs, amend, hdata]
  · rw [hleave, amend_of_other hdata]

/-- Results that write no common field can be amended in either order. -/
theorem amend_comm (hapart : t.Apart t') (guid : Guid) (r? : Option Record) :
    t'.amend guid (t.amend guid r?) = t.amend guid (t'.amend guid r?) := by
  by_cases hdata : t.data.isMap = true
  · by_cases hdata' : t'.data.isMap = true
    · rcases t with ⟨data, ids, requestor⟩
      rcases t' with ⟨data', ids', requestor'⟩
      rcases exists_fields_of_isMap hdata with ⟨fields, rfl⟩
      rcases exists_fields_of_isMap hdata' with ⟨fields', rfl⟩
      simp only [amend]
      by_cases h : guid ∈ entitiesOf ids fields
      · by_cases h' : guid ∈ entitiesOf ids' fields'
        · simp only [if_pos h, if_pos h', Option.getD_some]
          exact congrArg some (Record.merged_comm hapart requestor requestor' _)
        · simp only [if_pos h, if_neg h']
      · simp only [if_neg h]
    · have hother : t'.data.isMap = false := Bool.eq_false_iff.mpr hdata'
      simp only [amend_of_other hother]
  · have hother : t.data.isMap = false := Bool.eq_false_iff.mpr hdata
    simp only [amend_of_other hother]

/-- What a pass tells after another one, beside what it tells on its own. -/
structure Undisturbed (s : RecordSet) (t t' : Submission) : Prop where
  /-- The pass over an object succeeds, and over nothing else. -/
  succeeds : (t.run? s).isSome = t.data.isMap
  /-- Its skeleton is the same. -/
  root : (t.run? (t'.leave s)).map Pass.root = (t.run? s).map Pass.root
  /-- It touches the records of the entities that back the objects it visits. -/
  entities : ∀ guid, t.Touches s guid ↔ ∃ o ∈ visits t.data, o.guid? t.ids = some guid
  /-- It touches the records of the same guids. -/
  touches : ∀ guid, t.Touches (t'.leave s) guid ↔ t.Touches s guid
  /-- If both have no touched guid in common, the same queries are impacted. -/
  impacted : (∀ guid, t.Touches s guid → ¬ t'.Touches s guid) →
    (t.run? (t'.leave s)).map Pass.impacted = (t.run? s).map Pass.impacted
  /-- If they have one, the query of the other result is impacted, unless it is its own. -/
  told : ∀ guid, t.Touches s guid → t'.Touches s guid →
    ∀ q, t'.requestor = some q → t.requestor ≠ some q →
      ∃ pass, t.run? (t'.leave s) = some pass ∧ pass.impacted.mem q = true

/-- What two results leave in either order. -/
structure Interchange (s : RecordSet) (t t' : Submission) : Prop where
  first : Undisturbed s t t'
  second : Undisturbed s t' t
  /-- The fields and the dependents of every record are the same. -/
  records : ∀ guid, (t'.leave (t.leave s)).get? guid = (t.leave (t'.leave s)).get? guid
  /-- A field has the value that was written last by the result that writes it, if one does. -/
  fields : ∀ guid k, (t'.leave (t.leave s)).field? guid k =
    ((Assoc.get? (guid, k) (assignments t.ids t.data).reverse).or
      (Assoc.get? (guid, k) (assignments t'.ids t'.data).reverse)).or (s.field? guid k)
  /-- The dependents of a record are those it had, and the queries whose results touch it. -/
  dependents : ∀ guid q, ((t'.leave (t.leave s)).dependentsAt guid).mem q = true ↔
    (s.dependentsAt guid).mem q = true ∨ (t.requestor = some q ∧ t.Touches s guid) ∨
      (t'.requestor = some q ∧ t'.Touches s guid)
  /-- A record that was there is still found where it was. -/
  handles : ∀ guid h, s.handle? guid = some h →
    (t'.leave (t.leave s)).handle? guid = some h ∧ (t.leave (t'.leave s)).handle? guid = some h

theorem touches_iff {fields : List (String × Value)} {pass : Pass} (hrun : t.run? s = some pass)
    (hpass : pass.Describes t.ids fields s t.requestor) {guid : Guid} :
    t.Touches s guid ↔ guid ∈ entitiesOf t.ids fields := by
  rw [← hpass.touched_iff]
  constructor
  · rintro ⟨pass', hrun', htouched⟩
    cases hrun.symm.trans hrun'
    exact htouched
  · intro htouched
    exact ⟨pass, hrun, htouched⟩

/-- The fields after a pass. -/
theorem field?_leave (t : Submission) (hs : s.Keyed) (guid : Guid) (k : String) :
    (t.leave s).field? guid k =
      (Assoc.get? (guid, k) (assignments t.ids t.data).reverse).or (s.field? guid k) := by
  rcases t.run?_cases hs with ⟨fields, pass, hdata, -, hleave, hpass⟩ | ⟨hdata, -, hleave⟩
  · rw [hleave, hpass.field?, hdata]
    rfl
  · rw [hleave, assignments_of_other t.ids hdata]
    rfl

/-- The dependents after a pass. -/
theorem mem_dependentsAt_leave (t : Submission) (hs : s.Keyed) (guid : Guid) (q : QueryKey) :
    ((t.leave s).dependentsAt guid).mem q = true ↔
      (s.dependentsAt guid).mem q = true ∨ (t.requestor = some q ∧ t.Touches s guid) := by
  rcases t.run?_cases hs with ⟨fields, pass, -, hrun, hleave, hpass⟩ | ⟨-, hrun, hleave⟩
  · rw [hleave, hpass.mem_dependentsAt, touches_iff hrun hpass]
  · have huntouched : ¬ t.Touches s guid := by
      rintro ⟨pass, hrun', -⟩
      cases hrun.symm.trans hrun'
    rw [hleave]
    exact (or_iff_left fun h => huntouched h.2).symm

theorem undisturbed (t t' : Submission) (hs : s.Keyed) : Undisturbed s t t' := by
  rcases t.run?_cases hs with ⟨fields, pass, hdata, hrun, -, hpass⟩ | ⟨hdata, hrun, -⟩
  · have hs' := t'.keyed_leave hs
    rcases t.run?_cases hs' with ⟨fields', pass', hdata', hrun', -, hpass'⟩ | ⟨hdata', -, -⟩
    · cases hdata.symm.trans hdata'
      have hentity : ∀ {guid}, t.Touches s guid ↔ guid ∈ entitiesOf t.ids fields :=
        touches_iff hrun hpass
      have hafter := t'.mem_dependentsAt_leave hs
      exact
        { succeeds := by
            rw [hrun, hdata]
            rfl
          entities := by
            intro guid
            rw [hentity, mem_entitiesOf, hdata]
            rfl
          root := by
            rw [hrun, hrun', Option.map_some, Option.map_some, hpass.root_eq, hpass'.root_eq]
          touches := by
            intro guid
            rw [touches_iff hrun' hpass', hentity]
          impacted := by
            intro hdisjoint
            rw [hrun, hrun', Option.map_some, Option.map_some]
            refine congrArg some (KeySet.ext_mem fun q => Bool.eq_iff_iff.mpr ?_)
            rw [hpass.mem_impacted, hpass'.mem_impacted]
            refine and_congr Iff.rfl (exists_congr fun guid => and_congr_right fun hguid => ?_)
            rw [hafter]
            exact or_iff_left fun h => hdisjoint guid (hentity.mpr hguid) h.2
          told := by
            intro guid htouches htouches' q hq hother
            refine ⟨pass', hrun', (hpass'.mem_impacted q).mpr ⟨hother, guid, ?_, ?_⟩⟩
            · exact hentity.mp htouches
            · exact (hafter guid q).mpr (Or.inr ⟨hq, htouches'⟩) }
    · rw [hdata] at hdata'
      cases hdata'
  -- What is no object does the same at any time: nothing.
  · have hnever : ∀ s, t.run? s = none := fun s => Pass.run?_other hdata
    have huntouched : ∀ s guid, ¬ t.Touches s guid := by
      rintro s guid ⟨pass, hrun', -⟩
      cases (hnever s).symm.trans hrun'
    exact
      { succeeds := by
          rw [hrun, hdata]
          rfl
        entities := by
          intro guid
          rw [visits_of_other hdata]
          refine iff_of_false (huntouched s guid) ?_
          rintro ⟨o, ho, -⟩
          cases ho
        root := by rw [hnever, hnever]
        touches := fun guid => iff_of_false (huntouched _ guid) (huntouched _ guid)
        impacted := fun _ => by rw [hnever, hnever]
        told := fun guid htouches => absurd htouches (huntouched s guid) }

/-- Two results that write no common field of a record: each is split into the same skeleton
whichever comes first, and both orders leave the same records. -/
theorem commute (t t' : Submission) {s : RecordSet} :
    s.Keyed → t.Apart t' → Interchange s t t' := by
  intro hs hapart
  exact
    { first := undisturbed t t' hs
      second := undisturbed t' t hs
      records := by
        intro guid
        calc
          (t'.leave (t.leave s)).get? guid
              = t'.amend guid (t.amend guid (s.get? guid)) := by
                rw [get?_leave t' (t.keyed_leave hs), get?_leave t hs]
          _ = t.amend guid (t'.amend guid (s.get? guid)) := amend_comm hapart guid _
          _ = (t.leave (t'.leave s)).get? guid := by
                rw [get?_leave t (t'.keyed_leave hs), get?_leave t' hs]
      fields := by
        intro guid k
        rw [field?_leave t' (t.keyed_leave hs), field?_leave t hs, ← Option.or_assoc,
          get?_or_comm hapart]
      dependents := by
        intro guid q
        rw [mem_dependentsAt_leave t' (t.keyed_leave hs), mem_dependentsAt_leave t hs,
          (undisturbed t' t hs).touches, or_assoc]
      handles := by
        intro guid h hh
        exact ⟨handle?_leave t' (t.keyed_leave hs) (handle?_leave t hs hh),
          handle?_leave t (t'.keyed_leave hs) (handle?_leave t' hs hh)⟩ }

/-- An entity at the root, priced. -/
def priced : Submission :=
  ⟨.map [("price", .num (.int 5)), ("rel", .map [("n", .num (.int 1))])],
    ⟨Dict.empty.insert Path.root "P1"⟩, some "Q1"⟩

/-- The same entity, counted, beside another one within itself. -/
def counted : Submission :=
  ⟨.map [("stock", .num (.int 3)), ("twin", .map [("price", .num (.int 9))])],
    ⟨(Dict.empty.insert Path.root "P1").insert (Path.root.field "twin") "P2"⟩, some "Q2"⟩

theorem assignments_priced :
    assignments priced.ids priced.data = [(("P1", "price"), .num (.int 5))] := by
  simp [priced, assignments, assignmentsFrom, assignmentsIn, objectId?, IdIndex.get?,
    Dict.get?_insert, Value.idAmong, assigned, Path.field, Path.root]

theorem assignments_counted :
    assignments counted.ids counted.data =
      [(("P1", "stock"), .num (.int 3)), (("P2", "price"), .num (.int 9))] := by
  simp [counted, assignments, assignmentsFrom, assignmentsIn, objectId?, IdIndex.get?,
    Dict.get?_insert, Value.idAmong, assigned, Path.field, Path.root]

/-- Two queries that show the same entity: whichever comes second tells the other one, and both
orders leave the price of the one and the stock of the other. -/
theorem commute_shared : Pass.crowdedRecords.Keyed ∧ priced.Apart counted ∧
    Interchange Pass.crowdedRecords priced counted ∧
    priced.Touches Pass.crowdedRecords "P1" ∧ counted.Touches Pass.crowdedRecords "P1" ∧
    (∃ pass, counted.run? (priced.leave Pass.crowdedRecords) = some pass ∧
      pass.impacted.mem "Q1" = true) ∧
    (∃ pass, priced.run? (counted.leave Pass.crowdedRecords) = some pass ∧
      pass.impacted.mem "Q2" = true) ∧
    let left := counted.leave (priced.leave Pass.crowdedRecords)
    left.field? "P1" "price" = some (.num (.int 5)) ∧
      left.field? "P1" "stock" = some (.num (.int 3)) ∧
      left.field? "P2" "price" = some (.num (.int 9)) := by
  have hapart : priced.Apart counted := by
    unfold Apart
    decide +kernel
  have hboth := commute priced counted Pass.keyed_crowdedRecords hapart
  have hpriced : priced.Touches Pass.crowdedRecords "P1" := by
    refine (hboth.first.entities "P1").mpr ⟨⟨Path.root, _⟩, List.mem_cons_self, ?_⟩
    decide +kernel
  have hcounted : counted.Touches Pass.crowdedRecords "P1" := by
    refine (hboth.second.entities "P1").mpr ⟨⟨Path.root, _⟩, List.mem_cons_self, ?_⟩
    decide +kernel
  refine ⟨Pass.keyed_crowdedRecords, hapart, hboth, hpriced, hcounted, ?_, ?_, ?_, ?_, ?_⟩
  · exact hboth.second.told "P1" hcounted hpriced "Q1" rfl (by decide)
  · exact hboth.first.told "P1" hpriced hcounted "Q2" rfl (by decide)
  · rw [hboth.fields, assignments_priced, assignments_counted]
    rfl
  · rw [hboth.fields, assignments_priced, assignments_counted]
    rfl
  · rw [hboth.fields, assignments_priced, assignments_counted]
    rfl

end Submission
end Normalize
end EntityCache
