import EntityCache.Proofs.Store.FileCatalog

/-!
# Looking up rows that may hold anything

The row of an entity may be damaged, or hold another entity.  Where several entities are looked up,
a record that was found on the way answers for its own guid, and the row of that guid is passed
over:

* `Rows`, `Contents.rows`: what is in the rows of a file; `Rows.knowing`, if some records are known.
* `Rows.seek`: looking up several entities, as a function of their rows.
* `Rows.isSome_seek`, `Rows.hidden_of_seek`: it succeeds if every row can be decoded, and where it
  succeeds all the same, an earlier row holds the entity of the damaged one.
* `Rows.seek_of_filed`: where no row holds an entity that belongs in another one.
* `Connected.findAll_seeks`: the calls of a store do that.
* `Contents.answer?`, `FileStore.read_answers`: what a cached result of such a file shows.
-/

namespace EntityCache

open Normalize

/-! ## Rows -/

/-- The entity in the row of each guid; `some none` without a row, and `none` if the row cannot be
decoded. -/
def Rows : Type :=
  Guid → Option (Option Snapshot)

namespace Rows

/-- Looks up entities in order.  `known` are the records found on the way, by their own guids. -/
def seek (rows : Rows) : List Guid → (known found : Dict Guid Snapshot) →
    Option (Dict Guid Snapshot)
  | [], _, found => some found
  | guid :: rest, known, found =>
      match known.get? guid with
      | some s => seek rows rest known (found.insert guid s)
      | none =>
          match rows guid with
          | none => none
          | some none => seek rows rest known found
          | some (some s) => seek rows rest (known.insert s.guid s) (found.insert guid s)

/-- The entity in the row of a guid belongs there, or nobody asks for it. -/
def Filed (rows : Rows) (guids : List Guid) : Prop :=
  ∀ guid ∈ guids, ∀ s, rows guid = some (some s) → s.guid = guid ∨ s.guid ∉ guids

/-- The entity of each guid if some are known before the rows are looked at. -/
def knowing (rows : Rows) (known : Dict Guid Snapshot) : Rows := fun guid =>
  (known.get? guid).elim (rows guid) (fun s => some (some s))

@[simp] theorem knowing_empty (rows : Rows) : rows.knowing .empty = rows := rfl

variable {rows rows' : Rows}

/-- Nothing matters but what is known of the guids that are asked for, and the rows of the
others. -/
theorem seek_congr {guids : List Guid} :
    ∀ {known known' : Dict Guid Snapshot} (found : Dict Guid Snapshot),
      (∀ guid ∈ guids, known'.get? guid = known.get? guid) →
      (∀ guid ∈ guids, known.get? guid = none → rows' guid = rows guid) →
      rows'.seek guids known' found = rows.seek guids known found := by
  induction guids with
  | nil =>
      intro known known' found _ _
      rfl
  | cons guid rest ih =>
      intro known known' found hknown hrows
      rcases List.forall_mem_cons.mp hknown with ⟨hfirst, hlater⟩
      rcases List.forall_mem_cons.mp hrows with ⟨hrow, hrest⟩
      simp only [seek, hfirst]
      cases hget : known.get? guid with
      | some s =>
          exact ih _ hlater hrest
      | none =>
          simp only [hrow hget]
          cases rows guid with
          | none =>
              rfl
          | some stored =>
              cases stored with
              | none =>
                  exact ih _ hlater hrest
              | some s =>
                  -- The record that was found is known on both sides.
                  refine ih _ (fun guid' hguid' => ?_) fun guid' hguid' hnone => ?_
                  · rw [Dict.get?_insert, Dict.get?_insert, hlater guid' hguid']
                  · rw [Dict.get?_insert] at hnone
                    split at hnone
                    · cases hnone
                    · exact hrest guid' hguid' hnone

section Steps

variable {guid : Guid} {known found : Dict Guid Snapshot} {s : Snapshot}

theorem seek_of_known (rest : List Guid) (hknown : known.get? guid = some s) :
    rows.seek (guid :: rest) known found = rows.seek rest known (found.insert guid s) := by
  simp only [seek, hknown]

theorem seek_of_damaged (rest : List Guid) (hknown : known.get? guid = none)
    (hrow : rows guid = none) : rows.seek (guid :: rest) known found = none := by
  simp only [seek, hknown, hrow]

theorem seek_of_absent (rest : List Guid) (hknown : known.get? guid = none)
    (hrow : rows guid = some none) :
    rows.seek (guid :: rest) known found = rows.seek rest known found := by
  simp only [seek, hknown, hrow]

theorem seek_of_row (rest : List Guid) (hknown : known.get? guid = none)
    (hrow : rows guid = some (some s)) : rows.seek (guid :: rest) known found =
      rows.seek rest (known.insert s.guid s) (found.insert guid s) := by
  simp only [seek, hknown, hrow]

/-- A guid is answered by a record that was found before, or by its row. -/
theorem seek_cases (rows : Rows) (guid : Guid) (rest : List Guid)
    (known found : Dict Guid Snapshot) :
    (∃ s, known.get? guid = some s ∧
      rows.seek (guid :: rest) known found = rows.seek rest known (found.insert guid s)) ∨
    (rows guid = none ∧ rows.seek (guid :: rest) known found = none) ∨
    (rows guid = some none ∧
      rows.seek (guid :: rest) known found = rows.seek rest known found) ∨
    ∃ s, rows guid = some (some s) ∧ rows.seek (guid :: rest) known found =
      rows.seek rest (known.insert s.guid s) (found.insert guid s) := by
  cases hknown : known.get? guid with
  | some s =>
      exact Or.inl ⟨s, rfl, seek_of_known rest hknown⟩
  | none =>
      right
      cases hrow : rows guid with
      | none =>
          exact Or.inl ⟨rfl, seek_of_damaged rest hknown hrow⟩
      | some stored =>
          cases stored with
          | none =>
              exact Or.inr (Or.inl ⟨rfl, seek_of_absent rest hknown hrow⟩)
          | some s =>
              exact Or.inr (Or.inr ⟨s, rfl, seek_of_row rest hknown hrow⟩)

end Steps

theorem isSome_seek {guids : List Guid} (h : ∀ guid ∈ guids, (rows guid).isSome = true) :
    ∀ known found, (rows.seek guids known found).isSome = true := by
  induction guids with
  | nil =>
      intro known found
      rfl
  | cons guid rest ih =>
      rcases List.forall_mem_cons.mp h with ⟨hguid, hrest⟩
      intro known found
      rcases rows.seek_cases guid rest known found with
        ⟨s, -, hseek⟩ | ⟨hrow, -⟩ | ⟨-, hseek⟩ | ⟨s, -, hseek⟩
      · rw [hseek]
        exact ih hrest _ _
      · rw [hrow] at hguid
        cases hguid
      · rw [hseek]
        exact ih hrest _ _
      · rw [hseek]
        exact ih hrest _ _

/-- A damaged row is passed over only if its entity was known before or stands in an earlier row. -/
theorem hidden_of_seek {guids : List Guid}
    (hsorted : guids.Pairwise (fun a b => Key.before a b = true)) :
    ∀ {known found}, (rows.seek guids known found).isSome = true → ∀ guid ∈ guids,
      rows guid = none → (known.get? guid).isSome = true ∨
        ∃ guid' ∈ guids, Key.before guid' guid = true ∧
          ∃ s, rows guid' = some (some s) ∧ s.guid = guid := by
  induction guids with
  | nil =>
      intro known found _ guid hguid
      cases hguid
  | cons first rest ih =>
      rcases List.pairwise_cons.mp hsorted with ⟨hfirst, hsorted⟩
      -- What stands behind the first guid is settled by the rest of the look-up.
      have later : ∀ {known found}, (rows.seek rest known found).isSome = true →
          ∀ guid ∈ rest, rows guid = none → (known.get? guid).isSome = true ∨
            ∃ guid' ∈ first :: rest, Key.before guid' guid = true ∧
              ∃ s, rows guid' = some (some s) ∧ s.guid = guid := by
        intro known found hrun guid hguid hbad
        refine (ih hsorted hrun guid hguid hbad).imp_right ?_
        rintro ⟨guid', hguid', hhidden⟩
        exact ⟨guid', List.mem_cons_of_mem _ hguid', hhidden⟩
      intro known found hrun guid hguid hbad
      rcases rows.seek_cases first rest known found with
        ⟨s, hknown, hseek⟩ | ⟨-, hseek⟩ | ⟨hrow, hseek⟩ | ⟨s, hrow, hseek⟩
      · rw [hseek] at hrun
        rcases List.mem_cons.mp hguid with rfl | hrest
        · exact Or.inl (by rw [hknown]; rfl)
        · exact later hrun guid hrest hbad
      · rw [hseek] at hrun
        cases hrun
      · rw [hseek] at hrun
        rcases List.mem_cons.mp hguid with rfl | hrest
        · cases hrow.symm.trans hbad
        · exact later hrun guid hrest hbad
      · rw [hseek] at hrun
        rcases List.mem_cons.mp hguid with rfl | hrest
        · cases hrow.symm.trans hbad
        refine (later hrun guid hrest hbad).elim (fun hsome => ?_) Or.inr
        -- It may be known through the first row alone.
        rw [Dict.get?_insert] at hsome
        by_cases hsame : guid = s.guid
        · exact Or.inr ⟨first, List.mem_cons_self, hfirst guid hrest, s, hrow, hsame.symm⟩
        · rw [if_neg hsame] at hsome
          exact Or.inl hsome

theorem Filed.tail {guid : Guid} {rest : List Guid} (h : rows.Filed (guid :: rest)) :
    rows.Filed rest := by
  intro guid' hguid' s hs
  refine (h guid' (List.mem_cons_of_mem _ hguid') s hs).imp_right fun hout hin => ?_
  exact hout (List.mem_cons_of_mem _ hin)

theorem Filed.congr {guids : List Guid} (h : rows.Filed guids)
    (hsame : ∀ guid ∈ guids, rows' guid = rows guid) : rows'.Filed guids := by
  intro guid hguid s hs
  rw [hsame guid hguid] at hs
  exact h guid hguid s hs

section Knowing

variable {guid : Guid} {known : Dict Guid Snapshot} {s : Snapshot}

theorem knowing_of_known (hknown : known.get? guid = some s) :
    rows.knowing known guid = some (some s) := by
  rw [knowing, hknown, Option.elim_some]

theorem knowing_of_unknown (hknown : known.get? guid = none) :
    rows.knowing known guid = rows guid := by
  rw [knowing, hknown, Option.elim_none]

/-- A record that is found in its row answers for no other guid that is asked for. -/
theorem Filed.knowing_insert {rest : List Guid} (hfiled : (rows.knowing known).Filed (guid :: rest))
    (hguid : guid ∉ rest) (hknown : known.get? guid = none) (hrow : rows guid = some (some s)) :
    ∀ guid' ∈ rest, rows.knowing (known.insert s.guid s) guid' = rows.knowing known guid' := by
  intro guid' hguid'
  have hne : guid' ≠ s.guid := by
    rintro rfl
    have hfirst : rows.knowing known guid = some (some s) := (knowing_of_unknown hknown).trans hrow
    rcases hfiled guid List.mem_cons_self s hfirst with hsame | hout
    · exact hguid (hsame ▸ hguid')
    · exact hout (List.mem_cons_of_mem _ hguid')
  rw [knowing, knowing, Dict.get?_insert, if_neg hne]

end Knowing

/-- Where every entity that is asked for is filed under its own guid, they are what is found. -/
theorem seek_of_filed {guids : List Guid} (hnodup : guids.Nodup) :
    ∀ known found : Dict Guid Snapshot, (rows.knowing known).Filed guids →
      (∀ guid ∈ guids, (rows.knowing known guid).isSome = true) →
      (∀ guid ∈ guids, found.get? guid = none) →
      ∃ found', rows.seek guids known found = some found' ∧
        (∀ guid ∈ guids, found'.get? guid = (rows.knowing known guid).join) ∧
        ∀ guid, guid ∉ guids → found'.get? guid = found.get? guid := by
  induction guids with
  | nil =>
      intro known found _ _ _
      exact ⟨found, rfl, by simp, fun _ _ => rfl⟩
  | cons guid rest ih =>
      rcases List.nodup_cons.mp hnodup with ⟨hguid, hnodup⟩
      intro known found hfiled hall hnone
      rcases List.forall_mem_cons.mp hall with ⟨hsome, hall⟩
      rcases List.forall_mem_cons.mp hnone with ⟨hfirst, hlater⟩
      -- One more entity is found, and the others have still to be.
      have hlater' : ∀ s, ∀ guid' ∈ rest, (found.insert guid s).get? guid' = none := by
        intro s guid' hguid'
        rw [Dict.get?_insert, if_neg (ne_of_mem_of_not_mem hguid' hguid)]
        exact hlater guid' hguid'
      have hother' : ∀ s guid', guid' ∉ guid :: rest →
          (found.insert guid s).get? guid' = found.get? guid' := by
        intro s guid' hguid'
        rw [Dict.get?_insert, if_neg (List.ne_of_not_mem_cons hguid')]
      cases hknown : known.get? guid with
      | some s =>
          rcases ih hnodup known (found.insert guid s) hfiled.tail hall (hlater' s) with
            ⟨found', hrun, hrows, hother⟩
          refine ⟨found', (seek_of_known rest hknown).trans hrun,
            List.forall_mem_cons.mpr ⟨?_, hrows⟩, fun guid' hguid' => ?_⟩
          · rw [hother guid hguid, Dict.get?_insert_self, knowing_of_known hknown]
            rfl
          · rw [hother guid' (List.not_mem_of_not_mem_cons hguid'), hother' s guid' hguid']
      | none =>
          rw [knowing_of_unknown hknown] at hsome
          rcases Option.isSome_iff_exists.mp hsome with ⟨stored, hrow⟩
          cases stored with
          | none =>
              rcases ih hnodup known found hfiled.tail hall hlater with
                ⟨found', hrun, hrows, hother⟩
              refine ⟨found', (seek_of_absent rest hknown hrow).trans hrun,
                List.forall_mem_cons.mpr ⟨?_, hrows⟩, fun guid' hguid' => ?_⟩
              · rw [hother guid hguid, hfirst, knowing_of_unknown hknown, hrow]
                rfl
              · exact hother guid' (List.not_mem_of_not_mem_cons hguid')
          | some s =>
              have hkept := hfiled.knowing_insert hguid hknown hrow
              have hall' : ∀ guid' ∈ rest,
                  (rows.knowing (known.insert s.guid s) guid').isSome = true := by
                intro guid' hguid'
                rw [hkept guid' hguid']
                exact hall guid' hguid'
              rcases ih hnodup (known.insert s.guid s) (found.insert guid s)
                (hfiled.tail.congr hkept) hall' (hlater' s) with ⟨found', hrun, hrows, hother⟩
              refine ⟨found', (seek_of_row rest hknown hrow).trans hrun,
                List.forall_mem_cons.mpr ⟨?_, fun guid' hguid' => ?_⟩, fun guid' hguid' => ?_⟩
              · rw [hother guid hguid, Dict.get?_insert_self, knowing_of_unknown hknown, hrow]
                rfl
              · rw [hrows guid' hguid', hkept guid' hguid']
              · rw [hother guid' (List.not_mem_of_not_mem_cons hguid'), hother' s guid' hguid']

/-- Nor is anything found if one of them is damaged. -/
theorem seek_of_filed_damaged {guids : List Guid} (hnodup : guids.Nodup) :
    ∀ (known found : Dict Guid Snapshot), (rows.knowing known).Filed guids →
      (∃ guid ∈ guids, rows.knowing known guid = none) → rows.seek guids known found = none := by
  induction guids with
  | nil =>
      rintro known found - ⟨guid, hguid, -⟩
      cases hguid
  | cons first rest ih =>
      rcases List.nodup_cons.mp hnodup with ⟨hfirst, hnodup⟩
      rintro known found hfiled ⟨guid, hguid, hbad⟩
      -- It is one of those that are left, unless it is the first one.
      have hrest : rows.knowing known first ≠ none → guid ∈ rest := by
        intro hsome
        refine (List.mem_cons.mp hguid).resolve_left ?_
        rintro rfl
        exact hsome hbad
      cases hknown : known.get? first with
      | some s =>
          rw [seek_of_known rest hknown]
          refine ih hnodup _ _ hfiled.tail ⟨guid, hrest ?_, hbad⟩
          rw [knowing_of_known hknown]
          exact Option.some_ne_none _
      | none =>
          rw [knowing_of_unknown hknown] at hrest
          cases hrow : rows first with
          | none =>
              exact seek_of_damaged rest hknown hrow
          | some stored =>
              have hmem : guid ∈ rest := hrest (hrow ▸ Option.some_ne_none stored)
              cases stored with
              | none =>
                  rw [seek_of_absent rest hknown hrow]
                  exact ih hnodup _ _ hfiled.tail ⟨guid, hmem, hbad⟩
              | some s =>
                  have hkept := hfiled.knowing_insert hfirst hknown hrow
                  rw [seek_of_row rest hknown hrow]
                  exact ih hnodup _ _ (hfiled.tail.congr hkept)
                    ⟨guid, hmem, (hkept guid hmem).trans hbad⟩

end Rows

namespace FileStore

/-- What is in the rows of a file. -/
def Contents.rows (t : Contents) : Rows := fun guid =>
  match t.entities.get? guid with
  | none => some none
  | some blob => (Blob.decode Snapshot.ofSymbols? guid blob).toOption.map some

/-! ## The calls -/

/-- The handle stands for the entity, or there is neither. -/
def StandsFor (w : World Connected) (h? : Option Handle) (s? : Option Snapshot) : Prop :=
  h?.map (fun h => (w.pool.get? h).map Record.snapshot) = s?.map some

theorem StandsFor.loads {w w' : World Connected} {h? : Option Handle} {s? : Option Snapshot}
    (h : StandsFor w h? s?) (hloads : w.Loads w') : StandsFor w' h? s? := by
  cases h? with
  | none =>
      exact h
  | some i =>
      cases s? with
      | none =>
          cases h
      | some s =>
          rcases Option.map_eq_some_iff.mp (Option.some.inj h) with ⟨r, hr, rfl⟩
          simp only [StandsFor, Option.map_some, hloads.pool hr]

theorem StandsFor.of_get? {w : World Connected} {h : Handle} {r : Record}
    (hr : w.pool.get? h = some r) : StandsFor w (some h) (some r.snapshot) := by
  simp only [StandsFor, Option.map_some, hr]

/-- A record is found as it stands in its row. -/
theorem Contents.rows_of_find (t : Contents) (guid : Guid) :
    (∃ e, t.find guid = .error e ∧ t.rows guid = none) ∨
    (t.find guid = .ok none ∧ t.rows guid = some none) ∨
    ∃ r, t.find guid = .ok (some r) ∧ t.rows guid = some (some r.snapshot) := by
  simp only [Contents.find, Contents.rows]
  cases t.entities.get? guid with
  | none =>
      exact Or.inr (Or.inl ⟨rfl, rfl⟩)
  | some blob =>
      cases hdecode : Blob.decode Snapshot.ofSymbols? guid blob with
      | error e =>
          simp only [hdecode]
          exact Or.inl ⟨e, rfl, rfl⟩
      | ok s =>
          simp only [hdecode]
          exact Or.inr (Or.inr ⟨_, rfl, rfl⟩)

/-- A row that can be decoded holds its own entity, if all of them do. -/
theorem Contents.Keyed.guid_of_row {t : Contents} (ht : t.Keyed) {guid : Guid} {s : Snapshot}
    (hrow : t.rows guid = some (some s)) : s.guid = guid := by
  rcases t.rows_of_find guid with ⟨e, -, hnone⟩ | ⟨-, habsent⟩ | ⟨r, hfind, hsome⟩
  · cases hnone.symm.trans hrow
  · cases habsent.symm.trans hrow
  · cases hsome.symm.trans hrow
    have hrecord : t.record guid = r := by
      simp only [record, hfind]
    rw [← guid_record ht guid, hrecord]
    rfl

namespace Connected

variable {w : World Connected} {t : Contents}

/-- What is known after a record was handed out, and held. -/
theorem live?_handOut_eq (w : World Connected) (r : Record) (guid : Guid) :
    live? (handOut r w).2 guid =
      ((w.store.opened.live.insert r.guid w.pool.cells.size).get? guid).filter
        (fun h => (w.pool.cells.size :: w.held).contains h) :=
  live?_sweep _ _ guid

/-- A record that is handed out is known under its own guid, and everything else is known as
before. -/
theorem live?_handOut (hbounded : w.Bounded) (r : Record) (guid : Guid) :
    live? (handOut r w).2 guid =
      if guid = r.guid then some w.pool.cells.size else live? w guid := by
  rw [live?_handOut_eq, Dict.get?_insert]
  split
  · simp [Option.filter_some]
  · simp only [live?, FileStore.live?]
    cases hold : w.store.opened.live.get? guid with
    | none =>
        rfl
    | some h =>
        -- The new handle is no handle of an older record.
        have hne : h ≠ w.pool.cells.size := Nat.ne_of_lt (hbounded guid h hold)
        simp [World.isHeld, Option.filter_some, hne]

/-- An entity that is not known is read from its row, whatever that holds. -/
theorem find?_of_unknown (hw : w.Holds t) (hbounded : w.Bounded) {guid : Guid}
    (hnone : live? w guid = none) :
    (∃ e, t.rows guid = none ∧ find? guid w = (.error e, w)) ∨
    (t.rows guid = some none ∧ find? guid w = (.ok none, w)) ∨
    ∃ r h w', t.rows guid = some (some r.snapshot) ∧ find? guid w = (.ok (some h), w') ∧
      w'.Holds t ∧ w.Loads w' ∧ w'.pool.get? h = some r ∧
      ∀ guid', live? w' guid' = if guid' = r.guid then some h else live? w guid' := by
  have hread := readEntity_apply hw guid
  simp only [find?, Act.bind_ok (a := Act.world) rfl, hnone]
  rcases t.rows_of_find guid with ⟨e, hfind, hrow⟩ | ⟨hfind, hrow⟩ | ⟨r, hfind, hrow⟩
  · rw [hfind] at hread
    exact Or.inl ⟨e, hrow, Act.bind_error hread⟩
  · rw [hfind] at hread
    exact Or.inr (Or.inl ⟨hrow, (Act.bind_ok hread).trans rfl⟩)
  · rw [hfind] at hread
    rcases handOut_apply hw hbounded r with ⟨w', hout, hw', hloads, hget, -⟩
    have hlive := live?_handOut hbounded r
    rw [hout] at hlive
    refine Or.inr (Or.inr ⟨r, _, w', hrow, ?_, hw', hloads, hget, hlive⟩)
    exact (Act.bind_ok hread).trans ((Act.bind_ok hout).trans rfl)

/-- What looking up several entities comes to. -/
def Sought (w : World Connected) (answer : Except StoreError (Dict Guid Handle))
    (sought : Option (Dict Guid Snapshot)) : Prop :=
  (∃ e, answer = .error e ∧ sought = none) ∨
    ∃ index found, answer = .ok index ∧ sought = some found ∧
      ∀ guid, StandsFor w (index.get? guid) (found.get? guid)

/-- Several entities are looked up as their rows say. -/
theorem findAll_seeks (guids : List Guid) :
    ∀ {w : World Connected} {index : Dict Guid Handle} {known found : Dict Guid Snapshot},
      w.Holds t → w.Bounded → (∀ guid, StandsFor w (live? w guid) (known.get? guid)) →
      (∀ guid, StandsFor w (index.get? guid) (found.get? guid)) →
      ∃ answer w', findAll guids index w = (answer, w') ∧ w'.Holds t ∧ w.Loads w' ∧
        Sought w' answer (t.rows.seek guids known found) := by
  induction guids with
  | nil =>
      intro w index known found hw _ _ hindex
      exact ⟨_, w, rfl, hw, .refl w, Or.inr ⟨index, found, rfl, rfl, hindex⟩⟩
  | cons guid rest ih =>
      intro w index known found hw hbounded hknown hindex
      -- One more handle is found, for the entity that it shows.
      have more : ∀ {w₁ : World Connected} {h : Handle} {s : Snapshot}, w.Loads w₁ →
          StandsFor w₁ (some h) (some s) → ∀ guid',
            StandsFor w₁ ((index.insert guid h).get? guid') ((found.insert guid s).get? guid') := by
        intro w₁ h s hloads hshows guid'
        simp only [Dict.get?_insert]
        split
        · exact hshows
        · exact (hindex guid').loads hloads
      have hfirst := hknown guid
      cases hlive : live? w guid with
      | some h =>
          have hrun : find? guid w = (.ok (some h), w) := by
            simp only [find?, Act.bind_ok (a := Act.world) rfl, hlive]
            rfl
          cases hs : known.get? guid with
          | none =>
              rw [hlive, hs] at hfirst
              cases hfirst
          | some s =>
              rw [hlive, hs] at hfirst
              rcases ih hw hbounded hknown (more (.refl w) hfirst) with
                ⟨answer, w', hrest, hw', hloads, hsought⟩
              rw [Rows.seek_of_known rest hs]
              exact ⟨answer, w', (Act.bind_ok hrun).trans hrest, hw', hloads, hsought⟩
      | none =>
          have hnone : known.get? guid = none := by
            rw [hlive] at hfirst
            exact Option.map_eq_none_iff.mp hfirst.symm
          rcases find?_of_unknown hw hbounded hlive with
            ⟨e, hrow, hrun⟩ | ⟨hrow, hrun⟩ | ⟨r, h, w₁, hrow, hrun, hw₁, hloads, hr, hlive₁⟩
          · rw [Rows.seek_of_damaged rest hnone hrow]
            exact ⟨_, w, Act.bind_error hrun, hw, .refl w, Or.inl ⟨e, rfl, rfl⟩⟩
          · rw [Rows.seek_of_absent rest hnone hrow]
            rcases ih hw hbounded hknown hindex with ⟨answer, w', hrest, hw', hloads, hsought⟩
            exact ⟨answer, w', (Act.bind_ok hrun).trans hrest, hw', hloads, hsought⟩
          · rw [Rows.seek_of_row rest hnone hrow]
            have hshows := StandsFor.of_get? hr
            -- From now on the record answers for its own guid, which may be another one.
            have hknown₁ : ∀ guid', StandsFor w₁ (live? w₁ guid')
                ((known.insert r.guid r.snapshot).get? guid') := by
              intro guid'
              rw [hlive₁, Dict.get?_insert]
              split
              · exact hshows
              · exact (hknown guid').loads hloads
            rcases ih hw₁ (hloads.bounded hbounded) hknown₁ (more hloads hshows) with
              ⟨answer, w', hrest, hw', hloads', hsought⟩
            exact ⟨answer, w', (Act.bind_ok hrun).trans hrest, hw', hloads.trans hloads', hsought⟩

end Connected

/-! ## Reading -/

/-- The fields of the entities that were found. -/
def viewOf (found : Dict Guid Snapshot) : FieldView := fun guid =>
  (found.get? guid).map (fun s => s.fields.bindings)

/-- The entities that a skeleton names, as far as their rows can be decoded. -/
def Contents.named? (t : Contents) (n : Skeleton) : Option (Dict Guid Snapshot) :=
  t.rows.seek n.guids.toList .empty .empty

/-- What `q` shows at a time, whatever the rows hold. -/
def Contents.answer? (t : Contents) (now : Time) (q : QueryKey) : Option CachedResult :=
  (t.entryAt q).bind (fun e => e.root?.toOption.bind (fun n =>
    (t.named? n).map (fun found =>
      ⟨q, (assemble (viewOf found) n).plain, e.isStaleAt now, e.ttl, e.cachedAt⟩)))

theorem Contents.rows_accessed (t : Contents) (now : Time) (q : QueryKey) :
    (t.accessed now q).rows = t.rows := by
  funext guid
  simp only [rows, entities_accessed]

variable {w : World Connected} {t : Contents}

theorem viewOf_eq {index : Dict Guid Handle} {found : Dict Guid Snapshot}
    (h : ∀ guid, StandsFor w (index.get? guid) (found.get? guid)) :
    RecordSet.view ⟨w.pool, index⟩ = viewOf found := by
  funext guid
  have hshows := h guid
  show ((index.get? guid).bind w.pool.get?).map (fun r => r.fields.bindings) =
    (found.get? guid).map (fun s => s.fields.bindings)
  -- A handle and a row are both there or both missing.
  cases hget : index.get? guid with
  | none =>
      rw [hget] at hshows
      rw [Option.map_eq_none_iff.mp hshows.symm]
      rfl
  | some h =>
      rw [hget] at hshows
      cases hfound : found.get? guid with
      | none =>
          rw [hfound] at hshows
          cases hshows
      | some s =>
          rw [hfound] at hshows
          rcases Option.map_eq_some_iff.mp (Option.some.inj hshows) with ⟨r, hr, rfl⟩
          simp only [Option.bind_some, hr, Option.map_some]
          rfl

/-- A skeleton is assembled from what is known and what the other rows hold, and nothing is
changed. -/
theorem project_looks (hw : w.Holds t) (hbounded : w.Bounded) {known : Dict Guid Snapshot}
    (hknown : ∀ guid, StandsFor w (Connected.live? w guid) (known.get? guid)) (root : Skeleton) :
    ∃ w', w'.Holds t ∧ w.Loads w' ∧ w'.held = w.held ∧
      ((∃ e, backend.project root w = (.error e, w') ∧
          t.rows.seek root.guids.toList known .empty = none) ∨
        ∃ found, backend.project root w = (.ok (assemble (viewOf found) root), w') ∧
          t.rows.seek root.guids.toList known .empty = some found) := by
  have hempty : ∀ guid, StandsFor w ((.empty : Dict Guid Handle).get? guid)
      ((.empty : Dict Guid Snapshot).get? guid) := fun _ => rfl
  rcases Connected.findAll_seeks root.guids.toList hw hbounded hknown hempty with
    ⟨answer, w₁, hrun, hw₁, hloads, hsought⟩
  rw [← recordsOf_eq] at hrun
  rcases hsought with ⟨e, rfl, hseek⟩ | ⟨index, found, rfl, hseek, hindex⟩
  · exact ⟨{ w₁ with held := w.held }, hw₁, hloads.trans ⟨rfl, fun h => h, fun h => h⟩, rfl,
      Or.inl ⟨e, Backend.project_of_failed hrun, hseek⟩⟩
  · have hproject := Backend.project_of_records hrun
    rw [viewOf_eq hindex] at hproject
    exact ⟨{ w₁.report (missingNotices (viewOf found) root) with held := w.held }, hw₁,
      hloads.trans ⟨rfl, fun h => h, fun h => h⟩, rfl, Or.inr ⟨found, hproject, hseek⟩⟩

/-- While nobody holds a record it is assembled from its rows alone. -/
theorem project_seeks (hw : w.Holds t) (hbounded : w.Bounded) (hheld : w.held = [])
    (root : Skeleton) : ∃ w', w'.Holds t ∧ w.Loads w' ∧ w'.held = [] ∧
      ((∃ e, backend.project root w = (.error e, w') ∧ t.named? root = none) ∨
        ∃ found, backend.project root w = (.ok (assemble (viewOf found) root), w') ∧
          t.named? root = some found) := by
  have hnone : ∀ guid, StandsFor w (Connected.live? w guid) (Dict.empty.get? guid) := by
    intro guid
    rw [Connected.live?_of_held hheld]
    rfl
  rcases project_looks hw hbounded hnone root with ⟨w', hw', hloads, hsame, hproject⟩
  exact ⟨w', hw', hloads, hsame.trans hheld, hproject⟩

/-- A cached result is shown as its rows say, and only the time of access changes. -/
theorem read_answers (hw : w.Holds t) (hbounded : w.Bounded) (hheld : w.held = [])
    (q : QueryKey) : ∃ w', backend.read q w = (t.answer? w.now q, w') ∧
      w'.Holds (t.accessed w.now q) ∧ w.Loads w' ∧ w'.held = [] := by
  have hquiet : ∀ signals, w.Loads (w.report signals) := fun _ => ⟨rfl, fun h => h, fun h => h⟩
  rcases Connected.tree?_cases hw q with ⟨hentry, hcall⟩ | ⟨e, hentry, hcall⟩
  · have hanswer : t.answer? w.now q = none := by
      simp only [Contents.answer?, hentry]
      rfl
    simp only [hanswer, Contents.accessed_of_none hentry]
    rcases hcall with hcall | ⟨failed, hcall⟩
    · have hread := Backend.read_of_none (b := backend) hcall
      rw [World.report_report] at hread
      exact ⟨_, hread, hw, hquiet _, hheld⟩
    · rcases Backend.read_of_failed (b := backend) hcall with ⟨signals, hread⟩
      exact ⟨_, hread, hw, hquiet _, hheld⟩
  · have htouch : (e.touch w.now).root? = e.root? := rfl
    have hw₁ := hw.withContents (t.accessed w.now q)
    have hloads₁ : w.Loads (w.withContents (t.accessed w.now q)) :=
      ⟨rfl, fun h => h, fun h => h⟩
    cases hroot : e.root? with
    | error f =>
        have hanswer : t.answer? w.now q = none := by
          simp only [Contents.answer?, hentry, Option.bind_some, hroot]
          rfl
        rcases Backend.read_of_undecodable (b := backend) hcall (htouch.trans hroot) with
          ⟨signals, hread⟩
        rw [hanswer]
        exact ⟨_, hread, hw₁, hloads₁.trans ⟨rfl, fun h => h, fun h => h⟩, hheld⟩
    | ok n =>
        -- Assembling begins after the time of access was written.
        rcases project_seeks hw₁ (hloads₁.bounded hbounded) hheld n with
          ⟨w₂, hw₂, hloads₂, hheld₂, hproject⟩
        simp only [Contents.named?, Contents.rows_accessed] at hproject
        have hloads : ∀ signals, w.Loads (w₂.report signals) := fun _ =>
          (hloads₁.trans hloads₂).trans ⟨rfl, fun h => h, fun h => h⟩
        have hanswer : t.answer? w.now q = (t.named? n).map (fun found =>
            ⟨q, (assemble (viewOf found) n).plain, e.isStaleAt w.now, e.ttl, e.cachedAt⟩) := by
          simp only [Contents.answer?, hentry, Option.bind_some, hroot]
          rfl
        rcases hproject with ⟨failure, hproject, hseek⟩ | ⟨found, hproject, hseek⟩
        · rcases Backend.read_of_unprojected (b := backend) hcall (htouch.trans hroot) hproject with
            ⟨signals, hread⟩
          rw [hanswer, Contents.named?, hseek]
          exact ⟨_, hread, hw₂, hloads _, hheld₂⟩
        · rcases Backend.read_of_entry (b := backend) hcall (htouch.trans hroot) hproject with
            ⟨signals, hread⟩
          rw [hanswer, Contents.named?, hseek]
          rw [hloads₂.now] at hread
          exact ⟨_, hread, hw₂, hloads _, hheld₂⟩

end FileStore
end EntityCache
