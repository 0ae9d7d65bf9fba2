import EntityCache.Proofs.Store.Damage
import EntityCache.Proofs.Store.Held
import EntityCache.Proofs.Store.Seeded
import EntityCache.Proofs.Store.WriteBack

/-!
# Several entities at once

A store in a file that is asked for several entities looks up all records that are known before it
loads the first one of the others.  That comes to the same as asking for one after the other:

* `Connected.Skips`, `Connected.oneByOne_skips`: leaving out what was known before changes nothing
  else.
* `Connected.batch_skips`: so both ways end alike, whatever is in the rows.
* `FileStore.Attained`: what becomes of a store that was opened on a file.
* `FileStore.batch_in_turn`: of such a store both ways find the same records.
-/

namespace EntityCache

open Normalize

namespace FileStore.Connected

variable {w w₀ : World Connected} {guid : Guid}

/-! ## What stays known -/

/-- An entity that is known stays so, if perhaps through another record. -/
theorem isSome_live?_handOut (r : Record) (h : (live? w guid).isSome = true) :
    (live? (handOut r w).2 guid).isSome = true := by
  rcases Option.isSome_iff_exists.mp h with ⟨i, hi⟩
  rcases live?_eq_some_iff.mp hi with ⟨hget, hheld⟩
  have hmem : i ∈ w.pool.cells.size :: w.held :=
    List.mem_cons_of_mem _ (List.contains_iff_mem.mp hheld)
  rw [live?_handOut_eq, Dict.get?_insert]
  split
  · rw [Option.filter_some, if_pos (List.contains_iff_mem.mpr List.mem_cons_self)]
    rfl
  · rw [hget, Option.filter_some, if_pos (List.contains_iff_mem.mpr hmem)]
    rfl

theorem isSome_live?_entity {t : Contents} (hw : w.Holds t) (guid' : Guid)
    (h : (live? w guid).isSome = true) : (live? (entity guid' w).2 guid).isSome = true := by
  cases hlive : live? w guid' with
  | some i =>
      rw [entity_known hlive]
      exact h
  | none =>
      rcases readOrCreate_apply hw guid' with ⟨w₁, hread, -, hbeside⟩
      simp only [entity, Act.bind_ok (a := Act.world) rfl, hlive, Act.bind_ok hread]
      refine isSome_live?_handOut _ ?_
      rw [live?_beside hbeside]
      exact h

/-! ## One after the other -/

/-- Entities are looked up one after the other, once without those that were known in `w₀` and once
with them: what is found for the others is the same. -/
structure Skips (w₀ : World Connected) (guids : List Guid) (known found first inTurn :
    Dict Guid Handle) : Prop where
  same : ∀ guid, first.get? guid =
    if guid ∈ guids ∧ live? w₀ guid = none then inTurn.get? guid else known.get? guid
  other : ∀ guid, guid ∉ guids → inTurn.get? guid = found.get? guid

namespace Skips

variable {guids : List Guid} {known found first inTurn : Dict Guid Handle} {h : Handle}

theorem nil (known found : Dict Guid Handle) : Skips w₀ [] known found known found where
  same guid := by
    rw [if_neg fun hguid => List.not_mem_nil hguid.1]
  other _ _ := rfl

/-- An entity that was known is passed over. -/
theorem passed (hskips : Skips w₀ guids known (found.insert guid h) first inTurn)
    (hknown : (live? w₀ guid).isSome = true) :
    Skips w₀ (guid :: guids) known found first inTurn where
  same guid' := by
    rw [hskips.same]
    refine if_congr (and_congr_left fun hnone => ?_) rfl rfl
    have hne : guid' ≠ guid := by
      rintro rfl
      rw [hnone] at hknown
      cases hknown
    rw [List.mem_cons, or_iff_right hne]
  other guid' hguid' := by
    rcases List.ne_and_not_mem_of_not_mem_cons hguid' with ⟨hne, hrest⟩
    rw [hskips.other guid' hrest, Dict.get?_insert, if_neg hne]

/-- An entity that was not known is found alike. -/
theorem loaded (hskips : Skips w₀ guids (known.insert guid h) (found.insert guid h) first inTurn)
    (hnone : live? w₀ guid = none) : Skips w₀ (guid :: guids) known found first inTurn where
  same guid' := by
    rw [hskips.same, Dict.get?_insert]
    by_cases hguid : guid' = guid
    · subst hguid
      simp only [hnone, List.mem_cons_self, and_true, if_true]
      split
      · rfl
      · next hrest => rw [hskips.other guid' hrest, Dict.get?_insert_self]
    · simp only [List.mem_cons, hguid, false_or, if_false]
  other guid' hguid' := by
    rcases List.ne_and_not_mem_of_not_mem_cons hguid' with ⟨hne, hrest⟩
    rw [hskips.other guid' hrest, Dict.get?_insert, if_neg hne]

end Skips

/-- Leaving out what was known before changes neither what else is found nor the world. -/
theorem oneByOne_skips (guids : List Guid) :
    ∀ {w : World Connected} (known found : Dict Guid Handle), Usable w.store →
      (∀ guid, (live? w₀ guid).isSome = true → (live? w guid).isSome = true) →
      ∃ first inTurn w',
        Backend.oneByOne entity (guids.filter (fun guid => (live? w₀ guid).isNone)) known w =
          (.ok first, w') ∧
        Backend.oneByOne entity guids found w = (.ok inTurn, w') ∧
        Skips w₀ guids known found first inTurn := by
  induction guids with
  | nil =>
      intro w known found _ _
      exact ⟨known, found, w, rfl, rfl, .nil known found⟩
  | cons guid rest ih =>
      intro w known found hw hknown
      rcases exists_entity guid w hw with ⟨h, w₁, hentity, hw₁⟩
      have hinTurn : ∀ answer, Backend.oneByOne entity rest (found.insert guid h) w₁ = answer →
          Backend.oneByOne entity (guid :: rest) found w = answer := fun _ hrest =>
        (Act.bind_ok hentity).trans hrest
      cases hlive : live? w₀ guid with
      | some i =>
          have hsome : (live? w₀ guid).isSome = true := Option.isSome_of_eq_some hlive
          -- The entity is known still, so asking for it changes nothing.
          rcases Option.isSome_iff_exists.mp (hknown guid hsome) with ⟨j, hj⟩
          cases (entity_known hj).symm.trans hentity
          rcases ih known (found.insert guid h) hw hknown with
            ⟨first, inTurn, w', hrun, hrest, hskips⟩
          refine ⟨first, inTurn, w', ?_, hinTurn _ hrest, hskips.passed hsome⟩
          rw [List.filter_cons_of_neg (by rw [hlive]; exact Bool.false_ne_true)]
          exact hrun
      | none =>
          have hknown₁ : ∀ guid', (live? w₀ guid').isSome = true →
              (live? w₁ guid').isSome = true := by
            intro guid' hguid'
            rcases hw with ⟨t, ht⟩
            have hkept := isSome_live?_entity (w := w) ht guid (hknown guid' hguid')
            rwa [hentity] at hkept
          rcases ih (known.insert guid h) (found.insert guid h) hw₁ hknown₁ with
            ⟨first, inTurn, w', hrun, hrest, hskips⟩
          refine ⟨first, inTurn, w', ?_, hinTurn _ hrest, hskips.loaded hlive⟩
          rw [List.filter_cons_of_pos (by rw [hlive]; rfl)]
          exact (Act.bind_ok hentity).trans hrun

/-- A batch finds what is known, and for all else what is found by asking for one entity after the
other. -/
theorem batch_skips (hw : Usable w.store) (guids : KeySet Guid) : ∃ found inTurn w',
    batch guids w = (.ok found, w') ∧
    Backend.oneByOne entity guids.toList .empty w = (.ok inTurn, w') ∧
    (∀ guid, (inTurn.get? guid).isSome = guids.mem guid) ∧
    ∀ guid, found.get? guid =
      if guids.mem guid = true then (live? w guid).or (inTurn.get? guid) else none := by
  let known := guids.toList.filterMap (fun guid => (live? w guid).map (fun h => (guid, h)))
  rcases oneByOne_skips guids.toList (.ofList known) .empty hw fun _ hguid => hguid with
    ⟨found, inTurn, w', hrun, hinTurn, hskips⟩
  have hbatch : batch guids w = (.ok found, w') := by
    simp only [batch, Act.bind_ok (a := Act.world) rfl]
    exact hrun
  rcases Backend.oneByOne_all exists_entity guids w hw with ⟨_, _, hreturns, -, hall⟩
  cases hinTurn.symm.trans hreturns
  refine ⟨found, inTurn, w', hbatch, hinTurn, hall, fun guid => ?_⟩
  rw [hskips.same, get?_known]
  simp only [← KeySet.mem_iff_mem_toList]
  by_cases hmem : guids.mem guid = true
  · cases hlive : live? w guid <;> simp [hmem]
  · simp [hmem]

/-! ## Rows that hold their own records -/

/-- As long as the row of an entity holds its record, and no other row does, the record stays known
under its guid while others are asked for. -/
theorem eq_of_oneByOne {w' : World Connected} {guids : List Guid} {h h' : Handle}
    {found : Dict Guid Handle} (hshares : Shares guid w []) (hlive : live? w guid = some h)
    (hrun : Backend.oneByOne entity guids .empty w = (.ok found, w'))
    (hget : found.get? guid = some h') : h' = h := by
  have hknown : Grants guid w [] w [(guid, h)] := .known hshares hlive
  rcases collects_oneByOne guids .empty w _ hknown.shares with ⟨granted, hgrants, hfound⟩
  rw [hrun] at hgrants hfound
  have hgranted : (guid, h') ∈ granted := by
    refine (hfound found rfl _ (Dict.get?_eq_some_iff.mp hget)).resolve_left fun hnone => ?_
    cases hnone
  have hheld : w'.isHeld h = true := hgrants.keeps h (live?_eq_some_iff.mp hlive).2
  have hboth := hgrants.shares.shared (List.mem_append_right _ hgranted) (hgrants.held _ hgranted)
  exact Option.some.inj (hboth.symm.trans
    (hgrants.shares.shared (List.mem_append_left _ (List.mem_singleton_self _)) hheld))

end FileStore.Connected

namespace FileStore

open Connected

variable {w : World Connected} {t : Contents} {C : List Record → Contents → Prop}
  {L : List Record → Record → Prop} {log : List Record}

/-- Where every row holds its own record, nothing that is known is mixed up. -/
theorem Tracks.shares (h : Tracks C L log w t) (guid : Guid) : Shares guid w [] where
  bounded := h.bounded
  known hlive := by
    rcases h.known hlive with ⟨r, hr, hguid, -⟩
    exact ⟨r, hr, hguid⟩
  files := by
    intro rows key blob s hrows hrow hdecode
    rw [h.holds.2] at hrows
    cases hrows
    rw [h.keyed key blob s hrow hdecode]
  named hout := by
    cases hout
  shared hout := by
    cases hout

/-- What is known is found again if it is asked for in turn. -/
theorem Tracks.get?_inTurn {w' : World Connected} {guids : KeySet Guid} {inTurn : Dict Guid Handle}
    (h : Tracks C L log w t)
    (hrun : Backend.oneByOne backend.entity guids.toList .empty w = (.ok inTurn, w'))
    (hall : ∀ guid, (inTurn.get? guid).isSome = guids.mem guid) (guid : Guid) :
    inTurn.get? guid =
      if guids.mem guid = true then (Connected.live? w guid).or (inTurn.get? guid) else none := by
  rw [← hall]
  cases hget : inTurn.get? guid with
  | none =>
      rfl
  | some i =>
      rw [Option.isSome_some, if_pos rfl]
      cases hlive : Connected.live? w guid with
      | none =>
          rfl
      | some j =>
          rw [eq_of_oneByOne (h.shares guid) hlive hrun hget]
          rfl

/-- Nothing is asked of contents and records. -/
theorem account_any : Account (fun _ => True) (fun _ _ => True) (fun _ _ => True) where
  aside _ _ _ := trivial
  made _ _ := trivial
  record _ _ _ := trivial
  saved _ _ := trivial
  other _ _ := trivial
  own _ _ := trivial

/-- What becomes of a store that was opened on a file.  Records are handled in any way, and time
passes.  Others may change the file, and rows may be damaged: those that can be decoded hold their
own records. -/
inductive Attained : World Connected → Prop
  | opened {w : World Connected} {t : Contents} {n : Nat} (holds : w.Holds t) (keyed : t.Keyed)
      (opened : w.store.opened = .new n) : Attained w
  | handle {w : World Connected} (s : Handling) (before : Attained w) :
      Attained (backend.handle s w)
  | elsewhere {w : World Connected} {t : Contents} (now : Time) (keyed : t.Keyed)
      (before : Attained w) : Attained { w.withContents t with now := now }

theorem Attained.tracks (h : Attained w) :
    ∃ log t, Tracks (fun _ _ => True) (fun _ _ => True) log w t := by
  induction h with
  | opened holds keyed opened =>
      exact ⟨[], _, .of_opened holds opened keyed trivial⟩
  | handle s before ih =>
      rcases ih with ⟨log, t, htracks⟩
      rcases htracks.handle account_any s (fun _ _ => trivial) (.inr fun _ _ _ _ => trivial) with
        ⟨t', h'⟩
      exact ⟨_, t', h'⟩
  | @elsewhere w t now keyed before ih =>
      rcases ih with ⟨log, t₀, htracks⟩
      have hholds : (w.withContents t).Holds t := htracks.holds.withContents t
      exact ⟨log, t, hholds, htracks.bounded, keyed, trivial, htracks.known⟩

/-- Several entities are asked for at once, and one after the other.  While the store can be used,
whatever is in its rows, both ways find a record for each of them and for nothing else, and leave
the same world: the same file and the same known records.  At once, what is known comes first; for
every other entity both find the same record.  In whatever way the store has been used before, both
find the same records throughout: those that are known, and for every other entity one made of what
the file has of it. -/
theorem batch_in_turn (guids : KeySet Guid) :
    (∀ w t, w.Holds t → ∃ found inTurn w',
      backend.batch guids w = (.ok found, w') ∧
      Backend.oneByOne backend.entity guids.toList .empty w = (.ok inTurn, w') ∧
      (∀ guid, (inTurn.get? guid).isSome = guids.mem guid) ∧
      ∀ guid, found.get? guid =
        if guids.mem guid = true then (Connected.live? w guid).or (inTurn.get? guid) else none) ∧
    ∀ w, Attained w → ∃ found w',
      backend.batch guids w = (.ok found, w') ∧
      Backend.oneByOne backend.entity guids.toList .empty w = (.ok found, w') ∧
      (∀ guid, (found.get? guid).isSome = guids.mem guid) ∧
      (∀ guid h, guids.mem guid = true → Connected.live? w guid = some h →
        found.get? guid = some h) ∧
      ∀ guid, guids.mem guid = true → Connected.live? w guid = none → ∃ h,
        found.get? guid = some h ∧ w'.pool.get? h = some (w.store.contents.record guid) := by
  refine ⟨fun w t hw => batch_skips ⟨t, hw⟩ guids, fun w hattained => ?_⟩
  rcases hattained.tracks with ⟨log, t, htracks⟩
  rcases batch_skips ⟨t, htracks.holds⟩ guids with
    ⟨found, inTurn, w', hbatch, hinTurn, hall, hsame⟩
  obtain rfl : inTurn = found := Dict.ext_get? fun guid =>
    (htracks.get?_inTurn hinTurn hall guid).trans (hsame guid).symm
  refine ⟨inTurn, w', hbatch, hinTurn, hall, ?_, ?_⟩
  · intro guid h hmem hlive
    rw [hsame, if_pos hmem, hlive, Option.some_or]
  · intro guid hmem hlive
    have hunknown : guid ∈ unknown w guids :=
      List.mem_filter.mpr ⟨(KeySet.mem_iff_mem_toList _ _).mp hmem,
        Option.isNone_iff_eq_none.mpr hlive⟩
    rcases htracks.batch guids with ⟨index, v, hrun, -, -, -, hmade⟩
    cases hrun.symm.trans hbatch
    rw [Orderly.contents_eq htracks.holds]
    exact hmade guid hunknown

/-- Somebody holds `P1` while others change the file. -/
def heldFile (t : Contents) : World Connected :=
  { (backend.handle (.entity "P1") emptyFile).withContents t with now := 1 }

theorem attained_heldFile {t : Contents} (ht : t.Keyed) : Attained (heldFile t) :=
  .elsewhere 1 ht (.handle (.entity "P1") (.opened ⟨rfl, rfl⟩ Contents.keyed_empty rfl))

/-- A query depends on `P2`. -/
def listedRows : Contents :=
  (Contents.empty.made "P1").saved ⟨"P2", .ofList [("n", .num (.int 1))], KeySet.ofKeys ["Q"]⟩

/-- The row of `P2` cannot be decoded any more. -/
def damagedRows : Contents :=
  { listedRows with entities := listedRows.entities.insert "P2" "?".toUTF8 }

theorem keyed_damagedRows : damagedRows.Keyed := by
  have hlisted : listedRows.Keyed := (Contents.keyed_empty.made "P1").saved _
  have hrow : (listedRows.entities.get? "P2").isSome = true := by
    decide +kernel
  have hbad : ∀ s, Blob.decode Snapshot.ofSymbols? "P2" "?".toUTF8 ≠ .ok s := by
    intro s hs
    have hnone : (Blob.decode Snapshot.ofSymbols? "P2" "?".toUTF8).toOption.isNone = true := by
      decide +kernel
    rw [hs] at hnone
    cases hnone
  exact (Contents.damaged_entity hrow hbad).keyed hlisted

/-- A row that comes before that of `P1` holds a record of `P1`. -/
def misfiledRows : Contents :=
  ⟨.empty, .ofList [("P0", (Snapshot.text ⟨"P1", .empty⟩).toUTF8)], .empty⟩

/-- One of three entities is held, the row of another one is damaged and there is none for the last
one: both ways find the same records.  If the row of another entity holds a record of the one that
is held, the first way still finds the one that is held, and the second way finds the other one. -/
theorem batch_in_turn_damaged :
    (∃ found w' h, backend.batch (KeySet.ofKeys ["P1", "P2", "P3"]) (heldFile damagedRows) =
        (.ok found, w') ∧
      Backend.oneByOne backend.entity ["P1", "P2", "P3"] .empty (heldFile damagedRows) =
        (.ok found, w') ∧
      found.get? "P1" = some 0 ∧ found.get? "P2" = some h ∧
      ∃ r, w'.pool.get? h = some r ∧ r.fields.size = 0 ∧ r.dependents.mem "Q" = true) ∧
    ∃ found inTurn w', backend.batch (KeySet.ofKeys ["P0", "P1"]) (heldFile misfiledRows) =
        (.ok found, w') ∧
      Backend.oneByOne backend.entity ["P0", "P1"] .empty (heldFile misfiledRows) =
        (.ok inTurn, w') ∧
      found.get? "P1" = some 0 ∧ inTurn.get? "P1" = some 1 := by
  constructor
  · have hlive : Connected.live? (heldFile damagedRows) "P1" = some 0 := rfl
    have hnone : Connected.live? (heldFile damagedRows) "P2" = none := rfl
    rcases (batch_in_turn (KeySet.ofKeys ["P1", "P2", "P3"])).2 (heldFile damagedRows)
      (attained_heldFile keyed_damagedRows) with ⟨found, w', hbatch, hinTurn, -, hsame, hmade⟩
    rcases hmade "P2" (by decide) hnone with ⟨h, hget, hr⟩
    refine ⟨found, w', h, hbatch, hinTurn, hsame "P1" 0 (by decide) hlive, hget, _, hr, ?_⟩
    decide +kernel
  · have hlive : Connected.live? (heldFile misfiledRows) "P1" = some 0 := rfl
    have hlast : (Backend.oneByOne backend.entity ["P0", "P1"] .empty
        (heldFile misfiledRows)).1.toOption.bind (fun found => found.get? "P1") = some 1 := by
      decide +kernel
    rcases (batch_in_turn (KeySet.ofKeys ["P0", "P1"])).1 (heldFile misfiledRows) misfiledRows
      ⟨rfl, rfl⟩ with ⟨found, inTurn, w', hbatch, hinTurn, -, hfound⟩
    refine ⟨found, inTurn, w', hbatch, hinTurn, ?_, ?_⟩
    · rw [hfound, hlive]
      rfl
    · rw [show Backend.oneByOne backend.entity ["P0", "P1"] .empty (heldFile misfiledRows) = _
        from hinTurn] at hlast
      exact hlast

end FileStore
end EntityCache
