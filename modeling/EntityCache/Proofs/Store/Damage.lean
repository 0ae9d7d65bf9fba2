import EntityCache.Proofs.Store.Dependents
import EntityCache.Proofs.Store.FileLedger

/-!
# Damaged files

Rows of a file may come to hold bytes that nobody can decode:

* `Contents.Damaged`: blobs were replaced, those of entities by bytes that cannot be decoded.
* `Orderly`: a store between two operations, on a file that lists dependents of stored entities
  only.
* `Orderly.damaged`: damage leaves it so; `Orderly.handled`: so does whoever holds records
  meanwhile.
* `serves_orderly`: and so does every call.
-/

namespace EntityCache

open Normalize

namespace FileStore

namespace Contents

/-! ## Damage -/

/-- The blobs of some cached results were replaced by any bytes, and those of some entities by bytes
that cannot be decoded. -/
structure Damaged (t t' : Contents) : Prop where
  trees : ∀ q, (t'.trees.get? q).map TreeRow.lastAccessed =
    (t.trees.get? q).map TreeRow.lastAccessed
  entities : ∀ guid, t'.entities.get? guid = t.entities.get? guid ∨
    ∃ blob blob', t.entities.get? guid = some blob ∧ t'.entities.get? guid = some blob' ∧
      ∀ s, Blob.decode Snapshot.ofSymbols? guid blob' ≠ .ok s
  dependents : t'.dependents = t.dependents

variable {t t' : Contents}

theorem Damaged.keyed (h : t.Damaged t') (ht : t.Keyed) : t'.Keyed := by
  intro guid blob s hrow hdecode
  rcases h.entities guid with hsame | ⟨old, new, -, hnew, hbad⟩
  · rw [hsame] at hrow
    exact ht guid blob s hrow hdecode
  · cases hrow.symm.trans hnew
    exact absurd hdecode (hbad s)

theorem Damaged.rowed (h : t.Damaged t') (ht : t.Rowed) : t'.Rowed := by
  intro guid q hq
  rw [h.dependents] at hq
  rcases h.entities guid with hsame | ⟨old, new, -, hnew, -⟩
  · rw [hsame]
    exact ht guid q hq
  · rw [hnew]
    rfl

/-- The bytes of one entity were replaced. -/
theorem damaged_entity {guid : Guid} {blob : Blob} (hrow : (t.entities.get? guid).isSome = true)
    (hbad : ∀ s, Blob.decode Snapshot.ofSymbols? guid blob ≠ .ok s) :
    t.Damaged { t with entities := t.entities.insert guid blob } where
  trees _ := rfl
  entities guid' := by
    rcases Option.isSome_iff_exists.mp hrow with ⟨old, hold⟩
    by_cases hguid : guid' = guid
    · subst hguid
      exact Or.inr ⟨old, blob, hold, Dict.get?_insert_self _ _ _, hbad⟩
    · left
      show (t.entities.insert guid blob).get? guid' = _
      rw [Dict.get?_insert, if_neg hguid]
  dependents := rfl

/-! ## Dependents of stored entities -/

namespace Rowed

theorem makeAll (ht : t.Rowed) (guids : List Guid) : (t.makeAll guids).Rowed :=
  List.foldlRecOn guids Contents.made ht fun _ ht' guid _ => ht'.made guid

theorem saveAll (ht : t.Rowed) (records : List Record) : (t.saveAll records).Rowed :=
  List.foldlRecOn records Contents.saved ht fun _ ht' r _ => ht'.saved r

theorem accessed (ht : t.Rowed) (now : Time) (q : QueryKey) : (t.accessed now q).Rowed :=
  ht.aside (t.entities_accessed now q) (t.dependents_accessed now q)

theorem absorbed (ht : t.Rowed) (ids : IdIndex) (fields : List (String × Value))
    (requestor : Option QueryKey) : (t.absorbed ids fields requestor).Rowed :=
  (ht.makeAll _).saveAll _

theorem stored (ht : t.Rowed) (q : QueryKey) (e : Entry) : (t.stored q e).Rowed :=
  ht.aside rfl rfl

/-- The record that is handed out has all dependents that are listed. -/
theorem mem_record (ht : t.Rowed) (guid : Guid) (q : QueryKey) :
    (t.record guid).dependents.mem q = true ↔ t.dependents.mem (guid, q) = true :=
  (mem_dependents_record guid q).trans (and_iff_right_of_imp (ht guid q))

end Rowed
end Contents

/-! ## Stores -/

/-- Between two operations, on a file that lists dependents of stored entities only. -/
def Orderly (w : World Connected) : Prop :=
  ∃ t, Settled w t ∧ t.Rowed

namespace Orderly

variable {w : World Connected} {t t' : Contents}

theorem sound (h : Orderly w) : Sound w := by
  rcases h with ⟨t, hw, -⟩
  exact ⟨hw.held, hw.bounded, t, hw.holds, hw.keyed⟩

theorem contents_eq (hw : w.Holds t) : w.store.contents = t := by
  simp only [Connected.contents, hw.2]
  rfl

theorem damaged (h : Orderly w) (hw : w.Holds t) (hdamaged : t.Damaged t') :
    Orderly (w.withContents t') := by
  rcases h with ⟨t₀, hsettled, hrowed⟩
  cases (contents_eq hsettled.holds).symm.trans (contents_eq hw)
  exact ⟨t', ⟨hsettled.held, hsettled.bounded, hw.withContents t', hdamaged.keyed hsettled.keyed⟩,
    hdamaged.rowed hrowed⟩

/-- Whatever is done with records that are held for a while. -/
theorem handled (h : Orderly w) (steps : List Handling)
    (hheld : (backend.handleAll steps w).held = []) : Orderly (backend.handleAll steps w) := by
  rcases h with ⟨t, hw, hrowed⟩
  have htracks : Tracks (Listing t) (Carries t False) [] w t :=
    { holds := hw.holds
      bounded := hw.bounded
      keyed := hw.keyed
      contents := listing_start hrowed
      known := by
        intro guid i hknown
        rw [Connected.live?_of_held hw.held] at hknown
        cases hknown }
  rcases htracks.handleAll (account_dependents t False) steps (fun _ _ => trivial)
    (Or.inr (lenient_carries id)) with ⟨t', h'⟩
  exact ⟨t', ⟨hheld, h'.bounded, h'.holds, h'.keyed⟩, h'.contents.rowed⟩

end Orderly

/-- The calls of a store in a file keep it orderly. -/
theorem serves_orderly : backend.Serves Orderly catalog where
  counts := serves.counts
  report := by
    rintro w signals ⟨t, hw, ht⟩
    exact ⟨t, keeps.report signals hw, ht⟩
  catalog_report := serves.catalog_report
  time := by
    rintro w now ⟨t, hw, ht⟩
    exact ⟨t, keeps.time now hw, ht⟩
  catalog_time := serves.catalog_time
  tree? := by
    intro q w h
    -- That the catalog is kept is known of any sound store; what is left is that rows stay in
    -- order.
    refine ⟨?_, (serves.tree? q h.sound).2⟩
    rcases h with ⟨t, hw, ht⟩
    rcases Connected.tree?_cases hw.holds q with ⟨-, hcall | ⟨e, hcall⟩⟩ | ⟨e, -, hcall⟩
    · rw [show backend.tree? q w = _ from hcall]
      exact ⟨t, hw, ht⟩
    · rw [show backend.tree? q w = _ from hcall]
      exact ⟨t, hw, ht⟩
    · rw [show backend.tree? q w = _ from hcall]
      exact ⟨_, ⟨hw.held, hw.bounded, hw.holds.withContents _, hw.keyed.accessed w.now q⟩,
        ht.accessed w.now q⟩
  project := by
    intro root w h
    refine ⟨?_, (serves.project root h.sound).2⟩
    rcases h with ⟨t, hw, ht⟩
    rcases project_cases hw.holds hw.keyed hw.bounded hw.held root with
      ⟨w', hholds, hbounded, hheld, -, ⟨e, hproject, -⟩ | ⟨hproject, -⟩⟩
    · rw [hproject]
      exact ⟨t, ⟨hheld, hbounded, hholds, hw.keyed⟩, ht⟩
    · rw [hproject]
      exact ⟨t, ⟨hheld, hbounded, hholds, hw.keyed⟩, ht⟩
  read q _ h := serves.read q h.sound
  batch guids _ h := serves.batch guids h.sound
  absorb := by
    intro fields ids requestor w h
    rcases serves.absorb fields ids requestor h.sound with ⟨pass, w', habsorb, -, hrest⟩
    rcases h with ⟨t, hw, ht⟩
    rcases keeps.absorb fields ids requestor hw with ⟨_, _, habsorb', hw', -⟩
    cases habsorb.symm.trans habsorb'
    exact ⟨pass, w', habsorb, ⟨_, hw', ht.absorbed ids fields requestor⟩, hrest⟩
  refuse := by
    intro v ids requestor w hv h
    rcases serves.refuse ids requestor hv h.sound with ⟨e, w', habsorb, -, hgrows⟩
    rcases h with ⟨t, hw, ht⟩
    rcases keeps.refuse ids requestor hv hw with ⟨_, _, habsorb', hw'⟩
    cases habsorb.symm.trans habsorb'
    exact ⟨e, w', habsorb, ⟨_, hw', ht.makeAll _⟩, hgrows⟩
  stop := by
    intro fields ids requestor index pass k w w₁ w₂ w₃ h hbatch hsplit hsaves
    refine ⟨?_, (serves.stop h.sound hbatch hsplit hsaves).2⟩
    rcases h with ⟨t, hw, ht⟩
    rcases steps_map hw.holds hw.keyed hw.bounded hw.held fields ids requestor with
      ⟨_, _, _, _, hbatch', hsplit', hw₂, hbounded₂, hpool, hpass, -, -⟩
    -- The run is the one whose worlds the lemmas describe, so these can be put in.
    cases hbatch.symm.trans hbatch'
    cases hsplit.symm.trans hsplit'
    rcases saves_touched hpass hw₂ hbounded₂ hpool (pass.touched.values.take k)
      fun h hh => List.mem_of_mem_take hh with ⟨_, hsaves', hw₃, hbounded₃, -, -⟩
    cases hsaves.symm.trans hsaves'
    exact ⟨_, ⟨hw.held, hbounded₃, hw₃, (hw.keyed.makeAll _).saveAll _⟩,
      (ht.makeAll _).saveAll _⟩
  setTree := by
    intro q n span w h
    rcases serves.setTree q n span h.sound with ⟨w', hset, -, hstores⟩
    rcases h with ⟨t, hw, ht⟩
    rcases keeps.setTree q n span hw with ⟨_, hset', hw'⟩
    cases hset.symm.trans hset'
    exact ⟨w', hset, ⟨_, hw', ht.stored q _⟩, hstores⟩

end FileStore
end EntityCache
