import EntityCache.Proofs.Cache.Faults
import EntityCache.Proofs.Normalize.Named
import EntityCache.Proofs.Store.Catalog

/-!
# Writes and catalogs

What a write does to the catalog of a store, and what its outcome says about it:

* `Catalog.Absorbs`: an object was absorbed; the other queries listed for its entities are impacted.
* `Catalog.Writes`: a write without failures is refused without effect or stored.
* `Catalog.Posts`: a write behind schedules may also stop half-way.
* `Catalog.Writes.mem_impacted`: in an indexed catalog every query that shows something else is
  impacted.
* `Catalog.Posts.indexed`: the catalog stays indexed, whatever fails, if the requestor is the query
  itself.
* `Backend.Serves.post`, `Backend.Posted.posts`: writes through a backend do just that.
-/

namespace EntityCache

open Normalize

/-! ## Catalogs -/

namespace Catalog

variable {c c₁ c' : Catalog} {e : Posting} {outcome : WriteOutcome}

/-- The object in a write was absorbed. -/
structure Absorbs (e : Posting) (fields : List (String × Value)) (impacted : KeySet QueryKey)
    (c c' : Catalog) : Prop where
  data : e.response.data = .map fields
  grows : Grows (entitiesOf e.response.ids fields) c c'
  enrolls : Enrolls (entitiesOf e.response.ids fields) e.requestor c'
  mem_impacted : ∀ q, impacted.mem q = true ↔
    e.requestor ≠ some q ∧ ∃ guid ∈ entitiesOf e.response.ids fields, c.Lists guid q

/-- What becomes of a write without failures. -/
inductive Writes (e : Posting) (c : Catalog) : WriteOutcome → Catalog → Prop
  | refused {c' : Catalog} (hgrows : Grows [] c c') : Writes e c .dropped c'
  | stored {c₁ c' : Catalog} {fields : List (String × Value)} {impacted : KeySet QueryKey}
      (habsorbs : Absorbs e fields impacted c c₁)
      (hstores : Stores e.query (skeletonOf e.response.ids fields) c₁ c') :
      Writes e c ⟨true, impacted⟩ c'

/-- What may become of a write behind schedules. -/
inductive Posts (e : Posting) (c : Catalog) : WriteOutcome → Catalog → Prop
  | written {outcome : WriteOutcome} {c' : Catalog} (hwrites : Writes e c outcome c') :
      Posts e c outcome c'
  /-- Some of the touched records were saved, and nobody is told. -/
  | stopped {c' : Catalog} {fields : List (String × Value)} (hdata : e.response.data = .map fields)
      (hgrows : Grows (entitiesOf e.response.ids fields) c c') : Posts e c .dropped c'
  /-- Only the skeleton is missing. -/
  | unstored {c' : Catalog} {fields : List (String × Value)} {impacted : KeySet QueryKey}
      (habsorbs : Absorbs e fields impacted c c') : Posts e c ⟨false, impacted⟩ c'

/-- A query that shows something else is impacted, unless it is the requestor or was not listed for
all entities that it names. -/
theorem Absorbs.shown_or {fields : List (String × Value)} {impacted : KeySet QueryKey}
    (h : Absorbs e fields impacted c c') (q : QueryKey) :
    c'.shown q = c.shown q ∨ impacted.mem q = true ∨ e.requestor = some q ∨
      ∃ n, c.skeleton? q = some n ∧ ∃ guid ∈ n.guidList, ¬ c.Lists guid q := by
  rcases h.grows.shown_or q with hsame | ⟨n, hn, guid, hguid, htouched⟩
  · exact Or.inl hsame
  -- The query names a touched entity: it is told if it is listed for it.
  · by_cases hrequestor : e.requestor = some q
    · exact Or.inr (Or.inr (Or.inl hrequestor))
    · by_cases hlists : c.Lists guid q
      · exact Or.inr (Or.inl ((h.mem_impacted q).mpr ⟨hrequestor, guid, htouched, hlists⟩))
      · exact Or.inr (Or.inr (Or.inr ⟨n, hn, guid, hguid, hlists⟩))

/-- In an indexed catalog every other query that shows something else is impacted. -/
theorem Writes.mem_impacted (h : Writes e c outcome c') (hc : c.Indexed)
    (hown : e.requestor = some e.query) {q : QueryKey} (hq : q ≠ e.query) :
    c'.shown q ≠ c.shown q → outcome.impacted.mem q = true := by
  intro hchanged
  cases h with
  | refused hgrows =>
      exact absurd (hgrows.shown_eq q) hchanged
  | stored habsorbs hstores =>
      simp only [hstores.shown_eq hq] at hchanged
      rcases habsorbs.shown_or q with hsame | himpacted | hrequestor | ⟨n, hn, guid, hguid, hnone⟩
      · exact absurd hsame hchanged
      · exact himpacted
      · simp only [hown, Option.some.injEq] at hrequestor
        exact absurd hrequestor.symm hq
      · exact absurd (hc q n hn guid hguid) hnone

/-- The records are listed for the query before its skeleton is stored. -/
theorem Posts.indexed (h : Posts e c outcome c') (hc : c.Indexed)
    (hown : e.requestor = some e.query) : c'.Indexed := by
  cases h with
  | written hwrites =>
      cases hwrites with
      | refused hgrows =>
          exact hc.grows hgrows
      | stored habsorbs hstores =>
          -- All entities that the new skeleton names were visited, and so enrolled the query.
          refine (hc.grows habsorbs.grows).stores hstores ?_
          intro guid hguid
          exact habsorbs.enrolls guid (mem_entitiesOf_of_mem_skeletonOf hguid) e.query hown
  | stopped _ hgrows =>
      exact hc.grows hgrows
  | unstored habsorbs =>
      exact hc.grows habsorbs.grows

end Catalog

/-! ## Backends -/

namespace Backend

variable {σ : Type} {b : Backend σ} {Sound : World σ → Prop} {catalog : World σ → Catalog}
  {e : Posting} {w : World σ}

/-- Absorbing succeeds exactly for objects. -/
theorem Serves.absorb_cases (h : b.Serves Sound catalog) (e : Posting) (hw : Sound w) :
    (∃ failure w', b.absorb e.response.data e.response.ids e.requestor w = (.error failure, w') ∧
      Sound w' ∧ Catalog.Grows [] (catalog w) (catalog w')) ∨
    ∃ fields pass w', b.absorb e.response.data e.response.ids e.requestor w = (.ok pass, w') ∧
      Sound w' ∧ pass.root = skeletonOf e.response.ids fields ∧
      Catalog.Absorbs e fields pass.impacted (catalog w) (catalog w') := by
  cases hdata : e.response.data.isMap with
  | false =>
      exact Or.inl (h.refuse e.response.ids e.requestor hdata hw)
  | true =>
      rcases exists_fields_of_isMap hdata with ⟨fields, hfields⟩
      rcases h.absorb fields e.response.ids e.requestor hw with
        ⟨pass, w', habsorb, hw', hgrows, henrolls, hroot, himpacted⟩
      simp only [← hfields] at habsorb
      exact Or.inr ⟨fields, pass, w', habsorb, hw', hroot, hfields, hgrows, henrolls, himpacted⟩

/-- A write without schedules in between. -/
theorem Serves.post (h : b.Serves Sound catalog) (config : Config) (u : Upkeep) (e : Posting)
    (hw : Sound w) : ∃ outcome u' w', b.post config u e w = ((outcome, u'), w') ∧ Sound w' ∧
      Catalog.Writes e (catalog w) outcome (catalog w') := by
  -- The look at the size reports at most.
  have hreview : ∀ (u : Upkeep) {w : World σ}, Sound w → ∃ u' w',
      u.review b config.maxEntries w = (u', w') ∧ Sound w' ∧ catalog w' = catalog w := by
    intro u w hw
    rcases h.counts w with ⟨r, hr⟩
    rcases review_apply hr u config.maxEntries with ⟨u', signals, hrun⟩
    exact ⟨u', _, hrun, h.report signals hw, h.catalog_report w signals⟩
  have hw₀ : Sound (w.setTime e.time) := h.time e.time hw
  have hcatalog : catalog (w.setTime e.time) = catalog w := h.catalog_time w e.time
  rcases h.absorb_cases e hw₀ with ⟨failure, w₁, habsorb, hw₁, hgrows⟩ |
    ⟨fields, pass, w₁, habsorb, hw₁, hroot, habsorbs⟩
  · rcases write_of_failed config e.query u habsorb with ⟨signals, hwrite⟩
    rcases hreview u (h.report signals hw₁) with ⟨u', w', hrun, hw', hsame⟩
    refine ⟨_, u', w', post_eq hwrite hrun, hw', .refused ?_⟩
    simp only [hsame, h.catalog_report, ← hcatalog]
    exact hgrows
  · rcases h.setTree e.query pass.root (e.span config) hw₁ with ⟨w₂, hset, hw₂, hstores⟩
    rcases write_of_stored config e.query u habsorb hset with ⟨u₁, signals, hwrite⟩
    rcases hreview u₁ (h.report signals hw₂) with ⟨u', w', hrun, hw', hsame⟩
    simp only [hcatalog] at habsorbs
    simp only [hroot] at hstores
    refine ⟨_, u', w', post_eq hwrite hrun, hw', .stored habsorbs ?_⟩
    simp only [hsame, h.catalog_report]
    exact hstores

/-- A write behind schedules, as far as it has come. -/
theorem Posted.posts {config : Config} {outcome : WriteOutcome} {w' : World σ}
    (hserves : b.Serves Sound catalog) (hw : Sound w) (h : b.Posted config e w outcome w') :
    Sound w' ∧ Catalog.Posts e (catalog w) outcome (catalog w') := by
  cases h with
  | refused signals =>
      refine ⟨hserves.report signals hw, ?_⟩
      simp only [hserves.catalog_report]
      exact .written (.refused (.refl _))
  | stopped hbatch hsplit hsaves signals =>
      cases hdata : e.response.data.isMap with
      | false =>
          -- What is no object would not have come this far.
          simp only [splitOver_of_other hdata] at hsplit
          cases hsplit
      | true =>
          rcases exists_fields_of_isMap hdata with ⟨fields, hfields⟩
          simp only [hfields] at hbatch hsplit
          rcases hserves.stop hw hbatch hsplit hsaves with ⟨hw', hgrows⟩
          refine ⟨hserves.report signals hw', ?_⟩
          simp only [hserves.catalog_report]
          exact .stopped hfields hgrows
  | failed habsorb signals =>
      rcases hserves.absorb_cases e hw with ⟨_, _, habsorb', hw', hgrows⟩ |
        ⟨_, _, _, habsorb', -, -, -⟩
      · cases habsorb.symm.trans habsorb'
        refine ⟨hserves.report signals hw', ?_⟩
        simp only [hserves.catalog_report]
        exact .written (.refused hgrows)
      · cases habsorb.symm.trans habsorb'
  | unstored habsorb signals =>
      rcases hserves.absorb_cases e hw with ⟨_, _, habsorb', -, -⟩ |
        ⟨fields, _, _, habsorb', hw', -, habsorbs⟩
      · cases habsorb.symm.trans habsorb'
      · cases habsorb.symm.trans habsorb'
        refine ⟨hserves.report signals hw', ?_⟩
        simp only [hserves.catalog_report]
        exact .unstored habsorbs
  -- A sound store does not fail to store a skeleton by itself.
  | @unkept pass failure w₁ w₂ habsorb hset signals =>
      rcases hserves.absorb_cases e hw with ⟨_, _, habsorb', -, -⟩ |
        ⟨fields, _, _, habsorb', hw₁, -, -⟩
      · cases habsorb.symm.trans habsorb'
      · cases habsorb.symm.trans habsorb'
        rcases hserves.setTree e.query pass.root (e.span config) hw₁ with ⟨_, hset', -, -⟩
        cases hset.symm.trans hset'
  | @stored pass w₁ w₂ habsorb hset signals =>
      rcases hserves.absorb_cases e hw with ⟨_, _, habsorb', -, -⟩ |
        ⟨fields, _, _, habsorb', hw₁, hroot, habsorbs⟩
      · cases habsorb.symm.trans habsorb'
      · cases habsorb.symm.trans habsorb'
        rcases hserves.setTree e.query pass.root (e.span config) hw₁ with ⟨_, hset', hw', hstores⟩
        cases hset.symm.trans hset'
        simp only [hroot] at hstores
        refine ⟨hserves.report signals hw', ?_⟩
        simp only [hserves.catalog_report]
        exact .written (.stored habsorbs hstores)

end Backend
end EntityCache
