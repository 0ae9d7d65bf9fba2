import EntityCache.Cache.Access
import EntityCache.Proofs.Normalize.Views

/-!
# Catalogs

What the queries of a store show, wherever the store keeps its data:

* `Catalog`: the stored skeletons, the fields of the entities, and the queries that are listed for
  an entity.
* `Catalog.shown`: what a query shows.
* `Catalog.Indexed`: a query is listed for every entity that its skeleton names.
* `Catalog.Grows`, `Catalog.Stores`: what absorbing a result and storing a skeleton may change.
* `Catalog.Grows.shown_or`: whoever shows something else names a touched entity.
* `Backend.Serves`: a backend whose calls do to the catalog what they should.
-/

namespace EntityCache

open Normalize

/-- What a store has to show. -/
@[ext]
structure Catalog where
  /-- The skeleton of a query, if one is stored that can be decoded. -/
  skeleton? : QueryKey → Option Skeleton
  /-- The fields of an entity, no fields if it is not stored, and `none` if it cannot be decoded. -/
  fields? : FieldView
  /-- The entity is stored, and the query depends on it. -/
  Lists : Guid → QueryKey → Prop

namespace Catalog

/-- What a query shows, unless its skeleton or one of its entities cannot be decoded. -/
def shown (c : Catalog) (q : QueryKey) : Option Value :=
  (c.skeleton? q).bind (fun n =>
    if n.guidList.all (fun guid => (c.fields? guid).isSome) then some (assemble c.fields? n).plain
    else none)

/-- Every query is listed for the entities that its skeleton names. -/
def Indexed (c : Catalog) : Prop :=
  ∀ q n, c.skeleton? q = some n → ∀ guid ∈ n.guidList, c.Lists guid q

/-- The query names one of the entities. -/
def Names (c : Catalog) (q : QueryKey) (guids : List Guid) : Prop :=
  ∃ n, c.skeleton? q = some n ∧ ∃ guid ∈ n.guidList, guid ∈ guids

/-! ## Changes -/

/-- Only the given entities may show other fields, and nothing listed is forgotten. -/
structure Grows (touched : List Guid) (c c' : Catalog) : Prop where
  skeleton? : ∀ q, c'.skeleton? q = c.skeleton? q
  fields? : ∀ guid, guid ∉ touched → c'.fields? guid = c.fields? guid
  lists : ∀ {guid q}, c.Lists guid q → c'.Lists guid q

/-- The requestor is listed for the given entities. -/
def Enrolls (touched : List Guid) (requestor : Option QueryKey) (c : Catalog) : Prop :=
  ∀ guid ∈ touched, ∀ q, requestor = some q → c.Lists guid q

/-- A skeleton is stored for a query, or what is stored for it cannot be decoded. -/
structure Stores (q : QueryKey) (n : Skeleton) (c c' : Catalog) : Prop where
  other : ∀ q', q' ≠ q → c'.skeleton? q' = c.skeleton? q'
  own : ∀ n', c'.skeleton? q = some n' → ∀ guid ∈ n'.guidList, guid ∈ n.guidList
  fields? : c'.fields? = c.fields?
  lists : ∀ {guid q}, c.Lists guid q → c'.Lists guid q

variable {c c' c'' : Catalog} {touched : List Guid} {q : QueryKey}

theorem Grows.refl (c : Catalog) : Grows touched c c where
  skeleton? _ := rfl
  fields? _ _ := rfl
  lists h := h

theorem Grows.trans (h : Grows touched c c') (h' : Grows touched c' c'') : Grows touched c c'' where
  skeleton? q := (h'.skeleton? q).trans (h.skeleton? q)
  fields? guid hguid := (h'.fields? guid hguid).trans (h.fields? guid hguid)
  lists hlists := h'.lists (h.lists hlists)

theorem Grows.mono {more : List Guid} (h : Grows touched c c')
    (hmore : ∀ guid ∈ touched, guid ∈ more) : Grows more c c' where
  skeleton? := h.skeleton?
  fields? guid hguid := h.fields? guid fun htouched => hguid (hmore guid htouched)
  lists := h.lists

/-- What a query shows depends on its skeleton and on the fields of the entities in it. -/
theorem shown_congr (hskeleton : c'.skeleton? q = c.skeleton? q)
    (hfields : ∀ n, c.skeleton? q = some n →
      ∀ guid ∈ n.guidList, c'.fields? guid = c.fields? guid) :
    c'.shown q = c.shown q := by
  simp only [shown, hskeleton]
  cases hn : c.skeleton? q with
  | none =>
      rfl
  | some n =>
      have hsame := hfields n hn
      -- The same entities can be decoded, and they show the same fields.
      have hall : n.guidList.all (fun guid => (c'.fields? guid).isSome) =
          n.guidList.all (fun guid => (c.fields? guid).isSome) := by
        rw [Bool.eq_iff_iff, List.all_eq_true, List.all_eq_true]
        refine forall₂_congr fun guid hguid => ?_
        simp only [hsame guid hguid]
      have hassemble : assemble c'.fields? n = assemble c.fields? n :=
        assemble_congr n fun guid hguid => by simp only [hsame guid hguid]
      simp only [Option.bind_some, hall, hassemble]

/-- A query that shows something else names a touched entity. -/
theorem Grows.shown_or (h : Grows touched c c') (q : QueryKey) :
    c'.shown q = c.shown q ∨ c.Names q touched := by
  by_cases hnames : c.Names q touched
  · exact Or.inr hnames
  -- None of the entities in the skeleton was touched.
  · left
    refine shown_congr (h.skeleton? q) ?_
    intro n hn guid hguid
    exact h.fields? guid fun htouched => hnames ⟨n, hn, guid, hguid, htouched⟩

/-- Where no entity is touched, everything is shown as before. -/
theorem Grows.shown_eq (h : Grows [] c c') (q : QueryKey) : c'.shown q = c.shown q := by
  rcases h.shown_or q with hsame | ⟨_, _, _, _, hnone⟩
  · exact hsame
  · cases hnone

/-- Storing a skeleton shows only in its own query. -/
theorem Stores.shown_eq {n : Skeleton} (h : Stores q n c c') {q' : QueryKey} (hq : q' ≠ q) :
    c'.shown q' = c.shown q' :=
  shown_congr (h.other q' hq) fun _ _ _ _ => by simp only [h.fields?]

theorem Indexed.grows (hc : c.Indexed) (h : Grows touched c c') : c'.Indexed := by
  intro q n hn guid hguid
  simp only [h.skeleton?] at hn
  exact h.lists (hc q n hn guid hguid)

/-- The entities of a new skeleton have to be listed before it is stored. -/
theorem Indexed.stores {n : Skeleton} (hc : c.Indexed) (h : Stores q n c c')
    (hlists : ∀ guid ∈ n.guidList, c.Lists guid q) : c'.Indexed := by
  intro q' n' hn' guid hguid
  by_cases hq : q' = q
  -- Even where another skeleton is read back, it names no more entities.
  · subst hq
    exact h.lists (hlists guid (h.own n' hn' guid hguid))
  · simp only [h.other q' hq] at hn'
    exact h.lists (hc q' n' hn' guid hguid)

end Catalog

/-! ## Backends -/

/-- A backend whose calls keep its world sound, and what they do to the catalog of the world. -/
structure Backend.Serves {σ : Type} (b : Backend σ) (Sound : World σ → Prop)
    (catalog : World σ → Catalog) : Prop where
  counts : ∀ w, ∃ r, b.counts w = (r, w)
  /-- Neither signals nor the time make a difference. -/
  report : ∀ {w} signals, Sound w → Sound (w.report signals)
  catalog_report : ∀ w signals, catalog (w.report signals) = catalog w
  time : ∀ {w} t, Sound w → Sound { w with now := t }
  catalog_time : ∀ w t, catalog { w with now := t } = catalog w
  /-- Reading shows what the catalog says and leaves it alone. -/
  tree? : ∀ q {w}, Sound w → Sound (b.tree? q w).2 ∧ catalog (b.tree? q w).2 = catalog w
  project : ∀ root {w}, Sound w →
    Sound (b.project root w).2 ∧ catalog (b.project root w).2 = catalog w
  read : ∀ q {w}, Sound w → (b.read q w).1.map CachedResult.data = (catalog w).shown q
  /-- Records are found or made for any entities. -/
  batch : ∀ guids {w}, Sound w → ∃ index w', b.batch guids w = (.ok index, w')
  /-- An object is absorbed, and the other queries listed for its entities are impacted. -/
  absorb : ∀ fields ids requestor {w}, Sound w → ∃ pass w',
    b.absorb (.map fields) ids requestor w = (.ok pass, w') ∧ Sound w' ∧
    Catalog.Grows (entitiesOf ids fields) (catalog w) (catalog w') ∧
    Catalog.Enrolls (entitiesOf ids fields) requestor (catalog w') ∧
    pass.root = skeletonOf ids fields ∧
    ∀ q, pass.impacted.mem q = true ↔
      requestor ≠ some q ∧ ∃ guid ∈ entitiesOf ids fields, (catalog w).Lists guid q
  /-- Anything else is refused. -/
  refuse : ∀ {v} ids requestor {w}, v.isMap = false → Sound w → ∃ e w',
    b.absorb v ids requestor w = (.error e, w') ∧ Sound w' ∧
    Catalog.Grows [] (catalog w) (catalog w')
  /-- Only some of the touched records are saved. -/
  stop : ∀ {fields ids requestor index pass k w w₁ w₂ w₃}, Sound w →
    b.batch (idsWithin ids (.map fields)) w = (.ok index, w₁) →
    Backend.splitOver (.map fields) ids index requestor w₁ = (.ok pass, w₂) →
    Act.each b.save (pass.touched.values.take k) w₂ = (.ok (), w₃) →
    Sound { w₃ with held := w.held } ∧
    Catalog.Grows (entitiesOf ids fields) (catalog w) (catalog { w₃ with held := w.held })
  setTree : ∀ q n span {w}, Sound w → ∃ w',
    b.setTree q (Entry.new q n.text span (some n) w.now) w = (.ok (), w') ∧ Sound w' ∧
    Catalog.Stores q n (catalog w) (catalog w')

end EntityCache
