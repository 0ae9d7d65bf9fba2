import Mathlib.Data.List.Infix
import EntityCache.Proofs.Normalize.Named
import EntityCache.Proofs.Normalize.Placed
import EntityCache.Proofs.Normalize.Visited

/-!
# What a change of records leaves of what is shown

A result shows fields of records at its own objects alone, and only where nothing is nested.  So
when fields of records change, nothing else changes of what it shows:

* `Path.Meets`: one of two paths leads on from the other.
* `Visit.Exposes`: an object shows the field of a record.
* `Spares`: a path meets none of the exposed fields that change.
* `overlaidAt_congr`: an object shows the same over records that agree on all exposed fields.
* `agree_along`: along a path it does if they agree on those that the path meets.
* `at?_overlaid_congr`: at a path that is spared, a result shows the same.
-/

namespace EntityCache

/-- One of two paths leads on from the other. -/
def Path.Meets (p q : Path) : Prop :=
  p <+: q ∨ q <+: p

namespace Normalize

/-! ## Placed objects -/

/-- The placed objects from a field at `p` on. -/
def placedBelow (p : Path) : Value → List Visit
  | .map fields => placedFrom p fields
  | .list items => if (Value.list items).isKept then [] else placedAmong p 0 items
  | _ => []

theorem placedIn_eq (p : Path) (fields : List (String × Value)) :
    placedIn p fields = fields.flatMap (fun b => placedBelow (p.field b.1) b.2) := by
  induction fields with
  | nil =>
      simp only [placedIn, List.flatMap_nil]
  | cons b rest ih =>
      rcases b with ⟨k, v⟩
      rw [List.flatMap_cons, ← ih]
      cases v with
      | map fields =>
          exact placedIn_map p k fields rest
      | list items =>
          simp only [placedIn, placedBelow]
      | _ =>
          rw [placedIn_leaf p k rfl]
          rfl

/-- What is placed from an element on that is an object is placed among the elements. -/
theorem placedFrom_subset_placedAmong (p : Path) {items : List Value} {j : Nat}
    {inner : List (String × Value)} (hitem : items[j]? = some (.map inner)) :
    ∀ i, placedFrom (p.index (i + j)) inner ⊆ placedAmong p i items := by
  induction items generalizing j with
  | nil =>
      cases hitem
  | cons v rest ih =>
      intro i
      cases j with
      | zero =>
          cases hitem
          rw [placedAmong_map]
          exact List.subset_append_left _ _
      | succ j =>
          have hlater := ih (j := j) hitem (i + 1)
          rw [Nat.add_right_comm] at hlater
          cases v with
          | map fields =>
              rw [placedAmong_map]
              exact List.Subset.trans hlater (List.subset_append_right _ _)
          | _ =>
              rw [placedAmong_other p i rfl]
              exact hlater

theorem prefix_of_mem_placedFrom {p : Path} {fields : List (String × Value)} {o : Visit}
    (ho : o ∈ placedFrom p fields) : p <+: o.path :=
  (mem_visitsFrom_iff.mp ((placedFrom_sublist p fields).subset ho)).prefix_path

theorem prefix_of_mem_placedAmong {p : Path} {i : Nat} {items : List Value} {o : Visit}
    (ho : o ∈ placedAmong p i items) : p <+: o.path := by
  have hvisit := (placed_sublist_walk.2 items p i).subset ho
  rcases ((mem_visits_walk o).2 items p i).mp hvisit with ⟨j, u, -, inner, -, hvisited⟩
  exact (List.prefix_append _ _).trans hvisited.prefix_path

/-! ## Exposed fields -/

/-- In field `k` an object shows what the record of an entity has there: the entity backs it, and it
nests nothing in the field. -/
structure Visit.Exposes (ids : IdIndex) (guid : Guid) (k : String) (o : Visit) : Prop where
  backed : o.guid? ids = some guid
  bare : ∀ v, (k, v) ∈ o.fields → v.isKept = true

/-- Two views show the same in a field of an object, if the object exposes it. -/
def Visit.SameAt (view view' : FieldView) (ids : IdIndex) (k : String) (o : Visit) : Prop :=
  ∀ guid, o.Exposes ids guid k →
    Assoc.get? k ((view guid).getD []) = Assoc.get? k ((view' guid).getD [])

/-- A path meets no field of a changed kind that one of some objects exposes. -/
def Spares (ids : IdIndex) (changed : Guid × String → Prop) (placed : List Visit) (p : Path) :
    Prop :=
  ∀ o ∈ placed, ∀ guid k, o.Exposes ids guid k → changed (guid, k) → ¬ (o.path.field k).Meets p

section Congruence

variable {view view' : FieldView} {ids : IdIndex} {p : Path} {fields : List (String × Value)}

theorem isSome_nestedField (view : FieldView) (ids : IdIndex) (p : Path) (k : String) {v : Value}
    (hnested : v.isKept = false) : (nestedField view ids p k v).isSome = true := by
  cases v with
  | list items =>
      simp [nestedField, hnested]
  | map _ =>
      rfl
  | _ =>
      cases hnested

theorem bare_of_none {k : String} (hfields : Assoc.Sorted fields)
    (hnone : Assoc.get? k fields = none) : ∀ v, (k, v) ∈ fields → v.isKept = true := by
  intro v hmem
  cases hnone.symm.trans ((Assoc.get?_eq_some_iff hfields).mpr hmem)

theorem bare_of_some {k : String} {v : Value} (hfields : Assoc.Sorted fields)
    (hv : Assoc.get? k fields = some v) (hkept : v.isKept = true) :
    ∀ w, (k, w) ∈ fields → w.isKept = true := by
  intro w hw
  rwa [hfields.eq_of_mem hw (Assoc.mem_of_get? hv)]

/-- Where an object nests nothing it shows the same over both views. -/
theorem get?_ground_congr {k : String} (hsame : (⟨p, fields⟩ : Visit).SameAt view view' ids k)
    (hbare : ∀ v, (k, v) ∈ fields → v.isKept = true) :
    Assoc.get? k (ground view (objectId? ids p fields) fields) =
      Assoc.get? k (ground view' (objectId? ids p fields) fields) := by
  cases hguid : objectId? ids p fields with
  | none =>
      rfl
  | some guid =>
      exact hsame guid ⟨hguid, hbare⟩

variable (hview : OrderedView view) (hview' : OrderedView view')
include hview hview'

/-- An object shows the same over both views if they agree on what it exposes, and if what is nested
in it shows the same. -/
theorem overlaidAt_congr_of_nested (hfields : Assoc.Sorted fields)
    (hsame : ∀ k, (⟨p, fields⟩ : Visit).SameAt view view' ids k)
    (hnested : ∀ k v, (k, v) ∈ fields → nestedField view ids p k v = nestedField view' ids p k v) :
    overlaidAt view ids p fields = overlaidAt view' ids p fields := by
  rcases get?_overlaidAt ids p hview hfields with ⟨shown, hshown, hsorted, hget⟩
  rcases get?_overlaidAt ids p hview' hfields with ⟨shown', hshown', hsorted', hget'⟩
  rw [hshown, hshown']
  refine congrArg Value.map (Assoc.eq_of_get?_eq hsorted hsorted' fun k => ?_)
  rw [hget, hget']
  cases hv : Assoc.get? k fields with
  | none =>
      exact get?_ground_congr (hsame k) (bare_of_none hfields hv)
  | some v =>
      rw [Option.bind_some, Option.bind_some, hnested k v (Assoc.mem_of_get? hv)]
      cases hkept : v.isKept with
      | true =>
          rw [get?_ground_congr (hsame k) (bare_of_some hfields hv hkept)]
      -- What is nested hides whatever the records show.
      | false =>
          rcases Option.isSome_iff_exists.mp (isSome_nestedField view' ids p k hkept) with ⟨w, hw⟩
          rw [hw, Option.some_or, Option.some_or]

theorem nested_congr_walk :
    (∀ fields, Value.OrderedFields fields → ∀ p,
      (∀ o ∈ placedIn p fields, ∀ k, o.SameAt view view' ids k) →
        ∀ k v, (k, v) ∈ fields → nestedField view ids p k v = nestedField view' ids p k v) ∧
    (∀ items, Value.OrderedItems items → ∀ p i,
      (∀ o ∈ placedAmong p i items, ∀ k, o.SameAt view view' ids k) →
        nestedAmong view ids p i items = nestedAmong view' ids p i items) := by
  refine walk_induction ?nil ?object ?series ?leaf ?noItem ?objectItem ?otherItem
  case nil =>
    intro _ p _ k v hv
    cases hv
  case object =>
    intro k inner rest ihFields ihRest hordered p hsame k' v hv
    rcases hordered with ⟨⟨hsorted, hinner⟩, hrest⟩
    rw [placedIn_map, List.forall_mem_append, placedFrom, List.forall_mem_cons] at hsame
    rcases hsame with ⟨⟨hhere, hbelow⟩, hbeside⟩
    rcases List.mem_cons.mp hv with e | hv
    · cases e
      exact congrArg some (overlaidAt_congr_of_nested hview hview' hsorted hhere
        (ihFields hinner (p.field k) hbelow))
    · exact ihRest hrest p hbeside k' v hv
  case series =>
    intro k items rest ihItems ihRest hordered p hsame k' v hv
    rcases hordered with ⟨hitems, hrest⟩
    simp only [placedIn] at hsame
    rcases List.forall_mem_append.mp hsame with ⟨hamong, hbeside⟩
    rcases List.mem_cons.mp hv with e | hv
    · cases e
      simp only [nestedField]
      split
      · rfl
      · next hkept =>
          rw [if_neg hkept] at hamong
          rw [ihItems hitems (p.field k) 0 hamong]
    · exact ihRest hrest p hbeside k' v hv
  case leaf =>
    intro k w rest hw ihRest hordered p hsame k' v hv
    rw [placedIn_leaf p k hw] at hsame
    rcases List.mem_cons.mp hv with e | hv
    · cases e
      have hkept := Value.isKept_of_isLeaf hw
      rw [nestedField_of_kept view ids p k hkept, nestedField_of_kept view' ids p k hkept]
    · exact ihRest hordered.2 p hsame k' v hv
  case noItem =>
    intro _ p i _
    simp only [nestedAmong]
  case objectItem =>
    intro inner rest ihFields ihRest hordered p i hsame
    rcases hordered with ⟨⟨hsorted, hinner⟩, hrest⟩
    rw [placedAmong_map, List.forall_mem_append, placedFrom, List.forall_mem_cons] at hsame
    rcases hsame with ⟨⟨hhere, hbelow⟩, hbeside⟩
    have hobject := overlaidAt_congr_of_nested hview hview' hsorted hhere
      (ihFields hinner (p.index i) hbelow)
    simp only [overlaidAt] at hobject
    simp only [nestedAmong, hobject, ihRest hrest p (i + 1) hbeside]
  case otherItem =>
    intro w rest hw ihRest hordered p i hsame
    rw [placedAmong_other p i hw] at hsame
    have hlater := ihRest hordered.2 p (i + 1) hsame
    cases w with
    | map _ =>
        cases hw
    | _ =>
        simp only [nestedAmong, hlater]

/-- An object shows the same over views that agree on all that it and the placed objects below it
expose. -/
theorem overlaidAt_congr (hordered : (Value.map fields).Ordered)
    (hsame : ∀ o ∈ placedFrom p fields, ∀ k, o.SameAt view view' ids k) :
    overlaidAt view ids p fields = overlaidAt view' ids p fields := by
  rcases List.forall_mem_cons.mp hsame with ⟨hhere, hbelow⟩
  exact overlaidAt_congr_of_nested hview hview' hordered.1 hhere
    ((nested_congr_walk hview hview').1 fields hordered.2 p hbelow)

end Congruence

/-! ## Along a path -/

section Paths

variable {view view' : FieldView} {ids : IdIndex}

/-- An element of a list of objects as it shows. -/
def nestedItem (view : FieldView) (ids : IdIndex) (p : Path) : Value → Value
  | .map fields => overlaidAt view ids p fields
  | v => v

theorem getElem?_nestedAmong (view : FieldView) (ids : IdIndex) (p : Path) (items : List Value) :
    ∀ i j, (nestedAmong view ids p i items)[j]? =
      items[j]?.map (nestedItem view ids (p.index (i + j))) := by
  induction items with
  | nil =>
      intro i j
      simp only [nestedAmong, List.getElem?_nil, Option.map_none]
  | cons v rest ih =>
      intro i j
      have hcons : nestedAmong view ids p i (v :: rest) =
          nestedItem view ids (p.index i) v :: nestedAmong view ids p (i + 1) rest := by
        cases v <;> simp only [nestedAmong] <;> rfl
      rw [hcons]
      cases j with
      | zero =>
          rfl
      | succ j =>
          rw [List.getElem?_cons_succ, List.getElem?_cons_succ, ih, Nat.add_right_comm]
          rfl

/-- Look-up in an object over its record. -/
theorem step?_overlaidAt (hview : OrderedView view) (ids : IdIndex) (p : Path)
    {fields : List (String × Value)} (hfields : Assoc.Sorted fields) (k : String) :
    (overlaidAt view ids p fields).step? (.field k) =
      ((Assoc.get? k fields).bind (nestedField view ids p k)).or
        (Assoc.get? k (ground view (objectId? ids p fields) fields)) := by
  rcases get?_overlaidAt ids p hview hfields with ⟨shown, hshown, -, hget⟩
  rw [hshown]
  exact hget k

/-- Along `q` an object shows the same over both views if these agree on what `q` meets of what the
object and the placed ones below it expose. -/
def ObjectsAgree (view view' : FieldView) (ids : IdIndex) (q : Path) : Prop :=
  ∀ (p : Path) (fields : List (String × Value)), (Value.map fields).Ordered →
    (∀ o ∈ placedFrom p fields, ∀ k, (o.path.field k).Meets (p ++ q) → o.SameAt view view' ids k) →
      (overlaidAt view ids p fields).at? q = (overlaidAt view' ids p fields).at? q

/-- The same of lists of objects. -/
def ListsAgree (view view' : FieldView) (ids : IdIndex) (q : Path) : Prop :=
  ∀ (p : Path) (items : List Value), Value.OrderedItems items →
    (∀ o ∈ placedAmong p 0 items, ∀ k, (o.path.field k).Meets (p ++ q) →
      o.SameAt view view' ids k) →
      (Value.list (nestedAmong view ids p 0 items)).at? q =
        (Value.list (nestedAmong view' ids p 0 items)).at? q

/-- One step further into an object: to what is nested in a field, or else to a field that the object
exposes. -/
theorem ObjectsAgree.cons (hview : OrderedView view) (hview' : OrderedView view') (s : Path.Step)
    {q : Path} (hobjects : ObjectsAgree view view' ids q) (hlists : ListsAgree view view' ids q) :
    ObjectsAgree view view' ids (s :: q) := by
  rintro p fields ⟨hsorted, hfields⟩ hsame
  cases s with
  | index i =>
      rfl
  | field k =>
      have hway : p.field k ++ q = p ++ Path.Step.field k :: q := by
        rw [Path.field, List.append_assoc, List.singleton_append]
      have hhere : (⟨p, fields⟩ : Visit).SameAt view view' ids k :=
        hsame _ List.mem_cons_self k (Or.inl (hway ▸ List.prefix_append _ _))
      rw [Value.at?_cons, Value.at?_cons, step?_overlaidAt hview ids p hsorted,
        step?_overlaidAt hview' ids p hsorted]
      cases hv : Assoc.get? k fields with
      | none =>
          rw [get?_ground_congr hhere (bare_of_none hsorted hv)]
          rfl
      | some v =>
          have hmem := Assoc.mem_of_get? hv
          have hvalue : v.Ordered := Value.orderedFields_iff.mp hfields _ hmem
          have hbelow : ∀ o ∈ placedBelow (p.field k) v, ∀ k',
              (o.path.field k').Meets (p.field k ++ q) → o.SameAt view view' ids k' := by
            intro o ho k' hmeets
            rw [hway] at hmeets
            refine hsame o (List.mem_cons_of_mem _ ?_) k' hmeets
            rw [placedIn_eq]
            exact List.mem_flatMap.mpr ⟨_, hmem, ho⟩
          cases hkept : v.isKept with
          | true =>
              rw [get?_ground_congr hhere (bare_of_some hsorted hv hkept), Option.bind_some,
                Option.bind_some, nestedField_of_kept view ids p k hkept,
                nestedField_of_kept view' ids p k hkept]
          | false =>
              cases v with
              | map inner =>
                  exact hobjects (p.field k) inner hvalue hbelow
              | list items =>
                  simp only [placedBelow, hkept, Bool.false_eq_true, if_false] at hbelow
                  simp only [Option.bind_some, nestedField, hkept, Bool.false_eq_true,
                    if_false, Option.some_or]
                  exact hlists (p.field k) items hvalue hbelow
              | _ =>
                  cases hkept

/-- One step further into a list: to one of its objects. -/
theorem ListsAgree.cons (s : Path.Step) {q : Path} (hobjects : ObjectsAgree view view' ids q) :
    ListsAgree view view' ids (s :: q) := by
  intro p items hitems hsame
  cases s with
  | field k =>
      rfl
  | index i =>
      have hway : p.index i ++ q = p ++ Path.Step.index i :: q := by
        rw [Path.index, List.append_assoc, List.singleton_append]
      rw [Value.at?_cons, Value.at?_cons, Value.step?_list, Value.step?_list,
        getElem?_nestedAmong, getElem?_nestedAmong, Nat.zero_add]
      cases hitem : items[i]? with
      | none =>
          rfl
      | some v =>
          cases v with
          | map inner =>
              have hinner : (Value.map inner).Ordered :=
                Value.orderedItems_iff.mp hitems _ (List.mem_of_getElem? hitem)
              have hplaced := placedFrom_subset_placedAmong p hitem 0
              rw [Nat.zero_add] at hplaced
              refine hobjects (p.index i) inner hinner fun o ho k hmeets => ?_
              rw [hway] at hmeets
              exact hsame o (hplaced ho) k hmeets
          | _ =>
              rfl

variable (hview : OrderedView view) (hview' : OrderedView view')
include hview hview'

/-- What an object, or a list of objects, shows along a path depends only on the exposed fields that
the path meets. -/
theorem agree_along (q : Path) :
    ObjectsAgree view view' ids q ∧ ListsAgree view view' ids q := by
  induction q with
  -- The whole value: every exposed field in it meets the path that leads to it.
  | nil =>
      constructor
      · intro p fields hordered hsame
        refine congrArg some (overlaidAt_congr hview hview' hordered fun o ho k => ?_)
        refine hsame o ho k (Or.inr ?_)
        rw [List.append_nil]
        exact (prefix_of_mem_placedFrom ho).trans (List.prefix_append _ _)
      · intro p items hitems hsame
        refine congrArg (fun l => some (Value.list l))
          ((nested_congr_walk hview hview').2 items hitems p 0 fun o ho k => ?_)
        refine hsame o ho k (Or.inr ?_)
        rw [List.append_nil]
        exact (prefix_of_mem_placedAmong ho).trans (List.prefix_append _ _)
  | cons s q ih =>
      exact ⟨ih.1.cons hview hview' s ih.2, .cons s ih.1⟩

/-- Over two views that agree on all fields of records but the changed ones, a result shows the same
at every path that meets no exposed field of these. -/
theorem at?_overlaid_congr {changed : Guid × String → Prop} {v : Value} (hordered : v.Ordered)
    (hsame : ∀ guid k, ¬ changed (guid, k) →
      Assoc.get? k ((view guid).getD []) = Assoc.get? k ((view' guid).getD []))
    {q : Path} (hspared : Spares ids changed (placed v) q) :
    (overlaid view ids v).at? q = (overlaid view' ids v).at? q := by
  cases v with
  | map fields =>
      refine (agree_along hview hview' q).1 Path.root fields hordered fun o ho k hmeets => ?_
      intro guid hexposes
      refine hsame guid k fun hchanged => ?_
      exact hspared o ho guid k hexposes hchanged hmeets
  | _ =>
      rfl

end Paths

end Normalize
end EntityCache
