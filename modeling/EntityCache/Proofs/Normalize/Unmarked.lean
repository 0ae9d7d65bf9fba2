import EntityCache.Proofs.Codec.Decoding
import EntityCache.Proofs.Normalize.RoundTrip

/-!
# Results but for marks

Records that were read from a text show the values that were written to them without their marks:

* `AgreeUnmarked`: two views show the same but for marks.
* `plain_restored_congr`: then a result comes back from both as the same but for marks.
* `plain_assemble_skeletonOf`: where the records show, but for marks, what the visited objects keep
  on them, the skeleton of a result is assembled to the restored result but for marks.
-/

namespace EntityCache

namespace Value

theorem plainFields_filter (p : String → Bool) (fields : List (String × Value)) :
    plainFields (fields.filter (fun b => p b.1)) =
      (plainFields fields).filter (fun b => p b.1) := by
  induction fields with
  | nil =>
      rfl
  | cons b rest ih =>
      rcases b with ⟨k, v⟩
      simp only [plainFields, List.filter_cons]
      split
      · simp only [plainFields, ih]
      · exact ih

end Value

namespace Normalize

open Value (plainFields plainItems)

variable {view view' : FieldView} {ids : IdIndex}

/-! ## Views -/

/-- The records show the same but for marks. -/
def AgreeUnmarked (view view' : FieldView) : Prop :=
  ∀ guid, plainFields ((view guid).getD []) = plainFields ((view' guid).getD [])

/-- Without marks, a skeleton is assembled to the same from both. -/
theorem AgreeUnmarked.assemble (h : AgreeUnmarked view view') (n : Skeleton) :
    (assemble view n).plain = (Normalize.assemble view' n).plain := by
  let bare : FieldView := fun guid => some (plainFields ((view guid).getD []))
  have hbare : ∀ guid, (bare guid).getD [] = plainFields ((view' guid).getD []) := h
  calc
    (Normalize.assemble view n).plain = Normalize.assemble bare n.plain :=
      (assemble_plain (fun _ => rfl) n).symm
    _ = (Normalize.assemble view' n).plain :=
      assemble_plain hbare n

/-! ## Restored results -/

theorem plain_completed_congr (h : AgreeUnmarked view view') (backing : Option Guid)
    (fields : List (String × Value)) {shown shown' : List (String × Value)}
    (hshown : plainFields shown = plainFields shown') :
    plainFields (completed view backing fields shown) =
      plainFields (completed view' backing fields shown') := by
  cases backing with
  | none =>
      exact hshown
  | some guid =>
      simp only [completed, Value.plainFields_union, hshown,
        Value.plainFields_filter (fun k => (Assoc.get? k fields).isNone), h guid]

theorem plain_restored_walk (ids : IdIndex) (h : AgreeUnmarked view view') :
    (∀ fields : List (String × Value), ∀ p backing,
      plainFields (restoredFields view ids p backing fields) =
        plainFields (restoredFields view' ids p backing fields)) ∧
    (∀ items : List Value, ∀ p i,
      plainItems (restoredItems view ids p i items) =
        plainItems (restoredItems view' ids p i items)) := by
  refine walk_induction ?nil ?object ?series ?leaf ?noItem ?objectItem ?otherItem
  case nil =>
    intro p backing
    simp only [restoredFields]
  case object =>
    intro k fields rest ihFields ihRest p backing
    have hinner := plain_completed_congr h (objectId? ids (p.field k) fields) fields
      (ihFields (p.field k) (objectId? ids (p.field k) fields))
    simp only [restoredFields, plainFields, Value.plain, hinner, ihRest p backing]
  case series =>
    intro k items rest ihItems ihRest p backing
    simp only [restoredFields]
    -- Kept or not is decided by the result, not by what the records show.
    split
    · split
      · exact ihRest p backing
      · simp only [plainFields, ihRest p backing]
    · simp only [plainFields, Value.plain, ihItems (p.field k) 0, ihRest p backing]
  case leaf =>
    intro k v rest hleaf ihRest p backing
    cases v with
    | map _ =>
        cases hleaf
    | list _ =>
        cases hleaf
    | _ =>
        simp only [restoredFields, plainFields, ihRest p backing]
  case noItem =>
    intro p i
    simp only [restoredItems]
  case objectItem =>
    intro fields rest ihFields ihRest p i
    have hinner := plain_completed_congr h (objectId? ids (p.index i) fields) fields
      (ihFields (p.index i) (objectId? ids (p.index i) fields))
    simp only [restoredItems, plainItems, Value.plain, hinner, ihRest p (i + 1)]
  case otherItem =>
    intro v rest hv ihRest p i
    cases v with
    | map _ =>
        cases hv
    | _ =>
        simp only [restoredItems, plainItems, ihRest p (i + 1)]

/-- From views that agree but for marks, a result comes back as the same but for marks. -/
theorem plain_restored_congr (h : AgreeUnmarked view view') (v : Value) :
    (restored view ids v).plain = (restored view' ids v).plain := by
  cases v with
  | map fields =>
      have hfields := (plain_restored_walk ids h).1 fields Path.root
        (objectId? ids Path.root fields)
      simp only [restored, restoredAt, Value.plain]
      exact congrArg Value.map (plain_completed_congr h _ fields hfields)
  | _ =>
      rfl

/-! ## Skeletons of results -/

section Written

variable {fields : List (String × Value)}

/-- The records with the values that an object writes into them. -/
def overwritten (view : FieldView) (ids : IdIndex) (fields : List (String × Value)) : FieldView :=
  fun guid => some (Assoc.union ((view guid).getD []) (writtenTo ids fields guid))

theorem get?_overwritten (guid : Guid) (k : String) :
    Assoc.get? k ((overwritten view ids fields guid).getD []) =
      (Assoc.get? (guid, k) (assignmentsFrom ids Path.root fields).reverse).or
        (Assoc.get? k ((view guid).getD [])) := by
  simp only [overwritten, Option.getD_some, Assoc.get?_union, writtenTo, ← List.filterMap_reverse,
    get?_filterMap_entity]

/-- The records show, without marks, what the object writes into them. -/
def ShowsWritten (view : FieldView) (ids : IdIndex) (fields : List (String × Value)) : Prop :=
  ∀ guid k v, Assoc.get? (guid, k) (assignmentsFrom ids Path.root fields).reverse = some v →
    Assoc.get? k ((view guid).getD []) = some v.plain

theorem agreeUnmarked_overwritten (hview : OrderedView view) (h : ShowsWritten view ids fields) :
    AgreeUnmarked (overwritten view ids fields) view := by
  intro guid
  have hsorted : Assoc.Sorted ((overwritten view ids fields guid).getD []) := (hview guid).union _
  refine Assoc.eq_of_get?_eq (Value.sorted_plainFields hsorted)
    (Value.sorted_plainFields (hview guid)) fun k => ?_
  simp only [Value.get?_plainFields, get?_overwritten]
  -- What is written over a field is the same without its marks.
  cases hv : Assoc.get? (guid, k) (assignmentsFrom ids Path.root fields).reverse with
  | none =>
      rfl
  | some v =>
      simp only [h guid k v hv, Option.some_or, Option.map_some, Value.plain_plain]

theorem settled_overwritten (hagree : Agreeing ids (visitsFrom Path.root fields)) :
    Settled (overwritten view ids fields) ids (visitsFrom Path.root fields) := by
  intro o ho guid k v hkeeps
  rcases exists_last_of_keeps ho hkeeps with ⟨v', hv'⟩
  -- The value written last was kept by a visited object as well.
  rcases exists_keeps_of_last hv' with ⟨o', ho', hkeeps'⟩
  rw [get?_overwritten, hv', Option.some_or, hagree o ho o' ho' guid k v v' hkeeps hkeeps']

/-- From records that show what a result writes into them, its skeleton is assembled to the restored
result, but for marks. -/
theorem plain_assemble_skeletonOf (hview : OrderedView view)
    (hordered : (Value.map fields).Ordered) (hshows : ShowsWritten view ids fields)
    (hagree : Agreeing ids (visits (.map fields))) :
    (assemble view (skeletonOf ids fields)).plain = (restored view ids (.map fields)).plain := by
  have hover := agreeUnmarked_overwritten hview hshows
  have horder : OrderedView (overwritten view ids fields) := fun guid => (hview guid).union _
  calc
    (assemble view (skeletonOf ids fields)).plain
        = (assemble (overwritten view ids fields) (skeletonOf ids fields)).plain :=
          (hover.assemble _).symm
    _ = (restored (overwritten view ids fields) ids (.map fields)).plain :=
          congrArg Value.plain
            (assemble_skeletonAt ids horder hordered (settled_overwritten hagree))
    _ = (restored view ids (.map fields)).plain := plain_restored_congr hover _

end Written

end Normalize
end EntityCache
