import EntityCache.Proofs.Normalize.Overlaid

/-!
# What a split result is assembled to

* `restored`: a result as it comes back: an empty list of an object without record is gone, and an
  object with a record also shows the record fields that it has no field for.
* `pruned`: a result without the empty lists of objects that have no record.
* `overlaidAt_eq_restoredAt`: an object shows just that over records which show the values that the
  visited objects keep on them.
* `assemble_skeletonAt`: so its skeleton is assembled to the restored object.
-/

namespace EntityCache
namespace Normalize

/-! ## Restored results -/

/-- The shown fields of an object, together with the fields of its record whose key the object does
not have. -/
def completed (view : FieldView) (backing : Option Guid) (fields shown : List (String × Value)) :
    List (String × Value) :=
  match backing with
  | none => shown
  | some guid =>
      Assoc.union (((view guid).getD []).filter (fun b => (Assoc.get? b.1 fields).isNone)) shown

mutual

/-- The fields of an object at `p` as they come back, but for those of its record. -/
def restoredFields (view : FieldView) (ids : IdIndex) (p : Path) (backing : Option Guid) :
    List (String × Value) → List (String × Value)
  | [] => []
  | (k, .map fields) :: rest =>
      let inner := objectId? ids (p.field k) fields
      (k, .map (completed view inner fields (restoredFields view ids (p.field k) inner fields))) ::
        restoredFields view ids p backing rest
  | (k, .list items) :: rest =>
      let later := restoredFields view ids p backing rest
      if (Value.list items).isKept then
        if items.isEmpty && backing.isNone then later else (k, .list items) :: later
      else (k, .list (restoredItems view ids (p.field k) 0 items)) :: later
  | (k, v) :: rest => (k, v) :: restoredFields view ids p backing rest

/-- The elements of a list of objects as they come back. -/
def restoredItems (view : FieldView) (ids : IdIndex) (p : Path) (i : Nat) :
    List Value → List Value
  | [] => []
  | .map fields :: rest =>
      let inner := objectId? ids (p.index i) fields
      .map (completed view inner fields (restoredFields view ids (p.index i) inner fields)) ::
        restoredItems view ids p (i + 1) rest
  | v :: rest => v :: restoredItems view ids p (i + 1) rest

end

/-- An object at `p` as it comes back. -/
def restoredAt (view : FieldView) (ids : IdIndex) (p : Path) (fields : List (String × Value)) :
    Value :=
  .map (completed view (objectId? ids p fields) fields
    (restoredFields view ids p (objectId? ids p fields) fields))

/-- A result as it comes back from records that show `view`. -/
def restored (view : FieldView) (ids : IdIndex) : Value → Value
  | .map fields => restoredAt view ids Path.root fields
  | v => v

mutual

/-- The fields of an object without empty lists, unless a record backs it. -/
def prunedFields (ids : IdIndex) (p : Path) (backing : Option Guid) :
    List (String × Value) → List (String × Value)
  | [] => []
  | (k, .map fields) :: rest =>
      (k, .map (prunedFields ids (p.field k) (objectId? ids (p.field k) fields) fields)) ::
        prunedFields ids p backing rest
  | (k, .list items) :: rest =>
      let later := prunedFields ids p backing rest
      if (Value.list items).isKept then
        if items.isEmpty && backing.isNone then later else (k, .list items) :: later
      else (k, .list (prunedItems ids (p.field k) 0 items)) :: later
  | (k, v) :: rest => (k, v) :: prunedFields ids p backing rest

def prunedItems (ids : IdIndex) (p : Path) (i : Nat) : List Value → List Value
  | [] => []
  | .map fields :: rest =>
      .map (prunedFields ids (p.index i) (objectId? ids (p.index i) fields) fields) ::
        prunedItems ids p (i + 1) rest
  | v :: rest => v :: prunedItems ids p (i + 1) rest

end

/-- A result without the empty lists of objects that have no record, lists that are kept as a whole
apart. -/
def pruned (ids : IdIndex) : Value → Value
  | .map fields =>
      .map (prunedFields ids Path.root (objectId? ids Path.root fields) fields)
  | v => v

/-! ## Results over their own records -/

section Settled

variable (view : FieldView) (ids : IdIndex)

/-- One field as it comes back. -/
def restoredField (p : Path) (backing : Option Guid) (k : String) : Value → Option Value
  | .map fields => some (restoredAt view ids (p.field k) fields)
  | .list items =>
      if (Value.list items).isKept then
        if items.isEmpty && backing.isNone then none else some (.list items)
      else some (.list (restoredItems view ids (p.field k) 0 items))
  | v => some v

theorem restoredFields_eq (p : Path) (backing : Option Guid) (fields : List (String × Value)) :
    restoredFields view ids p backing fields =
      Assoc.filterMap (restoredField view ids p backing) fields := by
  induction fields with
  | nil =>
      simp [restoredFields, Assoc.filterMap]
  | cons b rest ih =>
      rcases b with ⟨k, v⟩
      rw [Assoc.filterMap_cons, ← ih]
      cases v with
      | list items =>
          simp only [restoredFields, restoredField]
          split
          · split <;> rfl
          · rfl
      | _ =>
          simp only [restoredFields, restoredField]
          rfl

/-- A value that is kept as a whole comes back, an empty list of an object without record apart. -/
theorem restoredField_of_kept (p : Path) (backing : Option Guid) (k : String) {v : Value}
    (hkept : v.isKept = true) : restoredField view ids p backing k v =
      if backing.isSome || v.isInline then some v else none := by
  cases v with
  | map fields =>
      cases hkept
  | list items =>
      cases items <;> cases backing <;> simp_all [restoredField, Value.isInline]
  | _ =>
      simp [restoredField, Value.isInline, Value.isKept]

/-- What is nested comes back in some form. -/
theorem isSome_restoredField (p : Path) (backing : Option Guid) (k : String) {v : Value}
    (hnested : v.isKept = false) : (restoredField view ids p backing k v).isSome = true := by
  cases v with
  | list items =>
      simp [restoredField, hnested]
  | _ =>
      rfl

/-- The record of a visited object shows every value that the object keeps on it. -/
def Settled (visited : List Visit) : Prop :=
  ∀ o ∈ visited, ∀ guid k v, o.Keeps ids guid k v → Assoc.get? k ((view guid).getD []) = some v

variable {view}

theorem sorted_completed (hview : OrderedView view) (backing : Option Guid)
    (fields : List (String × Value)) {shown : List (String × Value)} (h : Assoc.Sorted shown) :
    Assoc.Sorted (completed view backing fields shown) := by
  cases backing with
  | none =>
      exact h
  | some guid =>
      have hkept : Assoc.Sorted
          (((view guid).getD []).filter (fun b => (Assoc.get? b.1 fields).isNone)) :=
        List.Pairwise.filter _ (hview guid)
      exact hkept.union shown

theorem get?_completed (hview : OrderedView view) (backing : Option Guid)
    (fields : List (String × Value)) {shown : List (String × Value)} (h : Assoc.Sorted shown)
    (k : String) :
    Assoc.get? k (completed view backing fields shown) =
      (Assoc.get? k shown).or
        (if (Assoc.get? k fields).isNone then
          backing.bind (fun guid => Assoc.get? k ((view guid).getD []))
        else none) := by
  cases backing with
  | none =>
      simp [completed]
  | some guid =>
      have hfilter := Assoc.get?_filter (hview guid)
        (fun k _ => (Assoc.get? k fields).isNone) k
      simp only [completed, Assoc.get?_union_of_sorted h, hfilter, Option.bind_some]
      cases Assoc.get? k fields <;> cases Assoc.get? k ((view guid).getD []) <;>
        simp [Option.filter]

/-- What is nested in a field of an object shows as it comes back. -/
def NestedRestored (view : FieldView) (ids : IdIndex) (p : Path) (k : String) (v : Value) : Prop :=
  v.isKept = false → ∀ backing, nestedField view ids p k v = restoredField view ids p backing k v

/-- An object whose record shows what it keeps there shows as it comes back, if all that is nested in
it does. -/
theorem overlaidAt_of_nested (hview : OrderedView view) {p : Path}
    {fields : List (String × Value)} (hfields : Assoc.Sorted fields)
    (hkeeps : Settled view ids [⟨p, fields⟩])
    (hnested : ∀ k v, (k, v) ∈ fields → NestedRestored view ids p k v) :
    overlaidAt view ids p fields = restoredAt view ids p fields := by
  obtain ⟨backing, hbacking⟩ : ∃ backing, objectId? ids p fields = backing := ⟨_, rfl⟩
  have hrestored : Assoc.Sorted (restoredFields view ids p backing fields) := by
    simp only [restoredFields_eq]
    exact hfields.filterMap _
  rcases get?_overlaidAt ids p hview hfields with ⟨shown, hshown, hsorted, hget⟩
  rw [hshown, restoredAt, hbacking]
  refine congrArg Value.map (Assoc.eq_of_get?_eq hsorted (sorted_completed hview _ _ hrestored) ?_)
  intro k
  rw [hget, get?_completed hview _ _ hrestored, restoredFields_eq, Assoc.get?_filterMap hfields,
    hbacking]
  cases hv : Assoc.get? k fields with
  -- A field that the object does not have is that of the record, if there is one.
  | none =>
      cases backing with
      | none =>
          simp [get?_ground_none hfields, hv]
      | some guid =>
          simp [ground]
  | some v =>
      cases hkept : v.isKept with
      | false =>
          have hfield := hnested k v (Assoc.mem_of_get? hv) hkept backing
          rw [Option.bind_some, Option.bind_some, hfield]
          rcases Option.isSome_iff_exists.mp (isSome_restoredField view ids p backing k hkept) with
            ⟨w, hw⟩
          rw [hw]
          rfl
      -- A value that is kept as a whole stands on the record, or else in place.
      | true =>
          rw [Option.bind_some, Option.bind_some, nestedField_of_kept view ids p k hkept]
          cases backing with
          | none =>
              simp [get?_ground_none hfields, hv, restoredField_of_kept view ids p _ k hkept,
                Option.filter]
          | some guid =>
              have hrecord : Assoc.get? k ((view guid).getD []) = some v :=
                hkeeps _ (List.mem_singleton_self _) guid k v
                  ⟨hbacking, Assoc.mem_of_get? hv, hkept⟩
              simp [ground, hrecord, restoredField_of_kept view ids p _ k hkept]

theorem settled_walk (hview : OrderedView view) :
    (∀ fields, Value.OrderedFields fields → ∀ p, Settled view ids (visitsIn p fields) →
      ∀ k v, (k, v) ∈ fields → NestedRestored view ids p k v) ∧
    (∀ items, Value.OrderedItems items → ∀ p i, Settled view ids (visitsAmong p i items) →
      nestedAmong view ids p i items = restoredItems view ids p i items) := by
  refine walk_induction ?nil ?object ?series ?leaf ?noItem ?objectItem ?otherItem
  case nil =>
    intro _ p _ k v hv
    cases hv
  case object =>
    intro k fields rest ihFields ihRest hordered p hsettled k' v hv
    rcases hordered with ⟨⟨hsorted, hfields⟩, hrest⟩
    simp only [visitsIn] at hsettled
    rcases forall_visits_object.mp hsettled with ⟨hhere, hbelow, hbeside⟩
    -- The field is the object itself, or one of those behind it.
    rcases List.mem_cons.mp hv with e | hv
    · cases e
      intro _ backing
      exact congrArg some (overlaidAt_of_nested ids hview hsorted hhere
        (ihFields hfields (p.field k) hbelow))
    · exact ihRest hrest p hbeside k' v hv
  case series =>
    intro k items rest ihItems ihRest hordered p hsettled k' v hv
    rcases hordered with ⟨hitems, hrest⟩
    simp only [visitsIn] at hsettled
    rcases List.forall_mem_append.mp hsettled with ⟨hamong, hbeside⟩
    rcases List.mem_cons.mp hv with e | hv
    · cases e
      intro hkept backing
      simp [nestedField, restoredField, hkept, ihItems hitems (p.field k) 0 hamong]
    · exact ihRest hrest p hbeside k' v hv
  case leaf =>
    intro k v rest hleaf ihRest hordered p hsettled k' v' hv
    simp only [visitsIn_leaf p k hleaf] at hsettled
    rcases List.mem_cons.mp hv with e | hv
    · cases e
      intro hnested
      rw [Value.isKept_of_isLeaf hleaf] at hnested
      cases hnested
    · exact ihRest hordered.2 p hsettled k' v' hv
  case noItem =>
    intro _ p i _
    simp only [nestedAmong, restoredItems]
  case objectItem =>
    intro fields rest ihFields ihRest hordered p i hsettled
    rcases hordered with ⟨⟨hsorted, hfields⟩, hrest⟩
    simp only [visitsAmong] at hsettled
    rcases forall_visits_object.mp hsettled with ⟨hhere, hbelow, hbeside⟩
    have hobject := overlaidAt_of_nested ids hview hsorted hhere
      (ihFields hfields (p.index i) hbelow)
    simp only [overlaidAt, restoredAt] at hobject
    simp only [nestedAmong, restoredItems, hobject, ihRest hrest p (i + 1) hbeside]
  case otherItem =>
    intro v rest hv ihRest hordered p i hsettled
    simp only [visitsAmong_other p i hv] at hsettled
    have hlater := ihRest hordered.2 p (i + 1) hsettled
    cases v with
    | map _ =>
        cases hv
    | _ =>
        simp only [nestedAmong, restoredItems, hlater]

/-- Over records that show what the visited objects keep on them, an object shows as it comes
back. -/
theorem overlaidAt_eq_restoredAt (hview : OrderedView view) {p : Path}
    {fields : List (String × Value)} (hordered : (Value.map fields).Ordered)
    (hsettled : Settled view ids (visitsFrom p fields)) :
    overlaidAt view ids p fields = restoredAt view ids p fields := by
  rcases hordered with ⟨hsorted, hfields⟩
  rcases forall_visitsFrom.mp hsettled with ⟨hhere, hbelow⟩
  exact overlaidAt_of_nested ids hview hsorted hhere
    ((settled_walk ids hview).1 fields hfields p hbelow)

/-- A skeleton is assembled to the object that it was made of, completed by the records, if these
show what the visited objects keep on them. -/
theorem assemble_skeletonAt (hview : OrderedView view) {p : Path} {fields : List (String × Value)}
    (hordered : (Value.map fields).Ordered) (hsettled : Settled view ids (visitsFrom p fields)) :
    assemble view (objectAt ids (fun guid => guid) p fields).1 = restoredAt view ids p fields :=
  (assemble_objectAt ids hview hordered).trans
    (overlaidAt_eq_restoredAt ids hview hordered hsettled)

/-! ## Nothing but the result itself -/

variable (view)

/-- The record of a visited object shows no field that the object does not have. -/
def Exact (visited : List Visit) : Prop :=
  ∀ o ∈ visited, ∀ guid, o.guid? ids = some guid → ∀ k, Assoc.get? k o.fields = none →
    Assoc.get? k ((view guid).getD []) = none

variable {view}

theorem completed_of_exact (hview : OrderedView view) {p : Path} {fields : List (String × Value)}
    (hsorted : Assoc.Sorted fields) (hexact : Exact view ids [⟨p, fields⟩]) :
    completed view (objectId? ids p fields) fields
        (restoredFields view ids p (objectId? ids p fields) fields) =
      restoredFields view ids p (objectId? ids p fields) fields := by
  have hrestored : Assoc.Sorted (restoredFields view ids p (objectId? ids p fields) fields) := by
    simp only [restoredFields_eq]
    exact hsorted.filterMap _
  refine Assoc.eq_of_get?_eq (sorted_completed hview _ _ hrestored) hrestored ?_
  intro k
  simp only [get?_completed hview _ _ hrestored]
  -- The record could only add a field that the object does not have, and it shows none.
  cases hguid : objectId? ids p fields with
  | none =>
      simp
  | some guid =>
      cases hk : Assoc.get? k fields with
      | some v =>
          simp
      | none =>
          simp [hexact _ (List.mem_singleton_self _) guid hguid k hk]

theorem pruned_walk (hview : OrderedView view) :
    (∀ fields, Value.OrderedFields fields → ∀ p backing, Exact view ids (visitsIn p fields) →
      restoredFields view ids p backing fields = prunedFields ids p backing fields) ∧
    (∀ items, Value.OrderedItems items → ∀ p i, Exact view ids (visitsAmong p i items) →
      restoredItems view ids p i items = prunedItems ids p i items) := by
  refine walk_induction ?nil ?object ?series ?leaf ?noItem ?objectItem ?otherItem
  case nil =>
    intro _ p backing _
    simp only [restoredFields, prunedFields]
  case object =>
    intro k fields rest ihFields ihRest hordered p backing hexact
    rcases hordered with ⟨⟨hsorted, hfields⟩, hrest⟩
    simp only [visitsIn] at hexact
    rcases forall_visits_object.mp hexact with ⟨hhere, hbelow, hbeside⟩
    -- The record of the object completes nothing, so what is left is what the walks below it say.
    rw [restoredFields, prunedFields, completed_of_exact ids hview hsorted hhere,
      ihFields hfields _ _ hbelow, ihRest hrest p backing hbeside]
  case series =>
    intro k items rest ihItems ihRest hordered p backing hexact
    rcases hordered with ⟨hitems, hrest⟩
    simp only [visitsIn] at hexact
    rcases List.forall_mem_append.mp hexact with ⟨hamong, hbeside⟩
    rw [restoredFields, prunedFields, ihItems hitems _ _ hamong, ihRest hrest p backing hbeside]
  case leaf =>
    intro k v rest hleaf ihRest hordered p backing hexact
    simp only [visitsIn_leaf p k hleaf] at hexact
    have hlater := ihRest hordered.2 p backing hexact
    cases v with
    | map _ =>
        cases hleaf
    | list _ =>
        cases hleaf
    | _ =>
        simp only [restoredFields, prunedFields, hlater]
  case noItem =>
    intro _ p i _
    simp only [restoredItems, prunedItems]
  case objectItem =>
    intro fields rest ihFields ihRest hordered p i hexact
    rcases hordered with ⟨⟨hsorted, hfields⟩, hrest⟩
    simp only [visitsAmong] at hexact
    rcases forall_visits_object.mp hexact with ⟨hhere, hbelow, hbeside⟩
    rw [restoredItems, prunedItems, completed_of_exact ids hview hsorted hhere,
      ihFields hfields _ _ hbelow, ihRest hrest p (i + 1) hbeside]
  case otherItem =>
    intro v rest hv ihRest hordered p i hexact
    simp only [visitsAmong_other p i hv] at hexact
    have hlater := ihRest hordered.2 p (i + 1) hexact
    cases v with
    | map _ =>
        cases hv
    | _ =>
        simp only [restoredItems, prunedItems, hlater]

/-- What comes back from records that show nothing else is the result without its empty lists. -/
theorem restoredAt_eq_pruned (hview : OrderedView view) {p : Path}
    {fields : List (String × Value)} (hordered : (Value.map fields).Ordered)
    (hexact : Exact view ids (visitsFrom p fields)) :
    restoredAt view ids p fields = .map (prunedFields ids p (objectId? ids p fields) fields) := by
  rcases hordered with ⟨hsorted, hfields⟩
  rcases forall_visitsFrom.mp hexact with ⟨hhere, hbelow⟩
  calc
    restoredAt view ids p fields
        = .map (restoredFields view ids p (objectId? ids p fields) fields) :=
          congrArg Value.map (completed_of_exact ids hview hsorted hhere)
    _ = .map (prunedFields ids p (objectId? ids p fields) fields) :=
          congrArg Value.map ((pruned_walk ids hview).1 fields hfields p _ hbelow)

end Settled

end Normalize
end EntityCache
