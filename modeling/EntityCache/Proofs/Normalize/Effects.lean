import EntityCache.Proofs.Normalize.Walk

/-!
# The effects of splitting

A split result comes with a list of effects on records.  Here they are related to the walk:

* `objectAt`: skeleton and effects of one object, with the equations of the walk in terms of it.
* `puts_effects`: the fields that are overwritten are the assignments of the walk, in order.
* `mem_lefts_effects`: the objects that are left are the visited ones that have an id.
* `guid_mem_lefts`: every effect concerns an entity whose object is left later.
* `effects_objectAt`: the effects are the same whatever the records call themselves.
-/

namespace EntityCache
namespace Normalize

variable (ids : IdIndex) (own : Guid → Guid) (p : Path) (backing : Option Guid)

/-! ## One object -/

/-- Skeleton and effects of an object at `p`. -/
def objectAt (fields : List (String × Value)) : Skeleton × List Effect :=
  ((splitFields ids own p (objectId? ids p fields) fields).skeleton own (objectId? ids p fields),
    (splitFields ids own p (objectId? ids p fields) fields).enclosed (objectId? ids p fields))

theorem splitFields_map (k : String) (fields rest : List (String × Value)) :
    splitFields ids own p backing ((k, .map fields) :: rest) =
      (splitFields ids own p backing rest).nest k (objectAt ids own (p.field k) fields).1
        (objectAt ids own (p.field k) fields).2 := by
  simp only [splitFields]
  rfl

theorem splitItems_map (i : Nat) (fields : List (String × Value)) (rest : List Value) :
    splitItems ids own p i (.map fields :: rest) =
      ⟨(objectAt ids own (p.index i) fields).1 :: (splitItems ids own p (i + 1) rest).objects,
        (splitItems ids own p (i + 1) rest).others,
        (objectAt ids own (p.index i) fields).2 ++
          (splitItems ids own p (i + 1) rest).effects⟩ := by
  simp only [splitItems]
  rfl

/-! ## Lists -/

theorem length_objects (items : List Value) : ∀ i,
    (splitItems ids own p i items).objects.length = items.countP Value.isMap := by
  -- The position moves along with the elements, so it is left open in the induction.
  induction items with
  | nil =>
      intro i
      simp [splitItems]
  | cons v rest ih =>
      intro i
      cases hv : v.isMap with
      | false =>
          simp only [splitItems_other ids own p i hv]
          simpa [hv] using ih (i + 1)
      | true =>
          cases v with
          | map fields =>
              rw [splitItems_map, List.countP_cons_of_pos rfl]
              simpa using ih (i + 1)
          | _ =>
              cases hv

theorem others_eq (items : List Value) : ∀ i,
    (splitItems ids own p i items).others = items.countP (fun v => !v.isMap) := by
  induction items with
  | nil =>
      intro i
      simp [splitItems]
  | cons v rest ih =>
      intro i
      cases hv : v.isMap with
      | false =>
          simp only [splitItems_other ids own p i hv]
          simpa [hv] using ih (i + 1)
      | true =>
          cases v with
          | map fields =>
              simpa [splitItems_map, Value.isMap] using ih (i + 1)
          | _ =>
              cases hv

/-- What becomes of a list: its elements are nested if there are any and all are objects, else the
list is kept as a whole, and only an empty list of an object without record is dropped. -/
theorem splitFields_list (k : String) (items : List Value) (rest : List (String × Value)) :
    splitFields ids own p backing ((k, .list items) :: rest) =
      let inner := splitItems ids own (p.field k) 0 items
      let later := splitFields ids own p backing rest
      let stored : Parts :=
        if (Value.list items).isKept then
          if items.isEmpty && backing.isNone then later else later.store backing k (.list items)
        else { later with lists := (k, inner.objects) :: later.lists }
      { stored with effects := inner.effects ++ stored.effects } := by
  have hzero : (splitItems ids own (p.field k) 0 items).others = 0 ↔
      items.all Value.isMap = true := by
    simp only [others_eq, List.countP_eq_zero]
    simp
  -- The walk tells from its parts what `isKept` tells from the elements.
  have hempty : (splitItems ids own (p.field k) 0 items).objects.isEmpty = true ↔
      ∀ v ∈ items, v.isMap = false := by
    simp only [List.isEmpty_iff_length_eq_zero, length_objects, List.countP_eq_zero]
    simp
  simp only [splitFields]
  simp only [Parts.series, Value.isKept]
  cases items with
  | nil =>
      cases backing <;> simp [splitItems]
  | cons v rest' =>
      by_cases hall : (v :: rest').all Value.isMap = true
      · -- Only objects: none of them is left over, and there is at least one.
        have hsome : (splitItems ids own (p.field k) 0 (v :: rest')).objects.isEmpty = false := by
          simp only [Bool.eq_false_iff]
          intro h
          have hv := hempty.mp h v (List.mem_cons_self)
          simp [hv] at hall
        simp [hall, hsome, hzero.mpr hall]
      · -- Some element is no object, so the list is kept whether or not others are objects.
        have hothers := mt hzero.mp hall
        cases hobjects : (splitItems ids own (p.field k) 0 (v :: rest')).objects.isEmpty <;>
          simp [hall, hothers]

/-! ## What the effects do -/

/-- The entity that an effect concerns. -/
def Effect.guid : Effect → Guid
  | .visit guid => guid
  | .put guid _ _ => guid
  | .leave guid => guid

def Effect.put? : Effect → Option Assignment
  | .put guid k v => some ((guid, k), v)
  | _ => none

def Effect.left? : Effect → Option Guid
  | .leave guid => some guid
  | _ => none

/-- The fields that effects overwrite, in order. -/
def puts (effects : List Effect) : List Assignment :=
  effects.filterMap Effect.put?

/-- The entities whose objects are left, in order. -/
def lefts (effects : List Effect) : List Guid :=
  effects.filterMap Effect.left?

theorem mem_puts {effects : List Effect} {guid : Guid} {k : String} {v : Value} :
    ((guid, k), v) ∈ puts effects ↔ Effect.put guid k v ∈ effects := by
  simp only [puts, List.mem_filterMap]
  constructor
  · rintro ⟨e, he, hput⟩
    cases e with
    | put guid' k' v' =>
        cases hput
        exact he
    | _ =>
        cases hput
  · intro he
    exact ⟨_, he, rfl⟩

theorem mem_lefts {effects : List Effect} {guid : Guid} :
    guid ∈ lefts effects ↔ Effect.leave guid ∈ effects := by
  simp only [lefts, List.mem_filterMap]
  constructor
  · rintro ⟨e, he, hleft⟩
    cases e with
    | leave guid' =>
        cases hleft
        exact he
    | _ =>
        cases hleft
  · intro he
    exact ⟨_, he, rfl⟩

@[simp] theorem puts_cons (e : Effect) (rest : List Effect) :
    puts (e :: rest) = e.put?.toList ++ puts rest := by
  cases e <;> rfl

@[simp] theorem lefts_cons (e : Effect) (rest : List Effect) :
    lefts (e :: rest) = e.left?.toList ++ lefts rest := by
  cases e <;> rfl

@[simp] theorem puts_nil : puts [] = [] := rfl

@[simp] theorem lefts_nil : lefts [] = [] := rfl

@[simp] theorem puts_append (a b : List Effect) : puts (a ++ b) = puts a ++ puts b := by
  simp [puts]

@[simp] theorem lefts_append (a b : List Effect) : lefts (a ++ b) = lefts a ++ lefts b := by
  simp [lefts]

theorem puts_enclosed (parts : Parts) : puts (parts.enclosed backing) = puts parts.effects := by
  cases backing <;> simp [Parts.enclosed, Effect.put?]

theorem lefts_enclosed (parts : Parts) :
    lefts (parts.enclosed backing) = lefts parts.effects ++ backing.toList := by
  cases backing <;> simp [Parts.enclosed, Effect.left?]

theorem puts_store (k : String) (v : Value) (rest : Parts) :
    puts (rest.store backing k v).effects = assigned backing k v ++ puts rest.effects := by
  cases backing <;> simp [Parts.store, Effect.put?, assigned]

theorem lefts_store (k : String) (v : Value) (rest : Parts) :
    lefts (rest.store backing k v).effects = lefts rest.effects := by
  cases backing <;> simp [Parts.store, Effect.left?]

theorem puts_walk :
    (∀ fields p backing,
      puts (splitFields ids own p backing fields).effects = assignmentsIn ids p backing fields) ∧
    (∀ items p i,
      puts (splitItems ids own p i items).effects = assignmentsAmong ids p i items) := by
  refine walk_induction ?nil ?object ?series ?leaf ?noItem ?objectItem ?otherItem
  case nil =>
    intro p backing
    simp [splitFields, Parts.empty, assignmentsIn]
  case object =>
    intro k fields rest ihFields ihRest p backing
    simp only [splitFields_map, assignmentsIn, Parts.nest]
    simp only [objectAt, puts_append, puts_enclosed, ihFields, ihRest]
  case series =>
    intro k items rest ihItems ihRest p backing
    simp only [splitFields_list, assignmentsIn]
    simp only [puts_append, ihItems]
    -- The elements are written before the list itself; what is left are the field and those
    -- behind it.
    congr 1
    split
    · next hkept =>
        -- A list that is dropped would have been written nowhere.
        split
        · next hdrop =>
            have hnone : backing = none := by simpa using (Bool.and_eq_true_iff.mp hdrop).2
            simp [hnone, assigned, ihRest]
        · simp only [puts_store, ihRest]
    · simp [ihRest]
  case leaf =>
    intro k v rest hv ihRest p backing
    calc
      puts (splitFields ids own p backing ((k, v) :: rest)).effects
          = puts ((splitFields ids own p backing rest).store backing k v).effects := by
            rw [splitFields_leaf ids own p backing k hv]
      _ = assigned backing k v ++ puts (splitFields ids own p backing rest).effects :=
            puts_store backing k v _
      _ = assigned backing k v ++ assignmentsIn ids p backing rest := by rw [ihRest]
      _ = assignmentsIn ids p backing ((k, v) :: rest) :=
            (assignmentsIn_leaf ids p backing k hv rest).symm
  case noItem =>
    intro p i
    simp [splitItems, assignmentsAmong]
  case objectItem =>
    intro fields rest ihFields ihRest p i
    simp only [splitItems_map, assignmentsAmong]
    simp only [objectAt, puts_append, puts_enclosed, ihFields, ihRest]
  case otherItem =>
    intro v rest hv ihRest p i
    simp only [splitItems_other ids own p i hv, assignmentsAmong_other ids p i hv]
    exact ihRest p (i + 1)

/-- The walk overwrites the record fields of its assignments, in their order. -/
theorem puts_effects (fields : List (String × Value)) :
    puts (objectAt ids own p fields).2 = assignmentsFrom ids p fields := by
  calc
    puts (objectAt ids own p fields).2
        = puts (splitFields ids own p (objectId? ids p fields) fields).effects :=
          puts_enclosed (objectId? ids p fields) _
    _ = assignmentsFrom ids p fields := (puts_walk ids own).1 fields p (objectId? ids p fields)

theorem mem_lefts_walk (guid : Guid) :
    (∀ fields p backing, guid ∈ lefts (splitFields ids own p backing fields).effects ↔
      ∃ o ∈ visitsIn p fields, o.guid? ids = some guid) ∧
    (∀ items p i, guid ∈ lefts (splitItems ids own p i items).effects ↔
      ∃ o ∈ visitsAmong p i items, o.guid? ids = some guid) := by
  refine walk_induction ?nil ?object ?series ?leaf ?noItem ?objectItem ?otherItem
  case nil =>
    intro p backing
    simp [splitFields, Parts.empty, visitsIn]
  case object =>
    intro k fields rest ihFields ihRest p backing
    simp only [splitFields_map, visitsIn, Parts.nest]
    simp only [objectAt, lefts_append, lefts_enclosed, List.mem_append, ihFields, ihRest,
      List.mem_cons, Option.mem_toList]
    simp only [Visit.guid?]
    grind
  case series =>
    intro k items rest ihItems ihRest p backing
    -- Keeping the list leaves no object, whatever becomes of it.
    have hstored : ∀ stored : Parts, stored.effects = (splitFields ids own p backing rest).effects ∨
        stored = (splitFields ids own p backing rest).store backing k (.list items) →
        lefts stored.effects = lefts (splitFields ids own p backing rest).effects := by
      rintro stored (h | rfl)
      · simp only [h]
      · exact lefts_store backing k (.list items) _
    simp only [splitFields_list, visitsIn]
    simp only [lefts_append, List.mem_append, ihItems]
    rw [hstored]
    · simp only [ihRest]
      grind
    · split
      · split
        · exact Or.inl rfl
        · exact Or.inr rfl
      · exact Or.inl rfl
  case leaf =>
    intro k v rest hv ihRest p backing
    simp only [splitFields_leaf ids own p backing k hv, visitsIn_leaf p k hv, lefts_store]
    exact ihRest p backing
  case noItem =>
    intro p i
    simp [splitItems, visitsAmong]
  case objectItem =>
    intro fields rest ihFields ihRest p i
    simp only [splitItems_map, visitsAmong]
    simp only [objectAt, lefts_append, lefts_enclosed, List.mem_append, ihFields, ihRest,
      List.mem_cons, Option.mem_toList]
    simp only [Visit.guid?]
    grind
  case otherItem =>
    intro v rest hv ihRest p i
    simp only [splitItems_other ids own p i hv, visitsAmong_other p i hv]
    exact ihRest p (i + 1)

/-- The walk leaves exactly the visited objects that have an id. -/
theorem mem_lefts_effects {fields : List (String × Value)} {guid : Guid} :
    guid ∈ lefts (objectAt ids own p fields).2 ↔
      ∃ o ∈ visitsFrom p fields, o.guid? ids = some guid := by
  simp only [objectAt, lefts_enclosed, List.mem_append, (mem_lefts_walk ids own guid).1]
  simp only [visitsFrom, List.mem_cons, Option.mem_toList, Visit.guid?]
  grind

/-! ## Every effect is left behind -/

/-- Every effect concerns the object at hand or one that is left later. -/
def Covered (backing : Option Guid) (effects : List Effect) : Prop :=
  ∀ e ∈ effects, backing = some e.guid ∨ e.guid ∈ lefts effects

namespace Covered

variable {backing} {a b : List Effect}

theorem append (ha : Covered backing a) (hb : Covered backing b) : Covered backing (a ++ b) := by
  intro e he
  simp only [lefts_append, List.mem_append]
  rcases List.mem_append.mp he with he | he
  · exact (ha e he).imp_right Or.inl
  · exact (hb e he).imp_right Or.inr

theorem weaken (h : Covered none a) : Covered backing a := by
  intro e he
  rcases h e he with h | h
  · cases h
  · exact Or.inr h

theorem enclosed {parts : Parts} (h : Covered backing parts.effects) :
    Covered none (parts.enclosed backing) := by
  intro e he
  refine Or.inr ?_
  simp only [lefts_enclosed, List.mem_append]
  -- With a record the object at hand is left as well, at the end.
  cases backing with
  | none =>
      exact Or.inl ((h e he).resolve_left (Option.some_ne_none _).symm)
  | some guid =>
      have hguid : guid ∈ (some guid).toList := by simp
      rcases List.mem_cons.mp he with rfl | he
      · exact Or.inr hguid
      · rcases List.mem_append.mp he with he | he
        · rcases h e he with h | h
          · cases h
            exact Or.inr hguid
          · exact Or.inl h
        · cases List.mem_singleton.mp he
          exact Or.inr hguid

theorem store {rest : Parts} (h : Covered backing rest.effects) (k : String) (v : Value) :
    Covered backing (rest.store backing k v).effects := by
  intro e he
  simp only [lefts_store]
  cases backing with
  | none =>
      exact h e he
  | some guid =>
      rcases List.mem_cons.mp he with rfl | he
      · exact Or.inl rfl
      · exact h e he

end Covered

theorem covered_walk :
    (∀ fields p backing, Covered backing (splitFields ids own p backing fields).effects) ∧
    (∀ items p i, Covered none (splitItems ids own p i items).effects) := by
  refine walk_induction ?nil ?object ?series ?leaf ?noItem ?objectItem ?otherItem
  case nil =>
    intro p backing e he
    simp [splitFields, Parts.empty] at he
  case object =>
    intro k fields rest ihFields ihRest p backing
    simp only [splitFields_map]
    -- The nested object is left before the walk goes on with the fields behind it.
    exact (ihFields (p.field k) (objectId? ids (p.field k) fields)).enclosed.weaken.append
      (ihRest p backing)
  case series =>
    intro k items rest ihItems ihRest p backing
    simp only [splitFields_list]
    refine (ihItems (p.field k) 0).weaken.append ?_
    split
    · split
      · exact ihRest p backing
      · exact (ihRest p backing).store k (.list items)
    · exact ihRest p backing
  case leaf =>
    intro k v rest hv ihRest p backing
    simp only [splitFields_leaf ids own p backing k hv]
    exact (ihRest p backing).store k v
  case noItem =>
    intro p i e he
    simp [splitItems] at he
  case objectItem =>
    intro fields rest ihFields ihRest p i
    simp only [splitItems_map]
    exact (ihFields (p.index i) (objectId? ids (p.index i) fields)).enclosed.append
      (ihRest p (i + 1))
  case otherItem =>
    intro v rest hv ihRest p i
    simp only [splitItems_other ids own p i hv]
    exact ihRest p (i + 1)

/-- The walk does nothing to a record without leaving its object in the end. -/
theorem guid_mem_lefts {fields : List (String × Value)} {e : Effect}
    (he : e ∈ (objectAt ids own p fields).2) : e.guid ∈ lefts (objectAt ids own p fields).2 := by
  have hcovered := ((covered_walk ids own).1 fields p (objectId? ids p fields)).enclosed
  -- No object is at hand any more once the whole object is enclosed.
  exact (hcovered e he).resolve_left (Option.some_ne_none _).symm

/-! ## What records call themselves -/

theorem effects_store (rest : Parts) (k : String) (v : Value) :
    (rest.store backing k v).effects =
      (backing.map (fun guid => Effect.put guid k v)).toList ++ rest.effects := by
  cases backing <;> rfl

/-- What records call themselves shows in the skeleton alone. -/
theorem effects_walk (own' : Guid → Guid) :
    (∀ fields p backing, (splitFields ids own p backing fields).effects =
      (splitFields ids own' p backing fields).effects) ∧
    (∀ items p i, (splitItems ids own p i items).effects =
      (splitItems ids own' p i items).effects) := by
  refine walk_induction ?nil ?object ?series ?leaf ?noItem ?objectItem ?otherItem
  case nil =>
    intro p backing
    simp only [splitFields]
  case object =>
    intro k fields rest ihFields ihRest p backing
    simp only [splitFields_map, Parts.nest, objectAt, Parts.enclosed, ihFields, ihRest]
  case series =>
    intro k items rest ihItems ihRest p backing
    simp only [splitFields_list, ihItems]
    -- The list itself is one more effect if it is kept as a whole.
    congr 1
    split
    · split
      · exact ihRest p backing
      · simp only [effects_store, ihRest]
    · exact ihRest p backing
  case leaf =>
    intro k v rest hv ihRest p backing
    simp only [splitFields_leaf ids _ p backing k hv, effects_store, ihRest]
  case noItem =>
    intro p i
    simp only [splitItems]
  case objectItem =>
    intro fields rest ihFields ihRest p i
    simp only [splitItems_map, objectAt, Parts.enclosed, ihFields, ihRest]
  case otherItem =>
    intro v rest hv ihRest p i
    simp only [splitItems_other ids _ p i hv, ihRest]

theorem effects_objectAt (own' : Guid → Guid) (fields : List (String × Value)) :
    (objectAt ids own p fields).2 = (objectAt ids own' p fields).2 := by
  simp only [objectAt, Parts.enclosed, (effects_walk ids own own').1]

end Normalize
end EntityCache
