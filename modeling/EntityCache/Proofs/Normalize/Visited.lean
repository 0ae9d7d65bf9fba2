import EntityCache.Proofs.Normalize.Walk

/-!
# Where the objects of a result lie

* `Visited`: the objects that the walk comes to, said without an order.
* `mem_visitsFrom_iff`: they are the ones that are listed.
* `Located`: all values within a value, also below lists within lists.
* `mem_idsWithin_iff`: all ids of a result are those of all objects within it.
* `Buried`: an object in a list within a list, or below it.
* `located_iff`: an object within another one is visited or buried.
-/

namespace EntityCache
namespace Normalize

variable {p p' : Path} {fields fields' : List (String × Value)} {items : List Value} {v : Value}

/-- An element of a list is the first one or a later one. -/
theorem exists_item_cons {R : Nat → Value → Prop} {i : Nat} {rest : List Value} :
    (∃ j u, (v :: rest)[j]? = some u ∧ R (i + j) u) ↔
      R i v ∨ ∃ j u, rest[j]? = some u ∧ R (i + 1 + j) u := by
  constructor
  · rintro ⟨j, u, hitem, h⟩
    cases j with
    | zero =>
        cases hitem
        exact Or.inl h
    | succ j =>
        refine Or.inr ⟨j, u, hitem, ?_⟩
        rwa [Nat.add_right_comm]
  · rintro (h | ⟨j, u, hitem, h⟩)
    · exact ⟨0, v, rfl, h⟩
    · refine ⟨j + 1, u, hitem, ?_⟩
      rwa [← Nat.add_assoc, Nat.add_right_comm]

/-! ## Visited objects -/

/-- From an object at a path the walk comes to an object at another path: to the object itself, and
on to the objects that are fields, or elements of a list that is a field, of one that it comes
to. -/
inductive Visited : Path → List (String × Value) → Path → List (String × Value) → Prop
  | here {p : Path} {fields : List (String × Value)} : Visited p fields p fields
  | field {p p' : Path} {fields inner fields' : List (String × Value)} {k : String}
      (hmem : (k, .map inner) ∈ fields) (h : Visited (p.field k) inner p' fields') :
      Visited p fields p' fields'
  | item {p p' : Path} {fields inner fields' : List (String × Value)} {k : String}
      {items : List Value} {i : Nat} (hmem : (k, .list items) ∈ fields)
      (hitem : items[i]? = some (.map inner))
      (h : Visited ((p.field k).index i) inner p' fields') : Visited p fields p' fields'

theorem Visited.prefix_path {p p' : Path} {fields fields' : List (String × Value)}
    (h : Visited p fields p' fields') : p <+: p' := by
  induction h with
  | here =>
      exact List.prefix_rfl
  | field _ _ ih =>
      exact (List.prefix_append _ _).trans ih
  | item _ _ _ ih =>
      exact ((List.prefix_append _ _).trans (List.prefix_append _ _)).trans ih

/-- The walk comes to the object `o` from a value, if that is an object. -/
def VisitedFrom (p : Path) (v : Value) (o : Visit) : Prop :=
  ∃ inner, v = .map inner ∧ Visited p inner o.path o.fields

/-- The walk comes to the object `o` from a field, which is an object or a list. -/
def VisitedBelow (p : Path) (v : Value) (o : Visit) : Prop :=
  VisitedFrom p v o ∨ ∃ items, v = .list items ∧
    ∃ i u, items[i]? = some u ∧ VisitedFrom (p.index i) u o

theorem visited_iff {o : Visit} : Visited p fields o.path o.fields ↔
    o = ⟨p, fields⟩ ∨ ∃ b ∈ fields, VisitedBelow (p.field b.1) b.2 o := by
  constructor
  · intro h
    rcases o with ⟨p', fields'⟩
    cases h with
    | here =>
        exact Or.inl rfl
    | field hmem h =>
        exact Or.inr ⟨_, hmem, Or.inl ⟨_, rfl, h⟩⟩
    | item hmem hitem h =>
        exact Or.inr ⟨_, hmem, Or.inr ⟨_, rfl, _, _, hitem, _, rfl, h⟩⟩
  · rintro (rfl | ⟨⟨k, v⟩, hmem, ⟨inner, rfl, h⟩ | ⟨items, rfl, i, u, hitem, inner, rfl, h⟩⟩)
    · exact .here
    · exact .field hmem h
    · exact .item hmem hitem h

/-- What is listed below the fields of an object, and among the elements of a list. -/
theorem mem_visits_walk (o : Visit) :
    (∀ fields : List (String × Value), ∀ p, o ∈ visitsIn p fields ↔
      ∃ b ∈ fields, VisitedBelow (p.field b.1) b.2 o) ∧
    (∀ items : List Value, ∀ p i, o ∈ visitsAmong p i items ↔
      ∃ j u, items[j]? = some u ∧ VisitedFrom (p.index (i + j)) u o) := by
  -- An object and what is listed below it.
  have hobject : ∀ {p fields}, (o ∈ visitsIn p fields ↔
      ∃ b ∈ fields, VisitedBelow (p.field b.1) b.2 o) →
      (o ∈ visitsFrom p fields ↔ VisitedFrom p (.map fields) o) := by
    intro p fields ih
    simp only [visitsFrom, List.mem_cons, ih, ← visited_iff, VisitedFrom, Value.map.injEq,
      exists_eq_left']
  refine walk_induction ?nil ?object ?series ?leaf ?noItem ?objectItem ?otherItem
  case nil =>
    intro p
    simp [visitsIn]
  case object =>
    intro k fields rest ihFields ihRest p
    have hhead : visitsIn p ((k, .map fields) :: rest) =
        visitsFrom (p.field k) fields ++ visitsIn p rest := by
      simp only [visitsIn]
      rfl
    have hbelow : VisitedBelow (p.field k) (.map fields) o ↔
        VisitedFrom (p.field k) (.map fields) o :=
      or_iff_left (by rintro ⟨_, h, _⟩; cases h)
    simp only [hhead, List.mem_append, hobject (ihFields _), ihRest, List.mem_cons,
      exists_eq_or_imp, hbelow]
  case series =>
    intro k items rest ihItems ihRest p
    have hbelow : VisitedBelow (p.field k) (.list items) o ↔
        ∃ i u, items[i]? = some u ∧ VisitedFrom ((p.field k).index i) u o := by
      refine (or_iff_right (by rintro ⟨_, h, _⟩; cases h)).trans ?_
      simp only [Value.list.injEq, exists_eq_left']
    simp only [visitsIn, List.mem_append, ihItems, ihRest, List.mem_cons, exists_eq_or_imp, hbelow,
      Nat.zero_add]
  case leaf =>
    intro k v rest hv ihRest p
    have hbelow : ¬ VisitedBelow (p.field k) v o := by
      rintro (⟨_, rfl, _⟩ | ⟨_, rfl, _⟩) <;> cases hv
    simp only [visitsIn_leaf p k hv, ihRest, List.mem_cons, exists_eq_or_imp, hbelow, false_or]
  case noItem =>
    intro p i
    simp [visitsAmong]
  case objectItem =>
    intro fields rest ihFields ihRest p i
    have hhead : visitsAmong p i (.map fields :: rest) =
        visitsFrom (p.index i) fields ++ visitsAmong p (i + 1) rest := by
      simp only [visitsAmong]
      rfl
    rw [hhead, List.mem_append, hobject (ihFields _), ihRest,
      exists_item_cons (R := fun j u => VisitedFrom (p.index j) u o)]
  case otherItem =>
    intro v rest hv ihRest p i
    have hother : ¬ VisitedFrom (p.index i) v o := by
      rintro ⟨_, rfl, _⟩
      cases hv
    rw [visitsAmong_other p i hv, ihRest,
      exists_item_cons (R := fun j u => VisitedFrom (p.index j) u o), or_iff_right hother]

theorem mem_visitsFrom_iff {o : Visit} :
    o ∈ visitsFrom p fields ↔ Visited p fields o.path o.fields := by
  rw [visited_iff, visitsFrom, List.mem_cons, (mem_visits_walk o).1 fields p]

/-! ## All objects -/

/-- Within a value at a path lies another value at another path. -/
inductive Located : Path → Value → Path → Value → Prop
  | here {p : Path} {v : Value} : Located p v p v
  | field {p p' : Path} {fields : List (String × Value)} {k : String} {v v' : Value}
      (hmem : (k, v) ∈ fields) (h : Located (p.field k) v p' v') :
      Located p (.map fields) p' v'
  | item {p p' : Path} {items : List Value} {i : Nat} {v v' : Value}
      (hitem : items[i]? = some v) (h : Located (p.index i) v p' v') :
      Located p (.list items) p' v'

/-- An object within a value has this id. -/
def HasId (ids : IdIndex) (guid : Guid) (p : Path) (v : Value) : Prop :=
  ∃ p' fields, Located p v p' (.map fields) ∧ objectId? ids p' fields = some guid

variable {ids : IdIndex} {guid : Guid}

theorem hasId_map : HasId ids guid p (.map fields) ↔
    objectId? ids p fields = some guid ∨ ∃ b ∈ fields, HasId ids guid (p.field b.1) b.2 := by
  constructor
  · rintro ⟨p', fields', h, hid⟩
    cases h with
    | here =>
        exact Or.inl hid
    | field hmem h =>
        exact Or.inr ⟨_, hmem, _, _, h, hid⟩
  · rintro (hid | ⟨⟨k, v⟩, hmem, p', fields', h, hid⟩)
    · exact ⟨_, _, .here, hid⟩
    · exact ⟨_, _, .field hmem h, hid⟩

theorem hasId_list : HasId ids guid p (.list items) ↔
    ∃ i u, items[i]? = some u ∧ HasId ids guid (p.index i) u := by
  constructor
  · rintro ⟨p', fields', h, hid⟩
    cases h with
    | item hitem h =>
        exact ⟨_, _, hitem, _, _, h, hid⟩
  · rintro ⟨i, u, hitem, p', fields', h, hid⟩
    exact ⟨_, _, .item hitem h, hid⟩

theorem not_hasId_leaf (hv : v.isLeaf = true) : ¬ HasId ids guid p v := by
  rintro ⟨p', fields', h, -⟩
  cases h <;> cases hv

/-- The ids that are collected are those of all objects. -/
theorem mem_idsAt_iff (ids : IdIndex) (guid : Guid) (v : Value) :
    ∀ p, guid ∈ idsAt ids p v ↔ HasId ids guid p v := by
  have hleaf : ∀ v : Value, v.isLeaf = true → ∀ p, guid ∈ idsAt ids p v ↔ HasId ids guid p v := by
    intro v hv p
    have hnone : idsAt ids p v = [] := by
      cases v with
      | map _ =>
          cases hv
      | list _ =>
          cases hv
      | _ =>
          rfl
    simp only [hnone, List.not_mem_nil, not_hasId_leaf hv]
  -- The recursor of values, with one motive for each kind of nested data.
  refine @Value.rec (fun v => ∀ p, guid ∈ idsAt ids p v ↔ HasId ids guid p v)
    (fun items => ∀ p i, guid ∈ idsInItems ids p i items ↔
      ∃ j u, items[j]? = some u ∧ HasId ids guid (p.index (i + j)) u)
    (fun fields => ∀ p, guid ∈ idsInFields ids p fields ↔
      ∃ b ∈ fields, HasId ids guid (p.field b.1) b.2)
    (fun b => ∀ p, guid ∈ idsAt ids p b.2 ↔ HasId ids guid p b.2)
    (hleaf .null rfl) (fun b => hleaf (.bool b) rfl) (fun n => hleaf (.num n) rfl)
    (fun s => hleaf (.str s) rfl) (fun guid => hleaf (.id guid) rfl) ?series ?object ?noItem ?item
    ?noField ?field (fun _ _ h => h) v
  case series =>
    intro items ih p
    simp only [idsAt, ih, hasId_list, Nat.zero_add]
  case object =>
    intro fields ih p
    simp only [idsAt, List.mem_append, ih, hasId_map, Option.mem_toList]
  case noItem =>
    intro p i
    simp [idsInItems]
  case item =>
    intro v rest ihItem ihRest p i
    rw [idsInItems, List.mem_append, ihItem, ihRest,
      exists_item_cons (R := fun j u => HasId ids guid (p.index j) u)]
  case noField =>
    intro p
    simp [idsInFields]
  case field =>
    rintro ⟨k, v⟩ rest ihField ihRest p
    simp only [idsInFields, List.mem_append, ihField, ihRest, List.mem_cons, exists_eq_or_imp]

theorem mem_idsWithin_iff {v : Value} :
    (idsWithin ids v).mem guid = true ↔ HasId ids guid Path.root v := by
  rw [idsWithin, KeySet.mem_ofKeys, decide_eq_true_eq, mem_idsAt_iff]

/-! ## Buried objects -/

/-- Within an object at a path lies an object that the walk does not come to: an element of a list
that is a field of a visited object is a list itself, and the object is within that. -/
inductive Buried (p : Path) (fields : List (String × Value)) (p' : Path)
    (fields' : List (String × Value)) : Prop
  | intro {q : Path} {outer : List (String × Value)} {k : String} {items inner : List Value}
      {i : Nat} (hvisited : Visited p fields q outer) (hmem : (k, .list items) ∈ outer)
      (hitem : items[i]? = some (.list inner))
      (h : Located ((q.field k).index i) (.list inner) p' (.map fields'))

theorem Visited.located (h : Visited p fields p' fields') :
    Located p (.map fields) p' (.map fields') := by
  induction h with
  | here =>
      exact .here
  | field hmem _ ih =>
      exact .field hmem ih
  | item hmem hitem _ ih =>
      exact .field hmem (.item hitem ih)

theorem Buried.located (h : Buried p fields p' fields') :
    Located p (.map fields) p' (.map fields') := by
  cases h with
  | @intro q outer k items inner i hvisited hmem hitem h =>
      induction hvisited with
      | here =>
          exact .field hmem (.item hitem h)
      | field hmem' _ ih =>
          exact .field hmem' (ih hmem h)
      | item hmem' hitem' _ ih =>
          exact .field hmem' (.item hitem' (ih hmem h))

/-- Visited or buried. -/
def Lies (p : Path) (fields : List (String × Value)) (p' : Path)
    (fields' : List (String × Value)) : Prop :=
  Visited p fields p' fields' ∨ Buried p fields p' fields'

theorem Lies.field {k : String} {inner : List (String × Value)} (hmem : (k, .map inner) ∈ fields)
    (h : Lies (p.field k) inner p' fields') : Lies p fields p' fields' := by
  rcases h with h | ⟨hvisited, hmem', hitem', h⟩
  · exact Or.inl (.field hmem h)
  · exact Or.inr (.intro (.field hmem hvisited) hmem' hitem' h)

theorem Lies.item {k : String} {items : List Value} {i : Nat} {inner : List (String × Value)}
    (hmem : (k, .list items) ∈ fields) (hitem : items[i]? = some (.map inner))
    (h : Lies ((p.field k).index i) inner p' fields') : Lies p fields p' fields' := by
  rcases h with h | ⟨hvisited, hmem', hitem', h⟩
  · exact Or.inl (.item hmem hitem h)
  · exact Or.inr (.intro (.item hmem hitem hvisited) hmem' hitem' h)

/-- An object within a value is an object that lies within one, or lies within an element of a list
or within a list that is an element. -/
theorem Located.lies {v v' : Value} (h : Located p v p' v') (hv' : v' = .map fields') :
    (∀ fields, v = .map fields → Lies p fields p' fields') ∧
    ∀ items, v = .list items → ∃ i u, items[i]? = some u ∧
      ((∃ inner, u = .map inner ∧ Lies (p.index i) inner p' fields') ∨
        ∃ inner, u = .list inner ∧ Located (p.index i) u p' (.map fields')) := by
  -- On the way down: a step by a key is one of an object, a step by a number one of a list.
  induction h with
  | here =>
      subst hv'
      refine ⟨fun fields h => ?_, fun items h => ?_⟩
      · cases h
        exact Or.inl .here
      · cases h
  | @field p p' fields k v v' hmem h ih =>
      rcases ih hv' with ⟨hmap, hlist⟩
      refine ⟨fun fields' h' => ?_, fun items h' => ?_⟩
      · cases h'
        cases h with
        | here =>
            subst hv'
            exact Or.inl (.field hmem .here)
        | field hmem' h =>
            exact (hmap _ rfl).field hmem
        | item hitem' h =>
            rcases hlist _ rfl with ⟨i, u, hitem, ⟨inner, rfl, hlies⟩ | ⟨inner, rfl, hlocated⟩⟩
            · exact hlies.item hmem hitem
            · exact Or.inr (.intro .here hmem hitem hlocated)
      · cases h'
  | @item p p' items i v v' hitem h ih =>
      rcases ih hv' with ⟨hmap, -⟩
      refine ⟨fun fields' h' => ?_, fun items' h' => ?_⟩
      · cases h'
      · cases h'
        subst hv'
        refine ⟨i, v, hitem, ?_⟩
        cases v with
        | map inner =>
            exact Or.inl ⟨inner, rfl, hmap inner rfl⟩
        | list inner =>
            exact Or.inr ⟨inner, rfl, h⟩
        | _ =>
            cases h

/-- The walk comes to an object within another one, or the object is buried. -/
theorem located_iff : Located p (.map fields) p' (.map fields') ↔
    Visited p fields p' fields' ∨ Buried p fields p' fields' := by
  constructor
  · intro h
    exact (h.lies rfl).1 fields rfl
  · rintro (h | h)
    · exact h.located
    · exact h.located

/-- The ids of an object are those of visited objects, which the walk touches, and those of buried
ones. -/
theorem mem_idsWithin_map_iff : (idsWithin ids (.map fields)).mem guid = true ↔
    (∃ p' fields', Visited Path.root fields p' fields' ∧ objectId? ids p' fields' = some guid) ∨
    ∃ p' fields', Buried Path.root fields p' fields' ∧ objectId? ids p' fields' = some guid := by
  rw [mem_idsWithin_iff]
  constructor
  · rintro ⟨p', fields', h, hid⟩
    rcases located_iff.mp h with h | h
    · exact Or.inl ⟨p', fields', h, hid⟩
    · exact Or.inr ⟨p', fields', h, hid⟩
  · rintro (⟨p', fields', h, hid⟩ | ⟨p', fields', h, hid⟩)
    · exact ⟨p', fields', h.located, hid⟩
    · exact ⟨p', fields', h.located, hid⟩

end Normalize
end EntityCache
