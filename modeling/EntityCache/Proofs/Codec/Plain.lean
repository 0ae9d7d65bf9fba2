import EntityCache.Proofs.Codec.Nesting
import EntityCache.Proofs.Normalize.Walk

/-!
# What reads back as itself

Ordered values whose numbers read back as themselves do so too, but for their marks:

* `Value.Stable`, `Skeleton.Stable`: keys ascending, and no number but such as read back as
  themselves.  `Value.Exact`: no number but integers in range, which do.
* `Value.reread_eq_plain`: with room for its levels such a value reads back without its marks.
* `Skeleton.plain`, `Skeleton.reread_eq_plain`: the same for skeletons.
* `Snapshot.reread_eq_plain`, `Entry.reread_eq`: and for what is stored of entities and results.
* `Value.plainFields_insert`, `Value.plainFields_union`: losing marks leaves the keys alone.
-/

namespace EntityCache

open Json

/-! ## Values -/

namespace Value

/-- Ordered, and of integers in range. -/
structure Exact (v : Value) : Prop where
  ordered : v.Ordered
  numbers : v.EveryNumber Number.InRange

/-- Ordered, and of numbers that read back as themselves. -/
structure Stable (v : Value) : Prop where
  ordered : v.Ordered
  numbers : v.EveryNumber Number.Kept

theorem plainFields_eq (fields : List (String × Value)) :
    plainFields fields = Assoc.filterMap (fun _ v => some v.plain) fields := by
  induction fields with
  | nil =>
      simp [plainFields, Assoc.filterMap]
  | cons b rest ih =>
      rcases b with ⟨k, v⟩
      simp [plainFields, Assoc.filterMap_cons, ih]

theorem sorted_plainFields {fields : List (String × Value)} (h : Assoc.Sorted fields) :
    Assoc.Sorted (plainFields fields) := by
  simp only [plainFields_eq]
  exact h.filterMap _

theorem ofList_plainFields {fields : List (String × Value)} (h : Assoc.Sorted fields) :
    Assoc.ofList (plainFields fields) = plainFields fields :=
  Assoc.ofList_of_sorted (sorted_plainFields h)

theorem plainFields_insert (k : String) (v : Value) (fields : List (String × Value)) :
    plainFields (Assoc.insert k v fields) = Assoc.insert k v.plain (plainFields fields) := by
  induction fields with
  | nil =>
      rfl
  | cons b rest ih =>
      rcases b with ⟨k', v'⟩
      -- Where the binding goes is settled by the keys.
      by_cases hsame : k = k'
      · simp only [Assoc.insert, plainFields, if_pos hsame]
      · by_cases hbefore : Key.before k k' = true
        · simp only [Assoc.insert, plainFields, if_neg hsame, if_pos hbefore]
        · simp only [Assoc.insert, plainFields, if_neg hsame, if_neg hbefore, ih]

theorem plainFields_union (l m : List (String × Value)) :
    plainFields (Assoc.union l m) = Assoc.union (plainFields l) (plainFields m) := by
  induction m generalizing l with
  | nil =>
      rfl
  | cons b rest ih =>
      rcases b with ⟨k, v⟩
      calc
        plainFields (Assoc.union l ((k, v) :: rest))
            = plainFields (Assoc.union (Assoc.insert k v l) rest) := rfl
        _ = Assoc.union (plainFields (Assoc.insert k v l)) (plainFields rest) := ih _
        _ = Assoc.union (plainFields l) (plainFields ((k, v) :: rest)) := by
          simp only [plainFields_insert]
          rfl

mutual

/-- Marks are lost once. -/
theorem plain_plain : ∀ v : Value, v.plain.plain = v.plain
  | .null => rfl
  | .bool _ => rfl
  | .num _ => rfl
  | .str _ => rfl
  | .id _ => rfl
  | .list items => by
      simp only [plain, plainItems_plain items]
  | .map fields => by
      simp only [plain, plainFields_plain fields]

theorem plainItems_plain : ∀ items : List Value,
    plainItems (plainItems items) = plainItems items
  | [] => rfl
  | v :: rest => by
      simp only [plainItems, plain_plain v, plainItems_plain rest]

theorem plainFields_plain : ∀ fields : List (String × Value),
    plainFields (plainFields fields) = plainFields fields
  | [] => rfl
  | (k, v) :: rest => by
      simp only [plainFields, plain_plain v, plainFields_plain rest]

end

mutual

/-- With room for its levels a stable value reads back without its marks. -/
theorem reread_of_kept : ∀ (v : Value) (room : Nat), v.Ordered → v.EveryNumber Number.Kept →
    v.nesting ≤ room → v.reread room = some v.plain
  | .null, _ => fun _ _ _ => rfl
  | .bool _, _ => fun _ _ _ => rfl
  | .num n, room => by
      intro _ hn _
      exact hn
  | .str _, _ => fun _ _ _ => rfl
  | .id _, _ => fun _ _ _ => rfl
  | .list items, 0 => by
      intro _ _ hroom
      cases hroom
  | .list items, room + 1 => by
      intro hordered hnumbers hroom
      have hinner :=
        rereadItems_of_kept items room hordered hnumbers (Nat.le_of_succ_le_succ hroom)
      simp only [reread, if_neg (Nat.succ_ne_zero room), Nat.add_sub_cancel, hinner, plain]
      rfl
  | .map fields, 0 => by
      intro _ _ hroom
      cases hroom
  | .map fields, room + 1 => by
      rintro ⟨hsorted, hordered⟩ hnumbers hroom
      have hinner := rereadFields_of_kept fields room hordered hnumbers
        (Nat.le_of_succ_le_succ hroom)
      simp only [reread, if_neg (Nat.succ_ne_zero room), Nat.add_sub_cancel, hinner, plain,
        Option.map_some, ofList_plainFields hsorted]

theorem rereadItems_of_kept : ∀ (items : List Value) (room : Nat), OrderedItems items →
    EveryNumberItems Number.Kept items → nestingItems items ≤ room →
      rereadItems items room = some (plainItems items)
  | [], _ => fun _ _ _ => rfl
  | v :: rest, room => by
      rintro ⟨hv, hrest⟩ ⟨hnv, hnrest⟩ hroom
      rcases Nat.max_le.mp hroom with ⟨hroomv, hroomrest⟩
      simp only [rereadItems, reread_of_kept v room hv hnv hroomv,
        rereadItems_of_kept rest room hrest hnrest hroomrest]
      rfl

theorem rereadFields_of_kept : ∀ (fields : List (String × Value)) (room : Nat),
    OrderedFields fields → EveryNumberFields Number.Kept fields → nestingFields fields ≤ room →
      rereadFields fields room = some (plainFields fields)
  | [], _ => fun _ _ _ => rfl
  | (k, v) :: rest, room => by
      rintro ⟨hv, hrest⟩ ⟨hnv, hnrest⟩ hroom
      rcases Nat.max_le.mp hroom with ⟨hroomv, hroomrest⟩
      simp only [rereadFields, reread_of_kept v room hv hnv hroomv,
        rereadFields_of_kept rest room hrest hnrest hroomrest]
      rfl

end

section Numbers

variable {P : Number → Prop}

/-- An object is ordered and of such numbers exactly if its fields are. -/
theorem ordered_numbers_map_iff {fields : List (String × Value)} :
    (Value.map fields).Ordered ∧ (Value.map fields).EveryNumber P ↔
      Assoc.Sorted fields ∧ ∀ b ∈ fields, b.2.Ordered ∧ b.2.EveryNumber P := by
  constructor
  · intro ⟨hordered, hnumbers⟩
    exact ⟨hordered.1, fun b hb =>
      ⟨orderedFields_iff.mp hordered.2 b hb, everyNumberFields_iff.mp hnumbers b hb⟩⟩
  · intro ⟨hsorted, hfields⟩
    exact ⟨⟨hsorted, orderedFields_iff.mpr fun b hb => (hfields b hb).1⟩,
      everyNumberFields_iff.mpr fun b hb => (hfields b hb).2⟩

theorem ordered_numbers_list_iff {items : List Value} :
    (Value.list items).Ordered ∧ (Value.list items).EveryNumber P ↔
      ∀ v ∈ items, v.Ordered ∧ v.EveryNumber P := by
  constructor
  · intro ⟨hordered, hnumbers⟩ v hv
    exact ⟨orderedItems_iff.mp hordered v hv, everyNumberItems_iff.mp hnumbers v hv⟩
  · intro hitems
    exact ⟨orderedItems_iff.mpr fun v hv => (hitems v hv).1,
      everyNumberItems_iff.mpr fun v hv => (hitems v hv).2⟩

end Numbers

theorem exact_iff {v : Value} : v.Exact ↔ v.Ordered ∧ v.EveryNumber Number.InRange :=
  ⟨fun h => ⟨h.ordered, h.numbers⟩, fun h => ⟨h.1, h.2⟩⟩

theorem stable_iff {v : Value} : v.Stable ↔ v.Ordered ∧ v.EveryNumber Number.Kept :=
  ⟨fun h => ⟨h.ordered, h.numbers⟩, fun h => ⟨h.1, h.2⟩⟩

theorem exact_null : Value.null.Exact := ⟨trivial, trivial⟩

theorem exact_str (s : String) : (Value.str s).Exact := ⟨trivial, trivial⟩

theorem exact_id (guid : Guid) : (Value.id guid).Exact := ⟨trivial, trivial⟩

theorem exact_int {n : Int} (hn : (Number.int n).InRange) : (Value.num (.int n)).Exact :=
  ⟨trivial, hn⟩

theorem exact_map_iff {fields : List (String × Value)} :
    (Value.map fields).Exact ↔ Assoc.Sorted fields ∧ ∀ b ∈ fields, b.2.Exact := by
  simp only [exact_iff, ordered_numbers_map_iff]

theorem exact_list_iff {items : List Value} :
    (Value.list items).Exact ↔ ∀ v ∈ items, v.Exact := by
  simp only [exact_iff, ordered_numbers_list_iff]

theorem stable_map_iff {fields : List (String × Value)} :
    (Value.map fields).Stable ↔ Assoc.Sorted fields ∧ ∀ b ∈ fields, b.2.Stable := by
  simp only [stable_iff, ordered_numbers_map_iff]

theorem stable_list_iff {items : List Value} :
    (Value.list items).Stable ↔ ∀ v ∈ items, v.Stable := by
  simp only [stable_iff, ordered_numbers_list_iff]

/-- Integers in range read back as themselves. -/
theorem Exact.stable {v : Value} (h : v.Exact) : v.Stable where
  ordered := h.ordered
  numbers := everyNumber_mono (fun _ => Number.reread_of_inRange) v h.numbers

/-- The fields of an object that is stable are so. -/
theorem Stable.field {fields : List (String × Value)} (h : (Value.map fields).Stable) :
    ∀ b ∈ fields, b.2.Stable :=
  (stable_map_iff.mp h).2

theorem Stable.item {items : List Value} (h : (Value.list items).Stable) :
    ∀ v ∈ items, v.Stable :=
  stable_list_iff.mp h

mutual

theorem stable_plain : ∀ v : Value, v.Stable → v.plain.Stable
  | .null => fun h => h
  | .bool _ => fun h => h
  | .num _ => fun h => h
  | .str _ => fun h => h
  | .id _ => fun _ => ⟨trivial, trivial⟩
  | .list items => by
      intro h
      exact stable_list_iff.mpr (stable_plainItems items h.item)
  | .map fields => by
      intro h
      exact stable_map_iff.mpr ⟨sorted_plainFields h.ordered.1, stable_plainFields fields h.field⟩

theorem stable_plainItems : ∀ items : List Value, (∀ v ∈ items, v.Stable) →
    ∀ v ∈ plainItems items, v.Stable
  | [] => by
      intro _ v hv
      cases hv
  | v :: rest => by
      intro h
      rcases List.forall_mem_cons.mp h with ⟨hv, hrest⟩
      exact List.forall_mem_cons.mpr ⟨stable_plain v hv, stable_plainItems rest hrest⟩

theorem stable_plainFields : ∀ fields : List (String × Value), (∀ b ∈ fields, b.2.Stable) →
    ∀ b ∈ plainFields fields, b.2.Stable
  | [] => by
      intro _ b hb
      cases hb
  | (k, v) :: rest => by
      intro h
      rcases List.forall_mem_cons.mp h with ⟨hv, hrest⟩
      exact List.forall_mem_cons.mpr ⟨stable_plain v hv, stable_plainFields rest hrest⟩

end

/-- Stable fields on their own, as a stored form holds them. -/
theorem rereadFields_eq_plain {fields : List (String × Value)} (h : ∀ b ∈ fields, b.2.Stable)
    {room : Nat} (hroom : nestingFields fields ≤ room) :
    rereadFields fields room = some (plainFields fields) :=
  rereadFields_of_kept fields room (orderedFields_iff.mpr fun b hb => (h b hb).ordered)
    (everyNumberFields_iff.mpr fun b hb => (h b hb).numbers) hroom

end Value

/-! ## Entities and results -/

namespace Snapshot

/-- The fields without their marks. -/
def plain (s : Snapshot) : Snapshot :=
  ⟨s.guid, ⟨Value.plainFields s.fields.bindings, Value.sorted_plainFields s.fields.sorted⟩⟩

theorem nesting_plain (s : Snapshot) : s.plain.nesting = s.nesting := by
  simp only [nesting, plain, Value.nestingFields_plain]

theorem reread_eq_plain {s : Snapshot} (h : ∀ b ∈ s.fields.bindings, b.2.Stable) {room : Nat}
    (hroom : s.nesting ≤ room) : s.reread room = some s.plain := by
  have hlevels : Value.nestingFields s.fields.bindings + 2 ≤ room := hroom
  have hinner : Value.rereadFields s.fields.bindings (room - 2) =
      some (Value.plainFields s.fields.bindings) := Value.rereadFields_eq_plain h (by omega)
  have hsorted := Value.sorted_plainFields s.fields.sorted
  have houter : room ≠ 0 := by omega
  have hmiddle : room - 1 ≠ 0 := by omega
  simp only [reread, rereadFields, if_neg houter, if_neg hmiddle, hinner, Option.map_some,
    Assoc.ofList_of_sorted hsorted]
  -- The fields stand in order already, so putting them in order again changes nothing.
  have hfields : Dict.ofList (Value.plainFields s.fields.bindings) =
      ⟨Value.plainFields s.fields.bindings, hsorted⟩ :=
    Dict.ext_get? fun k => congrArg (Assoc.get? k) (Assoc.ofList_of_sorted hsorted)
  simp only [hfields, plain]

end Snapshot

namespace Record

/-- The record without marks in its fields. -/
def plain (r : Record) : Record :=
  .restore r.snapshot.plain r.dependents

/-- The fields of a record are stable. -/
def Stable (r : Record) : Prop :=
  ∀ b ∈ r.fields.bindings, b.2.Stable

end Record

namespace Entry

/-- The time is one of 64 signed bits. -/
def Timely (t : Time) : Prop :=
  minTime ≤ t ∧ t ≤ maxTime

theorem rereadInteger_of_timely {t : Time} (ht : Timely t) :
    rereadInteger minTime maxTime t = some t := by
  have hrange : (Number.int t).InRange :=
    ⟨Int.le_trans (by decide) ht.1, Int.le_trans ht.2 (by decide)⟩
  exact rereadInteger_of_inRange hrange ht

/-- A result whose times are such reads back, but its skeleton has to be read from its text. -/
theorem reread_eq {e : Entry} (httl : e.ttl ≤ maxTtl) (hcached : Timely e.cachedAt)
    (haccessed : Timely e.lastAccessed) : e.reread = some { e with root := none } := by
  have hbounds : (0 : Int) ≤ e.ttl ∧ (e.ttl : Int) ≤ maxTtl :=
    ⟨Int.natCast_nonneg _, Int.ofNat_le.mpr httl⟩
  have hrange : (Number.int e.ttl).InRange := ⟨Int.le_trans (by decide) hbounds.1, hbounds.2⟩
  have hspan : rereadInteger 0 maxTtl e.ttl = some e.ttl :=
    rereadInteger_of_inRange hrange hbounds
  simp only [reread, hspan, rereadInteger_of_timely hcached, rereadInteger_of_timely haccessed]
  rfl

/-- Without a skeleton at hand the one in the text is read. -/
theorem root?_of_text {e : Entry} {n : Skeleton} (hdata : e.data = n.text) :
    ({ e with root := none } : Entry).root?.toOption = n.reread maxRoom := by
  show (Skeleton.ofText? e.data).toOption = _
  simp only [hdata, Skeleton.ofText?_text]

end Entry

/-! ## Skeletons -/

namespace Skeleton

mutual

/-- The skeleton without marks in its scalars. -/
def plain : Skeleton → Skeleton
  | ⟨guid, scalars, refs, lists⟩ =>
      ⟨guid, Value.plainFields scalars, plainRefs refs, plainLists lists⟩

def plainRefs : List (String × Skeleton) → List (String × Skeleton)
  | [] => []
  | (k, child) :: rest => (k, plain child) :: plainRefs rest

def plainLists : List (String × List Skeleton) → List (String × List Skeleton)
  | [] => []
  | (k, items) :: rest => (k, plainItems items) :: plainLists rest

def plainItems : List Skeleton → List Skeleton
  | [] => []
  | child :: rest => plain child :: plainItems rest

end

/-- The members of a skeleton are ordered. -/
structure InOrder (n : Skeleton) : Prop where
  scalars : Assoc.Sorted n.scalars
  refs : Assoc.Sorted n.refs
  lists : Assoc.Sorted n.lists

/-- The members of a skeleton are ordered, and its scalars are stable. -/
structure Stable (n : Skeleton) : Prop extends InOrder n where
  values : ∀ b ∈ n.scalars, b.2.Stable

theorem sorted_plainRefs {refs : List (String × Skeleton)} (h : Assoc.Sorted refs) :
    Assoc.Sorted (plainRefs refs) := by
  have heq : ∀ refs, plainRefs refs = Assoc.filterMap (fun _ child => some (plain child)) refs := by
    intro refs
    induction refs with
    | nil =>
        simp [plainRefs, Assoc.filterMap]
    | cons b rest ih =>
        rcases b with ⟨k, child⟩
        simp [plainRefs, Assoc.filterMap_cons, ih]
  simp only [heq]
  exact h.filterMap _

theorem sorted_plainLists {lists : List (String × List Skeleton)} (h : Assoc.Sorted lists) :
    Assoc.Sorted (plainLists lists) := by
  have heq : ∀ lists,
      plainLists lists = Assoc.filterMap (fun _ items => some (plainItems items)) lists := by
    intro lists
    induction lists with
    | nil =>
        simp [plainLists, Assoc.filterMap]
    | cons b rest ih =>
        rcases b with ⟨k, items⟩
        simp [plainLists, Assoc.filterMap_cons, ih]
  simp only [heq]
  exact h.filterMap _

/-- A member that is in order reads back as what its parts read back as. -/
theorem rereadMember_eq {α β : Type} {members : List α} {room : Nat} (inner : Nat)
    {value : Option (List (String × β))} {l : List (String × β)}
    (hroom : memberNesting members inner ≤ room) (hempty : members = [] → l = [])
    (hvalue : inner ≤ room - 1 → value = some l) (hsorted : Assoc.Sorted l) :
    rereadMember members room value = some l := by
  simp only [memberNesting] at hroom
  simp only [rereadMember]
  split
  · next hnone =>
      simp only [hempty (List.isEmpty_iff.mp hnone)]
  · next hsome =>
      simp only [if_neg hsome] at hroom
      have houter : room ≠ 0 := by omega
      have hinner : inner ≤ room - 1 := by omega
      simp only [if_neg houter, hvalue hinner, Option.map_some, Assoc.ofList_of_sorted hsorted]

mutual

/-- With room for its levels a skeleton that is stable reads back without its marks. -/
theorem reread_eq_plain : ∀ (n : Skeleton) (room : Nat), n.Every Stable → n.nesting ≤ room →
    n.reread room = some n.plain
  | ⟨guid, scalars, refs, lists⟩, room => by
      rintro ⟨hstable, hrefs, hlists⟩ hroom
      simp only [nesting] at hroom
      have houter : room ≠ 0 := by omega
      have hlevel : room - 2 = room - 1 - 1 := by omega
      -- Each member is read back on its own, with the levels that are left inside it.
      have hscalars' : rereadMember scalars (room - 1) (Value.rereadFields scalars (room - 2)) =
          some (Value.plainFields scalars) := by
        refine rereadMember_eq (Value.nestingFields scalars) (by omega) ?_ ?_
          (Value.sorted_plainFields hstable.scalars)
        · rintro rfl
          rfl
        · intro hinner
          simp only [hlevel]
          exact Value.rereadFields_eq_plain hstable.values hinner
      have hrefs' : rereadMember refs (room - 1) (rereadRefs refs (room - 2)) =
          some (plainRefs refs) := by
        refine rereadMember_eq (nestingRefs refs) (by omega) ?_ ?_
          (sorted_plainRefs hstable.refs)
        · rintro rfl
          rfl
        · intro hinner
          simp only [hlevel]
          exact rereadRefs_eq_plain refs (room - 1 - 1) hrefs hinner
      have hlists' : rereadMember lists (room - 1) (rereadLists lists (room - 2)) =
          some (plainLists lists) := by
        refine rereadMember_eq (nestingLists lists) (by omega) ?_ ?_
          (sorted_plainLists hstable.lists)
        · rintro rfl
          rfl
        · intro hinner
          simp only [hlevel]
          exact rereadLists_eq_plain lists (room - 1 - 1) hlists hinner
      simp only [reread, if_neg houter, hscalars', hrefs', hlists', plain]
      rfl

theorem rereadRefs_eq_plain : ∀ (refs : List (String × Skeleton)) (room : Nat),
    EveryRef Stable refs → nestingRefs refs ≤ room → rereadRefs refs room = some (plainRefs refs)
  | [], _ => fun _ _ => rfl
  | (k, child) :: rest, room => by
      rintro ⟨hchild, hrest⟩ hroom
      rcases Nat.max_le.mp hroom with ⟨hroomchild, hroomrest⟩
      simp only [rereadRefs, reread_eq_plain child room hchild hroomchild,
        rereadRefs_eq_plain rest room hrest hroomrest]
      rfl

theorem rereadLists_eq_plain : ∀ (lists : List (String × List Skeleton)) (room : Nat),
    EveryList Stable lists → nestingLists lists ≤ room →
      rereadLists lists room = some (plainLists lists)
  | [], _ => fun _ _ => rfl
  | (k, items) :: rest, room => by
      rintro ⟨hitems, hrest⟩ hroom
      rcases Nat.max_le.mp hroom with ⟨hroomitems, hroomrest⟩
      have houter : room ≠ 0 := by omega
      have hinner : nestingItems items ≤ room - 1 := by omega
      simp only [rereadLists, if_neg houter, rereadItems_eq_plain items (room - 1) hitems hinner,
        rereadLists_eq_plain rest room hrest hroomrest]
      rfl

theorem rereadItems_eq_plain : ∀ (items : List Skeleton) (room : Nat),
    EveryItem Stable items → nestingItems items ≤ room →
      rereadItems items room = some (plainItems items)
  | [], _ => fun _ _ => rfl
  | child :: rest, room => by
      rintro ⟨hchild, hrest⟩ hroom
      rcases Nat.max_le.mp hroom with ⟨hroomchild, hroomrest⟩
      simp only [rereadItems, reread_eq_plain child room hchild hroomchild,
        rereadItems_eq_plain rest room hrest hroomrest]
      rfl

end

/-! ## Entities of what was read back -/

/-- Members that stand in order are read back in that order. -/
theorem rereadMember_ofList {α β : Type} {members : List (String × α)} {room : Nat}
    {value : Option (List (String × β))} {l : List (String × β)} (hmembers : Assoc.Sorted members)
    (hkeys : ∀ l', value = some l' → l'.map Prod.fst = members.map Prod.fst)
    (h : rereadMember members room value = some l) :
    (members = [] ∧ l = []) ∨ value = some l := by
  simp only [rereadMember] at h
  split at h
  · next hnone =>
      cases h
      exact Or.inl ⟨List.isEmpty_iff.mp hnone, rfl⟩
  · split at h
    · cases h
    · rcases Option.map_eq_some_iff.mp h with ⟨l', hvalue, rfl⟩
      right
      simp only [Assoc.ofList_of_sorted (Assoc.sorted_of_keys (hkeys l' hvalue) hmembers), hvalue]

mutual

/-- A skeleton in order that reads back names the same entities as before. -/
theorem guidList_of_reread : ∀ (n : Skeleton) (room : Nat) (n' : Skeleton), n.Every InOrder →
    n.reread room = some n' → n'.guidList = n.guidList
  | ⟨own, scalars, refs, lists⟩, room, n' => by
      rintro ⟨horder, hrefs, hlists⟩ hn
      rw [reread] at hn
      split at hn
      · cases hn
      simp only [Option.bind_eq_bind, Option.bind_eq_some_iff, Option.pure_def,
        Option.some.injEq] at hn
      rcases hn with ⟨scalars', -, refs', hrefs', lists', hlists', rfl⟩
      have hsamerefs : refGuids refs' = refGuids refs := by
        rcases rereadMember_ofList horder.refs
          (fun l hl => (refGuids_of_reread refs _ l hrefs hl).1) hrefs' with ⟨rfl, rfl⟩ | hvalue
        · rfl
        · exact (refGuids_of_reread refs _ refs' hrefs hvalue).2
      have hsamelists : listGuids lists' = listGuids lists := by
        rcases rereadMember_ofList horder.lists
          (fun l hl => (listGuids_of_reread lists _ l hlists hl).1) hlists' with ⟨rfl, rfl⟩ | hvalue
        · rfl
        · exact (listGuids_of_reread lists _ lists' hlists hvalue).2
      simp only [guidList, hsamerefs, hsamelists]

theorem refGuids_of_reread : ∀ (refs : List (String × Skeleton)) (room : Nat)
    (refs' : List (String × Skeleton)), EveryRef InOrder refs →
    rereadRefs refs room = some refs' →
      refs'.map Prod.fst = refs.map Prod.fst ∧ refGuids refs' = refGuids refs
  | [], room, refs' => by
      intro _ hrefs
      cases hrefs
      exact ⟨rfl, rfl⟩
  | (k, child) :: rest, room, refs' => by
      rintro ⟨hchild, hrest⟩ hrefs
      rw [rereadRefs] at hrefs
      simp only [Option.bind_eq_bind, Option.bind_eq_some_iff, Option.pure_def,
        Option.some.injEq] at hrefs
      rcases hrefs with ⟨child', hchild', rest', hrest', rfl⟩
      rcases refGuids_of_reread rest room rest' hrest hrest' with ⟨hkeys, hguids⟩
      simp only [refGuids, List.map_cons, hkeys, hguids,
        guidList_of_reread child room child' hchild hchild', and_self]

theorem listGuids_of_reread : ∀ (lists : List (String × List Skeleton)) (room : Nat)
    (lists' : List (String × List Skeleton)), EveryList InOrder lists →
    rereadLists lists room = some lists' →
      lists'.map Prod.fst = lists.map Prod.fst ∧ listGuids lists' = listGuids lists
  | [], room, lists' => by
      intro _ hlists
      cases hlists
      exact ⟨rfl, rfl⟩
  | (k, items) :: rest, room, lists' => by
      rintro ⟨hitems, hrest⟩ hlists
      rw [rereadLists] at hlists
      simp only [Option.bind_eq_bind, Option.bind_eq_some_iff, Option.pure_def,
        Option.some.injEq] at hlists
      rcases hlists with ⟨items', hitems', rest', hrest', rfl⟩
      rcases listGuids_of_reread rest room rest' hrest hrest' with ⟨hkeys, hguids⟩
      split at hitems'
      · cases hitems'
      · simp only [listGuids, List.map_cons, hkeys, hguids,
          itemGuids_of_reread items (room - 1) items' hitems hitems', and_self]

theorem itemGuids_of_reread : ∀ (items : List Skeleton) (room : Nat) (items' : List Skeleton),
    EveryItem InOrder items → rereadItems items room = some items' →
      itemGuids items' = itemGuids items
  | [], room, items' => by
      intro _ hitems
      cases hitems
      rfl
  | child :: rest, room, items' => by
      rintro ⟨hchild, hrest⟩ hitems
      rw [rereadItems] at hitems
      simp only [Option.bind_eq_bind, Option.bind_eq_some_iff, Option.pure_def,
        Option.some.injEq] at hitems
      rcases hitems with ⟨child', hchild', rest', hrest', rfl⟩
      simp only [itemGuids, guidList_of_reread child room child' hchild hchild',
        itemGuids_of_reread rest room rest' hrest hrest']

end

mutual

/-- Without its marks a skeleton names the same entities. -/
theorem guidList_plain : ∀ n : Skeleton, n.plain.guidList = n.guidList
  | ⟨guid, scalars, refs, lists⟩ => by
      simp only [plain, guidList, refGuids_plain refs, listGuids_plain lists]

theorem refGuids_plain : ∀ refs : List (String × Skeleton),
    refGuids (plainRefs refs) = refGuids refs
  | [] => rfl
  | (k, child) :: rest => by
      simp only [plainRefs, refGuids, guidList_plain child, refGuids_plain rest]

theorem listGuids_plain : ∀ lists : List (String × List Skeleton),
    listGuids (plainLists lists) = listGuids lists
  | [] => rfl
  | (k, items) :: rest => by
      simp only [plainLists, listGuids, itemGuids_plain items, listGuids_plain rest]

theorem itemGuids_plain : ∀ items : List Skeleton, itemGuids (plainItems items) = itemGuids items
  | [] => rfl
  | child :: rest => by
      simp only [plainItems, itemGuids, guidList_plain child, itemGuids_plain rest]

end

end Skeleton
end EntityCache
