import EntityCache.Proofs.Codec.Integers
import EntityCache.Proofs.Codec.Skeletons

/-!
# Nesting of stored forms

How deep the containers of a stored text are nested decides whether it reads back:

* `Value.nesting`, `Skeleton.nesting`, `Snapshot.nesting`: the levels of the text.  A nested object
  takes two levels of a skeleton, a list of objects three.
* `Number.Legible`: a number whose text is read as a value.
* `Value.isSome_reread`, `Skeleton.isSome_reread`, `Snapshot.isSome_reread`: what consists of such
  numbers reads back exactly if it is nested no deeper than there is room.
-/

namespace EntityCache

open Json

/-- Both parts have to be there. -/
theorem isSome_both {α β γ : Type} (x : Option α) (y : Option β) (f : α → β → γ) :
    (do
      let a ← x
      let b ← y
      pure (f a b)).isSome = true ↔ x.isSome = true ∧ y.isSome = true := by
  cases x with
  | none =>
      simp
  | some a =>
      cases y with
      | none =>
          simp
      | some b =>
          simp

/-! ## Values -/

/-- A number whose text is read as a value. -/
def Number.Legible (n : Number) : Prop :=
  n.reread.isSome = true

namespace Value

mutual

/-- The levels of the text of a value. -/
def nesting : Value → Nat
  | .list items => nestingItems items + 1
  | .map fields => nestingFields fields + 1
  | _ => 0

def nestingItems : List Value → Nat
  | [] => 0
  | v :: rest => max (nesting v) (nestingItems rest)

def nestingFields : List (String × Value) → Nat
  | [] => 0
  | (_, v) :: rest => max (nesting v) (nestingFields rest)

end

mutual

/-- Every number in a value is such. -/
def EveryNumber (P : Number → Prop) : Value → Prop
  | .num n => P n
  | .list items => EveryNumberItems P items
  | .map fields => EveryNumberFields P fields
  | _ => True

def EveryNumberItems (P : Number → Prop) : List Value → Prop
  | [] => True
  | v :: rest => EveryNumber P v ∧ EveryNumberItems P rest

def EveryNumberFields (P : Number → Prop) : List (String × Value) → Prop
  | [] => True
  | (_, v) :: rest => EveryNumber P v ∧ EveryNumberFields P rest

end

theorem everyNumberItems_iff {P : Number → Prop} {items : List Value} :
    EveryNumberItems P items ↔ ∀ v ∈ items, v.EveryNumber P := by
  induction items with
  | nil =>
      simp [EveryNumberItems]
  | cons v rest ih =>
      simp [EveryNumberItems, ih]

theorem everyNumberFields_iff {P : Number → Prop} {fields : List (String × Value)} :
    EveryNumberFields P fields ↔ ∀ b ∈ fields, b.2.EveryNumber P := by
  induction fields with
  | nil =>
      simp [EveryNumberFields]
  | cons b rest ih =>
      rcases b with ⟨k, v⟩
      simp only [EveryNumberFields, ih, List.forall_mem_cons]

mutual

theorem everyNumber_mono {P Q : Number → Prop} (h : ∀ n, P n → Q n) :
    ∀ v : Value, v.EveryNumber P → v.EveryNumber Q
  | .null => fun hv => hv
  | .bool _ => fun hv => hv
  | .num n => fun hn => h n hn
  | .str _ => fun hv => hv
  | .id _ => fun hv => hv
  | .list items => fun hitems => everyNumberItems_mono h items hitems
  | .map fields => fun hfields => everyNumberFields_mono h fields hfields

theorem everyNumberItems_mono {P Q : Number → Prop} (h : ∀ n, P n → Q n) :
    ∀ items : List Value, EveryNumberItems P items → EveryNumberItems Q items
  | [] => fun hitems => hitems
  | v :: rest => fun hitems =>
      ⟨everyNumber_mono h v hitems.1, everyNumberItems_mono h rest hitems.2⟩

theorem everyNumberFields_mono {P Q : Number → Prop} (h : ∀ n, P n → Q n) :
    ∀ fields : List (String × Value), EveryNumberFields P fields → EveryNumberFields Q fields
  | [] => fun hfields => hfields
  | (_, v) :: rest => fun hfields =>
      ⟨everyNumber_mono h v hfields.1, everyNumberFields_mono h rest hfields.2⟩

end

mutual

/-- A value of legible numbers reads back exactly if there is room for its levels. -/
theorem isSome_reread : ∀ (v : Value) (room : Nat), v.EveryNumber Number.Legible →
    ((v.reread room).isSome = true ↔ v.nesting ≤ room)
  | .null, room => by
      intro _
      simp [reread, nesting]
  | .bool b, room => by
      intro _
      simp [reread, nesting]
  | .num n, room => by
      intro hn
      have hlegible : n.reread.isSome = true := hn
      simp [reread, nesting, hlegible]
  | .str s, room => by
      intro _
      simp [reread, nesting]
  | .id s, room => by
      intro _
      simp [reread, nesting]
  | .list items, 0 => by
      intro _
      simp [reread, nesting]
  | .list items, room + 1 => by
      intro hitems
      have hinner := isSome_rereadItems items room hitems
      simp only [reread, if_neg (Nat.succ_ne_zero room), Nat.add_sub_cancel, Option.isSome_map,
        hinner, nesting, Nat.add_le_add_iff_right]
  | .map fields, 0 => by
      intro _
      simp [reread, nesting]
  | .map fields, room + 1 => by
      intro hfields
      have hinner := isSome_rereadFields fields room hfields
      simp only [reread, if_neg (Nat.succ_ne_zero room), Nat.add_sub_cancel, Option.isSome_map,
        hinner, nesting, Nat.add_le_add_iff_right]

theorem isSome_rereadItems : ∀ (items : List Value) (room : Nat),
    EveryNumberItems Number.Legible items →
      ((rereadItems items room).isSome = true ↔ nestingItems items ≤ room)
  | [], room => by
      intro _
      simp [rereadItems, nestingItems]
  | v :: rest, room => by
      rintro ⟨hv, hrest⟩
      simp only [rereadItems, isSome_both, isSome_reread v room hv,
        isSome_rereadItems rest room hrest, nestingItems, Nat.max_le]

theorem isSome_rereadFields : ∀ (fields : List (String × Value)) (room : Nat),
    EveryNumberFields Number.Legible fields →
      ((rereadFields fields room).isSome = true ↔ nestingFields fields ≤ room)
  | [], room => by
      intro _
      simp [rereadFields, nestingFields]
  | (k, v) :: rest, room => by
      rintro ⟨hv, hrest⟩
      simp only [rereadFields, isSome_both, isSome_reread v room hv,
        isSome_rereadFields rest room hrest, nestingFields, Nat.max_le]

end

mutual

/-- Marks take no level. -/
theorem nesting_plain : ∀ v : Value, v.plain.nesting = v.nesting
  | .null => rfl
  | .bool _ => rfl
  | .num _ => rfl
  | .str _ => rfl
  | .id _ => rfl
  | .list items => by
      simp only [plain, nesting, nestingItems_plain items]
  | .map fields => by
      simp only [plain, nesting, nestingFields_plain fields]

theorem nestingItems_plain : ∀ items : List Value, nestingItems (plainItems items) =
    nestingItems items
  | [] => rfl
  | v :: rest => by
      simp only [plainItems, nestingItems, nesting_plain v, nestingItems_plain rest]

theorem nestingFields_plain : ∀ fields : List (String × Value),
    nestingFields (plainFields fields) = nestingFields fields
  | [] => rfl
  | (k, v) :: rest => by
      simp only [plainFields, nestingFields, nesting_plain v, nestingFields_plain rest]

end

end Value

/-! ## Entities -/

namespace Snapshot

/-- The levels of the text of a snapshot: its own object and the one of its fields. -/
def nesting (s : Snapshot) : Nat :=
  Value.nestingFields s.fields.bindings + 2

theorem isSome_reread {s : Snapshot} (hs : Value.EveryNumberFields Number.Legible s.fields.bindings)
    (room : Nat) : (s.reread room).isSome = true ↔ s.nesting ≤ room := by
  have hinner := Value.isSome_rereadFields s.fields.bindings (room - 2) hs
  simp only [reread, rereadFields, nesting]
  split
  · simp only [Option.isSome_none, Bool.false_eq_true, false_iff]
    omega
  · split
    · simp only [Option.map_none, Option.isSome_none, Bool.false_eq_true, false_iff]
      omega
    · simp only [Option.isSome_map, hinner]
      omega

end Snapshot

/-! ## Skeletons -/

namespace Skeleton

/-- The levels of a member, which takes none if it is left out. -/
def memberNesting {α : Type} (members : List α) (inner : Nat) : Nat :=
  if members.isEmpty then 0 else inner + 1

mutual

/-- The levels of the text of a skeleton. -/
def nesting : Skeleton → Nat
  | ⟨_, scalars, refs, lists⟩ =>
      max (memberNesting scalars (Value.nestingFields scalars))
        (max (memberNesting refs (nestingRefs refs)) (memberNesting lists (nestingLists lists))) + 1

def nestingRefs : List (String × Skeleton) → Nat
  | [] => 0
  | (_, child) :: rest => max (nesting child) (nestingRefs rest)

def nestingLists : List (String × List Skeleton) → Nat
  | [] => 0
  | (_, items) :: rest => max (nestingItems items + 1) (nestingLists rest)

def nestingItems : List Skeleton → Nat
  | [] => 0
  | child :: rest => max (nesting child) (nestingItems rest)

end

mutual

/-- A skeleton and every skeleton nested in it are such. -/
def Every (P : Skeleton → Prop) : Skeleton → Prop
  | ⟨guid, scalars, refs, lists⟩ =>
      P ⟨guid, scalars, refs, lists⟩ ∧ EveryRef P refs ∧ EveryList P lists

def EveryRef (P : Skeleton → Prop) : List (String × Skeleton) → Prop
  | [] => True
  | (_, child) :: rest => Every P child ∧ EveryRef P rest

def EveryList (P : Skeleton → Prop) : List (String × List Skeleton) → Prop
  | [] => True
  | (_, items) :: rest => EveryItem P items ∧ EveryList P rest

def EveryItem (P : Skeleton → Prop) : List Skeleton → Prop
  | [] => True
  | child :: rest => Every P child ∧ EveryItem P rest

end

/-- The scalars that a skeleton keeps itself have only such numbers. -/
def HasNumbers (P : Number → Prop) (n : Skeleton) : Prop :=
  Value.EveryNumberFields P n.scalars

theorem isSome_rereadMember {α β : Type} (members : List α) (room : Nat) {inner : Nat}
    {value : Option (List (String × β))} (hvalue : value.isSome = true ↔ inner ≤ room - 1) :
    (rereadMember members room value).isSome = true ↔ memberNesting members inner ≤ room := by
  simp only [rereadMember, memberNesting]
  split
  · simp
  · split
    · simp only [Option.isSome_none, Bool.false_eq_true, false_iff]
      omega
    · simp only [Option.isSome_map, hvalue]
      omega

mutual

/-- A skeleton of legible numbers reads back exactly if there is room for its levels. -/
theorem isSome_reread : ∀ (n : Skeleton) (room : Nat), n.Every (HasNumbers Number.Legible) →
    ((n.reread room).isSome = true ↔ n.nesting ≤ room)
  | ⟨guid, scalars, refs, lists⟩, room => by
      rintro ⟨hscalars, hrefs, hlists⟩
      -- A member stands one level below the skeleton, and what it holds one more.
      have hroom : ∀ room : Nat, room - 2 = room - 1 - 1 := fun room => by omega
      have hscalars' := isSome_rereadMember scalars (room - 1)
        (Value.isSome_rereadFields scalars (room - 1 - 1) hscalars)
      have hrefs' := isSome_rereadMember refs (room - 1)
        (isSome_rereadRefs refs (room - 1 - 1) hrefs)
      have hlists' := isSome_rereadMember lists (room - 1)
        (isSome_rereadLists lists (room - 1 - 1) hlists)
      simp only [← hroom] at hscalars' hrefs' hlists'
      simp only [reread, nesting]
      split
      · simp only [Option.isSome_none, Bool.false_eq_true, false_iff]
        omega
      · have hall : ∀ (x : Option (List (String × Value))) (y : Option (List (String × Skeleton)))
            (z : Option (List (String × List Skeleton))),
            (do
              let scalars' ← x
              let refs' ← y
              let lists' ← z
              pure (Skeleton.mk guid scalars' refs' lists')).isSome = true ↔
                x.isSome = true ∧ y.isSome = true ∧ z.isSome = true := by
          intro x y z
          cases x with
          | none =>
              simp
          | some scalars' =>
              simp only [Option.bind_eq_bind, Option.bind_some, Option.isSome_some, true_and]
              exact isSome_both y z fun refs' lists' => Skeleton.mk guid scalars' refs' lists'
        simp only [hall, hscalars', hrefs', hlists']
        omega

theorem isSome_rereadRefs : ∀ (refs : List (String × Skeleton)) (room : Nat),
    EveryRef (HasNumbers Number.Legible) refs →
      ((rereadRefs refs room).isSome = true ↔ nestingRefs refs ≤ room)
  | [], room => by
      intro _
      simp [rereadRefs, nestingRefs]
  | (k, child) :: rest, room => by
      rintro ⟨hchild, hrest⟩
      simp only [rereadRefs, isSome_both, isSome_reread child room hchild,
        isSome_rereadRefs rest room hrest, nestingRefs, Nat.max_le]

theorem isSome_rereadLists : ∀ (lists : List (String × List Skeleton)) (room : Nat),
    EveryList (HasNumbers Number.Legible) lists →
      ((rereadLists lists room).isSome = true ↔ nestingLists lists ≤ room)
  | [], room => by
      intro _
      simp [rereadLists, nestingLists]
  | (k, items) :: rest, room => by
      rintro ⟨hitems, hrest⟩
      have hinner : (if room = 0 then none else rereadItems items (room - 1)).isSome = true ↔
          nestingItems items + 1 ≤ room := by
        split
        · simp only [Option.isSome_none, Bool.false_eq_true, false_iff]
          omega
        · simp only [isSome_rereadItems items (room - 1) hitems]
          omega
      simp only [rereadLists, isSome_both, hinner, isSome_rereadLists rest room hrest,
        nestingLists, Nat.max_le]

theorem isSome_rereadItems : ∀ (items : List Skeleton) (room : Nat),
    EveryItem (HasNumbers Number.Legible) items →
      ((rereadItems items room).isSome = true ↔ nestingItems items ≤ room)
  | [], room => by
      intro _
      simp [rereadItems, nestingItems]
  | child :: rest, room => by
      rintro ⟨hchild, hrest⟩
      simp only [rereadItems, isSome_both, isSome_reread child room hchild,
        isSome_rereadItems rest room hrest, nestingItems, Nat.max_le]

end

end Skeleton
end EntityCache
