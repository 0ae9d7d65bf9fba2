import EntityCache.Proofs.Json.Accepted
import EntityCache.Proofs.Normalize.Levels
import EntityCache.Proofs.Normalize.Placed

/-!
# Values and skeletons as they are read

What is read is ordered, has no marks, and is nested no deeper than there was room, however the
text is laid out:

* `Value.Composed`: what a value has from its parts; `Value.Composed.yields_read`: then every value
  that is read has it.
* `Value.AsRead`, `Value.yields_read`: values.
* `Skeleton.AsRead`, `Skeleton.yields_read`: skeletons, given as objects or as arrays, with any
  unknown fields.
* `Skeleton.reread_of_asRead`: so a skeleton that was read reads back as itself, if its numbers do.
-/

namespace EntityCache

open Json

/-! ## Values -/

namespace Value

/-- As it is read with room for so many open containers. -/
structure AsRead (room : Nat) (v : Value) : Prop where
  ordered : v.Ordered
  unmarked : v.plain = v
  within : v.nesting ≤ room

variable {room : Nat}

theorem plainItems_of_unmarked {items : List Value} (h : ∀ v ∈ items, v.plain = v) :
    plainItems items = items := by
  induction items with
  | nil =>
      rfl
  | cons v rest ih =>
      rcases List.forall_mem_cons.mp h with ⟨hv, hrest⟩
      simp only [plainItems, hv, ih hrest]

theorem plainFields_of_unmarked {fields : List (String × Value)}
    (h : ∀ b ∈ fields, b.2.plain = b.2) : plainFields fields = fields := by
  induction fields with
  | nil =>
      rfl
  | cons b rest ih =>
      rcases b with ⟨k, v⟩
      rcases List.forall_mem_cons.mp h with ⟨hv, hrest⟩
      simp only at hv
      simp only [plainFields, hv, ih hrest]

theorem asRead_list {items : List Value} (hroom : room ≠ 0)
    (h : ∀ v ∈ items, v.AsRead (room - 1)) : (Value.list items).AsRead room where
  ordered := orderedItems_iff.mpr fun v hv => (h v hv).ordered
  unmarked := by
    rw [plain, plainItems_of_unmarked fun v hv => (h v hv).unmarked]
  within := by
    have hlevels := nestingItems_le_iff.mpr fun v hv => (h v hv).within
    rw [nesting]
    omega

theorem asRead_map {fields : List (String × Value)} (hroom : room ≠ 0)
    (hsorted : Assoc.Sorted fields) (h : ∀ b ∈ fields, b.2.AsRead (room - 1)) :
    (Value.map fields).AsRead room where
  ordered := ⟨hsorted, orderedFields_iff.mpr fun b hb => (h b hb).ordered⟩
  unmarked := by
    rw [plain, plainFields_of_unmarked fun b hb => (h b hb).unmarked]
  within := by
    have hlevels := nestingFields_le_iff.mpr fun b hb => (h b hb).within
    rw [nesting]
    omega

/-- A property that a value with room for so many open containers has if its parts have it, and a
number if it is such a number. -/
structure Composed (N : Number → Prop) (P : Nat → Value → Prop) : Prop where
  null : ∀ room, P room .null
  bool : ∀ room b, P room (.bool b)
  num : ∀ room n, N n → P room (.num n)
  str : ∀ room s, P room (.str s)
  list : ∀ {room items}, room ≠ 0 → (∀ v ∈ items, P (room - 1) v) → P room (.list items)
  map : ∀ {room fields}, room ≠ 0 → Assoc.Sorted fields → (∀ b ∈ fields, P (room - 1) b.2) →
    P room (.map fields)

namespace Composed

variable {N : Number → Prop} {P : Nat → Value → Prop}

theorem yields_readWith (h : Composed N P) (hnumber : ∀ negative, Yields (readNumber negative) N)
    {item : Symbols → Scan Value} (hitem : room ≠ 0 → Yields item (P (room - 1))) :
    Yields (readWith item room) (P room) := by
  intro s v rest hread
  rw [readWith] at hread
  split at hread
  · cases hread
  · cases hread
  · next c rest' _ =>
      -- The branches in the order in which the reader tries them.
      split at hread
      · rcases exists_of_map_eq_ok hread with ⟨_, -, hfound⟩
        cases hfound
        exact h.null room
      split at hread
      · rcases exists_of_map_eq_ok hread with ⟨_, -, hfound⟩
        cases hfound
        exact h.bool room true
      split at hread
      · rcases exists_of_map_eq_ok hread with ⟨_, -, hfound⟩
        cases hfound
        exact h.bool room false
      split at hread
      · exact (Yields.any _).map (fun s _ => h.str room s) _ _ _ hread
      split at hread
      · exact (hnumber true).map (h.num room) _ _ _ hread
      split at hread
      · exact (hnumber false).map (h.num room) _ _ _ hread
      split at hread
      · exact (yields_series hitem).map (fun items hs => h.list hs.1 hs.2) _ _ _ hread
      split at hread
      · exact (yields_named hitem).map (fun fields hs => h.map hs.1 hs.2.1 hs.2.2) _ _ _ hread
      · cases hread

/-- Whatever is read has the property, if the numbers that are read are such. -/
theorem yields_read (h : Composed N P) (hnumber : ∀ negative, Yields (readNumber negative) N)
    (room : Nat) : Yields (read room) (P room) := by
  induction room with
  | zero =>
      exact h.yields_readWith hnumber fun h => absurd rfl h
  | succ room ih =>
      exact h.yields_readWith hnumber fun _ => ih

end Composed

theorem composed_asRead : Composed (fun _ => True) AsRead where
  null _ := ⟨trivial, rfl, Nat.zero_le _⟩
  bool _ _ := ⟨trivial, rfl, Nat.zero_le _⟩
  num _ _ _ := ⟨trivial, rfl, Nat.zero_le _⟩
  str _ _ := ⟨trivial, rfl, Nat.zero_le _⟩
  list := asRead_list
  map := asRead_map

theorem yields_read (room : Nat) : Yields (read room) (AsRead room) :=
  composed_asRead.yields_read (fun _ => .any _) room

end Value

/-! ## Skeletons -/

namespace Skeleton

/-- The members of a skeleton are ordered, and so are its scalars. -/
structure Ordered (n : Skeleton) : Prop extends InOrder n where
  values : ∀ b ∈ n.scalars, b.2.Ordered

/-- As it is read with room for so many open containers. -/
structure AsRead (room : Nat) (n : Skeleton) : Prop where
  ordered : n.Every Ordered
  unmarked : n.plain = n
  within : n.nesting ≤ room

/-- A member as it is read, or left out. -/
structure MemberAsRead {α : Type} (room : Nat) (P : α → Prop) (members : List (String × α)) :
    Prop where
  sorted : Assoc.Sorted members
  room : members ≠ [] → room ≠ 0
  parts : ∀ b ∈ members, P b.2

/-- The members read so far of a skeleton. -/
structure PartsAsRead (room : Nat) (n : Skeleton) : Prop where
  scalars : MemberAsRead (room - 1) (Value.AsRead (room - 2)) n.scalars
  refs : MemberAsRead (room - 1) (AsRead (room - 2)) n.refs
  lists : MemberAsRead (room - 1)
    (fun items => room - 2 ≠ 0 ∧ ∀ child ∈ items, child.AsRead (room - 3)) n.lists

variable {room : Nat}

namespace MemberAsRead

variable {α : Type} {P : α → Prop} {members : List (String × α)}

theorem nil : MemberAsRead room P ([] : List (String × α)) :=
  ⟨Assoc.sorted_nil, fun h => absurd rfl h, fun _ hb => absurd hb List.not_mem_nil⟩

theorem memberNesting_le (h : MemberAsRead room P members) {inner : Nat}
    (hinner : inner ≤ room - 1) : memberNesting members inner ≤ room := by
  rw [memberNesting]
  split
  · exact Nat.zero_le _
  · next hsome =>
      have hroom := h.room fun hnone => hsome (List.isEmpty_iff.mpr hnone)
      omega

end MemberAsRead

theorem partsAsRead_empty : PartsAsRead room empty :=
  ⟨.nil, .nil, .nil⟩

/-! ### Members together -/

theorem nestingRefs_le {refs : List (String × Skeleton)} {d : Nat}
    (h : ∀ b ∈ refs, b.2.nesting ≤ d) : nestingRefs refs ≤ d := by
  induction refs with
  | nil =>
      exact Nat.zero_le _
  | cons b rest ih =>
      rcases b with ⟨k, child⟩
      rcases List.forall_mem_cons.mp h with ⟨hchild, hrest⟩
      exact Nat.max_le.mpr ⟨hchild, ih hrest⟩

theorem nestingItems_le {items : List Skeleton} {d : Nat} (h : ∀ child ∈ items, child.nesting ≤ d) :
    nestingItems items ≤ d := by
  induction items with
  | nil =>
      exact Nat.zero_le _
  | cons child rest ih =>
      rcases List.forall_mem_cons.mp h with ⟨hchild, hrest⟩
      exact Nat.max_le.mpr ⟨hchild, ih hrest⟩

theorem nestingLists_le {lists : List (String × List Skeleton)} {d : Nat}
    (h : ∀ b ∈ lists, nestingItems b.2 + 1 ≤ d) : nestingLists lists ≤ d := by
  induction lists with
  | nil =>
      exact Nat.zero_le _
  | cons b rest ih =>
      rcases b with ⟨k, items⟩
      rcases List.forall_mem_cons.mp h with ⟨hitems, hrest⟩
      exact Nat.max_le.mpr ⟨hitems, ih hrest⟩

theorem plainRefs_of_unmarked {refs : List (String × Skeleton)}
    (h : ∀ b ∈ refs, b.2.plain = b.2) : plainRefs refs = refs := by
  induction refs with
  | nil =>
      rfl
  | cons b rest ih =>
      rcases b with ⟨k, child⟩
      rcases List.forall_mem_cons.mp h with ⟨hchild, hrest⟩
      simp only at hchild
      simp only [plainRefs, hchild, ih hrest]

theorem plainItems_of_unmarked {items : List Skeleton} (h : ∀ child ∈ items, child.plain = child) :
    plainItems items = items := by
  induction items with
  | nil =>
      rfl
  | cons child rest ih =>
      rcases List.forall_mem_cons.mp h with ⟨hchild, hrest⟩
      simp only [plainItems, hchild, ih hrest]

theorem plainLists_of_unmarked {lists : List (String × List Skeleton)}
    (h : ∀ b ∈ lists, ∀ child ∈ b.2, child.plain = child) : plainLists lists = lists := by
  induction lists with
  | nil =>
      rfl
  | cons b rest ih =>
      rcases b with ⟨k, items⟩
      rcases List.forall_mem_cons.mp h with ⟨hitems, hrest⟩
      simp only [plainLists, plainItems_of_unmarked hitems, ih hrest]

namespace PartsAsRead

variable {n : Skeleton}

theorem every_ordered (h : PartsAsRead room n) : n.Every Ordered := by
  rcases n with ⟨guid, scalars, refs, lists⟩
  rcases h with ⟨hscalars, hrefs, hlists⟩
  have hown : Ordered ⟨guid, scalars, refs, lists⟩ :=
    ⟨⟨hscalars.sorted, hrefs.sorted, hlists.sorted⟩, fun b hb => (hscalars.parts b hb).ordered⟩
  have hitems : ∀ b ∈ lists, ∀ child ∈ b.2, child.Every Ordered := fun b hb child hchild =>
    ((hlists.parts b hb).2 child hchild).ordered
  exact ⟨hown, everyRef_iff.mpr fun b hb => (hrefs.parts b hb).ordered, everyList_iff.mpr hitems⟩

theorem plain_eq (h : PartsAsRead room n) : n.plain = n := by
  rcases n with ⟨guid, scalars, refs, lists⟩
  rcases h with ⟨hscalars, hrefs, hlists⟩
  have hitems : ∀ b ∈ lists, ∀ child ∈ b.2, child.plain = child := fun b hb child hchild =>
    ((hlists.parts b hb).2 child hchild).unmarked
  simp only [plain, Value.plainFields_of_unmarked fun b hb => (hscalars.parts b hb).unmarked,
    plainRefs_of_unmarked fun b hb => (hrefs.parts b hb).unmarked, plainLists_of_unmarked hitems]

/-- A member takes one of the open containers, and a list of objects another one. -/
theorem nesting_le (h : PartsAsRead room n) (hroom : room ≠ 0) : n.nesting ≤ room := by
  rcases n with ⟨guid, scalars, refs, lists⟩
  rcases h with ⟨hscalars, hrefs, hlists⟩
  have hfields : Value.nestingFields scalars ≤ room - 2 :=
    Value.nestingFields_le_iff.mpr fun b hb => (hscalars.parts b hb).within
  have hobjects : nestingRefs refs ≤ room - 2 :=
    nestingRefs_le fun b hb => (hrefs.parts b hb).within
  have hseries : nestingLists lists ≤ room - 2 := by
    refine nestingLists_le fun b hb => ?_
    rcases hlists.parts b hb with ⟨hopen, hitems⟩
    have hlevels : nestingItems b.2 ≤ room - 3 :=
      nestingItems_le fun child hchild => (hitems child hchild).within
    omega
  -- A member that is not empty opens the object that holds it.
  have hone : memberNesting scalars (Value.nestingFields scalars) ≤ room - 1 :=
    hscalars.memberNesting_le (by omega)
  have htwo : memberNesting refs (nestingRefs refs) ≤ room - 1 :=
    hrefs.memberNesting_le (by omega)
  have hthree : memberNesting lists (nestingLists lists) ≤ room - 1 :=
    hlists.memberNesting_le (by omega)
  rw [nesting]
  omega

theorem asRead (h : PartsAsRead room n) (hroom : room ≠ 0) : n.AsRead room :=
  ⟨h.every_ordered, h.plain_eq, h.nesting_le hroom⟩

end PartsAsRead

/-! ### Reading -/

theorem yields_readField {child : Nat → Symbols → Scan Skeleton}
    (hchild : ∀ room, Yields (child room) (AsRead room)) (name : String) (n : Skeleton)
    (hn : PartsAsRead room n) : Yields (readField child room name n) (PartsAsRead room) := by
  intro s n' rest h
  rw [readField] at h
  -- Each field replaces one part, and the others stay as they were read.
  split at h
  · rcases exists_of_map_eq_ok h with ⟨⟨guid, _⟩, -, hfound⟩
    cases hfound
    exact ⟨hn.scalars, hn.refs, hn.lists⟩
  split at h
  · rcases exists_of_map_eq_ok h with ⟨⟨scalars, _⟩, hread, hfound⟩
    cases hfound
    have hscalars := yields_named (fun _ => Value.yields_read _) _ _ _ hread
    exact ⟨⟨hscalars.2.1, fun _ => hscalars.1, hscalars.2.2⟩, hn.refs, hn.lists⟩
  split at h
  · rcases exists_of_map_eq_ok h with ⟨⟨refs, _⟩, hread, hfound⟩
    cases hfound
    have hrefs := yields_named (fun _ => hchild _) _ _ _ hread
    exact ⟨hn.scalars, ⟨hrefs.2.1, fun _ => hrefs.1, hrefs.2.2⟩, hn.lists⟩
  · rcases exists_of_map_eq_ok h with ⟨⟨lists, _⟩, hread, hfound⟩
    cases hfound
    have hlists := yields_named (fun _ => yields_series fun _ => hchild _) _ _ _ hread
    exact ⟨hn.scalars, hn.refs, ⟨hlists.2.1, fun _ => hlists.1, hlists.2.2⟩⟩

theorem yields_readFrom (fuel room : Nat) : Yields (readFrom fuel room) (AsRead room) := by
  induction fuel generalizing room with
  | zero =>
      intro s n rest h
      cases h
  | succ fuel ih =>
      intro s n rest h
      have hrecord := yields_record partsAsRead_empty
        (fun name acc hacc => yields_readField ih name acc hacc)
        (fun state n' hstate hfinish => Except.ok.inj hfinish ▸ hstate) s n rest h
      exact hrecord.2.asRead hrecord.1

/-- Whatever text a skeleton is read from, it is ordered, has no marks, and fits. -/
theorem asRead_of_ofText? {text : String} {n : Skeleton} (h : ofText? text = .ok n) :
    n.AsRead maxRoom :=
  document_yields (yields_readFrom (maxRoom + 1) maxRoom) h

/-! ### Reading back -/

mutual

/-- What every node has in two respects, it has together. -/
theorem Every.and_imp {P Q R : Skeleton → Prop} (h : ∀ n, P n → Q n → R n) :
    ∀ n : Skeleton, n.Every P → n.Every Q → n.Every R
  | ⟨_, _, refs, lists⟩ => fun hP hQ =>
      ⟨h _ hP.1 hQ.1, everyRef_and_imp h refs hP.2.1 hQ.2.1,
        everyList_and_imp h lists hP.2.2 hQ.2.2⟩

theorem everyRef_and_imp {P Q R : Skeleton → Prop} (h : ∀ n, P n → Q n → R n) :
    ∀ refs : List (String × Skeleton), EveryRef P refs → EveryRef Q refs → EveryRef R refs
  | [] => fun _ _ => trivial
  | (_, child) :: rest => fun hP hQ =>
      ⟨Every.and_imp h child hP.1 hQ.1, everyRef_and_imp h rest hP.2 hQ.2⟩

theorem everyList_and_imp {P Q R : Skeleton → Prop} (h : ∀ n, P n → Q n → R n) :
    ∀ lists : List (String × List Skeleton), EveryList P lists → EveryList Q lists →
      EveryList R lists
  | [] => fun _ _ => trivial
  | (_, items) :: rest => fun hP hQ =>
      ⟨everyItem_and_imp h items hP.1 hQ.1, everyList_and_imp h rest hP.2 hQ.2⟩

theorem everyItem_and_imp {P Q R : Skeleton → Prop} (h : ∀ n, P n → Q n → R n) :
    ∀ items : List Skeleton, EveryItem P items → EveryItem Q items → EveryItem R items
  | [] => fun _ _ => trivial
  | child :: rest => fun hP hQ =>
      ⟨Every.and_imp h child hP.1 hQ.1, everyItem_and_imp h rest hP.2 hQ.2⟩

end

theorem Ordered.stable {n : Skeleton} (h : n.Ordered) (hnumbers : n.HasNumbers Number.Kept) :
    n.Stable :=
  ⟨h.toInOrder, fun b hb => ⟨h.values b hb, Value.everyNumberFields_iff.mp hnumbers b hb⟩⟩

/-- A skeleton that was read is read again from its own text, if its numbers are. -/
theorem reread_of_asRead {n : Skeleton} (h : n.AsRead room)
    (hnumbers : n.Every (HasNumbers Number.Kept)) : n.reread room = some n := by
  have hstable := Every.and_imp (fun _ => Ordered.stable) n h.ordered hnumbers
  rw [reread_eq_plain n room hstable h.within, h.unmarked]

end Skeleton
end EntityCache
