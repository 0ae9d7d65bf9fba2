import EntityCache.Skeleton
import EntityCache.Proofs.Codec.Values
import EntityCache.Proofs.Data.Bindings

/-!
# Skeletons read back

* `Skeleton.reread`: what the text of a skeleton reads back as.
* `Skeleton.reads_chars`, `Skeleton.ofText?_text`: it does.
* `Skeleton.guidList_reread`, `Skeleton.guidList_ofText?`: reading back adds no entity.
-/

namespace EntityCache

open Json

namespace Skeleton

/-! ## Rereading -/

/-- A member that is left out reads back as empty, and any other one takes room. -/
def rereadMember {α β : Type} (members : List α) (room : Nat)
    (reread : Option (List (String × β))) : Option (List (String × β)) :=
  if members.isEmpty then some []
  else if room = 0 then none
  else reread.map Assoc.ofList

mutual

/-- What the text of a skeleton reads back as, with room for so many open containers. -/
def reread : Skeleton → Nat → Option Skeleton
  | ⟨guid, scalars, refs, lists⟩, room =>
      if room = 0 then none
      else do
        let scalars' ← rereadMember scalars (room - 1) (Value.rereadFields scalars (room - 2))
        let refs' ← rereadMember refs (room - 1) (rereadRefs refs (room - 2))
        let lists' ← rereadMember lists (room - 1) (rereadLists lists (room - 2))
        pure ⟨guid, scalars', refs', lists'⟩

def rereadRefs : List (String × Skeleton) → Nat → Option (List (String × Skeleton))
  | [], _ => some []
  | (k, child) :: rest, room => do
      let child ← reread child room
      let rest ← rereadRefs rest room
      pure ((k, child) :: rest)

def rereadLists : List (String × List Skeleton) → Nat → Option (List (String × List Skeleton))
  | [], _ => some []
  | (k, items) :: rest, room => do
      let items ← (if room = 0 then none else rereadItems items (room - 1))
      let rest ← rereadLists rest room
      pure ((k, items) :: rest)

def rereadItems : List Skeleton → Nat → Option (List Skeleton)
  | [], _ => some []
  | child :: rest, room => do
      let child ← reread child room
      let rest ← rereadItems rest room
      pure (child :: rest)

end

theorem rereadRefs_eq (refs : List (String × Skeleton)) (room : Nat) :
    rereadRefs refs room = refs.mapM (fun b => (b.2.reread room).map (fun n => (b.1, n))) := by
  induction refs with
  | nil =>
      rfl
  | cons b rest ih =>
      rcases b with ⟨k, child⟩
      simp only [rereadRefs, List.mapM_cons, ih]
      cases child.reread room <;> rfl

theorem rereadItems_eq (items : List Skeleton) (room : Nat) :
    rereadItems items room = items.mapM (fun n => n.reread room) := by
  induction items with
  | nil =>
      rfl
  | cons child rest ih =>
      rw [rereadItems, List.mapM_cons, ih]

theorem rereadLists_eq (lists : List (String × List Skeleton)) (room : Nat) :
    rereadLists lists room =
      lists.mapM (fun b => (if room = 0 then none else rereadItems b.2 (room - 1)).map
        (fun items => (b.1, items))) := by
  induction lists with
  | nil =>
      rfl
  | cons b rest ih =>
      rcases b with ⟨k, items⟩
      rw [rereadLists, List.mapM_cons, ih]
      cases (if room = 0 then none else rereadItems items (room - 1)) <;> rfl

theorem refChars_eq (refs : List (String × Skeleton)) :
    refChars refs = refs.map (fun b => (b.1, chars b.2)) := by
  induction refs with
  | nil =>
      rfl
  | cons b rest ih =>
      rcases b with ⟨k, child⟩
      rw [refChars, ih, List.map_cons]

theorem itemChars_eq (items : List Skeleton) : itemChars items = items.map chars := by
  induction items with
  | nil =>
      rfl
  | cons child rest ih =>
      rw [itemChars, ih, List.map_cons]

theorem listChars_eq (lists : List (String × List Skeleton)) :
    listChars lists = lists.map (fun b => (b.1, arrayChars (itemChars b.2))) := by
  induction lists with
  | nil =>
      rfl
  | cons b rest ih =>
      rcases b with ⟨k, items⟩
      rw [listChars, ih, List.map_cons]

/-! ## Members -/

theorem mem_member {name : String} {members : List (String × List Char)}
    {m : String × List Char} : m ∈ member name members → m = (name, objectChars members) := by
  intro h
  rw [member] at h
  split at h
  · cases h
  · exact List.mem_singleton.mp h

/-- The fields of a skeleton, those that are not left out. -/
def members (n : Skeleton) : List (String × List Char) :=
  guidMember n.guid ++ member "scalars" (Value.fieldChars n.scalars) ++
    member "refs" (refChars n.refs) ++ member "lists" (listChars n.lists)

theorem chars_eq (n : Skeleton) : n.chars = objectChars n.members := by
  rcases n with ⟨guid, scalars, refs, lists⟩
  rw [chars, members]

theorem mem_members {n : Skeleton} {m : String × List Char} : m ∈ n.members →
    (∃ guid, n.guid = some guid ∧ m = ("guid", quoted guid)) ∨
      m = ("scalars", objectChars (Value.fieldChars n.scalars)) ∨
      m = ("refs", objectChars (refChars n.refs)) ∨
      m = ("lists", objectChars (listChars n.lists)) := by
  intro hm
  simp only [members, List.mem_append] at hm
  rcases hm with ((hm | hm) | hm) | hm
  · left
    cases hguid : n.guid with
    | none =>
        rw [hguid] at hm
        cases hm
    | some guid =>
        rw [hguid] at hm
        exact ⟨guid, rfl, List.mem_singleton.mp hm⟩
  · exact Or.inr (Or.inl (mem_member hm))
  · exact Or.inr (Or.inr (Or.inl (mem_member hm)))
  · exact Or.inr (Or.inr (Or.inr (mem_member hm)))

theorem nodup_members (n : Skeleton) : (n.members.map Prod.fst).Nodup := by
  -- The members stand in the order of the declared names, some of them left out.
  have hnames : (n.members.map Prod.fst).Sublist fieldNames := by
    have hguid : ((guidMember n.guid).map Prod.fst).Sublist ["guid"] := by
      cases n.guid with
      | none =>
          exact List.nil_sublist _
      | some guid =>
          exact List.Sublist.refl _
    have hmember : ∀ name members, ((member name members).map Prod.fst).Sublist [name] := by
      intro name members
      rw [member]
      split
      · exact List.nil_sublist _
      · exact List.Sublist.refl _
    simp only [members, List.map_append]
    exact ((hguid.append (hmember _ _)).append (hmember _ _)).append (hmember _ _)
  exact hnames.nodup (by decide)

/-- What one field adds to what has been read of a skeleton. -/
def rereadField (n : Skeleton) (room : Nat) (m : String × List Char) (acc : Skeleton) :
    Option Skeleton :=
  if m.1 = "guid" then some { acc with guid := n.guid }
  else if m.1 = "scalars" then
    (if room - 1 = 0 then none
      else (Value.rereadFields n.scalars (room - 2)).map Assoc.ofList).map
        (fun scalars => { acc with scalars := scalars })
  else if m.1 = "refs" then
    (if room - 1 = 0 then none else (rereadRefs n.refs (room - 2)).map Assoc.ofList).map
      (fun refs => { acc with refs := refs })
  else
    (if room - 1 = 0 then none else (rereadLists n.lists (room - 2)).map Assoc.ofList).map
      (fun lists => { acc with lists := lists })

/-- A left-out member changes nothing, and any other one adds what its text reads back as. -/
theorem foldlM_member {β α : Type} {f : Skeleton → String × List Char → Option Skeleton}
    {name : String} {texts : List (String × List Char)} {l : List α} {room : Nat}
    {acc : Skeleton} {value : Option (List (String × β))} {put : List (String × β) → Skeleton}
    (hempty : texts.isEmpty = l.isEmpty) (hput : put [] = acc)
    (hf : f acc (name, objectChars texts) =
      (if room = 0 then none else value.map Assoc.ofList).map put) :
    (member name texts).foldlM f acc = (rereadMember l room value).map put := by
  rw [member, rereadMember, hempty]
  split
  · rw [Option.map_some, hput]
    rfl
  · simp [hf]

/-- The fields together are the skeleton read back. -/
theorem foldlM_members (n : Skeleton) {room : Nat} (hroom : room ≠ 0) :
    n.members.foldlM (fun acc m => rereadField n room m acc) empty = n.reread room := by
  rcases n with ⟨guid, scalars, refs, lists⟩
  let step (acc : Skeleton) (m : String × List Char) : Option Skeleton :=
    rereadField ⟨guid, scalars, refs, lists⟩ room m acc
  -- Each group of members sets one field, and none is read before those in front of it.
  have hguid : (guidMember guid).foldlM step empty = some ⟨guid, [], [], []⟩ := by
    cases guid <;> rfl
  have hscalars : (member "scalars" (Value.fieldChars scalars)).foldlM step ⟨guid, [], [], []⟩ =
      (rereadMember scalars (room - 1) (Value.rereadFields scalars (room - 2))).map
        (fun ss => ⟨guid, ss, [], []⟩) :=
    foldlM_member (by rw [Value.fieldChars_eq, List.isEmpty_map]) rfl rfl
  have hrefs : ∀ ss, (member "refs" (refChars refs)).foldlM step ⟨guid, ss, [], []⟩ =
      (rereadMember refs (room - 1) (rereadRefs refs (room - 2))).map
        (fun rs => ⟨guid, ss, rs, []⟩) :=
    fun ss => foldlM_member (by rw [refChars_eq, List.isEmpty_map]) rfl rfl
  have hlists : ∀ ss rs, (member "lists" (listChars lists)).foldlM step ⟨guid, ss, rs, []⟩ =
      (rereadMember lists (room - 1) (rereadLists lists (room - 2))).map
        (fun ls => ⟨guid, ss, rs, ls⟩) :=
    fun ss rs => foldlM_member (by rw [listChars_eq, List.isEmpty_map]) rfl rfl
  show (members _).foldlM step empty = _
  rw [members, List.foldlM_append, List.foldlM_append, List.foldlM_append, hguid, reread,
    if_neg hroom]
  simp only [Option.bind_eq_bind, Option.bind_some, hscalars]
  cases rereadMember scalars (room - 1) (Value.rereadFields scalars (room - 2)) with
  | none =>
      rfl
  | some ss =>
      simp only [Option.map_some, Option.bind_some, hrefs]
      cases rereadMember refs (room - 1) (rereadRefs refs (room - 2)) with
      | none =>
          rfl
      | some rs =>
          simp only [Option.map_some, Option.bind_some, hlists]
          cases rereadMember lists (room - 1) (rereadLists lists (room - 2)) <;> rfl

/-! ## Reading -/

theorem opens_chars (n : Skeleton) : Opens n.chars := by
  rw [chars_eq]
  exact ⟨'{', _, rfl, rfl, by decide, by decide⟩

/-- A skeleton is read as it should if its nested skeletons are. -/
theorem reads_of_nested (n : Skeleton) (room : Nat) {child : Nat → Symbols → Scan Skeleton}
    (hrefs : room ≠ 0 → ∀ b ∈ n.refs, Reads (child (room - 2)) b.2.chars (b.2.reread (room - 2)))
    (hlists : room ≠ 0 → ∀ b ∈ n.lists, ∀ x ∈ b.2,
      Reads (child (room - 3)) x.chars (x.reread (room - 3))) :
    Reads (readRecord fieldNames room (readField child room) empty .ok) n.chars
      (n.reread room) := by
  rw [chars_eq]
  by_cases hroom : room = 0
  · -- Without room the text is refused at its first bracket.
    have hnone : n.reread room = none := by
      rcases n with ⟨guid, scalars, refs, lists⟩
      rw [reread, if_pos hroom]
    rw [hnone, hroom]
    exact fun _ _ => rfl
  have hknown : ∀ m ∈ n.members, m.1 ∈ fieldNames := by
    intro m hm
    rcases mem_members hm with ⟨guid, -, rfl⟩ | rfl | rfl | rfl <;> simp [fieldNames]
  have hfield : ∀ m ∈ n.members, ∀ acc,
      Reads (readField child room m.1 acc) m.2 (rereadField n room m acc) := by
    intro m hm acc
    rcases mem_members hm with ⟨guid, hguid, rfl⟩ | rfl | rfl | rfl
    · have hread := (reads_optional_text guid).map
        (fun guid => ({ acc with guid := guid } : Skeleton))
      rw [← hguid] at hread
      exact hread
    · exact (Value.reads_object n.scalars (room - 1)).map
        (fun scalars => ({ acc with scalars := scalars } : Skeleton))
    · have hread := reads_named (room - 1) chars (fun x => x.reread (room - 2)) (hrefs hroom)
      rw [← refChars_eq, ← rereadRefs_eq] at hread
      exact hread.map (fun refs => ({ acc with refs := refs } : Skeleton))
    -- A list of skeletons is an array within an object within the object.
    · have hseries : ∀ b ∈ n.lists, Reads (readSeries (room - 2) (child (room - 3)))
          (arrayChars (itemChars b.2))
          (if room - 2 = 0 then none else rereadItems b.2 (room - 2 - 1)) := by
        intro b hb
        rw [itemChars_eq, rereadItems_eq]
        exact reads_series (room - 2) (fun x _ => opens_chars x) (hlists hroom b hb)
      have hread := reads_named (room - 1) (fun items => arrayChars (itemChars items))
        (fun items => if room - 2 = 0 then none else rereadItems items (room - 2 - 1)) hseries
      rw [← listChars_eq, ← rereadLists_eq] at hread
      exact hread.map (fun lists => ({ acc with lists := lists } : Skeleton))
  have hread : Reads (readRecord fieldNames room (readField child room) empty .ok)
      (objectChars n.members) _ := reads_record hknown (nodup_members n) hfield
  rw [if_neg hroom, foldlM_members n hroom] at hread
  cases hn : n.reread room with
  | none =>
      simp only [hn] at hread
      exact hread
  | some n' =>
      rw [hn] at hread
      exact hread

mutual

/-- The text of a skeleton is read as it should; the room runs out before the fuel does. -/
theorem reads_chars : ∀ (n : Skeleton) (fuel room : Nat), room ≤ fuel →
    Reads (readFrom (fuel + 1) room) n.chars (n.reread room)
  | ⟨guid, scalars, refs, lists⟩, fuel, room, hfuel => by
      refine reads_of_nested _ room ?_ ?_
      · intro hroom b hb
        rcases Nat.exists_eq_add_one.mpr (show 0 < fuel by omega) with ⟨fuel, rfl⟩
        exact reads_refs refs fuel (room - 2) (by omega) b hb
      · intro hroom b hb x hx
        rcases Nat.exists_eq_add_one.mpr (show 0 < fuel by omega) with ⟨fuel, rfl⟩
        exact reads_lists lists fuel (room - 3) (by omega) b hb x hx

theorem reads_refs : ∀ (refs : List (String × Skeleton)) (fuel room : Nat), room ≤ fuel →
    ∀ b ∈ refs, Reads (readFrom (fuel + 1) room) b.2.chars (b.2.reread room)
  | [], _, _, _ => by
      simp
  | (k, child) :: rest, fuel, room, hfuel => by
      intro b hb
      rcases List.mem_cons.mp hb with hsame | hb
      · rw [hsame]
        exact reads_chars child fuel room hfuel
      · exact reads_refs rest fuel room hfuel b hb

theorem reads_lists : ∀ (lists : List (String × List Skeleton)) (fuel room : Nat), room ≤ fuel →
    ∀ b ∈ lists, ∀ x ∈ b.2, Reads (readFrom (fuel + 1) room) x.chars (x.reread room)
  | [], _, _, _ => by
      simp
  | (k, items) :: rest, fuel, room, hfuel => by
      intro b hb
      rcases List.mem_cons.mp hb with hsame | hb
      · simp only [hsame]
        exact reads_items items fuel room hfuel
      · exact reads_lists rest fuel room hfuel b hb

theorem reads_items : ∀ (items : List Skeleton) (fuel room : Nat), room ≤ fuel →
    ∀ x ∈ items, Reads (readFrom (fuel + 1) room) x.chars (x.reread room)
  | [], _, _, _ => by
      simp
  | child :: rest, fuel, room, hfuel => by
      intro x hx
      rcases List.mem_cons.mp hx with hsame | hx
      · rw [hsame]
        exact reads_chars child fuel room hfuel
      · exact reads_items rest fuel room hfuel x hx

end

/-- What the whole text of a skeleton reads back as. -/
theorem ofText?_text (n : Skeleton) : (ofText? n.text).toOption = n.reread maxRoom := by
  simp only [ofText?, text, symbolsOf_ofList]
  exact document_of_reads (reads_chars n maxRoom maxRoom (Nat.le_refl _))

/-! ## Entities -/

theorem mem_refGuids {refs : List (String × Skeleton)} {guid : Guid} :
    guid ∈ refGuids refs ↔ ∃ b ∈ refs, guid ∈ b.2.guidList := by
  induction refs with
  | nil =>
      simp [refGuids]
  | cons b rest ih =>
      rcases b with ⟨k, child⟩
      simp [refGuids, ih]

theorem mem_listGuids {lists : List (String × List Skeleton)} {guid : Guid} :
    guid ∈ listGuids lists ↔ ∃ b ∈ lists, guid ∈ itemGuids b.2 := by
  induction lists with
  | nil =>
      simp [listGuids]
  | cons b rest ih =>
      rcases b with ⟨k, items⟩
      simp [listGuids, ih]

theorem refGuids_ofList {refs : List (String × Skeleton)} {guid : Guid} :
    guid ∈ refGuids (Assoc.ofList refs) → guid ∈ refGuids refs := by
  intro h
  rcases mem_refGuids.mp h with ⟨b, hb, hguid⟩
  exact mem_refGuids.mpr ⟨b, Assoc.mem_of_mem_ofList hb, hguid⟩

theorem listGuids_ofList {lists : List (String × List Skeleton)} {guid : Guid} :
    guid ∈ listGuids (Assoc.ofList lists) → guid ∈ listGuids lists := by
  intro h
  rcases mem_listGuids.mp h with ⟨b, hb, hguid⟩
  exact mem_listGuids.mpr ⟨b, Assoc.mem_of_mem_ofList hb, hguid⟩

/-- A member that is read back comes from what was read back of its parts. -/
theorem rereadMember_cases {α β : Type} {members : List α} {room : Nat}
    {value : Option (List (String × β))} {l : List (String × β)}
    (h : rereadMember members room value = some l) :
    l = [] ∨ ∃ l', value = some l' ∧ l = Assoc.ofList l' := by
  simp only [rereadMember] at h
  split at h
  · cases h
    exact Or.inl rfl
  · split at h
    · cases h
    · rcases Option.map_eq_some_iff.mp h with ⟨l', hvalue, rfl⟩
      exact Or.inr ⟨l', hvalue, rfl⟩

mutual

/-- Reading back loses fields at most, so it adds no entity. -/
theorem guidList_reread {guid : Guid} : ∀ (n : Skeleton) (room : Nat) (n' : Skeleton),
    n.reread room = some n' → guid ∈ n'.guidList → guid ∈ n.guidList
  | ⟨own, scalars, refs, lists⟩, room, n', hn, hguid => by
      rw [reread] at hn
      split at hn
      · cases hn
      simp only [Option.bind_eq_bind, Option.bind_eq_some_iff, Option.pure_def,
        Option.some.injEq] at hn
      rcases hn with ⟨scalars', -, refs', hrefs, lists', hlists, rfl⟩
      simp only [guidList, List.mem_append] at hguid ⊢
      rcases hguid with (hguid | hguid) | hguid
      · exact Or.inl (Or.inl hguid)
      · rcases rereadMember_cases hrefs with rfl | ⟨refs'', hrefs', rfl⟩
        · cases hguid
        · have hmem := refGuids_ofList hguid
          exact Or.inl (Or.inr (refGuids_reread refs (room - 2) refs'' hrefs' hmem))
      · rcases rereadMember_cases hlists with rfl | ⟨lists'', hlists', rfl⟩
        · cases hguid
        · have hmem := listGuids_ofList hguid
          exact Or.inr (listGuids_reread lists (room - 2) lists'' hlists' hmem)

theorem refGuids_reread {guid : Guid} : ∀ (refs : List (String × Skeleton)) (room : Nat)
    (refs' : List (String × Skeleton)),
    rereadRefs refs room = some refs' → guid ∈ refGuids refs' → guid ∈ refGuids refs
  | [], room, refs', hrefs, hguid => by
      cases hrefs
      exact hguid
  | (k, child) :: rest, room, refs', hrefs, hguid => by
      rw [rereadRefs] at hrefs
      simp only [Option.bind_eq_bind, Option.bind_eq_some_iff, Option.pure_def,
        Option.some.injEq] at hrefs
      rcases hrefs with ⟨child', hchild, rest', hrest, rfl⟩
      simp only [refGuids, List.mem_append] at hguid ⊢
      rcases hguid with hguid | hguid
      · exact Or.inl (guidList_reread child room child' hchild hguid)
      · exact Or.inr (refGuids_reread rest room rest' hrest hguid)

theorem listGuids_reread {guid : Guid} : ∀ (lists : List (String × List Skeleton)) (room : Nat)
    (lists' : List (String × List Skeleton)),
    rereadLists lists room = some lists' → guid ∈ listGuids lists' → guid ∈ listGuids lists
  | [], room, lists', hlists, hguid => by
      cases hlists
      exact hguid
  | (k, items) :: rest, room, lists', hlists, hguid => by
      rw [rereadLists] at hlists
      simp only [Option.bind_eq_bind, Option.bind_eq_some_iff, Option.pure_def,
        Option.some.injEq] at hlists
      rcases hlists with ⟨items', hitems, rest', hrest, rfl⟩
      simp only [listGuids, List.mem_append] at hguid ⊢
      rcases hguid with hguid | hguid
      · split at hitems
        · cases hitems
        · exact Or.inl (itemGuids_reread items (room - 1) items' hitems hguid)
      · exact Or.inr (listGuids_reread rest room rest' hrest hguid)

theorem itemGuids_reread {guid : Guid} : ∀ (items : List Skeleton) (room : Nat)
    (items' : List Skeleton),
    rereadItems items room = some items' → guid ∈ itemGuids items' → guid ∈ itemGuids items
  | [], room, items', hitems, hguid => by
      cases hitems
      exact hguid
  | child :: rest, room, items', hitems, hguid => by
      rw [rereadItems] at hitems
      simp only [Option.bind_eq_bind, Option.bind_eq_some_iff, Option.pure_def,
        Option.some.injEq] at hitems
      rcases hitems with ⟨child', hchild, rest', hrest, rfl⟩
      simp only [itemGuids, List.mem_append] at hguid ⊢
      rcases hguid with hguid | hguid
      · exact Or.inl (guidList_reread child room child' hchild hguid)
      · exact Or.inr (itemGuids_reread rest room rest' hrest hguid)

end

/-- A stored skeleton names only entities of the skeleton that was stored. -/
theorem guidList_ofText? {n n' : Skeleton} {guid : Guid} :
    ofText? n.text = .ok n' → guid ∈ n'.guidList → guid ∈ n.guidList := by
  intro hn hguid
  have hreread := ofText?_text n
  rw [hn] at hreread
  exact guidList_reread n maxRoom n' hreread.symm hguid

end Skeleton
end EntityCache
