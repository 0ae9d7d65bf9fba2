import EntityCache.Data.Dict

/-!
# Look-ups in bindings

What the operations on sorted lists of bindings do to look-ups, where the list that is added is
itself sorted:

* `Assoc.get?_union_of_sorted`: of two sorted lists the second one hides the first.
* `Assoc.get?_filterMap`: look-up in a list whose values are changed or left out key by key.
* `Assoc.ofList_of_sorted`: a sorted list is its own dictionary.
* `Dict.get?_filter`: look-up in a dictionary from which keys are left out.
* `Dict.nodup_keys`, `KeySet.nodup_toList`: keys are listed once.
-/

namespace EntityCache
namespace Assoc

variable {κ α β : Type} [DecidableEq κ]

theorem get?_append (k : κ) (l m : List (κ × α)) :
    get? k (l ++ m) = (get? k l).or (get? k m) := by
  induction l with
  | nil =>
      simp
  | cons b rest ih =>
      rcases b with ⟨b₁, b₂⟩
      simp only [List.cons_append, get?_cons]
      split <;> simp [ih]

theorem isSome_get?_iff {k : κ} {l : List (κ × α)} :
    (get? k l).isSome = true ↔ ∃ v, (k, v) ∈ l := by
  constructor
  · intro h
    rcases Option.isSome_iff_exists.mp h with ⟨v, hv⟩
    exact ⟨v, mem_of_get? hv⟩
  · rintro ⟨v, hv⟩
    induction l with
    | nil =>
        cases hv
    | cons b rest ih =>
        rcases b with ⟨b₁, b₂⟩
        simp only [get?_cons]
        -- Looking up finds the first binding of a key, which need not be the given one.
        by_cases hk : k = b₁
        · simp [hk]
        · have hrest : (k, v) ∈ rest := by
            rcases List.mem_cons.mp hv with e | hv
            · exact absurd (congrArg Prod.fst e) hk
            · exact hv
          simpa [hk] using ih hrest

/-- Of a log the binding that was added last is found. -/
theorem mem_of_get?_reverse {k : κ} {v : α} {l : List (κ × α)} (h : get? k l.reverse = some v) :
    (k, v) ∈ l :=
  List.mem_reverse.mp (mem_of_get? h)

theorem get?_reverse_eq_none {k : κ} {l : List (κ × α)} (h : ∀ v, (k, v) ∉ l) :
    get? k l.reverse = none :=
  Option.eq_none_iff_forall_ne_some.mpr fun v hv => h v (mem_of_get?_reverse hv)

section Order

variable [Key κ]

omit [DecidableEq κ] in
theorem Sorted.tail {b : κ × α} {l : List (κ × α)} (h : Sorted (b :: l)) : Sorted l :=
  (List.pairwise_cons.mp h).2

omit [DecidableEq κ] in
/-- Only the keys have to be in order. -/
theorem sorted_of_keys {l : List (κ × α)} {m : List (κ × β)}
    (hkeys : m.map Prod.fst = l.map Prod.fst) : Sorted l → Sorted m := by
  intro h
  have hl : (l.map Prod.fst).Pairwise (fun k k' => Key.before k k' = true) :=
    List.pairwise_map.mpr h
  rw [← hkeys] at hl
  exact List.pairwise_map.mp hl

/-- In a sorted list no key occurs twice, so the direction of the search does not matter. -/
theorem get?_reverse {l : List (κ × α)} (h : Sorted l) (k : κ) : get? k l.reverse = get? k l := by
  induction l with
  | nil =>
      rfl
  | cons b rest ih =>
      rcases b with ⟨b₁, b₂⟩
      rw [List.reverse_cons, get?_append, ih h.tail, get?_cons]
      -- The first key does not occur again behind it.
      by_cases hk : k = b₁
      · have hnone : get? k rest = none := get?_eq_none_of_sorted h (Or.inr hk)
        subst hk
        simp [hnone, get?_cons]
      · simp [hk, get?_cons]

theorem Sorted.eq_of_mem {l : List (κ × α)} (h : Sorted l) {k : κ} {v w : α} (hv : (k, v) ∈ l)
    (hw : (k, w) ∈ l) : v = w :=
  Option.some.inj (((get?_eq_some_iff h).mpr hv).symm.trans ((get?_eq_some_iff h).mpr hw))

theorem get?_union_of_sorted {m : List (κ × α)} (hm : Sorted m) (l : List (κ × α)) (k : κ) :
    get? k (union l m) = (get? k m).or (get? k l) := by
  simp only [get?_union, get?_reverse hm]

theorem get?_ofList (l : List (κ × α)) (k : κ) : get? k (ofList l) = get? k l.reverse := by
  calc
    get? k (ofList l) = (get? k l.reverse).or (get? k []) := get?_union k [] l
    _ = get? k l.reverse := by simp

theorem mem_of_mem_ofList {l : List (κ × α)} {b : κ × α} (h : b ∈ ofList l) : b ∈ l := by
  have hget := (get?_eq_some_iff (sorted_ofList l)).mpr h
  simp only [get?_ofList] at hget
  exact mem_of_get?_reverse hget

theorem ofList_of_sorted {l : List (κ × α)} (h : Sorted l) : ofList l = l := by
  refine eq_of_get?_eq (sorted_ofList l) h ?_
  intro k
  calc
    get? k (ofList l) = get? k l.reverse := get?_ofList l k
    _ = get? k l := get?_reverse h k

/-! ## Changing the values -/

/-- The bindings with each value changed, or left out, by a function of key and value. -/
def filterMap (f : κ → α → Option β) (l : List (κ × α)) : List (κ × β) :=
  l.filterMap (fun b => (f b.1 b.2).map (fun v => (b.1, v)))

omit [DecidableEq κ] [Key κ] in
theorem filterMap_cons (f : κ → α → Option β) (k : κ) (v : α) (rest : List (κ × α)) :
    filterMap f ((k, v) :: rest) = ((f k v).map (fun w => (k, w))).toList ++ filterMap f rest := by
  cases hf : f k v <;> simp [filterMap, hf]

omit [DecidableEq κ] [Key κ] in
theorem mem_filterMap {f : κ → α → Option β} {l : List (κ × α)} {k : κ} {w : β} :
    (k, w) ∈ filterMap f l ↔ ∃ v, (k, v) ∈ l ∧ f k v = some w := by
  simp only [filterMap, List.mem_filterMap, Prod.exists, Option.map_eq_some_iff, Prod.mk.injEq]
  constructor
  · rintro ⟨k', v, hmem, w', hw, rfl, rfl⟩
    exact ⟨v, hmem, hw⟩
  · rintro ⟨v, hmem, hw⟩
    exact ⟨k, v, hmem, w, hw, rfl, rfl⟩

omit [DecidableEq κ] [Key κ] in
/-- The keys whose value is not left out. -/
theorem mem_keys_filterMap {f : κ → α → Option β} {l : List (κ × α)} {k : κ} :
    k ∈ (filterMap f l).map Prod.fst ↔ ∃ v, (k, v) ∈ l ∧ (f k v).isSome = true := by
  simp only [List.mem_map, Prod.exists, exists_eq_right, exists_and_right, mem_filterMap,
    Option.isSome_iff_exists]
  constructor
  · rintro ⟨w, v, hmem, hw⟩
    exact ⟨v, hmem, w, hw⟩
  · rintro ⟨v, hmem, w, hw⟩
    exact ⟨w, v, hmem, hw⟩

omit [DecidableEq κ] in
theorem Sorted.filterMap {l : List (κ × α)} (h : Sorted l) (f : κ → α → Option β) :
    Sorted (Assoc.filterMap f l) := by
  refine List.Pairwise.filterMap _ ?_ h
  intro a b hab a' ha b' hb
  -- Only values are changed, so the keys of what is left keep their order.
  rcases Option.map_eq_some_iff.mp ha with ⟨v, -, rfl⟩
  rcases Option.map_eq_some_iff.mp hb with ⟨w, -, rfl⟩
  exact hab

theorem get?_filterMap {l : List (κ × α)} (h : Sorted l) (f : κ → α → Option β) (k : κ) :
    get? k (filterMap f l) = (get? k l).bind (f k) := by
  induction l with
  | nil =>
      rfl
  | cons b rest ih =>
      rcases b with ⟨b₁, b₂⟩
      have hrest := ih h.tail
      simp only [filterMap_cons, get?_append, hrest, get?_cons]
      -- A first binding that is left out must not uncover a later one with its key.
      by_cases hk : k = b₁
      · subst hk
        have hnone : get? k rest = none := get?_eq_none_of_sorted h (Or.inr rfl)
        cases hf : f k b₂ <;> simp [hnone, get?_cons, hf]
      · cases hf : f b₁ b₂ <;> simp [get?_cons, hk]

theorem get?_filter {l : List (κ × α)} (h : Sorted l) (p : κ → α → Bool) (k : κ) :
    get? k (l.filter (fun b => p b.1 b.2)) = (get? k l).filter (p k) := by
  -- Leaving bindings out is one way of changing their values.
  have hform : l.filter (fun b => p b.1 b.2) =
      filterMap (fun k v => if p k v then some v else none) l := by
    clear h
    induction l with
    | nil =>
        rfl
    | cons b rest ih =>
        rcases b with ⟨k, v⟩
        simp only [filterMap_cons, ← ih]
        by_cases hp : p k v = true <;> simp [hp]
  simp only [hform, get?_filterMap h]
  cases get? k l with
  | none =>
      rfl
  | some v =>
      by_cases hp : p k v = true <;> simp [hp, Option.filter]

end Order
end Assoc

namespace Dict

variable {κ α β : Type} [DecidableEq κ] [Key κ]

theorem get?_filter (d : Dict κ α) (p : κ → α → Bool) (k : κ) :
    (d.filter p).get? k = (d.get? k).filter (p k) :=
  Assoc.get?_filter d.sorted p k

omit [DecidableEq κ] in
theorem nodup_keys (d : Dict κ α) : d.keys.Nodup := by
  refine List.pairwise_map.mpr (d.sorted.imp ?_)
  intro a b hlt
  exact Key.ne_of_before hlt

/-- The values of a dictionary, looked at one by one. -/
theorem filterMap_values {d : Dict κ α} {f : α → Option β} {g : κ → β}
    (h : ∀ k a, d.get? k = some a → f a = some (g k)) :
    d.values.filterMap f = d.keys.map g := by
  have hall : ∀ l : List (κ × α), (∀ b ∈ l, f b.2 = some (g b.1)) →
      (l.map Prod.snd).filterMap f = (l.map Prod.fst).map g := by
    intro l hl
    induction l with
    | nil =>
        rfl
    | cons b rest ih =>
        rcases List.forall_mem_cons.mp hl with ⟨hb, hrest⟩
        simp only [List.map_cons, List.filterMap_cons_some hb, ih hrest]
  exact hall d.bindings fun b hb => h b.1 b.2 (get?_eq_some_iff.mpr hb)

/-- Dictionaries with the same keys list them alike. -/
theorem keys_eq {d : Dict κ α} {e : Dict κ β}
    (h : ∀ k, (d.get? k).isSome = (e.get? k).isSome) : d.keys = e.keys := by
  -- Without their values both are the same set of keys.
  have hkeys : ∀ {γ : Type} (f : Dict κ γ), f.keys = (f.map fun _ => ()).keys := by
    intro γ f
    simp only [keys, map, List.map_map]
    rfl
  have hget : ∀ {γ : Type} (f : Dict κ γ) (k : κ),
      KeySet.mem (f.map fun _ => ()) k = (f.get? k).isSome := by
    intro γ f k
    have hform :
        (f.map fun _ => ()).bindings = Assoc.filterMap (fun _ _ => some ()) f.bindings := by
      simp [map, Assoc.filterMap]
    show (Assoc.get? k (f.map fun _ => ()).bindings).isSome = _
    simp only [hform, Assoc.get?_filterMap f.sorted]
    show ((f.get? k).bind _).isSome = _
    cases f.get? k <;> rfl
  have hsame : (d.map fun _ => ()) = e.map fun _ => () := by
    refine KeySet.ext_mem fun k => ?_
    simp only [hget, h]
  simp only [hkeys d, hkeys e, hsame]

theorem size_eq {d : Dict κ α} {e : Dict κ β}
    (h : ∀ k, (d.get? k).isSome = (e.get? k).isSome) : d.size = e.size := by
  have hkeys := congrArg List.length (keys_eq h)
  simp only [keys, List.length_map] at hkeys
  exact hkeys

end Dict

namespace KeySet

variable {κ : Type} [DecidableEq κ] [Key κ]

omit [DecidableEq κ] in
theorem nodup_toList (s : KeySet κ) : s.toList.Nodup :=
  Dict.nodup_keys s

theorem mem_of_isEmpty {s : KeySet κ} (h : s.isEmpty = true) (k : κ) : s.mem k = false := by
  rcases s with ⟨bindings, sorted⟩
  obtain rfl : bindings = [] := List.isEmpty_iff.mp h
  rfl

end KeySet
end EntityCache
