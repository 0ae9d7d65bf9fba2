import EntityCache.Data.Key

/-!
# Lists of bindings

Key-value lists as plain data, for types that nest (a value holds a list of named values) and as
the ground on which `Dict` stands:

* `get?`, `insert`, `erase`, `ofList` and `union` on `List (κ × α)`.
* `Sorted`: keys strictly ascending.
* what each operation does to `get?`, and that sorted lists with equal look-ups are equal.
-/

namespace EntityCache
namespace Assoc

variable {κ α : Type}

/-- The first value bound to `k`. -/
def get? [DecidableEq κ] (k : κ) : List (κ × α) → Option α
  | [] =>
      none
  | (k', v) :: rest =>
      if k = k' then some v else get? k rest

/-- Binds `k` to `v` at its place in the order, replacing an equal key met on the way. -/
def insert [DecidableEq κ] [Key κ] (k : κ) (v : α) : List (κ × α) → List (κ × α)
  | [] =>
      [(k, v)]
  | (k', v') :: rest =>
      if k = k' then (k, v) :: rest
      else if Key.before k k' then (k, v) :: (k', v') :: rest
      else (k', v') :: insert k v rest

/-- Without any binding of `k`. -/
def erase [DecidableEq κ] (k : κ) (l : List (κ × α)) : List (κ × α) :=
  l.filter (fun b => decide (b.1 ≠ k))

/-- `l` with every binding of `m` inserted in turn. -/
def union [DecidableEq κ] [Key κ] (l m : List (κ × α)) : List (κ × α) :=
  m.foldl (fun acc b => insert b.1 b.2 acc) l

/-- The bindings in key order, the last one of each key. -/
def ofList [DecidableEq κ] [Key κ] (l : List (κ × α)) : List (κ × α) :=
  union [] l

/-- Keys strictly ascending. -/
def Sorted [Key κ] (l : List (κ × α)) : Prop :=
  l.Pairwise (fun a b => Key.before a.1 b.1 = true)

theorem sorted_nil [Key κ] : Sorted ([] : List (κ × α)) := List.Pairwise.nil

/-! ## Look-up -/

section Lookup

variable [DecidableEq κ]

@[simp] theorem get?_nil (k : κ) : get? k ([] : List (κ × α)) = none := rfl

theorem get?_cons (k k' : κ) (v : α) (rest : List (κ × α)) :
    get? k ((k', v) :: rest) = if k = k' then some v else get? k rest := rfl

theorem get?_insert [Key κ] (k k' : κ) (v : α) (l : List (κ × α)) :
    get? k' (insert k v l) = if k' = k then some v else get? k' l := by
  induction l with
  | nil =>
      simp [insert, get?_cons]
  | cons b rest ih =>
      obtain ⟨b₁, b₂⟩ := b
      by_cases h : k = b₁
      · subst h
        by_cases hk : k' = k <;> simp [insert, get?_cons, hk]
      · by_cases hb : Key.before k b₁ = true
        · by_cases hk : k' = k <;> simp [insert, get?_cons, h, hb, hk]
        · by_cases hk : k' = b₁
          · subst hk
            have : ¬ k' = k := fun e => h e.symm
            simp [insert, get?_cons, h, hb, this]
          · simp [insert, get?_cons, h, hb, hk, ih]

theorem get?_erase (k k' : κ) (l : List (κ × α)) :
    get? k' (erase k l) = if k' = k then none else get? k' l := by
  induction l with
  | nil =>
      simp [erase]
  | cons b rest ih =>
      obtain ⟨b₁, b₂⟩ := b
      simp only [erase] at ih ⊢
      by_cases h : b₁ = k
      · subst h
        by_cases hk : k' = b₁ <;> simp_all [get?_cons]
      · by_cases hk : k' = b₁
        · subst hk
          simp [get?_cons, h]
        · simp_all [get?_cons]

theorem mem_of_get? {k : κ} {v : α} {l : List (κ × α)} (h : get? k l = some v) : (k, v) ∈ l := by
  induction l with
  | nil =>
      simp at h
  | cons b rest ih =>
      obtain ⟨b₁, b₂⟩ := b
      rw [get?_cons] at h
      split at h
      · simp_all
      · exact List.mem_cons_of_mem _ (ih h)

theorem get?_union [Key κ] (k : κ) (l m : List (κ × α)) :
    get? k (union l m) = (get? k m.reverse).or (get? k l) := by
  induction m generalizing l with
  | nil =>
      simp [union]
  | cons b rest ih =>
      have split : ∀ xs ys : List (κ × α), get? k (xs ++ ys) = (get? k xs).or (get? k ys) := by
        intro xs ys
        induction xs with
        | nil =>
            simp
        | cons x xs ihx =>
            obtain ⟨x₁, x₂⟩ := x
            simp only [List.cons_append, get?_cons]
            split <;> simp [ihx]
      -- The head of `m` goes in first, so a later binding of its key wins.
      have step : union l (b :: rest) = union (insert b.1 b.2 l) rest := rfl
      rw [step, ih, get?_insert, List.reverse_cons, split]
      cases get? k rest.reverse with
      | some v =>
          simp
      | none =>
          obtain ⟨b₁, b₂⟩ := b
          by_cases hb : k = b₁ <;> simp [get?_cons, hb]

end Lookup

/-! ## Order -/

section Order

variable [DecidableEq κ] [Key κ]

theorem mem_insert {k : κ} {v : α} {l : List (κ × α)} {b : κ × α} (h : b ∈ insert k v l) :
    b = (k, v) ∨ b ∈ l := by
  induction l with
  | nil =>
      simp_all [insert]
  | cons c rest ih =>
      obtain ⟨c₁, c₂⟩ := c
      rw [insert] at h
      split at h
      · rcases List.mem_cons.mp h with h | h <;> simp_all
      · split at h
        · rcases List.mem_cons.mp h with h | h <;> simp_all
        · rcases List.mem_cons.mp h with h | h
          · simp_all
          · rcases ih h with h | h <;> simp_all

theorem Sorted.insert {l : List (κ × α)} (h : Sorted l) (k : κ) (v : α) :
    Sorted (Assoc.insert k v l) := by
  induction l with
  | nil =>
      simp [Assoc.insert, Sorted]
  | cons c rest ih =>
      obtain ⟨c₁, c₂⟩ := c
      have hc := List.pairwise_cons.mp h
      rw [Assoc.insert]
      split
      · rename_i e
        subst e
        exact List.pairwise_cons.mpr hc
      · rename_i ne
        split
        · rename_i lt
          refine List.pairwise_cons.mpr ⟨?_, h⟩
          intro b hb
          rcases List.mem_cons.mp hb with rfl | hb
          · exact lt
          · exact Key.before_trans lt (hc.1 b hb)
        · rename_i nlt
          refine List.pairwise_cons.mpr ⟨?_, ih hc.2⟩
          -- Behind the head stands the new binding, whose key comes after, or an old one.
          intro b hb
          rcases mem_insert hb with rfl | hb
          · cases hlt : Key.before c₁ k with
            | true =>
                rfl
            | false =>
                exact absurd (Key.eq_of_incomparable (by simpa using nlt) hlt) ne
          · exact hc.1 b hb

theorem Sorted.erase {l : List (κ × α)} (h : Sorted l) (k : κ) : Sorted (Assoc.erase k l) :=
  List.Pairwise.filter _ h

theorem Sorted.union {l : List (κ × α)} (h : Sorted l) (m : List (κ × α)) :
    Sorted (Assoc.union l m) := by
  induction m generalizing l with
  | nil =>
      exact h
  | cons b rest ih =>
      exact ih (h.insert b.1 b.2)

theorem sorted_ofList (l : List (κ × α)) : Sorted (ofList l) :=
  sorted_nil.union l

theorem get?_eq_none_of_sorted {k : κ} {v : α} {rest : List (κ × α)}
    (h : Sorted ((k, v) :: rest)) {k' : κ} (hk : Key.before k' k = true ∨ k' = k) :
    get? k' rest = none := by
  cases hg : get? k' rest with
  | none =>
      rfl
  | some w =>
      have hlt := (List.pairwise_cons.mp h).1 _ (mem_of_get? hg)
      rcases hk with hk | rfl
      · have := Key.before_trans hlt hk
        rw [Key.before_irrefl] at this
        cases this
      · rw [Key.before_irrefl] at hlt
        cases hlt

/-- In a sorted list look-up and membership agree. -/
theorem get?_eq_some_iff {l : List (κ × α)} (h : Sorted l) {k : κ} {v : α} :
    get? k l = some v ↔ (k, v) ∈ l := by
  refine ⟨mem_of_get?, ?_⟩
  intro hm
  induction l with
  | nil =>
      cases hm
  | cons c rest ih =>
      obtain ⟨c₁, c₂⟩ := c
      rw [get?_cons]
      rcases List.mem_cons.mp hm with e | hm
      · cases e
        simp
      · have hlt := (List.pairwise_cons.mp h).1 _ hm
        have hne : ¬ k = c₁ := fun e => Key.ne_of_before hlt e.symm
        simp [hne, ih (List.pairwise_cons.mp h).2 hm]

/-- Sorted lists that answer every look-up alike are equal. -/
theorem eq_of_get?_eq {l m : List (κ × α)} (hl : Sorted l) (hm : Sorted m)
    (h : ∀ k, get? k l = get? k m) : l = m := by
  induction l generalizing m with
  | nil =>
      cases m with
      | nil =>
          rfl
      | cons b rest =>
          have := h b.1
          simp [get?] at this
  | cons a as ih =>
      cases m with
      | nil =>
          have := h a.1
          simp [get?] at this
      | cons b bs =>
          obtain ⟨a₁, a₂⟩ := a
          obtain ⟨b₁, b₂⟩ := b
          -- If the first keys differed, the smaller one would be found in one list only.
          have key : a₁ = b₁ := by
            cases hab : Key.before a₁ b₁ with
            | true =>
                have := h a₁
                rw [get?_cons, get?_cons, if_pos rfl, if_neg (Key.ne_of_before hab),
                  get?_eq_none_of_sorted hm (Or.inl hab)] at this
                cases this
            | false =>
                cases hba : Key.before b₁ a₁ with
                | true =>
                    have := h b₁
                    rw [get?_cons, get?_cons, if_pos rfl, if_neg (Key.ne_of_before hba),
                      get?_eq_none_of_sorted hl (Or.inl hba)] at this
                    cases this
                | false =>
                    exact Key.eq_of_incomparable hab hba
          subst key
          have val : a₂ = b₂ := by simpa [get?_cons] using h a₁
          subst val
          have tails : as = bs := by
            refine ih (List.pairwise_cons.mp hl).2 (List.pairwise_cons.mp hm).2 ?_
            intro k
            -- The tails do not have the first key, and other keys are not found in front.
            by_cases hk : k = a₁
            · rw [get?_eq_none_of_sorted hl (Or.inr hk), get?_eq_none_of_sorted hm (Or.inr hk)]
            · simpa [get?_cons, hk] using h k
          rw [tails]

end Order

end Assoc
end EntityCache
