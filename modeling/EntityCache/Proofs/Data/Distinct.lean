import EntityCache.Proofs.Data.Bindings
import Mathlib.Data.List.Nodup
import Mathlib.Data.List.Perm.Subperm

/-!
# Lists with distinct keys

A list of bindings in any order, as long as no key occurs twice:

* `Assoc.get?_of_mem`, `Assoc.get?_ofList_of_nodup`: such a list and its dictionary answer alike.
* `Assoc.ofList_eq_iff`: when two such lists are the same dictionary.
* `Dict.count_values_le_one`: a value that has one key at most occurs at most once.
-/

namespace EntityCache
namespace Assoc

variable {κ α : Type} [DecidableEq κ]

theorem mem_keys_iff {l : List (κ × α)} {k : κ} :
    k ∈ l.map Prod.fst ↔ (get? k l).isSome = true := by
  simp only [isSome_get?_iff, List.mem_map, Prod.exists, exists_and_right, exists_eq_right]

theorem get?_eq_none_of_notMem {l : List (κ × α)} {k : κ} :
    k ∉ l.map Prod.fst → get? k l = none := by
  intro h
  simpa only [mem_keys_iff, Option.not_isSome_iff_eq_none] using h

theorem get?_of_mem {l : List (κ × α)} (h : (l.map Prod.fst).Nodup) {b : κ × α} :
    b ∈ l → get? b.1 l = some b.2 := by
  intro hb
  induction l with
  | nil =>
      cases hb
  | cons c rest ih =>
      rcases c with ⟨k, v⟩
      rcases List.nodup_cons.mp h with ⟨hfirst, hrest⟩
      rcases List.mem_cons.mp hb with rfl | hb
      · exact if_pos rfl
      -- The first key does not occur again behind it.
      · have hne : b.1 ≠ k := fun e => hfirst (e ▸ List.mem_map.mpr ⟨b, hb, rfl⟩)
        rw [get?_cons, if_neg hne]
        exact ih hrest hb

omit [DecidableEq κ] in
theorem count_values_le_one [DecidableEq α] {l : List (κ × α)} {a : α}
    (h : (l.map Prod.fst).Nodup) :
    (∀ k k', (k, a) ∈ l → (k', a) ∈ l → k = k') → (l.map Prod.snd).count a ≤ 1 := by
  intro hone
  induction l with
  | nil =>
      exact Nat.zero_le 1
  | cons b rest ih =>
      rcases b with ⟨k, v⟩
      rcases List.nodup_cons.mp h with ⟨hfirst, hrest⟩
      by_cases hv : v = a
      · subst hv
        -- Behind the first binding the value would have the same key.
        have hnone : v ∉ rest.map Prod.snd := by
          intro hmem
          rcases List.mem_map.mp hmem with ⟨b, hb, heq⟩
          have hb' : (b.1, v) ∈ rest := heq ▸ hb
          have hkey := hone k b.1 List.mem_cons_self (List.mem_cons_of_mem _ hb')
          exact hfirst (List.mem_map.mpr ⟨b, hb, hkey.symm⟩)
        refine Nat.le_of_eq ?_
        rw [List.map_cons, List.count_cons_self, List.count_eq_zero.mpr hnone]
      · rw [List.map_cons, List.count_cons_of_ne hv]
        exact ih hrest fun k k' hk hk' =>
          hone k k' (List.mem_cons_of_mem _ hk) (List.mem_cons_of_mem _ hk')

variable [Key κ]

theorem get?_ofList_of_nodup {l : List (κ × α)} (h : (l.map Prod.fst).Nodup) (k : κ) :
    get? k (ofList l) = get? k l := by
  cases hget : get? k l with
  | none =>
      have hreverse : k ∉ l.reverse.map Prod.fst := by
        simp only [List.map_reverse, List.mem_reverse, mem_keys_iff, hget, Option.isSome_none,
          Bool.false_eq_true, not_false_iff]
      rw [get?_ofList, get?_eq_none_of_notMem hreverse]
  | some v =>
      have hreverse : (l.reverse.map Prod.fst).Nodup := by
        simpa only [List.map_reverse, List.nodup_reverse] using h
      rw [get?_ofList]
      exact get?_of_mem hreverse (List.mem_reverse.mpr (mem_of_get? hget))

/-- Lists with distinct keys are the same dictionary exactly if they are of one length and each
binding of one is found in the other. -/
theorem ofList_eq_iff {l m : List (κ × α)} (hl : (l.map Prod.fst).Nodup)
    (hm : (m.map Prod.fst).Nodup) :
    ofList l = ofList m ↔ l.length = m.length ∧ ∀ b ∈ l, get? b.1 m = some b.2 := by
  constructor
  · intro h
    have hget : ∀ k, get? k l = get? k m := by
      intro k
      rw [← get?_ofList_of_nodup hl, h, get?_ofList_of_nodup hm]
    have hkeys : (l.map Prod.fst).Perm (m.map Prod.fst) := by
      refine (List.perm_ext_iff_of_nodup hl hm).mpr fun k => ?_
      simp only [mem_keys_iff, hget]
    refine ⟨?_, fun b hb => ?_⟩
    · simpa only [List.length_map] using hkeys.length_eq
    · rw [← hget]
      exact get?_of_mem hl hb
  · rintro ⟨hlength, hbound⟩
    -- The keys of the first list are among those of the second, and there are as many.
    have hsubset : l.map Prod.fst ⊆ m.map Prod.fst := by
      intro k hk
      rcases List.mem_map.mp hk with ⟨b, hb, rfl⟩
      simp only [mem_keys_iff, hbound b hb, Option.isSome_some]
    have hkeys : (l.map Prod.fst).Perm (m.map Prod.fst) := by
      refine (List.subperm_of_subset hl hsubset).perm_of_length_le ?_
      simp only [List.length_map, hlength, Nat.le_refl]
    refine eq_of_get?_eq (sorted_ofList l) (sorted_ofList m) fun k => ?_
    rw [get?_ofList_of_nodup hl, get?_ofList_of_nodup hm]
    cases hget : get? k l with
    | none =>
        have hnone : k ∉ m.map Prod.fst := by
          simp only [← hkeys.mem_iff, mem_keys_iff, hget, Option.isSome_none, Bool.false_eq_true,
            not_false_iff]
        exact (get?_eq_none_of_notMem hnone).symm
    | some v =>
        exact (hbound _ (mem_of_get? hget)).symm

end Assoc

theorem Dict.count_values_le_one {κ α : Type} [DecidableEq κ] [Key κ] [DecidableEq α]
    {d : Dict κ α} {a : α} :
    (∀ k k', d.get? k = some a → d.get? k' = some a → k = k') → d.values.count a ≤ 1 := by
  intro hone
  refine Assoc.count_values_le_one d.nodup_keys ?_
  intro k k' hk hk'
  exact hone k k' (Dict.get?_eq_some_iff.mpr hk) (Dict.get?_eq_some_iff.mpr hk')

end EntityCache
