/-!
# Ordered keys

Maps and sets of this library are kept in key order, because every answer lists names in that
order.  This module states what a key type must provide:

* `Key κ`: a decidable strict total order on `κ`.
* instances for `String` (by code point, which is also the order of the UTF-8 bytes), `Nat`,
  pairs and lists (both lexicographic, a proper beginning first).
-/

namespace EntityCache

/-- A decidable strict total order. -/
class Key (κ : Type) where
  /-- The order itself, as a test. -/
  before : κ → κ → Bool
  before_irrefl : ∀ a : κ, before a a = false
  before_trans : ∀ {a b c : κ}, before a b = true → before b c = true → before a c = true
  eq_of_incomparable : ∀ {a b : κ}, before a b = false → before b a = false → a = b

namespace Key

variable {κ : Type} [Key κ]

theorem before_asymm {a b : κ} (h : before a b = true) : before b a = false := by
  cases hba : before b a with
  | false =>
      rfl
  | true =>
      have := before_trans h hba
      rw [before_irrefl] at this
      exact this.symm

theorem ne_of_before {a b : κ} (h : before a b = true) : a ≠ b := by
  rintro rfl
  rw [before_irrefl] at h
  cases h

/-! ## Instances -/

instance : Key String where
  before a b := decide (a < b)
  before_irrefl a := decide_eq_false (String.lt_irrefl a)
  before_trans h₁ h₂ := by
    simp only [decide_eq_true_eq] at *
    exact String.lt_trans h₁ h₂
  eq_of_incomparable h₁ h₂ := by
    simp only [decide_eq_false_iff_not] at *
    exact String.le_antisymm (String.not_lt.mp h₂) (String.not_lt.mp h₁)

instance : Key Nat where
  before a b := decide (a < b)
  before_irrefl a := by simp
  before_trans h₁ h₂ := by
    simp only [decide_eq_true_eq] at *
    omega
  eq_of_incomparable h₁ h₂ := by
    simp only [decide_eq_false_iff_not] at *
    omega

/-- Pairs compare by the first component and, where that is equal, by the second. -/
def beforePair {α β : Type} [Key α] [Key β] (a b : α × β) : Bool :=
  before a.1 b.1 || (!before b.1 a.1 && before a.2 b.2)

instance {α β : Type} [Key α] [Key β] : Key (α × β) where
  before := beforePair
  before_irrefl a := by simp [beforePair, before_irrefl]
  before_trans {a b c} h₁ h₂ := by
    simp only [beforePair, Bool.or_eq_true, Bool.and_eq_true, Bool.not_eq_true'] at *
    -- Each step is by the first component, or by the second where the first ones tie.
    rcases h₁ with h₁ | ⟨n₁, h₁⟩ <;> rcases h₂ with h₂ | ⟨n₂, h₂⟩
    · exact Or.inl (before_trans h₁ h₂)
    · refine Or.inl ?_
      cases hbc : before b.1 c.1 with
      | true =>
          exact before_trans h₁ hbc
      | false =>
          rw [← eq_of_incomparable hbc n₂]
          exact h₁
    · refine Or.inl ?_
      cases hab : before a.1 b.1 with
      | true =>
          exact before_trans hab h₂
      | false =>
          rw [eq_of_incomparable hab n₁]
          exact h₂
    · cases hac : before a.1 c.1 with
      | true =>
          exact Or.inl rfl
      | false =>
          refine Or.inr ⟨?_, before_trans h₁ h₂⟩
          -- If `c` came before `a`, it would come before `b` too, with which it ties.
          cases hca : before c.1 a.1 with
          | false =>
              rfl
          | true =>
              cases hab : before a.1 b.1 with
              | true =>
                  have := before_trans hca hab
                  rw [n₂] at this
                  cases this
              | false =>
                  rw [eq_of_incomparable hab n₁, n₂] at hca
                  cases hca
  eq_of_incomparable {a b} h₁ h₂ := by
    simp only [beforePair, Bool.or_eq_false_iff, Bool.and_eq_false_imp, Bool.not_eq_true'] at *
    have e₁ : a.1 = b.1 := eq_of_incomparable h₁.1 h₂.1
    have e₂ : a.2 = b.2 := eq_of_incomparable (h₁.2 h₂.1) (h₂.2 h₁.1)
    exact Prod.ext e₁ e₂

/-- Lists compare by their first difference; a proper beginning comes first. -/
def beforeList {α : Type} [Key α] : List α → List α → Bool
  | _, [] => false
  | [], _ :: _ => true
  | a :: as, b :: bs => before a b || (!before b a && beforeList as bs)

theorem beforeList_irrefl {α : Type} [Key α] : ∀ l : List α, beforeList l l = false
  | [] => rfl
  | a :: as => by simp [beforeList, before_irrefl, beforeList_irrefl as]

theorem beforeList_trans {α : Type} [Key α] :
    ∀ {k l m : List α}, beforeList k l = true → beforeList l m = true → beforeList k m = true
  | _, [], _, h, _ => by simp [beforeList] at h
  | _, _ :: _, [], _, h => by simp [beforeList] at h
  | [], _ :: _, _ :: _, _, _ => rfl
  | a :: as, b :: bs, c :: cs, h₁, h₂ => by
      simp only [beforeList, Bool.or_eq_true, Bool.and_eq_true, Bool.not_eq_true'] at *
      have tail := @beforeList_trans α _ as bs cs
      cases hab : before a b with
      | true =>
          refine Or.inl ?_
          rcases h₂ with h₂ | ⟨n₂, _⟩
          · exact before_trans hab h₂
          · cases hbc : before b c with
            | true =>
                exact before_trans hab hbc
            | false =>
                rw [← eq_of_incomparable hbc n₂]
                exact hab
      | false =>
          rcases h₁ with h₁ | ⟨n₁, h₁⟩
          · rw [hab] at h₁
            cases h₁
          · rw [eq_of_incomparable hab n₁]
            rcases h₂ with h₂ | ⟨n₂, h₂⟩
            · exact Or.inl h₂
            · exact Or.inr ⟨n₂, tail h₁ h₂⟩

theorem beforeList_eq {α : Type} [Key α] :
    ∀ {k l : List α}, beforeList k l = false → beforeList l k = false → k = l
  | [], [], _, _ => rfl
  | [], _ :: _, h, _ => by simp [beforeList] at h
  | _ :: _, [], _, h => by simp [beforeList] at h
  | a :: as, b :: bs, h₁, h₂ => by
      simp only [beforeList, Bool.or_eq_false_iff, Bool.and_eq_false_imp, Bool.not_eq_true'] at *
      rw [eq_of_incomparable h₁.1 h₂.1, beforeList_eq (h₁.2 h₂.1) (h₂.2 h₁.1)]

instance {α : Type} [Key α] : Key (List α) where
  before := beforeList
  before_irrefl := beforeList_irrefl
  before_trans := beforeList_trans
  eq_of_incomparable := beforeList_eq

end Key

end EntityCache
