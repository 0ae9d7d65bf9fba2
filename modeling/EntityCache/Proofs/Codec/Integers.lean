import EntityCache.Proofs.Codec.Stored

/-!
# Integers read back

* `Json.gather_digitsOf`: the digits of a number of 64 bits are put together to that number.
* `Json.readNumber_digitsOf`: they are read as an integer, with or without a sign in front.
* `Number.InRange`: the integers that a text can hold as such.
* `Number.Kept`: a number that reads back as itself.
* `Number.reread_of_inRange`, `rereadInteger_of_inRange`: they read back as themselves.
-/

namespace EntityCache
namespace Json

open Numeric

/-! ## Digits -/

theorem gather_append {n k : Nat} (l m : List Nat) :
    gather n l = (k, 0) → gather n (l ++ m) = gather k m := by
  induction l generalizing n with
  | nil =>
      intro h
      cases h
      rfl
  | cons d rest ih =>
      intro h
      simp only [gather] at h
      split at h
      · next hfits =>
          simp only [List.cons_append, gather, if_pos hfits]
          exact ih h
      -- What does not fit is left out, and then something is missing.
      · cases h

theorem values_digitsOf_of_lt {n : Nat} (hn : n < 10) : values (digitsOf n) = [n] := by
  have hvalue : n.digitChar.toNat - 48 = n := by
    simp only [Nat.toNat_digitChar_of_lt_ten hn]
    omega
  simp only [digitsOf, Nat.toDigits_of_lt_base hn, values, List.map_cons, List.map_nil, hvalue]

/-- The last digit is split off. -/
theorem values_digitsOf_of_le {n : Nat} (hn : 10 ≤ n) :
    values (digitsOf n) = values (digitsOf (n / 10)) ++ [n % 10] := by
  have hdigit : n % 10 < 10 := Nat.mod_lt n (by decide)
  have hvalue : (n % 10).digitChar.toNat - 48 = n % 10 := by
    simp only [Nat.toNat_digitChar_of_lt_ten hdigit]
    omega
  simp only [digitsOf, Nat.toDigits_of_base_le (by decide : 1 < 10) hn, values, List.map_append,
    List.map_cons, List.map_nil, hvalue]

theorem gather_digitsOf (n : Nat) : n ≤ maxWord → gather 0 (values (digitsOf n)) = (n, 0) := by
  induction n using Nat.strongRecOn with
  | ind n ih =>
      intro hmax
      by_cases hn : n < 10
      · simp only [values_digitsOf_of_lt hn, gather, Nat.zero_mul, Nat.zero_add, if_pos hmax]
      · have hten : 10 ≤ n := Nat.le_of_not_lt hn
        have hsmaller : n / 10 < n := Nat.div_lt_self (by omega) (by decide)
        have hfront := ih (n / 10) hsmaller (Nat.le_trans (Nat.div_le_self n 10) hmax)
        have hsum : n / 10 * 10 + n % 10 = n := by omega
        calc
          gather 0 (values (digitsOf n))
              = gather 0 (values (digitsOf (n / 10)) ++ [n % 10]) := by
                simp only [values_digitsOf_of_le hten]
          _ = gather (n / 10) [n % 10] := gather_append _ _ hfront
          _ = (n, 0) := by simp only [gather, hsum, if_pos hmax]

/-- Only zero begins with a zero. -/
theorem values_digitsOf_head {n : Nat} :
    n ≠ 0 → ∃ d ds, values (digitsOf n) = (d + 1) :: ds := by
  induction n using Nat.strongRecOn with
  | ind n ih =>
      intro hzero
      by_cases hn : n < 10
      · rcases Nat.exists_eq_succ_of_ne_zero hzero with ⟨d, rfl⟩
        exact ⟨d, [], values_digitsOf_of_lt hn⟩
      · have hten : 10 ≤ n := Nat.le_of_not_lt hn
        have hsmaller : n / 10 < n := Nat.div_lt_self (by omega) (by decide)
        have hfront : n / 10 ≠ 0 := by omega
        rcases ih (n / 10) hsmaller hfront with ⟨d, ds, hds⟩
        refine ⟨d, ds ++ [n % 10], ?_⟩
        simp only [values_digitsOf_of_le hten, hds, List.cons_append]

/-! ## Numbers -/

/-- Where no fraction and no exponent follows, the number is a whole one. -/
theorem readTail_of_ends (negative : Bool) (n : Nat) {rest : Symbols} (hrest : Ends rest) :
    readTail negative n 0 rest = .ok (whole negative n, rest) := by
  rw [readTail]
  · simp only [if_true]
  · rintro rest' rfl
    exact Bool.noConfusion (hrest '.' rest' rfl)
  · rintro rest' rfl
    exact Bool.noConfusion (hrest 'e' rest' rfl)
  · rintro rest' rfl
    exact Bool.noConfusion (hrest 'E' rest' rfl)

theorem readNumber_digitsOf (negative : Bool) {n : Nat} (hn : n ≤ maxWord) :
    readNumber negative (symbols (digitsOf n)) = .ok (whole negative n, []) := by
  have hread : readNumber negative (symbols (digitsOf n)) =
      readAfter negative (values (digitsOf n)) [] := by
    have happend := @readNumber_append negative (digitsOf n) [] [] (digits_digitsOf n)
      ends_nil.not_digit
    simp only [List.append_nil, symbols_nil] at happend
    exact happend
  have hgather := gather_digitsOf n hn
  by_cases hzero : n = 0
  · subst hzero
    have hvalues : values (digitsOf 0) = [0] := values_digitsOf_of_lt (by decide)
    simp only [hread, hvalues, readAfter]
    exact readTail_of_ends negative 0 ends_nil
  · rcases values_digitsOf_head hzero with ⟨d, ds, hds⟩
    simp only [hds] at hgather
    simp only [hread, hds, readAfter, hgather]
    exact readTail_of_ends negative n ends_nil

end Json

open Json Numeric

/-! ## Integers -/

/-- A whole number that a text can hold as an integer. -/
def Number.InRange : Number → Prop
  | .int n => -maxNegated ≤ n ∧ n ≤ maxWord
  | .float _ => False

instance : DecidablePred Number.InRange
  | .int n => inferInstanceAs (Decidable (-maxNegated ≤ n ∧ n ≤ maxWord))
  | .float _ => inferInstanceAs (Decidable False)

/-- The text of an integer in range, with what is read of it. -/
theorem intChars_cases {n : Int} (hn : (Number.int n).InRange) :
    (∃ c l, intChars n = c :: l ∧ isDigit c = true ∧
      readNumber false (symbols (intChars n)) = .ok (.int n, [])) ∨
    ∃ l, intChars n = '-' :: l ∧ readNumber true (symbols l) = .ok (.int n, []) := by
  rcases hn with ⟨hlow, hhigh⟩
  cases n with
  | ofNat n =>
      left
      have hmax : n ≤ maxWord := Int.ofNat_le.mp hhigh
      rcases List.exists_cons_of_ne_nil (Nat.toDigits_ne_nil (n := n) (b := 10)) with ⟨c, l, hcl⟩
      have hdigit : isDigit c = true := by
        refine digits_digitsOf n c ?_
        simp only [digitsOf, hcl, List.mem_cons, true_or]
      exact ⟨c, l, hcl, hdigit, readNumber_digitsOf false hmax⟩
  | negSucc n =>
      right
      -- Behind the sign stand the digits of the amount.
      have hsize : n + 1 ≤ maxNegated := by omega
      have hmax : n + 1 ≤ maxWord := Nat.le_trans hsize (by decide)
      have hwhole : whole true (n + 1) = .int (.negSucc n) := by
        have hsmall : ¬ (n + 1 = 0 ∨ maxNegated < n + 1) := by omega
        simp only [whole, if_true, if_neg hsmall]
        rfl
      refine ⟨digitsOf (n + 1), rfl, ?_⟩
      simp only [readNumber_digitsOf true hmax, hwhole]

/-- A number that reads back as itself. -/
def Number.Kept (n : Number) : Prop :=
  n.reread = some (.num n)

theorem Number.reread_of_inRange {n : Number} (hn : n.InRange) : n.reread = some (.num n) := by
  cases n with
  | float x =>
      cases hn
  | int n =>
      rcases Value.read_eq 0 with ⟨item, hitem, -⟩
      have hread : Value.read 0 (symbols (intChars n)) = .ok (.num (.int n), []) := by
        rcases intChars_cases hn with ⟨c, l, hcl, hdigit, hnumber⟩ | ⟨l, hl, hnumber⟩
        · simp only [hcl, symbols_cons] at hnumber ⊢
          simp only [hitem, Value.readWith_digit item 0 hdigit, hnumber]
          rfl
        -- Behind the sign stands the number.
        · have hsigned : Value.readWith item 0 (symbols ('-' :: l)) =
              (readNumber true (symbols l)).map (fun r => (.num r.1, r.2)) := rfl
          simp only [hl, hitem, hsigned, hnumber]
          rfl
      simp only [Number.reread, Number.chars, hread]
      rfl

theorem rereadInteger_of_inRange {low high n : Int} (hn : (Number.int n).InRange)
    (hbounds : low ≤ n ∧ n ≤ high) : rereadInteger low high n = some n := by
  have hread : readInteger low high (symbols (intChars n)) = .ok (n, []) := by
    rcases intChars_cases hn with ⟨c, l, hcl, hdigit, hnumber⟩ | ⟨l, hl, hnumber⟩
    · simp only [hcl, symbols_cons] at hnumber ⊢
      simp only [readInteger_digit low high hdigit, hnumber, checked, if_pos hbounds]
    · have hsigned : readInteger low high (symbols ('-' :: l)) =
          checked low high (readNumber true (symbols l)) := rfl
      simp only [hl, hsigned, hnumber, checked, if_pos hbounds]
  simp only [rereadInteger, hread]
  rfl

end EntityCache
