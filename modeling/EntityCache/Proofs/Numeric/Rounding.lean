import EntityCache.Numeric.Decimal
import Mathlib.Algebra.Order.Field.Power
import Mathlib.Data.Rat.Cast.Order
import Mathlib.Tactic.NormNum
import Mathlib.Tactic.Positivity
import Mathlib.Tactic.Ring

/-!
# Rounding is monotone

* `roundDiv_mono`: a larger quotient is not rounded to a smaller natural number.
* `Binary64.scaleOf_spec`: the scale of a number is that of its leading 53 bits.
* `Binary64.roundRatio_mono`: a larger quotient is not rounded to a smaller word.
* `Binary64.size_mono`: and the words count the magnitudes upwards.
* `Binary64.mul_mono`: so a product of smaller factors is no larger.
-/

namespace EntityCache
namespace Numeric

/-! ## Natural numbers -/

/-- A quotient is rounded to at most `w` if it does not pass the halfway point above `w`, where only
an even `w` is taken. -/
theorem roundDiv_le_iff {a b w : Nat} (hb : 0 < b) :
    roundDiv a b ≤ w ↔ 2 * a < (2 * w + 1) * b ∨ 2 * a = (2 * w + 1) * b ∧ w % 2 = 0 := by
  -- With quotient and rest as variables the claim is linear, but for one product.
  have hsplit : b * (a / b) + a % b = a := Nat.div_add_mod a b
  have hrest : a % b < b := Nat.mod_lt a hb
  simp only [roundDiv]
  generalize a / b = q at *
  generalize a % b = r at *
  subst hsplit
  have hexpand : (2 * w + 1) * b = 2 * (b * w) + b := by ring
  rw [hexpand]
  rcases Nat.lt_trichotomy w q with hlt | rfl | hgt
  · have hmul : b * (w + 1) ≤ b * q := Nat.mul_le_mul_left b hlt
    rw [Nat.mul_add, Nat.mul_one] at hmul
    constructor
    · intro h
      split at h <;> omega
    · rintro (h | ⟨h, -⟩) <;> omega
  · constructor
    · intro h
      split at h
      · omega
      · next hcond => omega
    · intro h
      split
      · next hcond => omega
      · exact Nat.le_refl _
  · have hmul : b * (q + 1) ≤ b * w := Nat.mul_le_mul_left b hgt
    rw [Nat.mul_add, Nat.mul_one] at hmul
    constructor
    · intro _
      exact Or.inl (by omega)
    · intro _
      split <;> omega

theorem roundDiv_mono {a b c d : Nat} (hb : 0 < b) (hd : 0 < d) (h : a * d ≤ c * b) :
    roundDiv a b ≤ roundDiv c d := by
  have hc := (roundDiv_le_iff hd).mp (Nat.le_refl (roundDiv c d))
  generalize roundDiv c d = w at *
  refine (roundDiv_le_iff hb).mpr ?_
  have hswap : (2 * w + 1) * d * b = (2 * w + 1) * b * d := Nat.mul_right_comm _ _ _
  have hleft : 2 * a * d ≤ 2 * c * b := by
    rw [Nat.mul_assoc, Nat.mul_assoc]
    exact Nat.mul_le_mul_left 2 h
  rcases hc with hlt | ⟨heq, heven⟩
  · left
    have hright : 2 * c * b < (2 * w + 1) * d * b := Nat.mul_lt_mul_of_pos_right hlt hb
    exact Nat.lt_of_mul_lt_mul_right (by omega : 2 * a * d < (2 * w + 1) * b * d)
  · have hright : 2 * c * b = (2 * w + 1) * d * b := by rw [heq]
    have hle : 2 * a ≤ (2 * w + 1) * b :=
      Nat.le_of_mul_le_mul_right (by omega : 2 * a * d ≤ (2 * w + 1) * b * d) hd
    exact (Nat.lt_or_eq_of_le hle).imp_right fun hsame => ⟨hsame, heven⟩

theorem le_roundDiv {a b w : Nat} (hb : 0 < b) (h : w * b ≤ a) : w ≤ roundDiv a b := by
  have hfloor : w ≤ a / b := (Nat.le_div_iff_mul_le hb).mpr h
  simp only [roundDiv]
  split <;> omega

theorem roundDiv_le {a b w : Nat} (hb : 0 < b) (h : a ≤ w * b) : roundDiv a b ≤ w := by
  refine (roundDiv_le_iff hb).mpr (Or.inl ?_)
  have hexpand : (2 * w + 1) * b = 2 * (w * b) + b := by ring
  omega

/-! ## Powers -/

theorem twoPow_pos (e : Int) : 0 < (twoPow e).1 ∧ 0 < (twoPow e).2 := by
  cases e with
  | ofNat e =>
      exact ⟨Nat.pow_pos (by decide), Nat.one_pos⟩
  | negSucc e =>
      exact ⟨Nat.one_pos, Nat.pow_pos (by decide)⟩

theorem twoPow_div (e : Int) : ((twoPow e).1 : ℚ) / (twoPow e).2 = 2 ^ e := by
  cases e with
  | ofNat e =>
      simp [twoPow]
  | negSucc e =>
      simp [twoPow, zpow_negSucc]

/-- A quotient scaled by a power of two. -/
theorem scaled_div (num den : Nat) (q : Int) :
    ((num * (twoPow q).2 : Nat) : ℚ) / (den * (twoPow q).1 : Nat) = num / den / 2 ^ q := by
  rw [← twoPow_div]
  push_cast
  rw [mul_div_mul_comm, div_eq_mul_inv ((num : ℚ) / den), inv_div]

namespace Binary64

/-! ## Scales -/

/-- The weight of the leading one of 53 bits. -/
theorem two_zpow_leading (q : Int) : (2 : ℚ) ^ (q + 52) = leadingBit * 2 ^ q := by
  have hbit : (leadingBit : ℚ) = 2 ^ (52 : Int) := by norm_num [leadingBit]
  rw [zpow_add₀ (by norm_num), mul_comm, hbit]

/-- The bound of numbers of 53 bits. -/
theorem two_zpow_bound (q : Int) : (2 : ℚ) ^ (q + 53) = (2 * leadingBit : Nat) * 2 ^ q := by
  have hnext : q + 53 = q + 52 + 1 := by ring
  rw [hnext, zpow_add_one₀ (by norm_num), two_zpow_leading]
  push_cast
  ring

/-- The number lies below the 53 bits of its scale, and reaches the leading one unless the scale is
the least of the format. -/
structure IsScale (x : ℚ) (q : Int) : Prop where
  least : -1074 ≤ q
  below : x < 2 ^ (q + 53)
  reached : q = -1074 ∨ 2 ^ (q + 52) ≤ x

theorem two_zpow_le {a b : Int} (h : a ≤ b) : (2 : ℚ) ^ a ≤ 2 ^ b :=
  zpow_le_zpow_right₀ (by norm_num) h

/-- A number between two neighbouring powers has its scale there, unless that is not in the
format. -/
theorem IsScale.of_between {x : ℚ} {q : Int} (hreached : 2 ^ (q + 52) ≤ x)
    (hbelow : x < 2 ^ (q + 53)) : IsScale x (max q (-1074)) := by
  have hle := le_max_left q (-1074)
  refine ⟨le_max_right _ _, hbelow.trans_le (two_zpow_le (by omega)), ?_⟩
  rcases max_choice q (-1074) with h | h
  · rw [h]
    exact Or.inr hreached
  · exact Or.inl h

/-- The quotient of the leading bits is off by less than a factor of two in either direction. -/
theorem two_zpow_le_div {num den : Nat} (hnum : num ≠ 0) (hden : 0 < den) :
    (2 : ℚ) ^ ((Nat.log2 num : Int) - Nat.log2 den - 1) ≤ num / den := by
  have hdenQ : (0 : ℚ) < den := by exact_mod_cast hden
  have hn : ((2 ^ Nat.log2 num : Nat) : ℚ) ≤ num := by
    exact_mod_cast Nat.log2_self_le hnum
  have hd : (den : ℚ) ≤ (2 ^ (Nat.log2 den + 1) : Nat) := by
    exact_mod_cast Nat.lt_log2_self.le
  rw [le_div_iff₀ hdenQ]
  calc
    (2 : ℚ) ^ ((Nat.log2 num : Int) - Nat.log2 den - 1) * den
        ≤ 2 ^ ((Nat.log2 num : Int) - Nat.log2 den - 1) * (2 ^ (Nat.log2 den + 1) : Nat) :=
          mul_le_mul_of_nonneg_left hd (by positivity)
    _ = (2 ^ Nat.log2 num : Nat) := by
      push_cast
      rw [← zpow_natCast, ← zpow_natCast, ← zpow_add₀ (by norm_num)]
      congr 1
      push_cast
      ring
    _ ≤ num := hn

theorem div_lt_two_zpow {num den : Nat} (hden : 0 < den) :
    (num : ℚ) / den < 2 ^ ((Nat.log2 num : Int) - Nat.log2 den + 1) := by
  have hdenQ : (0 : ℚ) < den := by exact_mod_cast hden
  have hn : (num : ℚ) < (2 ^ (Nat.log2 num + 1) : Nat) := by
    exact_mod_cast Nat.lt_log2_self
  have hd : ((2 ^ Nat.log2 den : Nat) : ℚ) ≤ den := by
    exact_mod_cast Nat.log2_self_le hden.ne'
  rw [div_lt_iff₀ hdenQ]
  calc
    (num : ℚ) < (2 ^ (Nat.log2 num + 1) : Nat) := hn
    _ = 2 ^ ((Nat.log2 num : Int) - Nat.log2 den + 1) * (2 ^ Nat.log2 den : Nat) := by
      push_cast
      rw [← zpow_natCast, ← zpow_natCast, ← zpow_add₀ (by norm_num)]
      congr 1
      push_cast
      ring
    _ ≤ 2 ^ ((Nat.log2 num : Int) - Nat.log2 den + 1) * den :=
      mul_le_mul_of_nonneg_left hd (by positivity)

/-- Whether a scaled quotient fits 53 bits. -/
theorem scaled_lt_iff (num : Nat) {den : Nat} (hden : 0 < den) (q : Int) :
    num * (twoPow q).2 / (den * (twoPow q).1) < 2 * leadingBit ↔
      (num : ℚ) / den < 2 ^ (q + 53) := by
  have hpos : 0 < den * (twoPow q).1 := Nat.mul_pos hden (twoPow_pos q).1
  have hposQ : (0 : ℚ) < (den * (twoPow q).1 : Nat) := by exact_mod_cast hpos
  rw [Nat.div_lt_iff_lt_mul hpos, ← Nat.cast_lt (α := ℚ), Nat.cast_mul (2 * leadingBit),
    ← div_lt_iff₀ hposQ, scaled_div, div_lt_iff₀ (by positivity), two_zpow_bound]

theorem scaleOf_spec {num den : Nat} (hnum : num ≠ 0) (hden : 0 < den) :
    IsScale (num / den) (scaleOf num den) := by
  let guess : Int := (Nat.log2 num : Int) - Nat.log2 den - 53
  have hlow : (2 : ℚ) ^ (guess + 52) ≤ num / den := by
    have hpower : guess + 52 = (Nat.log2 num : Int) - Nat.log2 den - 1 := by omega
    rw [hpower]
    exact two_zpow_le_div hnum hden
  have hhigh : (num : ℚ) / den < 2 ^ (guess + 54) := by
    have hpower : guess + 54 = (Nat.log2 num : Int) - Nat.log2 den + 1 := by omega
    rw [hpower]
    exact div_lt_two_zpow hden
  -- The guess from the bit lengths is right, or one too small.
  have hscale : scaleOf num den =
      max (if num * (twoPow guess).2 / (den * (twoPow guess).1) < 2 * leadingBit then guess
        else guess + 1) (-1074) := by
    simp only [scaleOf, guess]
    split <;> split <;> omega
  rw [hscale]
  split
  · next hsmall =>
      exact .of_between hlow ((scaled_lt_iff num hden guess).mp hsmall)
  · next hlarge =>
      have hreached := not_lt.mp fun h => hlarge ((scaled_lt_iff num hden guess).mpr h)
      have hsame : guess + 1 + 52 = guess + 53 := by ring
      have hnext : guess + 1 + 53 = guess + 54 := by ring
      refine .of_between ?_ ?_
      · rw [hsame]
        exact hreached
      · rw [hnext]
        exact hhigh

/-- A larger number has no smaller scale. -/
theorem IsScale.le {x y : ℚ} {q r : Int} (hx : IsScale x q) (hy : IsScale y r) (h : x ≤ y) :
    q ≤ r := by
  by_contra hlt
  rcases hx.reached with hq | hq
  · have := hy.least
    omega
  · have hpow : (2 : ℚ) ^ (r + 53) ≤ 2 ^ (q + 52) := two_zpow_le (by omega)
    exact absurd ((hq.trans h).trans_lt (hy.below.trans_le hpow)) (lt_irrefl _)

/-! ## Words -/

/-- The word of a number before it is bounded. -/
def wordAt (q : Int) (num den : Nat) : Nat :=
  (q + 1074).toNat * leadingBit + roundDiv (num * (twoPow q).2) (den * (twoPow q).1)

theorem roundRatio_of_ne_zero {num : Nat} (hnum : num ≠ 0) (den : Nat) :
    roundRatio num den = min (wordAt (scaleOf num den) num den) infinity := by
  simp only [roundRatio, if_neg hnum, wordAt]
  split <;> omega

theorem wordAt_mono {q r : Int} {a b c d : Nat} (hb : 0 < b) (hd : 0 < d)
    (hq : IsScale (a / b) q) (hr : IsScale (c / d) r) (h : (a : ℚ) / b ≤ c / d) :
    wordAt q a b ≤ wordAt r c d := by
  have hbq : 0 < b * (twoPow q).1 := Nat.mul_pos hb (twoPow_pos q).1
  have hdr : 0 < d * (twoPow r).1 := Nat.mul_pos hd (twoPow_pos r).1
  have hbqQ : (0 : ℚ) < (b * (twoPow q).1 : Nat) := by exact_mod_cast hbq
  have hdrQ : (0 : ℚ) < (d * (twoPow r).1 : Nat) := by exact_mod_cast hdr
  rcases (hq.le hr h).eq_or_lt with rfl | hlt
  -- On one scale the quotients are rounded as natural numbers.
  · refine Nat.add_le_add_left (roundDiv_mono hbq hdr ?_) _
    rw [← Nat.cast_le (α := ℚ), Nat.cast_mul (a * _), Nat.cast_mul (c * _),
      ← div_le_div_iff₀ hbqQ hdrQ, scaled_div, scaled_div]
    exact div_le_div_of_nonneg_right h (by positivity)
  -- Else a whole scale lies between the words.
  · have hupper : roundDiv (a * (twoPow q).2) (b * (twoPow q).1) ≤ 2 * leadingBit := by
      refine roundDiv_le hbq ?_
      rw [← Nat.cast_le (α := ℚ), Nat.cast_mul (2 * leadingBit), ← div_le_iff₀ hbqQ, scaled_div,
        div_le_iff₀ (by positivity), ← two_zpow_bound]
      exact hq.below.le
    have hlower : leadingBit ≤ roundDiv (c * (twoPow r).2) (d * (twoPow r).1) := by
      refine le_roundDiv hdr ?_
      rw [← Nat.cast_le (α := ℚ), Nat.cast_mul leadingBit, ← le_div_iff₀ hdrQ, scaled_div,
        le_div_iff₀ (by positivity), ← two_zpow_leading]
      refine hr.reached.resolve_left fun h => ?_
      have := hq.least
      omega
    have hstep : (q + 1074).toNat + 1 ≤ (r + 1074).toNat := by
      have := hq.least
      omega
    have hwords : ((q + 1074).toNat + 1) * leadingBit ≤ (r + 1074).toNat * leadingBit :=
      Nat.mul_le_mul_right _ hstep
    simp only [wordAt]
    rw [Nat.add_mul, Nat.one_mul] at hwords
    omega

/-- A larger quotient is not rounded to a smaller word. -/
theorem roundRatio_mono {a b c d : Nat} (hb : 0 < b) (hd : 0 < d) (h : (a : ℚ) / b ≤ c / d) :
    roundRatio a b ≤ roundRatio c d := by
  by_cases ha : a = 0
  · simp [roundRatio, ha]
  have hc : c ≠ 0 := by
    rintro rfl
    have hpos : (0 : ℚ) < a / b := by
      have : (0 : ℚ) < a := by exact_mod_cast Nat.pos_of_ne_zero ha
      have : (0 : ℚ) < b := by exact_mod_cast hb
      positivity
    simp only [Nat.cast_zero, zero_div] at h
    exact absurd hpos (not_lt.mpr h)
  rw [roundRatio_of_ne_zero ha, roundRatio_of_ne_zero hc]
  exact min_le_min_right _ (wordAt_mono hb hd (scaleOf_spec ha hb) (scaleOf_spec hc hd) h)

/-! ## Magnitudes -/

/-- The magnitude of a finite number. -/
def size (x : Binary64) : ℚ :=
  x.significand * 2 ^ x.exponent

theorem ratio_pos (x : Binary64) : 0 < x.ratio.2 :=
  (twoPow_pos _).2

theorem ratio_div (x : Binary64) : (x.ratio.1 : ℚ) / x.ratio.2 = x.size := by
  simp only [ratio, size, ← twoPow_div x.exponent]
  push_cast
  rw [mul_div_assoc]

theorem size_nonneg (x : Binary64) : 0 ≤ x.size := by
  simp only [size]
  positivity

theorem significand_le (x : Binary64) : x.significand ≤ 2 * leadingBit := by
  simp only [significand]
  split
  · omega
  · have hmod := Nat.mod_lt x.magnitude (show 0 < leadingBit by decide)
    omega

/-- Above the least exponent a significand has its leading bit. -/
theorem leadingBit_le_significand {x : Binary64} (h : -1074 < x.exponent) :
    leadingBit ≤ x.significand := by
  simp only [exponent] at h
  simp only [significand]
  split
  · next hsmall =>
      rw [if_pos hsmall] at h
      omega
  · exact Nat.le_add_left _ _

theorem least_le_exponent (x : Binary64) : -1074 ≤ x.exponent := by
  simp only [exponent]
  split
  · exact le_refl _
  · next hlarge =>
      have hlevel : 1 ≤ x.magnitude / leadingBit :=
        (Nat.one_le_div_iff (by decide)).mpr (Nat.le_of_not_lt hlarge)
      omega

theorem exponent_mono {x y : Binary64} (h : x.magnitude ≤ y.magnitude) :
    x.exponent ≤ y.exponent := by
  have hleast := y.least_le_exponent
  simp only [exponent] at hleast ⊢
  have hdiv : x.magnitude / leadingBit ≤ y.magnitude / leadingBit := Nat.div_le_div_right h
  split
  · exact hleast
  · rw [if_neg (by omega)]
    omega

/-- On one exponent the words count the significands. -/
theorem significand_mono {x y : Binary64} (h : x.magnitude ≤ y.magnitude)
    (hsame : x.exponent = y.exponent) : x.significand ≤ y.significand := by
  have hxsplit := Nat.div_add_mod x.magnitude leadingBit
  have hysplit := Nat.div_add_mod y.magnitude leadingBit
  simp only [exponent] at hsame
  simp only [significand]
  split <;> split
  · exact h
  · omega
  · omega
  · next hx hy =>
      rw [if_neg hx, if_neg hy] at hsame
      have hlevel : x.magnitude / leadingBit = y.magnitude / leadingBit := by omega
      rw [hlevel] at hxsplit
      omega

/-- The words count the magnitudes upwards. -/
theorem size_mono {x y : Binary64} (h : x.magnitude ≤ y.magnitude) : x.size ≤ y.size := by
  simp only [size]
  rcases (exponent_mono h).eq_or_lt with hsame | hlt
  · rw [hsame]
    exact mul_le_mul_of_nonneg_right (by exact_mod_cast significand_mono h hsame) (by positivity)
  -- A power of two makes up for the leading bit.
  · have hlower : (leadingBit : ℚ) ≤ y.significand := by
      exact_mod_cast leadingBit_le_significand (x.least_le_exponent.trans_lt hlt)
    calc
      (x.significand : ℚ) * 2 ^ x.exponent ≤ (2 * leadingBit : Nat) * 2 ^ x.exponent :=
        mul_le_mul_of_nonneg_right (by exact_mod_cast x.significand_le) (by positivity)
      _ = leadingBit * 2 ^ (x.exponent + 1) := by
        rw [zpow_add₀ (by norm_num), zpow_one]
        push_cast
        ring
      _ ≤ leadingBit * 2 ^ y.exponent :=
        mul_le_mul_of_nonneg_left (two_zpow_le hlt) (by positivity)
      _ ≤ y.significand * 2 ^ y.exponent := mul_le_mul_of_nonneg_right hlower (by positivity)

/-! ## Products -/

/-- The word of a product of finite numbers. -/
theorem magnitude_mul {x y : Binary64} (hx : x.isFinite = true) (hy : y.isFinite = true) :
    (x.mul y).magnitude = roundRatio (x.ratio.1 * y.ratio.1) (x.ratio.2 * y.ratio.2) := by
  simp only [isFinite, decide_eq_true_eq] at hx hy
  have hnan : (x.isNaN || y.isNaN) = false := by
    simp only [isNaN, Bool.or_eq_false_iff, decide_eq_false_iff_not]
    omega
  have hinfinite : (x.isInfinite || y.isInfinite) = false := by
    simp only [isInfinite, Bool.or_eq_false_iff, decide_eq_false_iff_not]
    omega
  simp only [mul, hnan, hinfinite, Bool.false_eq_true, if_false, ofRatio]

/-- A product of smaller factors is no larger. -/
theorem mul_mono {x x' y y' : Binary64} (hx' : x'.isFinite = true) (hy' : y'.isFinite = true)
    (hx : x.magnitude ≤ x'.magnitude) (hy : y.magnitude ≤ y'.magnitude) :
    (x.mul y).magnitude ≤ (x'.mul y').magnitude := by
  have hfinite : ∀ {u v : Binary64}, v.isFinite = true → u.magnitude ≤ v.magnitude →
      u.isFinite = true := by
    intro u v hv huv
    simp only [isFinite, decide_eq_true_eq] at hv ⊢
    omega
  rw [magnitude_mul (hfinite hx' hx) (hfinite hy' hy), magnitude_mul hx' hy']
  refine roundRatio_mono (Nat.mul_pos x.ratio_pos y.ratio_pos)
    (Nat.mul_pos x'.ratio_pos y'.ratio_pos) ?_
  push_cast
  rw [mul_div_mul_comm, mul_div_mul_comm, ratio_div, ratio_div, ratio_div, ratio_div]
  exact mul_le_mul (size_mono hx) (size_mono hy) y.size_nonneg x'.size_nonneg

theorem ofNat_mono {m n : Nat} (h : m ≤ n) : (ofNat m).magnitude ≤ (ofNat n).magnitude := by
  refine roundRatio_mono Nat.one_pos Nat.one_pos ?_
  exact div_le_div_of_nonneg_right (by exact_mod_cast h) (by positivity)

end Binary64
end Numeric
end EntityCache
