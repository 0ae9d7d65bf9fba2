import EntityCache.Proofs.Codec.Accepted
import EntityCache.Proofs.Numeric.Rounding

/-!
# Floats can be read

Whatever float is written, its text is read as a value again:

* `Json.appended`: the number that digits make up; `Json.gather_spec`: what is kept of it.
* `Json.isSome_float`: a number up to `Json.readable` is read without an overflow.
* `Decimal.Readable`: a decimal number in digits that is no larger.
* `Json.isSome_readNumber_write`: then its text is read, in either notation.
* `Decimal.readable_ofBinary`: the digits of a float are such, unless it is the largest one.
* `Number.legible_float`, `Value.yields_legible`: so every float is legible, and so is every number
  that was read.
-/

namespace EntityCache

open Numeric

namespace Json

/-! ## Digits -/

/-- The number with more digits at its end. -/
def appended (n : Nat) (ds : List Nat) : Nat :=
  ds.foldl (fun n d => n * 10 + d) n

theorem appended_cons (n d : Nat) (ds : List Nat) :
    appended n (d :: ds) = appended (n * 10 + d) ds := rfl

theorem appended_append (n : Nat) (l m : List Nat) :
    appended n (l ++ m) = appended (appended n l) m :=
  List.foldl_append

theorem le_appended (ds : List Nat) : ∀ n, n * 10 ^ ds.length ≤ appended n ds := by
  induction ds with
  | nil =>
      intro n
      simp [appended]
  | cons d rest ih =>
      intro n
      have hrest := ih (n * 10 + d)
      rw [List.length_cons, Nat.pow_succ, appended_cons]
      calc
        n * (10 ^ rest.length * 10) = n * 10 * 10 ^ rest.length := by ring
        _ ≤ (n * 10 + d) * 10 ^ rest.length := Nat.mul_le_mul_right _ (Nat.le_add_right _ _)
        _ ≤ appended (n * 10 + d) rest := hrest

theorem appended_lt {ds : List Nat} (hds : ∀ d ∈ ds, d < 10) :
    ∀ n, appended n ds < (n + 1) * 10 ^ ds.length := by
  induction ds with
  | nil =>
      intro n
      simp [appended]
  | cons d rest ih =>
      intro n
      rcases List.forall_mem_cons.mp hds with ⟨hd, hrest⟩
      rw [List.length_cons, Nat.pow_succ, appended_cons]
      calc
        appended (n * 10 + d) rest < (n * 10 + d + 1) * 10 ^ rest.length := ih hrest _
        _ ≤ ((n + 1) * 10) * 10 ^ rest.length := Nat.mul_le_mul_right _ (by omega)
        _ = (n + 1) * (10 ^ rest.length * 10) := by ring

theorem appended_replicate (n z : Nat) : appended n (List.replicate z 0) = n * 10 ^ z := by
  induction z generalizing n with
  | zero =>
      simp [appended]
  | succ z ih =>
      rw [List.replicate_succ, appended_cons, ih, Nat.pow_succ]
      ring

theorem appended_digitsOf (n : Nat) : appended 0 (values (digitsOf n)) = n := by
  induction n using Nat.strongRecOn with
  | ind n ih =>
      by_cases hn : n < 10
      · simp [values_digitsOf_of_lt hn, appended]
      · have hten : 10 ≤ n := Nat.le_of_not_lt hn
        have hsmaller : n / 10 < n := Nat.div_lt_self (by omega) (by decide)
        rw [values_digitsOf_of_le hten, appended_append, ih _ hsmaller]
        simp only [appended, List.foldl_cons, List.foldl_nil]
        omega

theorem values_lt {l : List Char} (hl : Digits l) : ∀ d ∈ values l, d < 10 := by
  intro d hd
  rcases List.mem_map.mp hd with ⟨c, hc, rfl⟩
  have hdigit := hl c hc
  simp only [isDigit, decide_eq_true_eq] at hdigit
  have hhigh : c.toNat ≤ '9'.toNat := hdigit.2
  have hnine : '9'.toNat = 57 := rfl
  omega

/-- What is kept of digits fits 64 bits and is no larger than what they make up. -/
theorem gather_spec (ds : List Nat) : ∀ n, n ≤ maxWord →
    (gather n ds).1 ≤ maxWord ∧ (gather n ds).2 ≤ ds.length ∧
      (gather n ds).1 * 10 ^ (gather n ds).2 ≤ appended n ds := by
  induction ds with
  | nil =>
      intro n hn
      exact ⟨hn, Nat.le_refl _, by simp [gather, appended]⟩
  | cons d rest ih =>
      intro n hn
      rw [gather]
      split
      · next hfits =>
          rcases ih _ hfits with ⟨hword, hlength, hbound⟩
          exact ⟨hword, Nat.le_succ_of_le hlength, hbound⟩
      · exact ⟨hn, Nat.le_refl _, le_appended (d :: rest) n⟩

/-- Nothing is left out where all digits fit. -/
theorem gather_of_le (ds : List Nat) : ∀ n, appended n ds ≤ maxWord →
    gather n ds = (appended n ds, 0) := by
  induction ds with
  | nil =>
      intro n _
      rfl
  | cons d rest ih =>
      intro n h
      have hfits : n * 10 + d ≤ maxWord := by
        have hle := le_appended rest (n * 10 + d)
        have hpow : 1 ≤ 10 ^ rest.length := Nat.one_le_pow _ _ (by decide)
        have hmul : (n * 10 + d) * 1 ≤ (n * 10 + d) * 10 ^ rest.length :=
          Nat.mul_le_mul_left _ hpow
        rw [appended_cons] at h
        omega
      rw [gather, if_pos hfits]
      exact ih _ h

/-! ## Scaling -/

/-- The halfway point below the largest float. -/
def readable : Nat :=
  36028797018963962 * (twoPow 969).1

/-- Only small powers of ten are not too large. -/
theorem lt_of_pow_le_readable {e : Nat} (h : 10 ^ e ≤ readable) : e < 309 := by
  have hlimit : ∀ k, k = 309 → readable < 10 ^ k := by
    rintro k rfl
    decide +kernel
  generalize hk : 309 = k
  exact (Nat.pow_lt_pow_iff_right (by decide)).mp (h.trans_lt (hlimit k hk.symm))

/-- The largest word that is scaled by so many tens. -/
def largestScaled (e : Nat) : Nat :=
  min maxWord (readable / 10 ^ e)

theorem isFinite_largestScaled : ∀ e < 309,
    (Binary64.ofNat (largestScaled e)).isFinite = true ∧ (powerOfTen e).isFinite = true ∧
      ((Binary64.ofNat (largestScaled e)).mul (powerOfTen e)).isFinite = true := by
  decide +kernel

theorem isSome_scaled_of_neg (steps : Nat) : ∀ (f : Binary64) (e : Int), e < 0 →
    (scaled steps f e).isSome = true := by
  induction steps with
  | zero =>
      intro f e _
      rfl
  | succ steps ih =>
      intro f e he
      rw [scaled]
      have hneg : ¬ 0 ≤ e := by omega
      rw [if_neg hneg, if_neg hneg]
      split
      · rfl
      · split
        · rfl
        · exact ih _ _ (by omega)

/-- A number that is not above `readable` is scaled without an overflow. -/
theorem isSome_scaled {n : Nat} {e : Int} (hn : n ≤ maxWord)
    (hbound : (n : ℚ) * 10 ^ e ≤ readable) : (scaled 4 (Binary64.ofNat n) e).isSome = true := by
  rcases lt_or_ge e 0 with he | he
  · exact isSome_scaled_of_neg 4 _ e he
  lift e to ℕ using he
  have hnat : n * 10 ^ e ≤ readable := by exact_mod_cast hbound
  rw [scaled, Int.natAbs_natCast]
  split
  · next hsmall =>
      rcases isFinite_largestScaled e (Nat.lt_succ_of_le hsmall) with ⟨hlargest, hpower, hproduct⟩
      have hle : n ≤ largestScaled e :=
        Nat.le_min.mpr ⟨hn, (Nat.le_div_iff_mul_le (Nat.pow_pos (by decide))).mpr hnat⟩
      -- The product with the largest word is finite, and this one is no larger.
      have hmono := Binary64.mul_mono hlargest hpower (Binary64.ofNat_mono hle) (Nat.le_refl _)
      have hfinite : ((Binary64.ofNat n).mul (powerOfTen e)).isInfinite = false := by
        simp only [Binary64.isFinite, Binary64.isInfinite, decide_eq_true_eq,
          decide_eq_false_iff_not] at hproduct ⊢
        omega
      simp only [Int.natCast_nonneg, if_true, hfinite, Bool.false_eq_true, if_false]
      rfl
  · next hlarge =>
      have hzero : n = 0 := by
        by_contra hpos
        have hmul : 1 * 10 ^ e ≤ n * 10 ^ e :=
          Nat.mul_le_mul_right _ (Nat.one_le_iff_ne_zero.mpr hpos)
        rw [Nat.one_mul] at hmul
        have := lt_of_pow_le_readable (hmul.trans hnat)
        omega
      subst hzero
      rfl

theorem isSome_float (negative : Bool) {n : Nat} {e : Int} (hn : n ≤ maxWord)
    (hbound : (n : ℚ) * 10 ^ e ≤ readable) (rest : Symbols) :
    (float negative n e rest).toOption.isSome = true := by
  rcases Option.isSome_iff_exists.mp (isSome_scaled hn hbound) with ⟨f, hf⟩
  rw [float, hf]
  rfl

/-! ## Reading -/

/-- The digits of an exponent, or nothing where there is none. -/
def Scales (scale : List Char) (e : Int) : Prop :=
  scale = [] ∧ e = 0 ∨ scale = 'e' :: numberLayout.signedExponent e

theorem Scales.scale {scale : List Char} {e : Int} (h : Scales scale e) : Scale scale := by
  rcases h with ⟨rfl, -⟩ | rfl
  · exact .missing
  · rw [Layout.signedExponent]
    split
    · exact .power ['-'] _ (Or.inr (Or.inr rfl)) (digits_digitsOf _)
    · exact .power ['+'] _ (Or.inr (Or.inl rfl)) (digits_digitsOf _)

theorem isSome_readExponent (negative : Bool) {n : Nat} {e k : Int} (hn : n ≤ maxWord)
    (hbound : (n : ℚ) * 10 ^ (e + k) ≤ readable) (hk : n ≠ 0 → k ≤ maxExponent) :
    (readExponent negative n e (symbols (numberLayout.signedExponent k))).toOption.isSome =
      true := by
  have hvalues : values (digitsOf k.natAbs) ≠ [] := by
    simp [values, digitsOf]
  have hamount : (values (digitsOf k.natAbs)).foldl (fun n d => n * 10 + d) 0 = k.natAbs :=
    appended_digitsOf _
  rw [Layout.signedExponent]
  -- Out of range, a negative exponent makes zero, and a positive one is refused unless the digits
  -- do.
  split
  · next hneg =>
      have hsign : ['-'] = [] ∨ ['-'] = ['+'] ∨ ['-'] = ['-'] := Or.inr (Or.inr rfl)
      have hread := readExponent_sign negative n e hsign (digits_digitsOf k.natAbs) ends_nil
      have hsum : e - (k.natAbs : Int) = e + k := by omega
      simp only [List.append_nil, if_neg hvalues, hamount, decide_true, if_true, Bool.not_true,
        Bool.false_eq_true, and_false, if_false, hsum] at hread
      rw [show symbols ('-' :: digitsOf k.natAbs) = symbols (['-'] ++ digitsOf k.natAbs) from rfl,
        hread]
      split
      · rfl
      · exact isSome_float negative hn hbound []
  · next hneg =>
      have hsign : ['+'] = [] ∨ ['+'] = ['+'] ∨ ['+'] = ['-'] := Or.inr (Or.inl rfl)
      have hread := readExponent_sign negative n e hsign (digits_digitsOf k.natAbs) ends_nil
      have hsum : e + (k.natAbs : Int) = e + k := by omega
      have hplus : ((['+'] : List Char) = ['-']) = False := by decide
      simp only [List.append_nil, if_neg hvalues, hamount, hplus, decide_false, if_false,
        Bool.not_false, and_true, Bool.false_eq_true, hsum] at hread
      rw [show numberLayout.plusMark ++ digitsOf k.natAbs = ['+'] ++ digitsOf k.natAbs from rfl,
        hread]
      split
      · next hlarge =>
          split
          · next hzero =>
              have := hk hzero
              omega
          · rfl
      · exact isSome_float negative hn hbound []

theorem isSome_readScale (negative : Bool) {n : Nat} {e k : Int} {scale : List Char}
    (hscale : Scales scale k) (hn : n ≤ maxWord) (hbound : (n : ℚ) * 10 ^ (e + k) ≤ readable)
    (hk : n ≠ 0 → k ≤ maxExponent) :
    (readScale negative n e (symbols scale)).toOption.isSome = true := by
  rcases hscale with ⟨rfl, rfl⟩ | rfl
  · rw [add_zero] at hbound
    exact isSome_float negative hn hbound []
  · exact isSome_readExponent negative hn hbound hk

theorem isSome_readFraction (negative : Bool) {n : Nat} {k : Int} {ds scale : List Char}
    (hds : Digits ds) (hsome : ds ≠ []) (hscale : Scales scale k) (hn : n ≤ maxWord)
    (hbound : (appended n (values ds) : ℚ) * 10 ^ (k - ds.length) ≤ readable)
    (hk : appended n (values ds) ≠ 0 → k ≤ maxExponent) :
    (readFraction negative n 0 (symbols (ds ++ scale))).toOption.isSome = true := by
  have htake := takeDigits_append hds (hscale.scale.not_digit ends_nil)
  rw [List.append_nil] at htake
  have hlength : (values ds).length = ds.length := List.length_map _
  rcases gather_spec (values ds) n hn with ⟨hword, hexcess, hle⟩
  -- The digits that do not fit are made up for by the exponent.
  have hscaled : ((gather n (values ds)).1 : ℚ) *
      10 ^ (0 - ((values ds).length - (gather n (values ds)).2 : Nat) + k) ≤ readable := by
    refine le_trans ?_ hbound
    have hsplit : (0 - ((values ds).length - (gather n (values ds)).2 : Nat) + k : Int) =
        (gather n (values ds)).2 + (k - ds.length) := by
      rw [hlength] at hexcess ⊢
      omega
    rw [hsplit, zpow_add₀ (by norm_num), ← mul_assoc, zpow_natCast]
    refine mul_le_mul_of_nonneg_right ?_ (by positivity)
    exact_mod_cast hle
  have hzero : (gather n (values ds)).1 ≠ 0 → appended n (values ds) ≠ 0 := by
    intro hne hnone
    rw [hnone] at hle
    have hpos := Nat.mul_pos (Nat.pos_of_ne_zero hne)
      (Nat.pow_pos (n := (gather n (values ds)).2) (by decide : 0 < 10))
    omega
  have hread := isSome_readScale negative (e := 0 - ((values ds).length -
    (gather n (values ds)).2 : Nat)) hscale hword hscaled fun hne => hk (hzero hne)
  rw [symbols_append, readFraction, htake]
  rcases hv : values ds with - | ⟨d, vs⟩
  · exact absurd (List.map_eq_nil_iff.mp hv) hsome
  · rw [hv] at hread
    exact hread

end Json

open Json

/-! ## Decimal numbers -/

namespace Numeric.Decimal

/-- The decimal number as a fraction. -/
def size (d : Decimal) : ℚ :=
  appended 0 (values d.digits) * 10 ^ (d.exponent + 1 - d.digits.length)

/-- It has digits, of which only a single one may be zero, and is not too large to be read. -/
structure Readable (d : Decimal) : Prop where
  digits : Digits d.digits
  lead : ∃ v vs, values d.digits = v :: vs ∧ (v = 0 → vs = [] ∧ d.exponent = 0)
  size_le : d.size ≤ readable

end Numeric.Decimal

namespace Json

/-- What follows the digits of the whole part, of which all fit. -/
theorem readAfter_of_le (negative : Bool) {ds : List Nat} {v : Nat} {vs : List Nat}
    (hds : ds = v :: vs) (hlead : v = 0 → vs = []) (hfits : appended 0 ds ≤ maxWord)
    (rest : Symbols) : readAfter negative ds rest = readTail negative (appended 0 ds) 0 rest := by
  subst hds
  have hgather := gather_of_le (v :: vs) 0 hfits
  cases v with
  | zero =>
      rw [hlead rfl]
      rfl
  | succ v =>
      have hafter : readAfter negative ((v + 1) :: vs) rest =
          readTail negative (gather 0 ((v + 1) :: vs)).1 (gather 0 ((v + 1) :: vs)).2 rest := rfl
      rw [hafter, hgather]

variable {d : Decimal}

/-- Digits before a point and behind it. -/
theorem isSome_readNumber_point (negative : Bool) {k : Int} {ds fs scale : List Char} {v : Nat}
    {vs : List Nat} (hds : Digits ds) (hv : values ds = v :: vs) (hlead : v = 0 → vs = [])
    (hfits : appended 0 (values ds) ≤ maxWord) (hfs : Digits fs) (hsome : fs ≠ [])
    (hscale : Scales scale k)
    (hbound : (appended 0 (values (ds ++ fs)) : ℚ) * 10 ^ (k - fs.length) ≤ readable)
    (hk : appended 0 (values (ds ++ fs)) ≠ 0 → k ≤ maxExponent) :
    (readNumber negative (symbols (ds ++ '.' :: (fs ++ scale)))).toOption.isSome = true := by
  have happ : appended 0 (values (ds ++ fs)) = appended (appended 0 (values ds)) (values fs) := by
    rw [values, List.map_append]
    exact appended_append 0 _ _
  rw [happ] at hbound hk
  have hread : readNumber negative (symbols (ds ++ '.' :: (fs ++ scale)) ++ []) = _ :=
    readNumber_append negative hds ((Tail.fraction fs hfs hscale.scale).not_digit ends_nil)
  rw [List.append_nil] at hread
  rw [hread, readAfter_of_le negative hv hlead hfits, List.append_nil]
  exact isSome_readFraction negative hfs hsome hscale hfits hbound hk

/-- Digits and an exponent. -/
theorem isSome_readNumber_exponent (negative : Bool) {k : Int} {ds : List Char} {v : Nat}
    {vs : List Nat} (hds : Digits ds) (hv : values ds = v :: vs) (hlead : v = 0 → vs = [])
    (hfits : appended 0 (values ds) ≤ maxWord)
    (hbound : (appended 0 (values ds) : ℚ) * 10 ^ k ≤ readable)
    (hk : appended 0 (values ds) ≠ 0 → k ≤ maxExponent) :
    (readNumber negative (symbols (ds ++ 'e' :: numberLayout.signedExponent k))).toOption.isSome =
      true := by
  have hscale : Scale ('e' :: numberLayout.signedExponent k) :=
    Scales.scale (Or.inr rfl)
  have hread :
      readNumber negative (symbols (ds ++ 'e' :: numberLayout.signedExponent k) ++ []) = _ :=
    readNumber_append negative hds ((Tail.whole hscale).not_digit ends_nil)
  rw [List.append_nil] at hread
  rw [hread, readAfter_of_le negative hv hlead hfits, List.append_nil]
  have hzero : ((0 : Nat) : Int) + k = k := by simp
  rw [← hzero] at hbound
  exact isSome_readExponent negative hfits hbound hk

/-- What stands at the front of digits starts as they do. -/
theorem values_take_of_cons {l : List Char} {v : Nat} {vs : List Nat} (hv : values l = v :: vs)
    (n : Nat) : values (l.take (n + 1)) = v :: vs.take n := by
  rw [values, List.map_take]
  exact congrArg (List.take (n + 1)) hv

theorem digits_zero : Digits ['0'] := by
  intro c hc
  cases List.mem_singleton.mp hc
  rfl

/-- A number of few digits, perhaps with a fraction, is small. -/
theorem isSome_readNumber_small (negative : Bool) {ds fs : List Char} {v : Nat} {vs : List Nat}
    (hds : Digits ds) (hv : values ds = v :: vs) (hlead : v = 0 → vs = [])
    (hlength : ds.length ≤ 16) (hfs : Digits fs) (hsome : fs ≠ []) :
    (readNumber negative (symbols (ds ++ '.' :: fs))).toOption.isSome = true := by
  have hlt := appended_lt (values_lt hds) 0
  have hpow : 10 ^ (values ds).length ≤ 10 ^ 16 :=
    Nat.pow_le_pow_right (by decide) (by simpa [values] using hlength)
  have hfits : appended 0 (values ds) < 10 ^ 16 := by omega
  have hword : appended 0 (values ds) ≤ maxWord := hfits.le.trans (by decide)
  have hread := isSome_readNumber_point negative hds hv hlead hword hfs hsome
    (Or.inl ⟨rfl, rfl⟩) ?_ fun _ => by decide
  · rw [List.append_nil] at hread
    exact hread
  -- Behind the point there is less than one.
  have hall : appended 0 (values (ds ++ fs)) ≤ 10 ^ 16 * 10 ^ fs.length := by
    have hsplit : appended 0 (values (ds ++ fs)) =
        appended (appended 0 (values ds)) (values fs) := by
      rw [values, List.map_append]
      exact appended_append 0 _ _
    have hbelow := appended_lt (values_lt hfs) (appended 0 (values ds))
    have hmono : (appended 0 (values ds) + 1) * 10 ^ (values fs).length ≤
        10 ^ 16 * 10 ^ (values fs).length := Nat.mul_le_mul_right _ hfits
    rw [show (values fs).length = fs.length from List.length_map _] at hbelow hmono
    omega
  have hnat : ((10 ^ 16 : Nat) : ℚ) ≤ readable := by
    exact_mod_cast (by decide +kernel : 10 ^ 16 ≤ readable)
  calc
    (appended 0 (values (ds ++ fs)) : ℚ) * 10 ^ (0 - fs.length : Int)
        ≤ (10 ^ 16 * 10 ^ fs.length : Nat) * 10 ^ (0 - fs.length : Int) :=
          mul_le_mul_of_nonneg_right (by exact_mod_cast hall) (by positivity)
    _ = (10 ^ 16 : Nat) := by
      push_cast
      rw [zero_sub, zpow_neg, zpow_natCast, mul_assoc, mul_inv_cancel₀ (by positivity), mul_one]
    _ ≤ readable := hnat

theorem isSome_readNumber_positional (hd : d.Readable) (negative : Bool)
    (hexponent : d.exponent < 16) :
    (readNumber negative (symbols (numberLayout.positional d))).toOption.isSome = true := by
  rcases hd.lead with ⟨v, vs, hv, hlead⟩
  have hsome : d.digits ≠ [] := by
    rintro hnone
    rw [hnone] at hv
    cases hv
  rw [Layout.positional]
  split
  · exact isSome_readNumber_small negative digits_zero rfl (fun _ => rfl) (by decide)
      (digits_append (digits_replicate _) hd.digits) (by simp [hsome])
  · simp only
    split
    · next hwhole =>
        have hvalues : values (d.digits ++ List.replicate (d.exponent.toNat + 1 - d.digits.length)
            '0') = v :: (vs ++ List.replicate (d.exponent.toNat + 1 - d.digits.length) 0) := by
          rw [values, List.map_append, List.map_replicate]
          exact congrArg (fun l => l ++ _) hv
        have hone : d.digits.length = vs.length + 1 := by
          rw [← List.length_map (f := fun c : Char => c.toNat - 48)]
          exact congrArg List.length hv
        refine isSome_readNumber_small negative (digits_append hd.digits (digits_replicate _))
          hvalues (fun hzero => ?_) ?_ digits_zero (List.cons_ne_nil _ _)
        -- A single zero is filled up with nothing.
        · rcases hlead hzero with ⟨rfl, hexponent⟩
          simp [hexponent, hone]
        · rw [List.length_append, List.length_replicate]
          omega
    · next hwhole =>
        have hrest : d.digits.drop (d.exponent.toNat + 1) ≠ [] := by
          simpa using hwhole
        refine isSome_readNumber_small negative (fun c hc => hd.digits c (List.mem_of_mem_take hc))
          (values_take_of_cons hv _) (fun hzero => ?_) ?_
          (fun c hc => hd.digits c (List.mem_of_mem_drop hc)) hrest
        · rw [(hlead hzero).1, List.take_nil]
        · rw [List.length_take]
          omega

/-- A number that is not zero has a small exponent. -/
theorem exponent_lt (hd : d.Readable) (hne : appended 0 (values d.digits) ≠ 0) :
    d.exponent < 309 := by
  rcases hd.lead with ⟨v, vs, hv, hlead⟩
  have hpos : 1 ≤ v := by
    refine Nat.one_le_iff_ne_zero.mpr fun hzero => hne ?_
    rw [hv, (hlead hzero).1, hzero]
    rfl
  by_contra hlarge
  have hlength : d.digits.length = vs.length + 1 :=
    (List.length_map _).symm.trans (congrArg List.length hv)
  -- The leading digit alone is too large.
  have hle : 10 ^ vs.length ≤ appended 0 (values d.digits) := by
    have happ := le_appended vs v
    have hmul : 1 * 10 ^ vs.length ≤ v * 10 ^ vs.length := Nat.mul_le_mul_right _ hpos
    rw [hv, appended_cons, Nat.zero_mul, Nat.zero_add]
    omega
  have hsize : ((10 ^ 309 : Nat) : ℚ) ≤ readable := by
    refine le_trans ?_ hd.size_le
    calc
      ((10 ^ 309 : Nat) : ℚ) = 10 ^ (309 : Int) := by
        rw [Nat.cast_pow, Nat.cast_ofNat]
        rfl
      _ ≤ 10 ^ ((vs.length : Int) + (d.exponent + 1 - d.digits.length)) :=
        zpow_le_zpow_right₀ (by norm_num) (by omega)
      _ = (10 ^ vs.length : Nat) * 10 ^ (d.exponent + 1 - d.digits.length) := by
        rw [zpow_add₀ (by norm_num), zpow_natCast, Nat.cast_pow, Nat.cast_ofNat]
      _ ≤ d.size := mul_le_mul_of_nonneg_right (by exact_mod_cast hle) (by positivity)
  exact Nat.lt_irrefl _ (lt_of_pow_le_readable (by exact_mod_cast hsize))

theorem appended_single_le {c : Char} (h : Digits [c]) : appended 0 (values [c]) ≤ maxWord := by
  have hlt : appended 0 (values [c]) < (0 + 1) * 10 ^ 1 := appended_lt (values_lt h) 0
  exact hlt.le.trans (by decide)

/-- The digits of a decimal number and its exponent, with a point behind the first digit. -/
theorem isSome_readNumber_scientific (hd : d.Readable) (negative : Bool) :
    (readNumber negative (symbols (numberLayout.scientific d))).toOption.isSome = true := by
  have hsize := hd.size_le
  have hexponent : appended 0 (values d.digits) ≠ 0 → d.exponent ≤ maxExponent := by
    intro hne
    have hsmall := exponent_lt hd hne
    have hlimit : 309 ≤ maxExponent := by decide
    omega
  rcases hd.lead with ⟨v, vs, hv, hlead⟩
  have hall := hd.digits
  rw [Decimal.size] at hsize
  rw [Layout.scientific]
  -- A single digit has no point behind it; with more digits the point shifts the exponent.
  rcases hdigits : d.digits with - | ⟨lead, - | ⟨next, rest⟩⟩
  · rw [hdigits] at hv
    cases hv
  · rw [hdigits] at hv hsize hall hexponent
    have hshift : d.exponent + 1 - ([lead] : List Char).length = d.exponent := by
      simp
    rw [hshift] at hsize
    exact isSome_readNumber_exponent negative hall hv (fun hzero => (hlead hzero).1)
      (appended_single_le hall) hsize hexponent
  · rw [hdigits] at hv hsize hall hexponent
    have hfirst : Digits [lead] := fun c hc =>
      hall c (List.mem_cons.mpr (Or.inl (List.mem_singleton.mp hc)))
    have hrest : Digits (next :: rest) := fun c hc => hall c (List.mem_cons_of_mem _ hc)
    have hshift : d.exponent + 1 - (lead :: next :: rest).length =
        d.exponent - (next :: rest).length := by
      simp only [List.length_cons]
      omega
    rw [hshift] at hsize
    have hvalue : values [lead] = [lead.toNat - 48] := rfl
    exact isSome_readNumber_point negative hfirst hvalue (fun _ => rfl) (appended_single_le hfirst)
      hrest (List.cons_ne_nil _ _) (Or.inr rfl) hsize hexponent

/-- Whatever is written is read. -/
theorem isSome_readNumber_write (hd : d.Readable) (negative : Bool) :
    (readNumber negative (symbols (numberLayout.write d))).toOption.isSome = true := by
  rw [Layout.write]
  split
  · next hrange => exact isSome_readNumber_positional hd negative hrange.2
  · exact isSome_readNumber_scientific hd negative

end Json

/-! ## Shortest digits -/

namespace Numeric.Decimal

variable {m : Nat} {q : Int}

theorem tenPow_pos (k : Int) : 0 < (tenPow k).1 ∧ 0 < (tenPow k).2 := by
  cases k with
  | ofNat k =>
      exact ⟨Nat.pow_pos (by decide), Nat.one_pos⟩
  | negSucc k =>
      exact ⟨Nat.one_pos, Nat.pow_pos (by decide)⟩

theorem tenPow_div (k : Int) : ((tenPow k).1 : ℚ) / (tenPow k).2 = 10 ^ k := by
  cases k with
  | ofNat k =>
      simp [tenPow]
  | negSucc k =>
      simp [tenPow, zpow_negSucc]

/-- The comparison of a decimal with a binary number is that of fractions. -/
theorem cross_le_iff (c : Nat) (k : Int) (n : Nat) (p : Int) :
    c * (tenPow k).1 * (twoPow p).2 ≤ n * (twoPow p).1 * (tenPow k).2 ↔
      (c : ℚ) * 10 ^ k ≤ n * 2 ^ p := by
  have hten : (0 : ℚ) < (tenPow k).2 := by exact_mod_cast (tenPow_pos k).2
  have htwo : (0 : ℚ) < (twoPow p).2 := by exact_mod_cast (twoPow_pos p).2
  rw [← tenPow_div, ← twoPow_div, ← mul_div_assoc, ← mul_div_assoc, div_le_div_iff₀ hten htwo,
    ← Nat.cast_le (α := ℚ)]
  push_cast
  rfl

theorem cross_ge_iff (c : Nat) (k : Int) (n : Nat) (p : Int) :
    n * (twoPow p).1 * (tenPow k).2 ≤ c * (tenPow k).1 * (twoPow p).2 ↔
      (n : ℚ) * 2 ^ p ≤ c * 10 ^ k := by
  have hten : (0 : ℚ) < (tenPow k).2 := by exact_mod_cast (tenPow_pos k).2
  have htwo : (0 : ℚ) < (twoPow p).2 := by exact_mod_cast (twoPow_pos p).2
  rw [← tenPow_div, ← twoPow_div, ← mul_div_assoc, ← mul_div_assoc, div_le_div_iff₀ htwo hten,
    ← Nat.cast_le (α := ℚ)]
  push_cast
  rfl

/-- What reads back is not above the halfway point to the next number, and not zero. -/
theorem bounds_of_readsBack {c : Nat} {k : Int} (hm : m ≠ 0) (h : readsBack m q c k = true) :
    (c : ℚ) * 10 ^ k ≤ (4 * m + 2 : Nat) * 2 ^ (q - 2) ∧ c ≠ 0 := by
  simp only [readsBack] at h
  -- An even mantissa reads back on the bounds as well, an odd one only between them.
  split at h
  · simp only [Bool.and_eq_true, atLeast, atMost, decide_eq_true_eq, cross_ge_iff,
      cross_le_iff] at h
    refine ⟨h.2, ?_⟩
    rintro rfl
    have hzero := h.1
    rw [Nat.cast_zero, zero_mul] at hzero
    have hpos : (0 : ℚ) < ((4 * m - if m = Binary64.leadingBit ∧ -1074 < q then 1 else 2 : Nat) :
        ℚ) * 2 ^ (q - 2) := by
      refine mul_pos ?_ (by positivity)
      rw [Nat.cast_pos]
      split <;> omega
    exact absurd hpos (not_lt.mpr hzero)
  · simp only [Bool.and_eq_true, Bool.not_eq_true', atLeast, atMost, decide_eq_false_iff_not,
      cross_ge_iff, cross_le_iff, not_le] at h
    refine ⟨h.2.le, ?_⟩
    rintro rfl
    have hzero := h.1
    rw [Nat.cast_zero, zero_mul] at hzero
    exact absurd hzero (not_lt.mpr (by positivity))

/-- The search ends with a decimal number that reads back, if it finds one. -/
theorem search_cases (lead : Int) (grids : Nat) : ∀ step,
    search m q lead grids step = ⟨['0'], 0⟩ ∨ ∃ c k, readsBack m q c k = true ∧
      search m q lead grids step =
        ⟨stripZeros (digitsOf c), k + ((digitsOf c).length : Int) - 1⟩ := by
  have hgrid : ∀ k c, onGrid m q k = some c → readsBack m q c k = true := by
    intro k c h
    simp only [onGrid] at h
    -- Whichever of the two neighbours the other one is.
    generalize (if roundDiv _ _ = _ then _ else _) = other at h
    split at h
    · next hback => exact Option.some.inj h ▸ hback
    · split at h
      · next hback => exact Option.some.inj h ▸ hback
      · cases h
  induction grids with
  | zero =>
      intro step
      exact Or.inl rfl
  | succ grids ih =>
      intro step
      simp only [search]
      split
      · next c hc => exact Or.inr ⟨c, _, hgrid _ c hc, rfl⟩
      · exact ih (step + 1)

theorem exists_stripZeros (l : List Char) :
    ∃ z, l = stripZeros l ++ List.replicate z '0' := by
  refine ⟨(l.reverse.takeWhile (· == '0')).length, ?_⟩
  have hzeros : l.reverse.takeWhile (· == '0') =
      List.replicate (l.reverse.takeWhile (· == '0')).length '0' := by
    refine List.eq_replicate_of_mem fun c hc => ?_
    exact beq_iff_eq.mp (List.all_eq_true.mp List.all_takeWhile c hc)
  have hsplit := List.takeWhile_append_dropWhile (p := (· == '0')) (l := l.reverse)
  calc
    l = (l.reverse.takeWhile (· == '0') ++ l.reverse.dropWhile (· == '0')).reverse := by
      rw [hsplit, List.reverse_reverse]
    _ = stripZeros l ++ (l.reverse.takeWhile (· == '0')).reverse := by
      rw [List.reverse_append]
      rfl
    _ = stripZeros l ++ List.replicate (l.reverse.takeWhile (· == '0')).length '0' := by
      rw [hzeros, List.reverse_replicate, List.length_replicate]

/-- Zeros at the end of the digits go into the exponent. -/
theorem readable_stripZeros {c : Nat} {k : Int} (hc : c ≠ 0) (h : (c : ℚ) * 10 ^ k ≤ readable) :
    Readable ⟨stripZeros (digitsOf c), k + ((digitsOf c).length : Int) - 1⟩ := by
  rcases exists_stripZeros (digitsOf c) with ⟨z, hz⟩
  have hvalues : values (digitsOf c) = values (stripZeros (digitsOf c)) ++ List.replicate z 0 := by
    conv_lhs => rw [hz]
    rw [values, List.map_append, List.map_replicate]
    rfl
  rcases values_digitsOf_head hc with ⟨v, vs, hv⟩
  refine ⟨?_, ?_, ?_⟩
  · intro d hd
    refine digits_digitsOf c d ?_
    rw [hz]
    exact List.mem_append_left _ hd
  -- The first digit is not zero, and so it is not taken off.
  · rw [hv] at hvalues
    rcases hstrip : values (stripZeros (digitsOf c)) with - | ⟨v', vs'⟩
    · rw [hstrip, List.nil_append] at hvalues
      have hmem : v + 1 ∈ List.replicate z 0 := hvalues ▸ List.mem_cons_self
      exact absurd (List.eq_of_mem_replicate hmem) (Nat.succ_ne_zero v)
    · rw [hstrip] at hvalues
      cases hvalues
      exact ⟨v + 1, vs', rfl, fun hzero => absurd hzero (Nat.succ_ne_zero v)⟩
  · refine le_trans (le_of_eq ?_) h
    have hamount : c = appended 0 (values (stripZeros (digitsOf c))) * 10 ^ z := by
      calc
        c = appended 0 (values (digitsOf c)) := (appended_digitsOf c).symm
        _ = _ := by rw [hvalues, appended_append, appended_replicate]
    have hlength : (digitsOf c).length = (stripZeros (digitsOf c)).length + z := by
      conv_lhs => rw [hz]
      rw [List.length_append, List.length_replicate]
    have hshift : k + ((digitsOf c).length : Int) - 1 + 1 - (stripZeros (digitsOf c)).length =
        z + k := by
      omega
    rw [size]
    simp only [hshift]
    conv_rhs => rw [hamount]
    rw [zpow_add₀ (by norm_num), zpow_natCast]
    push_cast
    ring

/-- Below the largest float, the point halfway to the next one is readable. -/
theorem halfway_le {x : Binary64} (hx : x.magnitude + 1 < Binary64.infinity) :
    ((4 * x.significand + 2 : Nat) : ℚ) * 2 ^ (x.exponent - 2) ≤ readable := by
  have hbit : Binary64.leadingBit = 4503599627370496 := rfl
  have hreadable : (readable : ℚ) = (36028797018963962 : Nat) * 2 ^ (969 : Int) := by
    have hpow : ((twoPow 969).1 : ℚ) / (1 : Nat) = 2 ^ (969 : Int) := twoPow_div 969
    rw [← hpow, Nat.cast_one, div_one, readable, Nat.cast_mul]
  rw [hreadable]
  -- On the highest scale the significand is not the largest one.
  have hcases : x.exponent ≤ 970 ∧ x.significand < 2 * Binary64.leadingBit ∨
      x.exponent = 971 ∧ x.significand + 2 ≤ 2 * Binary64.leadingBit := by
    simp only [Binary64.infinity, Binary64.leadingBit] at hx
    simp only [Binary64.significand, Binary64.exponent, Binary64.leadingBit]
    by_cases hnormal : x.magnitude < 4503599627370496
    · simp only [hnormal, if_true]
      omega
    · simp only [hnormal, if_false]
      omega
  rcases hcases with ⟨hexponent, hsignificand⟩ | ⟨hexponent, hsignificand⟩
  · calc
      ((4 * x.significand + 2 : Nat) : ℚ) * 2 ^ (x.exponent - 2)
          ≤ (2 * 36028797018963962 : Nat) * 2 ^ (x.exponent - 2) := by
            refine mul_le_mul_of_nonneg_right ?_ (by positivity)
            exact_mod_cast (by omega : 4 * x.significand + 2 ≤ 2 * 36028797018963962)
      _ = (36028797018963962 : Nat) * 2 ^ (x.exponent - 1) := by
        have hnext : x.exponent - 1 = x.exponent - 2 + 1 := by ring
        rw [hnext, zpow_add_one₀ (by norm_num)]
        push_cast
        ring
      _ ≤ (36028797018963962 : Nat) * 2 ^ (969 : Int) :=
        mul_le_mul_of_nonneg_left (Binary64.two_zpow_le (by omega)) (by positivity)
  · rw [hexponent]
    refine mul_le_mul_of_nonneg_right ?_ (by positivity)
    exact_mod_cast (by omega : 4 * x.significand + 2 ≤ 36028797018963962)

/-- The digits of a float are readable, unless it is the largest one. -/
theorem readable_ofBinary {x : Binary64} (hzero : x.isZero = false)
    (hx : x.magnitude + 1 < Binary64.infinity) : (ofBinary x).Readable := by
  have hsignificand : x.significand ≠ 0 := by
    simp only [Binary64.isZero, decide_eq_false_iff_not] at hzero
    simp only [Binary64.significand]
    split
    · exact hzero
    · have hbit : 0 < Binary64.leadingBit := by decide
      omega
  rw [ofBinary]
  rcases search_cases (m := x.significand) (q := x.exponent)
    (leading x.significand x.exponent) 17 0 with hnone | ⟨c, k, hback, hfound⟩
  · have hnothing : size ⟨['0'], 0⟩ = 0 := by
      simp [size, appended, values]
    rw [hnone]
    exact ⟨digits_zero, ⟨0, [], rfl, fun _ => ⟨rfl, rfl⟩⟩, hnothing.trans_le (Nat.cast_nonneg _)⟩
  · rcases bounds_of_readsBack hsignificand hback with ⟨hbound, hc⟩
    rw [hfound]
    exact readable_stripZeros hc (hbound.trans (halfway_le hx))

end Numeric.Decimal

/-! ## Numbers -/

namespace Json

/-- What is read as a number begins with a digit. -/
theorem exists_digit_of_readNumber {negative : Bool} {l : List Char}
    (h : (readNumber negative (symbols l)).toOption.isSome = true) :
    ∃ c l', l = c :: l' ∧ isDigit c = true := by
  cases l with
  | nil =>
      cases h
  | cons c l' =>
      refine ⟨c, l', rfl, ?_⟩
      by_contra hc
      have htake : takeDigits (symbols (c :: l')) = ([], symbols (c :: l')) := by
        refine takeDigits_of_not fun c' rest hsame => ?_
        cases hsame
        exact Bool.not_eq_true _ ▸ hc
      rw [readNumber, htake] at h
      cases h

end Json

namespace Number

/-- The text of a number is read if what stands behind its sign is. -/
theorem legible_of_readNumber {n : Number} (negative : Bool) (l : List Char)
    (hchars : n.chars = if negative then '-' :: l else l)
    (h : (readNumber negative (symbols l)).toOption.isSome = true) : n.Legible := by
  rcases Value.read_eq 0 with ⟨item, hitem, -⟩
  rw [Legible, reread, hchars, hitem, Option.isSome_map]
  -- A sign or a first digit makes the reader take a number.
  cases negative with
  | true =>
      have hsigned : Value.readWith item 0 (symbols ('-' :: l)) =
          (readNumber true (symbols l)).map (fun r => (.num r.1, r.2)) := rfl
      rw [if_pos rfl, hsigned]
      cases hread : readNumber true (symbols l) with
      | error e =>
          rw [hread] at h
          cases h
      | ok r =>
          rfl
  | false =>
      rcases exists_digit_of_readNumber h with ⟨c, l', rfl, hc⟩
      rw [if_neg Bool.false_ne_true, symbols_cons, Value.readWith_digit item 0 hc, ← symbols_cons]
      cases hread : readNumber false (symbols (c :: l')) with
      | error e =>
          rw [hread] at h
          cases h
      | ok r =>
          rfl

theorem legible_largest : ∀ negative : Bool,
    (Number.float ⟨negative, Binary64.infinity - 1⟩).Legible := by
  have hlegible : ∀ negative : Bool,
      (Number.float ⟨negative, Binary64.infinity - 1⟩).reread.isSome = true := by
    decide +kernel
  exact hlegible

/-- Whatever a float is, its text is read. -/
theorem legible_float (x : Binary64) : (Number.float x).Legible := by
  by_cases hfinite : x.isFinite = true
  -- What is no number is written as `null`.
  case neg =>
    have hchars : (Number.float x).chars = ['n', 'u', 'l', 'l'] := by
      simp only [chars, floatChars, hfinite, Bool.not_false, if_true]
    rw [Legible, reread, hchars]
    rfl
  by_cases hlargest : x.magnitude = Binary64.infinity - 1
  · rcases x with ⟨negative, magnitude⟩
    simp only at hlargest
    rw [hlargest]
    exact legible_largest negative
  cases hzero : x.isZero with
  | true =>
      refine legible_of_readNumber x.negative ['0', '.', '0'] ?_ ?_
      · simp only [chars, floatChars, hfinite, hzero, Bool.not_true, Bool.false_eq_true, if_false,
          if_true]
      · cases x.negative <;> decide +kernel
  | false =>
      have hbelow : x.magnitude + 1 < Binary64.infinity := by
        simp only [Binary64.isFinite, decide_eq_true_eq] at hfinite
        omega
      refine legible_of_readNumber x.negative (numberLayout.write (.ofBinary x)) ?_ ?_
      · simp only [chars, floatChars, hfinite, hzero, Bool.not_true, Bool.false_eq_true, if_false]
      · exact isSome_readNumber_write (Decimal.readable_ofBinary hzero hbelow) x.negative

theorem InRange.legible {n : Number} (h : n.InRange) : n.Legible := by
  rw [Legible, reread_of_inRange h]
  rfl

end Number

/-! ## What is read -/

namespace Json

theorem yields_float (negative : Bool) (n : Nat) (e : Int) :
    Yields (float negative n e) Number.Legible := by
  intro s x rest h
  rw [float] at h
  split at h
  · cases h
    exact Number.legible_float _
  · cases h

theorem yields_readExponent (negative : Bool) (n : Nat) (e : Int) :
    Yields (readExponent negative n e) Number.Legible := by
  intro s x rest h
  simp only [readExponent] at h
  split at h
  · cases h
  · cases h
  · split at h
    -- What does not fit is a zero, or nothing at all; which sign there is makes no difference.
    · split at h
      all_goals
        split at h
        · cases h
        · cases h
          exact Number.legible_float _
    · exact yields_float _ _ _ _ _ _ h

theorem yields_readFraction (negative : Bool) (n : Nat) (e : Int) :
    Yields (readFraction negative n e) Number.Legible := by
  intro s x rest h
  simp only [readFraction] at h
  split at h
  · cases h
  · cases h
  · rw [readScale.eq_def] at h
    split at h
    · exact yields_readExponent _ _ _ _ _ _ h
    · exact yields_readExponent _ _ _ _ _ _ h
    · exact yields_float _ _ _ _ _ _ h

/-- A whole number of 64 bits is legible. -/
theorem legible_whole (negative : Bool) {n : Nat} (hn : n ≤ maxWord) :
    (whole negative n).Legible := by
  rw [whole]
  split
  · split
    · exact Number.legible_float _
    · next hsmall =>
        have hword : (maxNegated : Int) ≤ maxWord := by decide
        exact Number.InRange.legible ⟨by omega, by omega⟩
  · exact Number.InRange.legible ⟨by omega, by omega⟩

theorem yields_readTail (negative : Bool) {n : Nat} (hn : n ≤ maxWord) (excess : Nat) :
    Yields (readTail negative n excess) Number.Legible := by
  intro s x rest h
  rw [readTail.eq_def] at h
  split at h
  · exact yields_readFraction _ _ _ _ _ _ h
  · exact yields_readExponent _ _ _ _ _ _ h
  · exact yields_readExponent _ _ _ _ _ _ h
  · split at h
    · cases h
      exact legible_whole negative hn
    · exact yields_float _ _ _ _ _ _ h

theorem yields_readNumber (negative : Bool) : Yields (readNumber negative) Number.Legible := by
  intro s x rest h
  simp only [readNumber] at h
  split at h
  · cases h
  · cases h
  · exact yields_readTail negative (by decide) 0 _ _ _ h
  · cases h
  · exact yields_readTail negative (gather_spec _ 0 (by decide)).1 _ _ _ _ h

end Json

namespace Value

theorem composed_legible :
    Composed Number.Legible (fun _ => EveryNumber Number.Legible) where
  null _ := trivial
  bool _ _ := trivial
  num _ _ h := h
  str _ _ := trivial
  list _ h := everyNumberItems_iff.mpr h
  map _ _ h := everyNumberFields_iff.mpr h

/-- Every number in a value that was read is legible. -/
theorem yields_legible (room : Nat) : Yields (read room) (EveryNumber Number.Legible) :=
  composed_legible.yields_read yields_readNumber room

end Value
end EntityCache
