import EntityCache.Proofs.Json.Strings

/-!
# Numbers read back

* `Json.Ends`: what follows a value does not go on with a number.
* `Json.Local`: a reader takes a text as a whole and looks no further.
* `Json.Numeral`: digits, perhaps a fraction, perhaps an exponent.
* `Json.local_readNumber`: a number is read without a look at what follows.
* `numeral_floatChars`, `numeral_intChars`: every number is written so.
* `Number.chars_cases`: with a sign, without one, or as the word that stands for no number.
-/

namespace EntityCache
namespace Json

variable {α : Type}

/-- A character that may stand inside a number. -/
def isNumeral (c : Char) : Bool :=
  isDigit c || c == '.' || c == 'e' || c == 'E' || c == '+' || c == '-'

/-- The text does not begin with a character that may stand inside a number. -/
def Ends (s : Symbols) : Prop :=
  ∀ c rest, s = some c :: rest → isNumeral c = false

theorem ends_nil : Ends [] := by
  intro c rest h
  cases h

theorem ends_cons {c : Char} (h : isNumeral c = false) (rest : Symbols) :
    Ends (some c :: rest) := by
  rintro _ _ ⟨⟩
  exact h

/-- On the characters `l` the reader does not depend on what follows. -/
def Local (reader : Symbols → Scan α) (l : List Char) : Prop :=
  ∃ r : Option α, ∀ rest, Ends rest →
    (reader (symbols l ++ rest)).toOption = r.map (fun a => (a, rest))

theorem Local.eq {reader : Symbols → Scan α} {l : List Char} (h : Local reader l) {rest : Symbols}
    (hrest : Ends rest) :
    (reader (symbols l ++ rest)).toOption =
      ((reader (symbols l)).toOption.map Prod.fst).map (fun a => (a, rest)) := by
  rcases h with ⟨r, hr⟩
  have halone := hr [] ends_nil
  simp only [List.append_nil] at halone
  simp only [hr rest hrest, halone]
  cases r <;> rfl

/-! ## Digits -/

def Digits (l : List Char) : Prop :=
  ∀ c ∈ l, isDigit c = true

/-- The values of digits. -/
def values (l : List Char) : List Nat :=
  l.map (fun c => c.toNat - 48)

theorem takeDigits_of_not {rest : Symbols}
    (h : ∀ c rest', rest = some c :: rest' → isDigit c = false) : takeDigits rest = ([], rest) := by
  cases rest with
  | nil =>
      rfl
  | cons x rest =>
      cases x with
      | none =>
          rfl
      | some c =>
          simp [takeDigits, h c rest rfl]

theorem takeDigits_append {ds : List Char} (hds : Digits ds) {rest : Symbols}
    (hrest : ∀ c rest', rest = some c :: rest' → isDigit c = false) :
    takeDigits (symbols ds ++ rest) = (values ds, rest) := by
  induction ds with
  | nil =>
      exact takeDigits_of_not hrest
  | cons d ds ih =>
      have hd : isDigit d = true := hds d List.mem_cons_self
      have hlater := ih fun c hc => hds c (List.mem_cons_of_mem _ hc)
      simp [takeDigits, hd, hlater, values]

theorem Ends.not_digit {s : Symbols} (h : Ends s) :
    ∀ c rest, s = some c :: rest → isDigit c = false := by
  intro c rest hs
  have hc := h c rest hs
  simp only [isNumeral, Bool.or_eq_false_iff] at hc
  exact hc.1.1.1.1.1

/-! ## Parts of a number -/

/-- An exponent, or nothing. -/
inductive Scale : List Char → Prop where
  | missing : Scale []
  | power (sign ds : List Char) (hsign : sign = [] ∨ sign = ['+'] ∨ sign = ['-'])
      (hds : Digits ds) : Scale ('e' :: (sign ++ ds))

/-- A fraction and an exponent, each perhaps missing. -/
inductive Tail : List Char → Prop where
  | whole {scale : List Char} (hscale : Scale scale) : Tail scale
  | fraction (ds : List Char) {scale : List Char} (hds : Digits ds) (hscale : Scale scale) :
      Tail ('.' :: (ds ++ scale))

/-- A number without its sign. -/
inductive Numeral : List Char → Prop where
  | mk (ds : List Char) {tail : List Char} (hds : Digits ds) (htail : Tail tail) :
      Numeral (ds ++ tail)

/-- A number starts with a digit, a point or an `e`. -/
theorem Numeral.head {c : Char} {l : List Char} :
    Numeral (c :: l) → isDigit c = true ∨ c = '.' ∨ c = 'e' := by
  intro h
  generalize hcl : c :: l = text at h
  rcases h with ⟨ds, hds, htail⟩
  -- Without digits in front the tail comes first: a point, or an exponent.
  cases ds with
  | cons d ds =>
      cases hcl
      exact Or.inl (hds c List.mem_cons_self)
  | nil =>
      cases htail with
      | whole hscale =>
          cases hscale with
          | missing =>
              cases hcl
          | power sign ds hsign hds =>
              cases hcl
              exact Or.inr (Or.inr rfl)
      | fraction ds hds hscale =>
          cases hcl
          exact Or.inr (Or.inl rfl)

theorem Scale.not_digit {l : List Char} (h : Scale l) {rest : Symbols} (hrest : Ends rest) :
    ∀ c rest', symbols l ++ rest = some c :: rest' → isDigit c = false := by
  cases h with
  | missing =>
      exact hrest.not_digit
  | power sign ds hsign hds =>
      rintro c rest' ⟨⟩
      rfl

theorem Tail.not_digit {l : List Char} (h : Tail l) {rest : Symbols} (hrest : Ends rest) :
    ∀ c rest', symbols l ++ rest = some c :: rest' → isDigit c = false := by
  cases h with
  | whole hscale =>
      exact hscale.not_digit hrest
  | fraction ds hds hscale =>
      rintro c rest' ⟨⟩
      rfl

theorem local_float (negative : Bool) (n : Nat) (e : Int) :
    Local (float negative n e) [] := by
  cases hf : scaled 4 (Numeric.Binary64.ofNat n) e with
  | none =>
      refine ⟨none, ?_⟩
      intro rest _
      simp [float, hf, Except.toOption]
  | some f =>
      refine ⟨some (.float { f with negative := negative }), ?_⟩
      intro rest _
      simp [float, hf, Except.toOption]

/-- An exponent after its sign, which is read off first. -/
theorem readExponent_sign (negative : Bool) (n : Nat) (e : Int) {sign ds : List Char}
    (hsign : sign = [] ∨ sign = ['+'] ∨ sign = ['-']) (hds : Digits ds) {rest : Symbols}
    (hrest : Ends rest) :
    (readExponent negative n e (symbols (sign ++ ds) ++ rest)).toOption =
      if values ds = [] then none
      else
        let x := (values ds).foldl (fun n d => n * 10 + d) 0
        let down := decide (sign = ['-'])
        (if maxExponent < x then
          if n ≠ 0 ∧ !down then .error .malformed
          else .ok (.float ⟨negative, 0⟩, rest)
        else float negative n (if down then e - x else e + x) rest).toOption := by
  have htake : takeDigits (symbols ds ++ rest) = (values ds, rest) :=
    takeDigits_append hds hrest.not_digit
  -- Without a sign nothing is taken for one: neither a digit nor what follows is a sign.
  have hstart : ∀ c rest', symbols ds ++ rest = some c :: rest' → c ≠ '+' ∧ c ≠ '-' := by
    intro c rest' hs
    cases ds with
    | nil =>
        have hc := hrest c rest' hs
        simp only [isNumeral, Bool.or_eq_false_iff, beq_eq_false_iff_ne] at hc
        exact ⟨hc.1.2, hc.2⟩
    | cons d ds =>
        have hd : isDigit d = true := hds d List.mem_cons_self
        cases hs
        constructor <;> rintro rfl <;> cases hd
  rcases hsign with rfl | rfl | rfl
  · rw [List.nil_append, readExponent]
    case inl.x =>
      exact fun rest' h => (hstart _ _ h).1 rfl
    case inl.x_1 =>
      exact fun rest' h => (hstart _ _ h).2 rfl
    simp only [htake]
    cases values ds with
    | nil =>
        cases rest <;> rfl
    | cons d vs =>
        simp
  · show (readExponent negative n e (some '+' :: (symbols ds ++ rest))).toOption = _
    simp only [readExponent]
    simp only [htake]
    cases values ds with
    | nil =>
        cases rest <;> rfl
    | cons d vs =>
        simp
  · show (readExponent negative n e (some '-' :: (symbols ds ++ rest))).toOption = _
    simp only [readExponent]
    simp only [htake]
    cases values ds with
    | nil =>
        cases rest <;> rfl
    | cons d vs =>
        simp

/-! ## Reading without a look at what follows -/

theorem local_readExponent (negative : Bool) (n : Nat) (e : Int) {sign ds : List Char}
    (hsign : sign = [] ∨ sign = ['+'] ∨ sign = ['-']) (hds : Digits ds) :
    Local (readExponent negative n e) (sign ++ ds) := by
  let x := (values ds).foldl (fun n d => n * 10 + d) 0
  let down := decide (sign = ['-'])
  rcases local_float negative n (if down then e - x else e + x) with ⟨r, hr⟩
  -- Whether it fails, and with what it goes on, is settled by the digits and the sign.
  refine ⟨if values ds = [] then none
    else if maxExponent < x then
      if n ≠ 0 ∧ !down then none else some (.float ⟨negative, 0⟩)
    else r, ?_⟩
  intro rest hrest
  simp only [readExponent_sign negative n e hsign hds hrest]
  have hfloat := hr rest hrest
  simp only [symbols_nil, List.nil_append] at hfloat
  split
  · rfl
  · simp only [x, down] at hfloat ⊢
    split
    · split <;> rfl
    · exact hfloat

theorem local_readScale (negative : Bool) (n : Nat) (e : Int) {scale : List Char}
    (hscale : Scale scale) : Local (readScale negative n e) scale := by
  cases hscale with
  | missing =>
      rcases local_float negative n e with ⟨r, hr⟩
      refine ⟨r, ?_⟩
      intro rest hrest
      have hplain : readScale negative n e rest = float negative n e rest := by
        rw [readScale]
        · rintro rest' rfl
          exact Bool.noConfusion (hrest 'e' rest' rfl)
        · rintro rest' rfl
          exact Bool.noConfusion (hrest 'E' rest' rfl)
      have hfloat := hr rest hrest
      simp only [symbols_nil, List.nil_append] at hfloat ⊢
      simp only [hplain, hfloat]
  | power sign ds hsign hds =>
      exact local_readExponent negative n e hsign hds

theorem local_readFraction (negative : Bool) (n : Nat) (e : Int) {ds scale : List Char}
    (hds : Digits ds) (hscale : Scale scale) :
    Local (readFraction negative n e) (ds ++ scale) := by
  rcases local_readScale negative (gather n (values ds)).1
    (e - ((values ds).length - (gather n (values ds)).2 : Nat)) hscale with ⟨r, hr⟩
  -- A point needs a digit behind it.
  refine ⟨if values ds = [] then none else r, ?_⟩
  intro rest hrest
  have htake := takeDigits_append hds (hscale.not_digit hrest)
  simp only [symbols_append, List.append_assoc, readFraction, htake]
  have hlater := hr rest hrest
  cases hv : values ds with
  | nil =>
      cases symbols scale ++ rest <;> rfl
  | cons d vs =>
      simp only [hv] at hlater
      simpa using hlater

theorem local_readTail (negative : Bool) (n excess : Nat) {tail : List Char} (htail : Tail tail) :
    Local (readTail negative n excess) tail := by
  cases htail with
  | fraction ds hds hscale =>
      exact local_readFraction negative n excess hds hscale
  | whole hscale =>
      cases hscale with
      | power sign ds hsign hds =>
          exact local_readExponent negative n excess hsign hds
      | missing =>
          rcases local_float negative n excess with ⟨r, hr⟩
          refine ⟨if excess = 0 then some (whole negative n) else r, ?_⟩
          intro rest hrest
          have hfloat := hr rest hrest
          simp only [symbols_nil, List.nil_append] at hfloat ⊢
          rw [readTail]
          · split
            · rfl
            · exact hfloat
          -- What follows begins with no part of a number.
          · rintro rest' rfl
            exact Bool.noConfusion (hrest '.' rest' rfl)
          · rintro rest' rfl
            exact Bool.noConfusion (hrest 'e' rest' rfl)
          · rintro rest' rfl
            exact Bool.noConfusion (hrest 'E' rest' rfl)

/-- What is left to read of a number after the digits of its whole part. -/
def readAfter (negative : Bool) (digits : List Nat) (rest : Symbols) : Scan Number :=
  match digits, rest with
  | [], [] => .error .ended
  | [], _ :: _ => .error .malformed
  | 0 :: [], rest => readTail negative 0 0 rest
  | 0 :: _ :: _, _ => .error .malformed
  | ds, rest => readTail negative (gather 0 ds).1 (gather 0 ds).2 rest

theorem readNumber_append (negative : Bool) {ds tail : List Char} {rest : Symbols}
    (hds : Digits ds) (hrest : ∀ c s, symbols tail ++ rest = some c :: s → isDigit c = false) :
    readNumber negative (symbols (ds ++ tail) ++ rest) =
      readAfter negative (values ds) (symbols tail ++ rest) := by
  simp only [symbols_append, List.append_assoc, readNumber, takeDigits_append hds hrest]
  rcases values ds with - | ⟨d, - | ⟨d', vs⟩⟩
  · cases symbols tail ++ rest <;> rfl
  · cases d <;> rfl
  · cases d <;> rfl

/-- A number is read without a look at what follows. -/
theorem local_readNumber (negative : Bool) {l : List Char} (hl : Numeral l) :
    Local (readNumber negative) l := by
  rcases hl with ⟨ds, hds, htail⟩
  rename_i tail
  have hread : ∀ rest, Ends rest → readNumber negative (symbols (ds ++ tail) ++ rest) =
      readAfter negative (values ds) (symbols tail ++ rest) := by
    intro rest hrest
    exact readNumber_append negative hds (htail.not_digit hrest)
  -- No digit at all is refused, and so is a zero with a digit behind it.
  rcases hv : values ds with - | ⟨d, vs⟩
  · refine ⟨none, ?_⟩
    intro rest hrest
    simp only [hread rest hrest, hv]
    cases symbols tail ++ rest <;> rfl
  · rcases local_readTail negative (gather 0 (d :: vs)).1 (gather 0 (d :: vs)).2 htail with ⟨r, hr⟩
    rcases local_readTail negative 0 0 htail with ⟨r₀, hr₀⟩
    cases d with
    | zero =>
        cases vs with
        | nil =>
            refine ⟨r₀, ?_⟩
            intro rest hrest
            simp only [hread rest hrest, hv]
            exact hr₀ rest hrest
        | cons d' vs =>
            refine ⟨none, ?_⟩
            intro rest hrest
            simp only [hread rest hrest, hv]
            rfl
    | succ d =>
        refine ⟨r, ?_⟩
        intro rest hrest
        simp only [hread rest hrest, hv]
        exact hr rest hrest

/-! ## Written numbers -/

theorem digits_append {l m : List Char} (hl : Digits l) (hm : Digits m) : Digits (l ++ m) := by
  intro c hc
  rcases List.mem_append.mp hc with hc | hc
  · exact hl c hc
  · exact hm c hc

theorem digits_digitsOf (n : Nat) : Digits (Numeric.digitsOf n) := by
  intro c hc
  have hdigit := Nat.isDigit_of_mem_toDigits (by decide) (by decide) hc
  simpa [isDigit, Char.isDigit, Char.le_def] using hdigit

theorem digits_replicate (n : Nat) : Digits (List.replicate n '0') := by
  intro c hc
  simp only [List.eq_of_mem_replicate hc]
  rfl

end Json

open Json

theorem digits_ofBinary (x : Numeric.Binary64) : Digits (Numeric.Decimal.ofBinary x).digits := by
  -- The digits come from a search over finer and finer grids, and each candidate has digits only.
  have hsearch : ∀ (m : Nat) (q lead : Int) (grids step : Nat),
      Digits (Numeric.Decimal.search m q lead grids step).digits := by
    intro m q lead grids
    induction grids with
    | zero =>
        intro step c hc
        cases List.mem_singleton.mp hc
        rfl
    | succ grids ih =>
        intro step
        simp only [Numeric.Decimal.search]
        split
        · next c _ =>
            intro d hd
            have hmem : d ∈ Numeric.digitsOf c := by
              have := List.mem_reverse.mp hd
              exact List.mem_reverse.mp ((List.dropWhile_sublist _).mem this)
            exact digits_digitsOf c d hmem
        · exact ih (step + 1)
  exact hsearch _ _ _ _ _

theorem numeral_positional (d : Numeric.Decimal) (hd : Digits d.digits) :
    Numeral (numberLayout.positional d) := by
  have fraction : ∀ l, Digits l → Tail ('.' :: l) := by
    intro l hl
    have h := Tail.fraction l hl Scale.missing
    rwa [List.append_nil] at h
  rw [Numeric.Layout.positional]
  -- The point stands before the digits, behind them or among them.
  split
  · refine Numeral.mk ['0'] ?_ (fraction _ (digits_append (digits_replicate _) hd))
    intro c hc
    cases List.mem_singleton.mp hc
    rfl
  · simp only
    split
    · refine Numeral.mk _ (digits_append hd (digits_replicate _)) (fraction ['0'] ?_)
      intro c hc
      cases List.mem_singleton.mp hc
      rfl
    · refine Numeral.mk _ ?_ (fraction _ ?_)
      · exact fun c hc => hd c (List.mem_of_mem_take hc)
      · exact fun c hc => hd c (List.mem_of_mem_drop hc)

theorem numeral_scientific (d : Numeric.Decimal) (hd : Digits d.digits) :
    Numeral (numberLayout.scientific d) := by
  have hscale : Scale ('e' :: numberLayout.signedExponent d.exponent) := by
    simp only [Numeric.Layout.signedExponent]
    split
    · exact Scale.power ['-'] _ (Or.inr (Or.inr rfl)) (digits_digitsOf _)
    · exact Scale.power ['+'] _ (Or.inr (Or.inl rfl)) (digits_digitsOf _)
  simp only [Numeric.Layout.scientific]
  split
  · next lead next rest hdigits =>
      simp only [hdigits] at hd
      have hlead : Digits [lead] := by
        intro c hc
        exact hd c (by simp [List.mem_singleton.mp hc])
      have hrest : Digits (next :: rest) := fun c hc => hd c (List.mem_cons_of_mem _ hc)
      exact Numeral.mk [lead] hlead (Tail.fraction (next :: rest) hrest hscale)
  · exact Numeral.mk _ hd (Tail.whole hscale)

theorem write_ne_nil (d : Numeric.Decimal) : numberLayout.write d ≠ [] := by
  have hmark : numberLayout.wholeMark ≠ [] := by decide
  simp only [Numeric.Layout.write]
  split
  · rw [Numeric.Layout.positional]
    split
    · simp
    · simp only
      split <;> simp [hmark]
  · simp [Numeric.Layout.scientific]

/-- A float that is one is written as a number, perhaps behind a sign. -/
theorem numeral_floatChars {x : Numeric.Binary64} (hx : x.isFinite = true) :
    ∃ l, Numeral l ∧ l ≠ [] ∧ floatChars x = if x.negative then '-' :: l else l := by
  refine ⟨if x.isZero then ['0', '.', '0'] else numberLayout.write (.ofBinary x), ?_, ?_, ?_⟩
  · split
    · have hzero : Digits ['0'] := by
        intro c hc
        cases List.mem_singleton.mp hc
        rfl
      exact Numeral.mk ['0'] hzero (Tail.fraction ['0'] hzero Scale.missing)
    · simp only [Numeric.Layout.write]
      split
      · exact numeral_positional _ (digits_ofBinary x)
      · exact numeral_scientific _ (digits_ofBinary x)
  · split
    · simp
    · exact write_ne_nil _
  · simp only [floatChars]
    simp [hx]

theorem numeral_intChars (n : Int) :
    ∃ l, Numeral l ∧ l ≠ [] ∧ intChars n = if n < 0 then '-' :: l else l := by
  have numeral : ∀ n, Numeral (Numeric.digitsOf n) := by
    intro n
    have h := Numeral.mk _ (digits_digitsOf n) (Tail.whole Scale.missing)
    rwa [List.append_nil] at h
  cases n with
  | ofNat n =>
      refine ⟨_, numeral n, Nat.toDigits_ne_nil, ?_⟩
      rw [if_neg (by simp)]
      rfl
  | negSucc n =>
      refine ⟨_, numeral (n + 1), Nat.toDigits_ne_nil, ?_⟩
      simp only [if_pos (Int.negSucc_lt_zero n)]
      rfl

/-- The text of a number is a numeral, perhaps behind a sign, or stands for no number. -/
theorem Number.chars_cases (n : Number) :
    (∃ l, Numeral l ∧ l ≠ [] ∧ (n.chars = l ∨ n.chars = '-' :: l)) ∨
      n.chars = ['n', 'u', 'l', 'l'] := by
  have signed : ∀ {negative : Prop} [Decidable negative] {l chars : List Char},
      (chars = if negative then '-' :: l else l) → chars = l ∨ chars = '-' :: l := by
    intro negative _ l chars hchars
    split at hchars
    · exact Or.inr hchars
    · exact Or.inl hchars
  -- Integers and finite floats are written with a sign if they are negative.
  cases n with
  | int n =>
      rcases numeral_intChars n with ⟨l, hl, hne, hchars⟩
      exact Or.inl ⟨l, hl, hne, signed hchars⟩
  | float x =>
      cases hx : x.isFinite with
      | true =>
          rcases numeral_floatChars hx with ⟨l, hl, hne, hchars⟩
          exact Or.inl ⟨l, hl, hne, signed hchars⟩
      | false =>
          right
          simp only [Number.chars, floatChars, hx]
          rfl

end EntityCache
