import EntityCache.Value.Text

/-!
# Strings read back

* `Json.symbols`: characters as symbols of a text.
* `Json.readString_quoted`: a string between its quotes reads back as itself, whatever follows.
-/

namespace EntityCache
namespace Json

/-- Characters as symbols of a text. -/
def symbols (l : List Char) : Symbols :=
  l.map some

@[simp] theorem symbols_nil : symbols [] = [] := rfl

@[simp] theorem symbols_cons (c : Char) (l : List Char) :
    symbols (c :: l) = some c :: symbols l := rfl

@[simp] theorem symbols_append (l m : List Char) : symbols (l ++ m) = symbols l ++ symbols m := by
  simp [symbols]

@[simp] theorem length_symbols (l : List Char) : (symbols l).length = l.length := by
  simp [symbols]

theorem symbolsOf_ofList (l : List Char) : symbolsOf (String.ofList l) = symbols l := by
  simp [symbolsOf, symbols]

/-! ## Escapes -/

theorem digitValue?_digit {n : Nat} :
    n < 16 → Text.Hex.digitValue? (Text.Hex.digit n) = some n := by
  intro h
  have hall : ∀ n < 16, Text.Hex.digitValue? (Text.Hex.digit n) = some n := by decide
  exact hall n h

theorem readFourHex_digits {a b c d : Nat} (ha : a < 16) (hb : b < 16) (hc : c < 16) (hd : d < 16)
    (rest : Symbols) :
    readFourHex (some (Text.Hex.digit a) :: some (Text.Hex.digit b) :: some (Text.Hex.digit c) ::
      some (Text.Hex.digit d) :: rest) = .ok (((a * 16 + b) * 16 + c) * 16 + d, rest) := by
  simp only [readFourHex, digitValue?_digit ha, digitValue?_digit hb, digitValue?_digit hc,
    digitValue?_digit hd]

/-- A control character reads back from its code. -/
theorem readEscape_code {c : Char} (hc : c.toNat < 32) (rest : Symbols) :
    readEscape (some 'u' :: some '0' :: some '0' :: some (Text.Hex.digit (c.toNat / 16)) ::
      some (Text.Hex.digit (c.toNat % 16)) :: rest) = .ok (c, rest) := by
  -- Two digits suffice for a control character, and what they stand for is no surrogate.
  have hhex := readFourHex_digits (a := 0) (b := 0) (c := c.toNat / 16) (d := c.toNat % 16)
    (by omega) (by omega) (by omega) (by omega) rest
  have hcode : ((0 * 16 + 0) * 16 + c.toNat / 16) * 16 + c.toNat % 16 = c.toNat := by omega
  have hzero : Text.Hex.digit 0 = '0' := rfl
  simp only [hcode, hzero] at hhex
  simp only [readEscape, readCode, hhex]
  have hlow : ¬ (0xDC00 ≤ c.toNat ∧ c.toNat ≤ 0xDFFF) := by omega
  have hplain : c.toNat < 0xD800 ∨ 0xDBFF < c.toNat := by omega
  simp only [if_neg hlow, if_pos hplain, Char.ofNat_toNat]

/-- One turn of the loop takes one character, escaped or not. -/
theorem readStringFrom_escaped (c : Char) (fuel : Nat) (acc : List Char) (rest : Symbols) :
    readStringFrom (fuel + 1) acc (symbols (escaped c) ++ rest) =
      readStringFrom fuel (c :: acc) rest := by
  -- The characters with a letter of their own are all read back in the same way.
  have letter : ∀ d : Char, escapeLetter? d = some c → d ≠ 'u' →
      readStringFrom (fuel + 1) acc (some '\\' :: some d :: rest) =
        readStringFrom fuel (c :: acc) rest := by
    intro d hd hu
    have hescape : readEscape (some d :: rest) = .ok (c, rest) := by
      rw [readEscape, hd]
      rintro rfl
      exact hu rfl
    simp only [readStringFrom]
    simp [hescape]
  by_cases hquote : c = '"'
  · subst hquote
    exact letter '"' rfl (by decide)
  by_cases hback : c = '\\'
  · subst hback
    exact letter '\\' rfl (by decide)
  by_cases hb : c = '\x08'
  · subst hb
    exact letter 'b' rfl (by decide)
  by_cases hf : c = '\x0c'
  · subst hf
    exact letter 'f' rfl (by decide)
  by_cases hn : c = '\n'
  · subst hn
    exact letter 'n' rfl (by decide)
  by_cases hr : c = '\r'
  · subst hr
    exact letter 'r' rfl (by decide)
  by_cases ht : c = '\t'
  · subst ht
    exact letter 't' rfl (by decide)
  by_cases hcontrol : c.toNat < 32
  · have hescape := readEscape_code hcontrol rest
    simp only [escaped, hquote, hback, hb, hf, hn, hr, ht, hcontrol, if_true, if_false,
      symbols_cons, symbols_nil, List.cons_append, List.nil_append]
    simp only [readStringFrom]
    simp [hescape]
  · simp only [escaped, hquote, hback, hb, hf, hn, hr, ht, hcontrol, if_false, symbols_cons,
      symbols_nil, List.cons_append, List.nil_append]
    simp only [readStringFrom]
    simp [hquote, hback, hcontrol]

/-! ## Whole strings -/

theorem readStringFrom_flatMap (l : List Char) (rest : Symbols) : ∀ fuel acc, l.length < fuel →
    readStringFrom fuel acc (symbols (l.flatMap escaped) ++ some '"' :: rest) =
      .ok (l.reverse ++ acc, rest) := by
  induction l with
  | nil =>
      intro fuel acc hfuel
      rcases Nat.exists_eq_add_of_lt hfuel with ⟨fuel, rfl⟩
      simp [readStringFrom]
  | cons c l ih =>
      intro fuel acc hfuel
      -- A turn of the loop for each character, so the fuel lasts as long as there are characters.
      rcases Nat.exists_eq_add_one.mpr (Nat.zero_lt_of_lt hfuel) with ⟨fuel, rfl⟩
      have hlater := ih fuel (c :: acc) (by simpa using hfuel)
      rw [List.flatMap_cons, symbols_append, List.append_assoc, readStringFrom_escaped, hlater]
      simp

theorem length_le_flatMap_escaped (l : List Char) : l.length ≤ (l.flatMap escaped).length := by
  have hone : ∀ c, 1 ≤ (escaped c).length := by
    intro c
    simp only [escaped]
    repeat' split
    all_goals simp
  induction l with
  | nil =>
      simp
  | cons c l ih =>
      have hc := hone c
      simp only [List.flatMap_cons, List.length_cons, List.length_append]
      omega

/-- A string reads back from what stands after its opening quote. -/
theorem readString_quoted (s : String) (rest : Symbols) :
    readString (symbols (s.toList.flatMap escaped) ++ some '"' :: rest) = .ok (s, rest) := by
  have hfuel : s.toList.length <
      (symbols (s.toList.flatMap escaped) ++ some '"' :: rest).length + 1 := by
    have := length_le_flatMap_escaped s.toList
    simp only [List.length_append, length_symbols, List.length_cons]
    omega
  simp only [readString, readStringFrom_flatMap s.toList rest _ [] hfuel]
  simp

end Json
end EntityCache
