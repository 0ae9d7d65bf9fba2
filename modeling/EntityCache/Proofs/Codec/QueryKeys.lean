import EntityCache.Proofs.Codec.Accepted
import EntityCache.Proofs.Data.Distinct
import EntityCache.Proofs.Store.Sharing

/-!
# What a query key tells apart

A query key is the hash of a text made of an operation name and its variables.  The name is
arbitrary and may hold the separator; the variables are JSON data whose objects list their fields in
any order.

* `Value.alike`: equality of JSON data, where the order of fields does not count.
* `Value.arranged`: the form with fields in key order, which is the one that is written.
* `Value.alike_iff`: data is alike exactly if its arranged forms are the same.
* `Value.plain_eq_of_chars_eq`: the canonical text of stable data determines it up to marks.
* `Value.printable_chars`: no canonical text holds a control character, and so not the separator.
* `QueryKey.of_eq_iff_of_stable`: with variables in key order the key determines both parts.
* `QueryKey.of_eq_iff`: keys are the same exactly if the names are and the variables are alike.
-/

namespace EntityCache

open Json

/-! ## Data with fields in any order -/

namespace Value

mutual

/-- Equality of data in which the fields of objects stand in any order: objects are alike if they
have the same number of fields, and each field of one has its counterpart in the other. -/
def alike : Value → Value → Bool
  | .null, .null => true
  | .bool a, .bool b => a == b
  | .num m, .num n => m.same n
  | .str s, .str t => s == t
  | .id s, .id t => s == t
  | .list xs, .list ys => alikeItems xs ys
  | .map xs, .map ys => xs.length == ys.length && alikeFields xs ys
  | _, _ => false

def alikeItems : List Value → List Value → Bool
  | [], [] => true
  | x :: xs, y :: ys => alike x y && alikeItems xs ys
  | _, _ => false

def alikeFields : List (String × Value) → List (String × Value) → Bool
  | [], _ => true
  | (k, x) :: rest, ys => (Assoc.get? k ys).any (fun y => alike x y) && alikeFields rest ys

end

mutual

/-- The data with the fields of every object in key order. -/
def arranged : Value → Value
  | .list items => .list (arrangedItems items)
  | .map fields => .map (Assoc.ofList (arrangedFields fields))
  | v => v

def arrangedItems : List Value → List Value
  | [] => []
  | v :: rest => arranged v :: arrangedItems rest

def arrangedFields : List (String × Value) → List (String × Value)
  | [] => []
  | (k, v) :: rest => (k, arranged v) :: arrangedFields rest

end

mutual

/-- No object has two fields of one name. -/
def Distinct : Value → Prop
  | .list items => DistinctItems items
  | .map fields => (fields.map Prod.fst).Nodup ∧ DistinctFields fields
  | _ => True

def DistinctItems : List Value → Prop
  | [] => True
  | v :: rest => Distinct v ∧ DistinctItems rest

def DistinctFields : List (String × Value) → Prop
  | [] => True
  | (_, v) :: rest => Distinct v ∧ DistinctFields rest

end

/-- JSON data without floats: no marks, no two fields of one name in an object, and no number but
integers that a text can hold. -/
structure IsJson (v : Value) : Prop where
  unmarked : v.plain = v
  distinct : v.Distinct
  integers : v.EveryNumber Number.InRange

/-! ## Arranged forms -/

theorem arrangedFields_eq (fields : List (String × Value)) :
    arrangedFields fields = fields.map (fun b => (b.1, b.2.arranged)) := by
  induction fields with
  | nil =>
      rfl
  | cons b rest ih =>
      rcases b with ⟨k, v⟩
      simp only [arrangedFields, ih, List.map_cons]

theorem keys_arrangedFields (fields : List (String × Value)) :
    (arrangedFields fields).map Prod.fst = fields.map Prod.fst := by
  simp only [arrangedFields_eq, List.map_map]
  rfl

theorem get?_arrangedFields (k : String) (fields : List (String × Value)) :
    Assoc.get? k (arrangedFields fields) = (Assoc.get? k fields).map arranged := by
  induction fields with
  | nil =>
      rfl
  | cons b rest ih =>
      rcases b with ⟨k', v⟩
      simp only [arrangedFields, Assoc.get?_cons, ih]
      split <;> rfl

mutual

theorem ordered_arranged : ∀ v : Value, v.arranged.Ordered
  | .null => trivial
  | .bool _ => trivial
  | .num _ => trivial
  | .str _ => trivial
  | .id _ => trivial
  | .list items => orderedItems_iff.mpr (ordered_arrangedItems items)
  | .map fields => by
      refine ⟨Assoc.sorted_ofList _, orderedFields_iff.mpr fun b hb => ?_⟩
      exact ordered_arrangedFields fields b (Assoc.mem_of_mem_ofList hb)

theorem ordered_arrangedItems : ∀ (items : List Value), ∀ v ∈ arrangedItems items, v.Ordered
  | [] => by
      intro v hv
      cases hv
  | v :: rest => List.forall_mem_cons.mpr ⟨ordered_arranged v, ordered_arrangedItems rest⟩

theorem ordered_arrangedFields : ∀ (fields : List (String × Value)),
    ∀ b ∈ arrangedFields fields, b.2.Ordered
  | [] => by
      intro b hb
      cases hb
  | (_, v) :: rest => List.forall_mem_cons.mpr ⟨ordered_arranged v, ordered_arrangedFields rest⟩

end

section Numbers

variable {P : Number → Prop}

mutual

/-- Putting fields in order brings in no number. -/
theorem everyNumber_arranged : ∀ v : Value, v.EveryNumber P → v.arranged.EveryNumber P
  | .null => fun h => h
  | .bool _ => fun h => h
  | .num _ => fun h => h
  | .str _ => fun h => h
  | .id _ => fun h => h
  | .list items => by
      intro h
      exact everyNumberItems_iff.mpr (everyNumber_arrangedItems items h)
  | .map fields => by
      intro h
      refine everyNumberFields_iff.mpr fun b hb => ?_
      exact everyNumber_arrangedFields fields h b (Assoc.mem_of_mem_ofList hb)

theorem everyNumber_arrangedItems : ∀ items : List Value, EveryNumberItems P items →
    ∀ v ∈ arrangedItems items, v.EveryNumber P
  | [] => by
      intro _ v hv
      cases hv
  | v :: rest => by
      rintro ⟨hv, hrest⟩
      exact List.forall_mem_cons.mpr
        ⟨everyNumber_arranged v hv, everyNumber_arrangedItems rest hrest⟩

theorem everyNumber_arrangedFields : ∀ fields : List (String × Value), EveryNumberFields P fields →
    ∀ b ∈ arrangedFields fields, b.2.EveryNumber P
  | [] => by
      intro _ b hb
      cases hb
  | (_, v) :: rest => by
      rintro ⟨hv, hrest⟩
      exact List.forall_mem_cons.mpr
        ⟨everyNumber_arranged v hv, everyNumber_arrangedFields rest hrest⟩

end

end Numbers

mutual

/-- Losing marks and putting fields in order do not meddle with each other. -/
theorem plain_arranged : ∀ v : Value, v.arranged.plain = v.plain.arranged
  | .null => rfl
  | .bool _ => rfl
  | .num _ => rfl
  | .str _ => rfl
  | .id _ => rfl
  | .list items => by
      simp only [arranged, plain, plain_arrangedItems items]
  | .map fields => by
      have hfields : plainFields (Assoc.ofList (arrangedFields fields)) =
          Assoc.ofList (plainFields (arrangedFields fields)) := plainFields_union [] _
      simp only [arranged, plain, hfields, plain_arrangedFields fields]

theorem plain_arrangedItems : ∀ items : List Value,
    plainItems (arrangedItems items) = arrangedItems (plainItems items)
  | [] => rfl
  | v :: rest => by
      simp only [arrangedItems, plainItems, plain_arranged v, plain_arrangedItems rest]

theorem plain_arrangedFields : ∀ fields : List (String × Value),
    plainFields (arrangedFields fields) = arrangedFields (plainFields fields)
  | [] => rfl
  | (k, v) :: rest => by
      simp only [arrangedFields, plainFields, plain_arranged v, plain_arrangedFields rest]

end

/-! ## Equality up to the order of fields -/

theorem alikeFields_iff {xs ys : List (String × Value)} : alikeFields xs ys = true ↔
    ∀ b ∈ xs, ∃ y, Assoc.get? b.1 ys = some y ∧ alike b.2 y = true := by
  induction xs with
  | nil =>
      simp [alikeFields]
  | cons b rest ih =>
      rcases b with ⟨k, x⟩
      simp only [alikeFields, Bool.and_eq_true, Option.any_eq_true, ih, List.forall_mem_cons]

theorem distinctFields_iff {fields : List (String × Value)} :
    DistinctFields fields ↔ ∀ b ∈ fields, b.2.Distinct := by
  induction fields with
  | nil =>
      simp [DistinctFields]
  | cons b rest ih =>
      rcases b with ⟨k, v⟩
      simp only [DistinctFields, ih, List.forall_mem_cons]

/-- Without floats the equality of numbers is that of the data. -/
theorem same_iff_of_inRange {m n : Number} (hm : m.InRange) : m.same n = true ↔ m = n := by
  cases m with
  | float x =>
      cases hm
  | int m =>
      cases n with
      | int n =>
          simp [Number.same]
      | float y =>
          simp [Number.same]

theorem arranged_map_eq_iff {xs ys : List (String × Value)} (hx : (xs.map Prod.fst).Nodup)
    (hy : (ys.map Prod.fst).Nodup) : (map xs).arranged = (map ys).arranged ↔
      xs.length = ys.length ∧
        ∀ b ∈ xs, ∃ y, Assoc.get? b.1 ys = some y ∧ b.2.arranged = y.arranged := by
  have hx' : ((arrangedFields xs).map Prod.fst).Nodup := by rwa [keys_arrangedFields]
  have hy' : ((arrangedFields ys).map Prod.fst).Nodup := by rwa [keys_arrangedFields]
  have hlength : ∀ l, (arrangedFields l).length = l.length := by
    intro l
    simp only [arrangedFields_eq, List.length_map]
  simp only [arranged, map.injEq, Assoc.ofList_eq_iff hx' hy', hlength, get?_arrangedFields,
    Option.map_eq_some_iff]
  simp only [arrangedFields_eq xs, List.forall_mem_map, eq_comm]

mutual

/-- Data is alike exactly if it is the same with its fields in key order. -/
theorem alike_iff : ∀ v w : Value, v.Distinct → w.Distinct → v.EveryNumber Number.InRange →
    (v.alike w = true ↔ v.arranged = w.arranged)
  | .null, w => by
      intro _ _ _
      cases w <;> simp [alike, arranged]
  | .bool a, w => by
      intro _ _ _
      cases w <;> simp [alike, arranged]
  | .num m, w => by
      intro _ _ hm
      cases w with
      | num n =>
          simp only [alike, arranged, num.injEq]
          exact same_iff_of_inRange hm
      | _ =>
          simp [alike, arranged]
  | .str s, w => by
      intro _ _ _
      cases w <;> simp [alike, arranged]
  | .id s, w => by
      intro _ _ _
      cases w <;> simp [alike, arranged]
  | .list xs, w => by
      intro hv hw hnumbers
      cases w with
      | list ys =>
          simp only [alike, arranged, list.injEq]
          exact alikeItems_iff xs ys hv hw hnumbers
      | _ =>
          simp [alike, arranged]
  | .map xs, w => by
      intro hv hw hnumbers
      cases w with
      | map ys =>
          have hparts := alike_iff_fields xs hv.2 hnumbers
          simp only [alike, Bool.and_eq_true, beq_iff_eq, alikeFields_iff,
            arranged_map_eq_iff hv.1 hw.1]
          refine and_congr_right' (forall₂_congr fun b hb => exists_congr fun y => ?_)
          refine and_congr_right fun hget => ?_
          exact hparts b hb y (distinctFields_iff.mp hw.2 _ (Assoc.mem_of_get? hget))
      | _ =>
          simp [alike, arranged]

theorem alikeItems_iff : ∀ xs ys : List Value, DistinctItems xs → DistinctItems ys →
    EveryNumberItems Number.InRange xs →
      (alikeItems xs ys = true ↔ arrangedItems xs = arrangedItems ys)
  | [], ys => by
      intro _ _ _
      cases ys <;> simp [alikeItems, arrangedItems]
  | x :: xs, ys => by
      rintro ⟨hx, hxs⟩ hys ⟨hnx, hnxs⟩
      cases ys with
      | nil =>
          simp [alikeItems, arrangedItems]
      | cons y ys =>
          simp only [alikeItems, arrangedItems, Bool.and_eq_true, List.cons.injEq,
            alike_iff x y hx hys.1 hnx, alikeItems_iff xs ys hxs hys.2 hnxs]

theorem alike_iff_fields : ∀ xs : List (String × Value), DistinctFields xs →
    EveryNumberFields Number.InRange xs →
      ∀ b ∈ xs, ∀ y : Value, y.Distinct → (b.2.alike y = true ↔ b.2.arranged = y.arranged)
  | [] => by
      intro _ _ b hb
      cases hb
  | (_, x) :: xs => by
      rintro ⟨hx, hxs⟩ ⟨hnx, hnxs⟩
      refine List.forall_mem_cons.mpr ⟨fun y hy => ?_, alike_iff_fields xs hxs hnxs⟩
      exact alike_iff x y hx hy hnx

end

/-! ## The text -/

theorem IsJson.stable_arranged {v : Value} (h : v.IsJson) : v.arranged.Stable where
  ordered := ordered_arranged v
  numbers := everyNumber_arranged v
    (everyNumber_mono (fun _ => Number.reread_of_inRange) v h.integers)

theorem IsJson.unmarked_arranged {v : Value} (h : v.IsJson) : v.arranged.plain = v.arranged := by
  rw [plain_arranged, h.unmarked]

/-- The canonical text of stable data says what it is, up to marks: read with enough room it gives
the data back. -/
theorem plain_eq_of_chars_eq {v w : Value} (hv : v.Stable) (hw : w.Stable) :
    v.chars = w.chars → v.plain = w.plain := by
  intro h
  have hreadv := reread_of_kept v (max v.nesting w.nesting) hv.ordered hv.numbers
    (Nat.le_max_left _ _)
  have hreadw := reread_of_kept w (max v.nesting w.nesting) hw.ordered hw.numbers
    (Nat.le_max_right _ _)
  have halonev := (reads_chars v (max v.nesting w.nesting)).alone_eq
  have halonew := (reads_chars w (max v.nesting w.nesting)).alone_eq
  rw [h, halonew, hreadv, hreadw] at halonev
  exact (Option.some.inj halonev).symm

end Value

/-! ## No control characters -/

/-- Text without control characters, of which the separator is one. -/
def Printable (l : List Char) : Prop :=
  ∀ c ∈ l, 32 ≤ c.toNat

instance : DecidablePred Printable :=
  List.decidableBAll fun c : Char => 32 ≤ c.toNat

namespace Printable

theorem nil : Printable [] := by
  intro c hc
  cases hc

theorem cons {c : Char} {l : List Char} (hc : 32 ≤ c.toNat) (hl : Printable l) :
    Printable (c :: l) :=
  List.forall_mem_cons.mpr ⟨hc, hl⟩

theorem append {l m : List Char} (hl : Printable l) (hm : Printable m) : Printable (l ++ m) :=
  List.forall_mem_append.mpr ⟨hl, hm⟩

theorem mark_notMem {l : List Char} (h : Printable l) : Scope.mark ∉ l := by
  intro hmark
  exact absurd (h Scope.mark hmark) (by decide)

theorem separated {parts : List (List Char)} (h : ∀ p ∈ parts, Printable p) :
    Printable (separated parts) := by
  induction parts with
  | nil =>
      exact nil
  | cons p rest ih =>
      rcases List.forall_mem_cons.mp h with ⟨hp, hrest⟩
      cases rest with
      | nil =>
          exact hp
      | cons q rest =>
          exact hp.append (cons (by decide) (ih hrest))

theorem escaped (c : Char) : Printable (escaped c) := by
  have hdigit : ∀ n < 16, 32 ≤ (Text.Hex.digit n).toNat := by decide
  have hletter : ∀ d : Char, 32 ≤ d.toNat → Printable ['\\', d] := fun d hd =>
    cons (by decide) (cons hd nil)
  simp only [EntityCache.escaped]
  iterate 7
    refine iteInduction (fun _ => hletter _ (by decide)) (fun _ => ?_)
  refine iteInduction (fun hcontrol => ?_) (fun hcontrol => ?_)
  · have hhigh := hdigit (c.toNat / 16) (by omega)
    have hlow := hdigit (c.toNat % 16) (by omega)
    exact cons (by decide) (cons (by decide) (cons (by decide) (cons (by decide)
      (cons hhigh (cons hlow nil)))))
  · exact cons (Nat.le_of_not_lt hcontrol) nil

theorem quoted (s : String) : Printable (quoted s) := by
  have hescaped : Printable (s.toList.flatMap EntityCache.escaped) := by
    intro c hc
    rcases List.mem_flatMap.mp hc with ⟨d, -, hd⟩
    exact escaped d c hd
  exact cons (by decide) (hescaped.append (cons (by decide) nil))

theorem digits {l : List Char} (h : Json.Digits l) : Printable l := by
  intro c hc
  have hdigit := h c hc
  simp only [Json.isDigit, decide_eq_true_eq] at hdigit
  exact Nat.le_trans (by decide) (Char.le_def.mp hdigit.1)

theorem scale {l : List Char} (h : Json.Scale l) : Printable l := by
  cases h with
  | missing =>
      exact nil
  | power sign ds hsign hds =>
      refine cons (by decide) (append ?_ (digits hds))
      rcases hsign with rfl | rfl | rfl
      · exact nil
      · exact cons (by decide) nil
      · exact cons (by decide) nil

theorem numeral {l : List Char} (h : Json.Numeral l) : Printable l := by
  rcases h with ⟨ds, hds, htail⟩
  refine (digits hds).append ?_
  cases htail with
  | whole hscale =>
      exact scale hscale
  | fraction ds hds hscale =>
      exact cons (by decide) ((digits hds).append (scale hscale))

theorem number (n : Number) : Printable n.chars := by
  rcases n.chars_cases with ⟨l, hl, -, hplain | hsigned⟩ | hword
  · rw [hplain]
    exact numeral hl
  · rw [hsigned]
    exact cons (by decide) (numeral hl)
  · rw [hword]
    decide

end Printable

namespace Value

mutual

/-- The canonical text holds no control character: those of strings are escaped. -/
theorem printable_chars : ∀ v : Value, Printable v.chars
  | .null => by
      decide
  | .bool true => by
      decide
  | .bool false => by
      decide
  | .num n => Printable.number n
  | .str s => Printable.quoted s
  | .id s => Printable.quoted s
  | .list items =>
      .cons (by decide) ((Printable.separated (printable_itemChars items)).append
        (.cons (by decide) .nil))
  | .map fields => by
      refine .cons (by decide) (.append (.separated fun p hp => ?_) (.cons (by decide) .nil))
      rcases List.mem_map.mp hp with ⟨m, hm, rfl⟩
      exact (Printable.quoted m.1).append (.cons (by decide) (printable_fieldChars fields m hm))

theorem printable_itemChars : ∀ items : List Value, ∀ p ∈ itemChars items, Printable p
  | [] => by
      intro p hp
      cases hp
  | v :: rest => List.forall_mem_cons.mpr ⟨printable_chars v, printable_itemChars rest⟩

theorem printable_fieldChars : ∀ fields : List (String × Value),
    ∀ m ∈ fieldChars fields, Printable m.2
  | [] => by
      intro m hm
      cases hm
  | (_, v) :: rest => List.forall_mem_cons.mpr ⟨printable_chars v, printable_fieldChars rest⟩

end

end Value

/-! ## Query keys -/

namespace QueryKey

/-- A text is cut at its last separator in one way. -/
theorem cut_last_inj {front front' rest rest' : List Char} (h : Scope.mark ∉ rest)
    (h' : Scope.mark ∉ rest') : front ++ Scope.mark :: rest = front' ++ Scope.mark :: rest' →
      front = front' ∧ rest = rest' := by
  intro hsame
  -- From the end it is the first one.
  have hreverse := congrArg List.reverse hsame
  simp only [List.reverse_append, List.reverse_cons, List.append_assoc, List.cons_append,
    List.nil_append] at hreverse
  rcases Scope.cut_inj (by simpa using h) (by simpa using h') hreverse with ⟨hrest, hfront⟩
  exact ⟨List.reverse_injective hfront, List.reverse_injective hrest⟩

variable {n₁ n₂ : String} {v₁ v₂ : Value}

theorem preimage_eq (n : String) (v : Value) :
    preimage n v = bytesOf (n ++ String.singleton Scope.mark ++ v.text) := by
  have hmark : bytesOf (String.singleton Scope.mark) = [separator] := by decide
  simp only [preimage, bytesOf_append, hmark, List.append_assoc, List.cons_append, List.nil_append]

/-- The name ends at the last separator, whatever it holds. -/
theorem preimage_eq_iff :
    preimage n₁ v₁ = preimage n₂ v₂ ↔ n₁ = n₂ ∧ v₁.chars = v₂.chars := by
  constructor
  · intro h
    simp only [preimage_eq] at h
    have htext := congrArg String.toList (bytesOf_injective h)
    simp only [String.toList_append, String.toList_singleton, List.append_assoc,
      List.cons_append, List.nil_append, Value.text, String.toList_ofList] at htext
    rcases cut_last_inj (v₁.printable_chars.mark_notMem) (v₂.printable_chars.mark_notMem) htext
      with ⟨hname, hchars⟩
    exact ⟨String.toList_inj.mp hname, hchars⟩
  · rintro ⟨rfl, hchars⟩
    simp only [preimage, Value.text, hchars]

/-- The hash has no collision between the texts of two queries. -/
def HashedApart (n₁ : String) (v₁ : Value) (n₂ : String) (v₂ : Value) : Prop :=
  Hash.Sha256.digest (preimage n₁ v₁) = Hash.Sha256.digest (preimage n₂ v₂) →
    preimage n₁ v₁ = preimage n₂ v₂

/-- Between variables in key order the key tells everything apart. -/
theorem of_eq_iff_of_stable (h₁ : v₁.Stable) (h₂ : v₂.Stable) (unmarked₁ : v₁.plain = v₁)
    (unmarked₂ : v₂.plain = v₂) (hash : HashedApart n₁ v₁ n₂ v₂) :
    of n₁ v₁ = of n₂ v₂ ↔ n₁ = n₂ ∧ v₁ = v₂ := by
  have hchars : v₁.chars = v₂.chars ↔ v₁ = v₂ := by
    refine ⟨fun h => ?_, fun h => by rw [h]⟩
    have hplain := Value.plain_eq_of_chars_eq h₁ h₂ h
    rwa [unmarked₁, unmarked₂] at hplain
  calc of n₁ v₁ = of n₂ v₂
      ↔ Hash.Sha256.digest (preimage n₁ v₁) = Hash.Sha256.digest (preimage n₂ v₂) :=
        Text.Hex.encode_injective.eq_iff
    _ ↔ preimage n₁ v₁ = preimage n₂ v₂ := ⟨hash, fun h => by rw [h]⟩
    _ ↔ n₁ = n₂ ∧ v₁.chars = v₂.chars := preimage_eq_iff
    _ ↔ n₁ = n₂ ∧ v₁ = v₂ := and_congr_right' hchars

/-- Two queries have the same key exactly if they have the same operation name and variables that
are alike, in whatever order the fields of these are given. -/
theorem of_eq_iff (h₁ : v₁.IsJson) (h₂ : v₂.IsJson)
    (hash : HashedApart n₁ v₁.arranged n₂ v₂.arranged) :
    of n₁ v₁.arranged = of n₂ v₂.arranged ↔ n₁ = n₂ ∧ v₁.alike v₂ = true := by
  calc of n₁ v₁.arranged = of n₂ v₂.arranged
      ↔ n₁ = n₂ ∧ v₁.arranged = v₂.arranged :=
        of_eq_iff_of_stable h₁.stable_arranged h₂.stable_arranged h₁.unmarked_arranged
          h₂.unmarked_arranged hash
    _ ↔ n₁ = n₂ ∧ v₁.alike v₂ = true :=
        and_congr_right' (Value.alike_iff v₁ v₂ h₁.distinct h₂.distinct h₁.integers).symm

/-- One page of a list, asked for with the fields in two orders, and a query whose name takes in the
separator and what looks like its variables. -/
theorem of_eq_iff_pages :
    of "items" (Value.map [("user", .str "a"), ("page", .num (.int 2))]).arranged =
      of "items" (Value.map [("page", .num (.int 2)), ("user", .str "a")]).arranged ∧
    of "items\x1f[1]" (Value.list []).arranged ≠
      of "items" (Value.list [.num (.int 1)]).arranged := by
  have hnumber : ∀ n : Int, n = 1 ∨ n = 2 → (Number.int n).InRange := by
    rintro n (rfl | rfl) <;> decide
  have hpages : ∀ fields : List (String × Value),
      fields = [("user", .str "a"), ("page", .num (.int 2))] ∨
      fields = [("page", .num (.int 2)), ("user", .str "a")] → (Value.map fields).IsJson := by
    rintro fields (rfl | rfl)
    · exact ⟨rfl, ⟨by decide, trivial, trivial, trivial⟩, trivial, hnumber 2 (.inr rfl), trivial⟩
    · exact ⟨rfl, ⟨by decide, trivial, trivial, trivial⟩, hnumber 2 (.inr rfl), trivial, trivial⟩
  have hempty : (Value.list []).IsJson := ⟨rfl, trivial, trivial⟩
  have hsingle : (Value.list [.num (.int 1)]).IsJson :=
    ⟨rfl, ⟨trivial, trivial⟩, hnumber 1 (.inl rfl), trivial⟩
  constructor
  · refine (of_eq_iff (hpages _ (.inl rfl)) (hpages _ (.inr rfl)) ?_).mpr ⟨rfl, by decide⟩
    intro _
    decide +kernel
  · intro h
    have hash : HashedApart "items\x1f[1]" (Value.list []).arranged "items"
        (Value.list [.num (.int 1)]).arranged := by
      intro h
      exact absurd h (by decide +kernel)
    exact absurd ((of_eq_iff hempty hsingle hash).mp h).1 (by decide)

end QueryKey
end EntityCache
