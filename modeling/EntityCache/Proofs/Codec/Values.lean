import EntityCache.Proofs.Json.Containers

/-!
# Values read back

* `Number.reread`, `Value.reread`: what the text of a value reads back as.
* `Value.reads_chars`: it does, inside a larger text as well.
* `Value.reads_object`: the same for the fields of an object on their own.

Marks are lost, a float that is no number becomes `null`, and a value with too many nested
containers does not read back at all.
-/

namespace EntityCache

open Json

/-! ## Rereading -/

/-- What the text of a number reads back as. -/
def Number.reread (n : Number) : Option Value :=
  (Value.read 0 (symbols n.chars)).toOption.map Prod.fst

namespace Value

mutual

/-- What the text of a value reads back as, with room for so many open containers. -/
def reread : Value → Nat → Option Value
  | .null, _ => some .null
  | .bool b, _ => some (.bool b)
  | .num n, _ => n.reread
  | .str s, _ => some (.str s)
  | .id s, _ => some (.str s)
  | .list items, room => if room = 0 then none else (rereadItems items (room - 1)).map .list
  | .map fields, room =>
      if room = 0 then none
      else (rereadFields fields (room - 1)).map (fun l => .map (Assoc.ofList l))

def rereadItems : List Value → Nat → Option (List Value)
  | [], _ => some []
  | v :: rest, room => do
      let v ← reread v room
      let rest ← rereadItems rest room
      pure (v :: rest)

def rereadFields : List (String × Value) → Nat → Option (List (String × Value))
  | [], _ => some []
  | (k, v) :: rest, room => do
      let v ← reread v room
      let rest ← rereadFields rest room
      pure ((k, v) :: rest)

end

theorem rereadItems_eq (items : List Value) (room : Nat) :
    rereadItems items room = items.mapM (fun v => v.reread room) := by
  induction items with
  | nil =>
      rfl
  | cons v rest ih =>
      simp only [rereadItems, List.mapM_cons, ih]

theorem rereadFields_eq (fields : List (String × Value)) (room : Nat) :
    rereadFields fields room =
      fields.mapM (fun b => (b.2.reread room).map (fun v => (b.1, v))) := by
  induction fields with
  | nil =>
      rfl
  | cons b rest ih =>
      rcases b with ⟨k, v⟩
      simp only [rereadFields, List.mapM_cons, ih]
      cases v.reread room <;> rfl

theorem itemChars_eq (items : List Value) : itemChars items = items.map chars := by
  induction items with
  | nil =>
      rfl
  | cons v rest ih =>
      simp only [itemChars, ih, List.map_cons]

theorem fieldChars_eq (fields : List (String × Value)) :
    fieldChars fields = fields.map (fun b => (b.1, chars b.2)) := by
  induction fields with
  | nil =>
      rfl
  | cons b rest ih =>
      rcases b with ⟨k, v⟩
      simp only [fieldChars, ih, List.map_cons]

/-! ## Numbers -/

theorem isBlank_of_isDigit {c : Char} : isDigit c = true → isBlank (some c) = false := by
  intro hc
  -- The four blanks are no digits.
  cases hb : isBlank (some c) with
  | false =>
      rfl
  | true =>
      simp only [isBlank, Bool.or_eq_true, beq_iff_eq] at hb
      rcases hb with ((rfl | rfl) | rfl) | rfl <;> cases hc

section

variable (item : Symbols → Scan Value) (room : Nat)

theorem readWith_digit {c : Char} (hc : isDigit c = true) (rest : Symbols) :
    readWith item room (some c :: rest) =
      (readNumber false (some c :: rest)).map (fun r => (.num r.1, r.2)) := by
  -- A digit is none of the other characters that a value may begin with.
  have other : ∀ d, isDigit d = false → c ≠ d := by
    rintro d hd rfl
    exact Bool.noConfusion (hc.symm.trans hd)
  simp only [readWith, skipBlank_cons (isBlank_of_isDigit hc)]
  simp only [if_neg (other 'n' rfl), if_neg (other 't' rfl), if_neg (other 'f' rfl),
    if_neg (other '"' rfl), if_neg (other '-' rfl), hc, if_true]

theorem reads_unsigned {l : List Char} (hl : Numeral l) (hne : l ≠ []) :
    ∃ r, ∀ item room, Reads (readWith item room) l r := by
  rcases List.exists_cons_of_ne_nil hne with ⟨c, l, rfl⟩
  rcases hl.head with hc | hc | hc
  · rcases local_readNumber false hl with ⟨r, hr⟩
    refine ⟨r.map Value.num, fun item room rest hrest => ?_⟩
    simp only [symbols_cons, List.cons_append, readWith_digit item room hc]
    exact Reads.map hr Value.num rest hrest
  -- A point or an `e` does not start a value.
  · subst hc
    exact ⟨none, fun item room rest _ => rfl⟩
  · subst hc
    exact ⟨none, fun item room rest _ => rfl⟩

/-- A number is read without a look at what follows. -/
theorem reads_number (n : Number) : ∃ r, ∀ item room, Reads (readWith item room) n.chars r := by
  rcases n.chars_cases with ⟨l, hl, hne, hplain | hsigned⟩ | hword
  · rw [hplain]
    exact reads_unsigned hl hne
  · rw [hsigned]
    rcases local_readNumber true hl with ⟨r, hr⟩
    exact ⟨r.map Value.num, fun item room => Reads.map hr Value.num⟩
  · rw [hword]
    exact ⟨some .null, fun item room rest _ => rfl⟩

end

/-! ## Values -/

/-- With no room left the reader of parts does not matter. -/
theorem read_eq (room : Nat) :
    ∃ item, read room = readWith item room ∧ (room ≠ 0 → item = read (room - 1)) := by
  cases room with
  | zero =>
      exact ⟨_, rfl, fun h => absurd rfl h⟩
  | succ room =>
      exact ⟨read room, rfl, fun _ => rfl⟩

theorem reads_num (n : Number) (room : Nat) : Reads (read room) n.chars n.reread := by
  rcases reads_number n with ⟨r, hr⟩
  rcases read_eq room with ⟨item, hitem, -⟩
  rcases read_eq 0 with ⟨item₀, hitem₀, -⟩
  have hreread : r = n.reread := by
    simp only [Number.reread, hitem₀]
    exact (hr item₀ 0).alone_eq.symm
  simp only [hitem, ← hreread]
  exact hr item room

theorem reads_quoted (s : String) (room : Nat) : Reads (read room) (quoted s) (some (.str s)) := by
  rcases read_eq room with ⟨item, hitem, -⟩
  intro rest _
  -- The first quote leads to the reader of strings.
  have hstring := readString_quoted s rest
  have hread : readWith item room (symbols (quoted s) ++ rest) =
      (readString (symbols (s.toList.flatMap escaped) ++ some '"' :: rest)).map
        (fun r => (.str r.1, r.2)) := by
    simp only [quoted, symbols_cons, symbols_append, List.cons_append, List.append_assoc,
      symbols_nil, List.nil_append]
    rfl
  simp only [hitem, hread, hstring]
  rfl

/-- A numeral does not look like the end of a container. -/
theorem opens_numeral {l : List Char} (hl : Numeral l) (hne : l ≠ []) : Opens l := by
  rcases List.exists_cons_of_ne_nil hne with ⟨c, l, rfl⟩
  rcases hl.head with hc | rfl | rfl
  · -- A digit is no blank and none of the brackets.
    refine ⟨c, l, rfl, isBlank_of_isDigit hc, ?_, ?_⟩
    · rintro rfl
      cases hc
    · rintro rfl
      cases hc
  · exact ⟨'.', l, rfl, rfl, by decide, by decide⟩
  · exact ⟨'e', l, rfl, rfl, by decide, by decide⟩

theorem opens_number (n : Number) : Opens n.chars := by
  rcases n.chars_cases with ⟨l, hl, hne, hplain | hsigned⟩ | hword
  · rw [hplain]
    exact opens_numeral hl hne
  · rw [hsigned]
    exact ⟨'-', l, rfl, rfl, by decide, by decide⟩
  · rw [hword]
    exact ⟨'n', _, rfl, rfl, by decide, by decide⟩

theorem opens_chars (v : Value) : Opens v.chars := by
  -- The first character decides: none of these is a blank or a closing bracket.
  cases v with
  | null =>
      exact ⟨'n', _, rfl, rfl, by decide, by decide⟩
  | bool b =>
      cases b with
      | true =>
          exact ⟨'t', _, rfl, rfl, by decide, by decide⟩
      | false =>
          exact ⟨'f', _, rfl, rfl, by decide, by decide⟩
  | num n =>
      exact opens_number n
  | str s =>
      exact ⟨'"', _, rfl, rfl, by decide, by decide⟩
  | id s =>
      exact ⟨'"', _, rfl, rfl, by decide, by decide⟩
  | list items =>
      exact ⟨'[', _, rfl, rfl, by decide, by decide⟩
  | map fields =>
      exact ⟨'{', _, rfl, rfl, by decide, by decide⟩

mutual

/-- The text of a value is read as it should, whatever follows. -/
theorem reads_chars : ∀ (v : Value) (room : Nat), Reads (read room) v.chars (v.reread room)
  | .null, room => by
      rcases read_eq room with ⟨item, hitem, -⟩
      intro rest _
      simp only [hitem]
      rfl
  | .bool b, room => by
      rcases read_eq room with ⟨item, hitem, -⟩
      intro rest _
      simp only [hitem]
      cases b <;> rfl
  | .num n, room => by
      simp only [chars, reread]
      exact reads_num n room
  | .str s, room => by
      simp only [chars, reread]
      exact reads_quoted s room
  | .id s, room => by
      simp only [chars, reread]
      exact reads_quoted s room
  | .list items, 0 => fun _ _ => rfl
  | .list items, room + 1 => by
      have hseries := reads_series (room + 1) (fun v _ => opens_chars v)
        (reads_items items room)
      simp only [← itemChars_eq, if_neg (Nat.succ_ne_zero room), ← rereadItems_eq] at hseries
      simp only [reread, if_neg (Nat.succ_ne_zero room)]
      exact hseries.map Value.list
  | .map fields, 0 => fun _ _ => rfl
  | .map fields, room + 1 => by
      have hnamed := reads_named (room + 1) chars (fun v => v.reread room)
        (reads_fields fields room)
      simp only [← fieldChars_eq, if_neg (Nat.succ_ne_zero room), ← rereadFields_eq] at hnamed
      have hvalue := hnamed.map Value.map
      -- An object is sorted while it is read, and its last value counts for each key.
      simp only [Option.map_map] at hvalue
      simp only [reread, if_neg (Nat.succ_ne_zero room)]
      exact hvalue

theorem reads_items : ∀ (items : List Value) (room : Nat),
    ∀ v ∈ items, Reads (read room) v.chars (v.reread room)
  | [], _ => by
      simp
  | v :: rest, room => by
      intro x hx
      rcases List.mem_cons.mp hx with hsame | hx
      · simp only [hsame]
        exact reads_chars v room
      · exact reads_items rest room x hx

theorem reads_fields : ∀ (fields : List (String × Value)) (room : Nat),
    ∀ b ∈ fields, Reads (read room) (chars b.2) (b.2.reread room)
  | [], _ => by
      simp
  | (k, v) :: rest, room => by
      intro b hb
      rcases List.mem_cons.mp hb with hsame | hb
      · simp only [hsame]
        exact reads_chars v room
      · exact reads_fields rest room b hb

end

/-- The fields of an object, as a stored form holds them. -/
theorem reads_object (fields : List (String × Value)) (room : Nat) :
    Reads (readNamed room (read (room - 1))) (objectChars (fieldChars fields))
      (if room = 0 then none else (rereadFields fields (room - 1)).map Assoc.ofList) := by
  simp only [fieldChars_eq, rereadFields_eq]
  exact reads_named room chars (fun v => v.reread (room - 1)) (reads_fields fields (room - 1))

end Value
end EntityCache
