import EntityCache.Proofs.Json.Numbers

/-!
# Arrays and objects read back

Readers are compared with what they should read up to the kind of fault:

* `Json.Reads`: what a reader makes of a text, whatever follows.
* `Json.Opens`: a text that starts neither with a blank nor with a closing bracket.
* `Json.readElements_remaining`, `Json.readMembers_remaining`: the parts of a container, read one
  after the other.
* `Json.reads_series`, `Json.reads_named`: arrays, and objects with values of one kind.
* `Json.document_of_reads`: whole texts.
-/

namespace EntityCache
namespace Json

variable {σ α β : Type}

/-- On the characters `l` the reader gives `r`, whatever follows; `none` stands for a fault. -/
def Reads (reader : Symbols → Scan α) (l : List Char) (r : Option α) : Prop :=
  ∀ rest, Ends rest → (reader (symbols l ++ rest)).toOption = r.map (fun a => (a, rest))

/-- What a reader gives on a text with nothing behind it. -/
def alone (reader : Symbols → Scan α) (l : List Char) : Option α :=
  (reader (symbols l)).toOption.map Prod.fst

theorem Local.reads {reader : Symbols → Scan α} {l : List Char} (h : Local reader l) :
    Reads reader l (alone reader l) :=
  fun _ hrest => h.eq hrest

/-- Starts with a character that is no blank and does not close a container. -/
def Opens (l : List Char) : Prop :=
  ∃ c l', l = c :: l' ∧ isBlank (some c) = false ∧ c ≠ ']' ∧ c ≠ '}'

/-- A text that is read as it should either fails or leaves exactly what follows it. -/
theorem Reads.cases {reader : Symbols → Scan α} {l : List Char} {r : Option α}
    (h : Reads reader l r) {rest : Symbols} (hrest : Ends rest) :
    (∃ e, reader (symbols l ++ rest) = .error e ∧ r = none) ∨
      ∃ a, reader (symbols l ++ rest) = .ok (a, rest) ∧ r = some a := by
  have hread := h rest hrest
  cases hscan : reader (symbols l ++ rest) with
  | error e =>
      simp only [hscan] at hread
      exact Or.inl ⟨e, rfl, Option.map_eq_none_iff.mp hread.symm⟩
  | ok found =>
      rcases found with ⟨a, rest'⟩
      simp only [hscan] at hread
      rcases Option.map_eq_some_iff.mp hread.symm with ⟨a', hr, hsame⟩
      cases hsame
      exact Or.inr ⟨a, rfl, hr⟩

/-- What a reader gives is settled by the text alone. -/
theorem Reads.alone_eq {reader : Symbols → Scan α} {l : List Char} {r : Option α}
    (h : Reads reader l r) : alone reader l = r := by
  have halone := h [] ends_nil
  simp only [List.append_nil] at halone
  simp only [alone, halone]
  cases r <;> rfl

/-- The result of a reading, made into something else. -/
theorem Reads.map {reader : Symbols → Scan α} {l : List Char} {r : Option α} (h : Reads reader l r)
    (f : α → β) : Reads (fun s => (reader s).map (fun (a, rest) => (f a, rest))) l (r.map f) := by
  intro rest hrest
  rcases h.cases hrest with ⟨e, hread, rfl⟩ | ⟨a, hread, rfl⟩
  · simp only [hread]
    rfl
  · simp only [hread]
    rfl

theorem skipBlank_cons {c : Char} (h : isBlank (some c) = false) (rest : Symbols) :
    skipBlank (some c :: rest) = some c :: rest := by
  simp [skipBlank, h]

theorem Opens.exists_ne {l : List Char} (h : Opens l) {close : Char}
    (hclose : close = ']' ∨ close = '}') : ∃ c l', l = c :: l' ∧ c ≠ close := by
  rcases h with ⟨c, l', rfl, -, hne, hne'⟩
  refine ⟨c, l', rfl, ?_⟩
  rcases hclose with rfl | rfl
  · exact hne
  · exact hne'

theorem skipBlank_opens {l : List Char} (h : Opens l) (rest : Symbols) :
    skipBlank (symbols l ++ rest) = symbols l ++ rest := by
  rcases h with ⟨c, l', rfl, hc, -, -⟩
  exact skipBlank_cons hc _

/-! ## Separated parts -/

theorem separated_cons (p : List Char) (ps : List (List Char)) :
    separated (p :: ps) = p ++ ps.flatMap (fun q => ',' :: q) := by
  induction ps generalizing p with
  | nil =>
      simp [separated]
  | cons q ps ih =>
      rw [separated, ih q]
      · simp
      · simp

theorem nextPart_first {close : Char} {l : List Char} (hl : Opens l)
    (hclose : close = ']' ∨ close = '}') (rest : Symbols) :
    nextPart close true (symbols l ++ rest) = .ok (some (symbols l ++ rest), []) := by
  have hskip := skipBlank_opens hl rest
  rcases hl.exists_ne hclose with ⟨c, l', rfl, hother⟩
  simp only [symbols_cons, List.cons_append] at hskip ⊢
  simp [nextPart, hskip, hother]

theorem nextPart_later {close : Char} {l : List Char} (hl : Opens l)
    (hclose : close = ']' ∨ close = '}') (rest : Symbols) :
    nextPart close false (some ',' :: (symbols l ++ rest)) =
      .ok (some (symbols l ++ rest), []) := by
  have hskip := skipBlank_opens hl rest
  rcases hl.exists_ne hclose with ⟨c, l', rfl, hother⟩
  have hcomma : ',' ≠ close := by
    rcases hclose with rfl | rfl <;> decide
  have hblank : isBlank (some ',') = false := rfl
  simp only [symbols_cons, List.cons_append] at hskip ⊢
  simp only [nextPart, skipBlank_cons hblank]
  simp [hskip, hother, hcomma]

theorem nextPart_close {close : Char} (first : Bool) (hclose : close = ']' ∨ close = '}')
    (rest : Symbols) :
    nextPart close first (some close :: rest) = .ok (none, rest) := by
  have hblank : isBlank (some close) = false := by
    rcases hclose with rfl | rfl <;> rfl
  simp only [nextPart, skipBlank_cons hblank]
  simp

/-- What stands after a part: the other parts behind commas, and the bracket. -/
def following (close : Char) (parts : List (List Char)) (rest : Symbols) : Symbols :=
  symbols (parts.flatMap (fun q => ',' :: q)) ++ some close :: rest

theorem following_cons (close : Char) (p : List Char) (ps : List (List Char)) (rest : Symbols) :
    following close (p :: ps) rest = some ',' :: (symbols p ++ following close ps rest) := by
  simp [following]

theorem ends_following {close : Char} (hclose : close = ']' ∨ close = '}')
    (parts : List (List Char)) (rest : Symbols) : Ends (following close parts rest) := by
  cases parts with
  | nil =>
      refine ends_cons ?_ rest
      rcases hclose with rfl | rfl <;> rfl
  | cons p ps =>
      simp only [following_cons]
      exact ends_cons rfl _

theorem symbols_separated_cons (close : Char) (p : List Char) (ps : List (List Char))
    (rest : Symbols) :
    symbols (separated (p :: ps)) ++ some close :: rest = symbols p ++ following close ps rest := by
  simp only [separated_cons, symbols_append, List.append_assoc]
  rfl

/-- The rest of a container before the next of the given parts, the first one or a later one. -/
def remaining (close : Char) (first : Bool) (parts : List (List Char)) (rest : Symbols) : Symbols :=
  if first then symbols (separated parts) ++ some close :: rest else following close parts rest

theorem remaining_true (close : Char) (parts : List (List Char)) (rest : Symbols) :
    remaining close true parts rest = symbols (separated parts) ++ some close :: rest := rfl

theorem remaining_nil (close : Char) (first : Bool) (rest : Symbols) :
    remaining close first [] rest = some close :: rest := by
  cases first <;> rfl

/-- The next part is found whether a comma is in front of it or not. -/
theorem nextPart_remaining {close : Char} (first : Bool) {p : List Char} (hp : Opens p)
    (hclose : close = ']' ∨ close = '}') (ps : List (List Char)) (rest : Symbols) :
    nextPart close first (remaining close first (p :: ps) rest) =
      .ok (some (symbols p ++ following close ps rest), []) := by
  cases first with
  | true =>
      simp only [remaining_true, symbols_separated_cons]
      exact nextPart_first hp hclose _
  | false =>
      show nextPart close false (following close (p :: ps) rest) = _
      simp only [following_cons]
      exact nextPart_later hp hclose _

theorem length_le_separated {parts : List (List Char)} (h : ∀ p ∈ parts, Opens p) :
    parts.length ≤ (separated parts).length := by
  -- A part that opens something has a character at least, which makes up for itself.
  have hone : ∀ p ∈ parts, 1 ≤ p.length := by
    intro p hp
    rcases h p hp with ⟨c, l', rfl, -⟩
    simp
  cases parts with
  | nil =>
      simp
  | cons p ps =>
      have hlater : ps.length ≤ (ps.flatMap (fun q => ',' :: q)).length := by
        clear h hone
        induction ps with
        | nil =>
            simp
        | cons q ps ih =>
            simp only [List.flatMap_cons, List.length_append, List.length_cons]
            omega
      have hp := hone p List.mem_cons_self
      simp only [separated_cons, List.length_append, List.length_cons]
      omega

/-! ## Arrays -/

section Elements

variable {item : σ → Symbols → Scan σ} {step : List Char → σ → Option σ}

/-- From the next element on, each part is read into the state, up to the bracket. -/
theorem readElements_remaining {parts : List (List Char)} (hopens : ∀ p ∈ parts, Opens p)
    (hitem : ∀ p ∈ parts, ∀ acc, Reads (item acc) p (step p acc)) (rest : Symbols) :
    ∀ fuel first acc, parts.length < fuel →
      (readElements item fuel first acc (remaining ']' first parts rest)).toOption =
        (parts.foldlM (fun acc p => step p acc) acc).map (fun acc => (acc, rest)) := by
  induction parts with
  | nil =>
      intro fuel first acc hfuel
      rcases Nat.exists_eq_add_one.mpr hfuel with ⟨fuel, rfl⟩
      simp only [remaining_nil, readElements, nextPart_close first (Or.inl rfl)]
      rfl
  | cons p ps ih =>
      intro fuel first acc hfuel
      rcases Nat.exists_eq_add_one.mpr (Nat.zero_lt_of_lt hfuel) with ⟨fuel, rfl⟩
      have hlater := ih (fun q hq => hopens q (List.mem_cons_of_mem _ hq))
        (fun q hq => hitem q (List.mem_cons_of_mem _ hq)) fuel false
      rw [readElements, nextPart_remaining first (hopens p List.mem_cons_self) (Or.inl rfl),
        List.foldlM_cons]
      -- The part is read whatever stands behind it; a fault ends the loop.
      rcases (hitem p List.mem_cons_self acc).cases (ends_following (Or.inl rfl) ps rest) with
        ⟨e, hread, hstep⟩ | ⟨acc', hread, hstep⟩
      · simp only [hstep]
        simp only [hread]
        rfl
      · simp only [hstep]
        simp only [hread]
        exact hlater acc' (Nat.lt_of_succ_lt_succ hfuel)

end Elements

/-! ## Objects -/

/-- A member of an object: a key and the text of its value. -/
def memberChars (m : String × List Char) : List Char :=
  quoted m.1 ++ ':' :: m.2

theorem opens_quoted (s : String) (l : List Char) : Opens (quoted s ++ l) :=
  ⟨'"', s.toList.flatMap escaped ++ ['"'] ++ l, rfl, rfl, by decide, by decide⟩

theorem opens_memberChars (m : String × List Char) : Opens (memberChars m) :=
  opens_quoted m.1 (':' :: m.2)

section Members

variable {member : String → σ → Symbols → Scan σ} {step : String × List Char → σ → Option σ}

/-- One member: its key is read, and the rest is left to the reader of members. -/
def ReadsMembers (member : String → σ → Symbols → Scan σ)
    (step : String × List Char → σ → Option σ) (members : List (String × List Char)) : Prop :=
  ∀ m ∈ members, ∀ acc, Reads (member m.1 acc) (':' :: m.2) (step m acc)

theorem symbols_memberChars (m : String × List Char) (rest : Symbols) :
    symbols (memberChars m) ++ rest =
      some '"' :: (symbols (m.1.toList.flatMap escaped) ++
        some '"' :: (symbols (':' :: m.2) ++ rest)) := by
  simp [memberChars, quoted]

/-- From the next member on, each is read into the state, up to the bracket. -/
theorem readMembers_remaining {members : List (String × List Char)}
    (hmember : ReadsMembers member step members) (rest : Symbols) :
    ∀ fuel first acc, members.length < fuel →
      (readMembers member fuel first acc
          (remaining '}' first (members.map memberChars) rest)).toOption =
        (members.foldlM (fun acc m => step m acc) acc).map (fun acc => (acc, rest)) := by
  induction members with
  | nil =>
      intro fuel first acc hfuel
      rcases Nat.exists_eq_add_one.mpr hfuel with ⟨fuel, rfl⟩
      simp only [List.map_nil, remaining_nil, readMembers, nextPart_close first (Or.inr rfl)]
      rfl
  | cons m ms ih =>
      intro fuel first acc hfuel
      rcases Nat.exists_eq_add_one.mpr (Nat.zero_lt_of_lt hfuel) with ⟨fuel, rfl⟩
      -- The fuel is one more than the members that are left, so one is there for the bracket.
      have hlater := ih (fun x hx => hmember x (List.mem_cons_of_mem _ hx)) fuel false
      rw [List.map_cons, readMembers, nextPart_remaining first (opens_memberChars m) (Or.inr rfl),
        symbols_memberChars, List.foldlM_cons]
      simp only [readString_quoted]
      rcases (hmember m List.mem_cons_self acc).cases
          (ends_following (Or.inr rfl) (ms.map memberChars) rest) with
        ⟨e, hread, hstep⟩ | ⟨acc', hread, hstep⟩
      · simp only [hstep]
        simp only [hread]
        rfl
      · simp only [hstep]
        simp only [hread]
        exact hlater acc' (Nat.lt_of_succ_lt_succ hfuel)

end Members

theorem symbols_objectChars (members : List (String × List Char)) (rest : Symbols) :
    symbols (objectChars members) ++ rest =
      some '{' :: (symbols (separated (members.map memberChars)) ++ some '}' :: rest) := by
  have hsame : members.map (fun m => quoted m.1 ++ ':' :: m.2) = members.map memberChars := rfl
  simp [objectChars, hsame]

theorem symbols_arrayChars (items : List (List Char)) (rest : Symbols) :
    symbols (arrayChars items) ++ rest =
      some '[' :: (symbols (separated items) ++ some ']' :: rest) := by
  simp [arrayChars]

/-- The bound of the loop over the members of an object suffices. -/
theorem length_lt_members (members : List (String × List Char)) (rest : Symbols) :
    members.length <
      (symbols (separated (members.map memberChars)) ++ some '}' :: rest).length + 1 := by
  have hopens : ∀ p ∈ members.map memberChars, Opens p := by
    intro p hp
    rcases List.mem_map.mp hp with ⟨m, -, rfl⟩
    exact opens_memberChars m
  have hlength := length_le_separated hopens
  simp only [List.length_map, List.length_append, length_symbols, List.length_cons] at hlength ⊢
  omega

/-! ## Containers of one kind -/

theorem mapM_congr {f g : β → Option α} {l : List β} (h : ∀ b ∈ l, f b = g b) :
    l.mapM f = l.mapM g := by
  induction l with
  | nil =>
      rfl
  | cons b l ih =>
      simp only [List.mapM_cons, h b List.mem_cons_self,
        ih fun x hx => h x (List.mem_cons_of_mem _ hx)]

/-- Collecting the results of readings in front of each other. -/
theorem foldlM_cons_eq (value : β → Option α) (l : List β) : ∀ acc : List α,
    l.foldlM (fun acc b => (value b).map (fun v => v :: acc)) acc =
      (l.mapM value).map (fun vs => vs.reverse ++ acc) := by
  induction l with
  | nil =>
      intro acc
      rfl
  | cons b l ih =>
      intro acc
      simp only [List.foldlM_cons, List.mapM_cons]
      cases value b with
      | none =>
          rfl
      | some v =>
          have hlater := ih (v :: acc)
          simp only [Option.map_some, Option.bind_eq_bind, Option.bind_some, Option.pure_def]
          simp only [hlater]
          cases l.mapM value <;> simp

/-- One more element of an array, in front of those before. -/
def readElement (item : Symbols → Scan α) (acc : List α) (s : Symbols) : Scan (List α) :=
  match item s with
  | .error e => .error e
  | .ok (v, rest) => .ok (v :: acc, rest)

theorem reads_element {item : Symbols → Scan α} {l : List Char} {r : Option α}
    (h : Reads item l r) (acc : List α) :
    Reads (readElement item acc) l (r.map (fun v => v :: acc)) := by
  intro rest hrest
  rcases h.cases hrest with ⟨e, hread, rfl⟩ | ⟨v, hread, rfl⟩
  · simp only [readElement, hread]
    rfl
  · simp only [readElement, hread]
    rfl

/-- The elements that have been read, in their order. -/
def inOrder (scan : Scan (List α)) : Scan (List α) :=
  match scan with
  | .error e => .error e
  | .ok (acc, rest) => .ok (acc.reverse, rest)

theorem toOption_inOrder (scan : Scan (List α)) :
    (inOrder scan).toOption = scan.toOption.map (fun r => (r.1.reverse, r.2)) := by
  cases scan with
  | error e =>
      rfl
  | ok found =>
      rfl

/-- An array is read element by element. -/
theorem readSeries_eq (room : Nat) (item : Symbols → Scan α) (rest : Symbols) :
    readSeries room item (some '[' :: rest) =
      if room = 0 then .error .malformed
      else inOrder (readElements (readElement item) (rest.length + 1) true [] rest) := by
  rw [readSeries, skipBlank_cons rfl]
  rfl

/-- An array with elements of one kind. -/
theorem reads_series (room : Nat) {item : Symbols → Scan α} {text : β → List Char}
    {value : β → Option α} {l : List β} (hopens : ∀ b ∈ l, Opens (text b))
    (hitem : ∀ b ∈ l, Reads item (text b) (value b)) :
    Reads (readSeries room item) (arrayChars (l.map text))
      (if room = 0 then none else l.mapM value) := by
  intro rest _
  have hopens' : ∀ p ∈ l.map text, Opens p := by
    intro p hp
    rcases List.mem_map.mp hp with ⟨b, hb, rfl⟩
    exact hopens b hb
  have helement : ∀ p ∈ l.map text, ∀ acc,
      Reads (readElement item acc) p ((alone item p).map (fun v => v :: acc)) := by
    intro p hp acc
    rcases List.mem_map.mp hp with ⟨b, hb, rfl⟩
    simp only [(hitem b hb).alone_eq]
    exact reads_element (hitem b hb) acc
  have hfuel : (l.map text).length <
      (symbols (separated (l.map text)) ++ some ']' :: rest).length + 1 := by
    have hlength := length_le_separated hopens'
    simp only [List.length_append, length_symbols, List.length_cons]
    omega
  have hvalues : ((l.map text).foldlM
      (fun acc p => (alone item p).map (fun v => v :: acc)) []) =
        (l.mapM value).map List.reverse := by
    have hsame : l.mapM (fun b => alone item (text b)) = l.mapM value :=
      mapM_congr fun b hb => (hitem b hb).alone_eq
    simp only [List.foldlM_map, foldlM_cons_eq (fun b => alone item (text b)) l [], hsame]
    simp
  simp only [symbols_arrayChars, readSeries_eq]
  by_cases hroom : room = 0
  · rw [if_pos hroom, if_pos hroom]
    rfl
  have hloop := readElements_remaining hopens' helement rest _ true [] hfuel
  simp only [remaining_true] at hloop
  rw [if_neg hroom, if_neg hroom, toOption_inOrder, hloop, hvalues]
  -- The elements were collected in front of each other.
  cases l.mapM value with
  | none =>
      rfl
  | some vs =>
      simp

/-- Inserting one member after the other, each with its own reading. -/
theorem foldlM_insert_eq (value : β → Option α) (l : List (String × β)) :
    ∀ acc : List (String × α),
    l.foldlM (fun acc b => (value b.2).map (fun v => Assoc.insert b.1 v acc)) acc =
      (l.mapM (fun b => (value b.2).map (fun v => (b.1, v)))).map
        (fun vs => vs.foldl (fun acc b => Assoc.insert b.1 b.2 acc) acc) := by
  induction l with
  | nil =>
      intro acc
      rfl
  | cons b l ih =>
      intro acc
      simp only [List.foldlM_cons, List.mapM_cons]
      cases value b.2 with
      | none =>
          rfl
      | some v =>
          have hlater := ih (Assoc.insert b.1 v acc)
          simp only [Option.map_some, Option.bind_eq_bind, Option.bind_some, Option.pure_def]
          simp only [hlater]
          cases l.mapM (fun b => (value b.2).map (fun v => (b.1, v))) <;> simp

/-- One more member of an object. -/
def readMember (item : Symbols → Scan α) (key : String) (acc : List (String × α)) (s : Symbols) :
    Scan (List (String × α)) :=
  match readColon s with
  | .error e => .error e
  | .ok s =>
      match item s with
      | .error e => .error e
      | .ok (v, rest) => .ok (Assoc.insert key v acc, rest)

theorem reads_member {item : Symbols → Scan α} {l : List Char} {r : Option α}
    (h : Reads item l r) (key : String) (acc : List (String × α)) :
    Reads (readMember item key acc) (':' :: l) (r.map (fun v => Assoc.insert key v acc)) := by
  intro rest hrest
  have hcolon : readColon (symbols (':' :: l) ++ rest) = .ok (symbols l ++ rest) := rfl
  rcases h.cases hrest with ⟨e, hread, rfl⟩ | ⟨v, hread, rfl⟩
  · simp only [readMember, hcolon, hread]
    rfl
  · simp only [readMember, hcolon, hread]
    rfl

/-- An object is read member by member. -/
theorem readNamed_eq (room : Nat) (item : Symbols → Scan α) (rest : Symbols) :
    readNamed room item (some '{' :: rest) =
      if room = 0 then .error .malformed
      else readMembers (readMember item) (rest.length + 1) true [] rest := by
  rw [readNamed, skipBlank_cons rfl]
  rfl

/-- An object with values of one kind: the last value of each key counts. -/
theorem reads_named (room : Nat) {item : Symbols → Scan α} (text : β → List Char)
    (value : β → Option α) {l : List (String × β)}
    (hitem : ∀ b ∈ l, Reads item (text b.2) (value b.2)) :
    Reads (readNamed room item) (objectChars (l.map (fun b => (b.1, text b.2))))
      (if room = 0 then none
        else (l.mapM (fun b => (value b.2).map (fun v => (b.1, v)))).map Assoc.ofList) := by
  intro rest _
  -- Each member is read into the bindings, and inserting them in turn leaves the last per key.
  have hmember : ReadsMembers (readMember item)
      (fun m acc => (alone item m.2).map (fun v => Assoc.insert m.1 v acc))
      (l.map (fun b => (b.1, text b.2))) := by
    intro m hm acc
    rcases List.mem_map.mp hm with ⟨b, hb, rfl⟩
    simp only [(hitem b hb).alone_eq]
    exact reads_member (hitem b hb) b.1 acc
  have hvalues : ((l.map (fun b => (b.1, text b.2))).foldlM
      (fun acc m => (alone item m.2).map (fun v => Assoc.insert m.1 v acc)) []) =
        (l.mapM (fun b => (value b.2).map (fun v => (b.1, v)))).map Assoc.ofList := by
    have hsame : l.mapM (fun b => (alone item (text b.2)).map (fun v => (b.1, v))) =
        l.mapM (fun b => (value b.2).map (fun v => (b.1, v))) := by
      refine mapM_congr fun b hb => ?_
      simp only [(hitem b hb).alone_eq]
    simp only [List.foldlM_map]
    refine (foldlM_insert_eq (fun b => alone item (text b)) l []).trans ?_
    simp only [hsame]
    rfl
  simp only [symbols_objectChars, readNamed_eq]
  by_cases hroom : room = 0
  · rw [if_pos hroom, if_pos hroom]
    rfl
  have hloop := readMembers_remaining hmember rest _ true [] (length_lt_members _ rest)
  simp only [remaining_true] at hloop
  rw [if_neg hroom, if_neg hroom, hloop, hvalues]

/-! ## Declared fields -/

section Record

variable {fields : List String} {field : String → σ → Symbols → Scan σ}
  {step : String × List Char → σ → Option σ}

/-- A declared field that has not been met is read, and is met from then on. -/
theorem reads_field {m : String × List Char} {p : Partial σ} (hknown : m.1 ∈ fields)
    (hfield : ∀ acc, Reads (field m.1 acc) m.2 (step m acc)) :
    Reads (readField fields field m.1 p) (':' :: m.2)
      (if m.1 ∈ p.met then none
        else (step m p.state).map (fun state => ⟨state, m.1 :: p.met⟩)) := by
  intro rest hrest
  have hcolon : readColon (symbols (':' :: m.2) ++ rest) = .ok (symbols m.2 ++ rest) := rfl
  simp only [readField, if_pos hknown]
  by_cases hmet : m.1 ∈ p.met
  · rw [if_pos hmet, if_pos hmet]
    rfl
  · rw [if_neg hmet, if_neg hmet, hcolon]
    rcases (hfield p.state).cases hrest with ⟨e, hread, hstep⟩ | ⟨state, hread, hstep⟩
    · simp only [hread, hstep]
      rfl
    · simp only [hread, hstep]
      rfl

theorem foldlM_met (step : String × List Char → σ → Option σ)
    {members : List (String × List Char)} : ∀ p : Partial σ,
      (members.map Prod.fst).Nodup → (∀ m ∈ members, m.1 ∉ p.met) →
      (members.foldlM (fun p m => if m.1 ∈ p.met then none
        else (step m p.state).map (fun state => (⟨state, m.1 :: p.met⟩ : Partial σ))) p).map
          Partial.state =
        members.foldlM (fun acc m => step m acc) p.state := by
  induction members with
  | nil =>
      intro p _ _
      rfl
  | cons m members ih =>
      intro p hnodup hmet
      rcases List.nodup_cons.mp hnodup with ⟨hm, hnodup⟩
      simp only [List.foldlM_cons, if_neg (hmet m List.mem_cons_self)]
      cases step m p.state with
      | none =>
          rfl
      | some state =>
          -- The members behind have not been met, the one just read included.
          refine ih ⟨state, m.1 :: p.met⟩ hnodup ?_
          intro x hx hmem
          rcases List.mem_cons.mp hmem with hsame | hmem
          · exact hm (hsame ▸ List.mem_map_of_mem hx)
          · exact hmet x (List.mem_cons_of_mem _ hx) hmem

/-- A record whose members are declared fields, each given once. -/
theorem reads_record {room : Nat} {start : σ} {finish : σ → Except Fault α}
    {members : List (String × List Char)} (hknown : ∀ m ∈ members, m.1 ∈ fields)
    (hnodup : (members.map Prod.fst).Nodup)
    (hfield : ∀ m ∈ members, ∀ acc, Reads (field m.1 acc) m.2 (step m acc)) :
    Reads (readRecord fields room field start finish) (objectChars members)
      (if room = 0 then none
        else (members.foldlM (fun acc m => step m acc) start).bind
          (fun acc => (finish acc).toOption)) := by
  intro rest _
  have hmembers : ReadsMembers (readField fields field)
      (fun m p => if m.1 ∈ p.met then none
        else (step m p.state).map (fun state => ⟨state, m.1 :: p.met⟩)) members :=
    fun m hm p => reads_field (hknown m hm) (hfield m hm)
  have hloop := readMembers_remaining hmembers rest _ true ⟨start, []⟩
    (length_lt_members members rest)
  simp only [remaining_true] at hloop
  -- No field is given twice, so what has been met never matters.
  have hstates := foldlM_met step ⟨start, []⟩ hnodup (fun m _ => List.not_mem_nil)
  have hbracket : ¬ ((some '{' : Symbol) = some '[') := by decide
  rw [symbols_objectChars, readRecord, skipBlank_cons rfl]
  by_cases hroom : room = 0
  · simp only [if_neg hbracket, if_pos hroom]
    rfl
  simp only [if_neg hbracket, if_neg hroom, if_true]
  simp only [← hstates]
  generalize readMembers (readField fields field) _ true (Partial.mk start []) _ = scan at hloop ⊢
  generalize (List.foldlM _ (Partial.mk start []) members : Option (Partial σ)) = folded
    at hloop ⊢
  cases scan with
  | error e =>
      cases folded with
      | none =>
          rfl
      | some p =>
          cases hloop
  | ok found =>
      cases folded with
      | none =>
          cases hloop
      | some p =>
          cases hloop
          simp only [Option.map_some, Option.bind_some]
          cases finish p.state <;> rfl

end Record

/-! ## Plain parts -/

theorem symbols_quoted (s : String) (rest : Symbols) :
    symbols (quoted s) ++ rest =
      some '"' :: (symbols (s.toList.flatMap escaped) ++ some '"' :: rest) := by
  simp [quoted]

theorem readText_quoted (s : String) (rest : Symbols) :
    readText (symbols (quoted s) ++ rest) = .ok (s, rest) := by
  simp only [symbols_quoted]
  exact readString_quoted s rest

theorem reads_text (s : String) : Reads readText (quoted s) (some s) := by
  intro rest _
  simp only [readText_quoted]
  rfl

theorem reads_optional_text (s : String) :
    Reads (readOptional readText) (quoted s) (some (some s)) := by
  intro rest _
  have htext := readText_quoted s rest
  simp only [symbols_quoted] at htext ⊢
  rw [readOptional, skipBlank_cons rfl]
  split
  -- A quote does not begin a `null`.
  · next h =>
      cases h
  · simp only [htext]
    rfl

/-! ## Whole texts -/

/-- A text that is read as it should is read as a whole. -/
theorem document_of_reads {reader : Symbols → Scan α} {l : List Char} {r : Option α} :
    Reads reader l r → (document reader (symbols l)).toOption = r := by
  intro h
  have hread := h [] ends_nil
  simp only [List.append_nil] at hread
  simp only [document]
  cases hscan : reader (symbols l) with
  | error e =>
      simp only [hscan] at hread
      exact (Option.map_eq_none_iff.mp hread.symm).symm
  | ok found =>
      rcases found with ⟨a, rest⟩
      simp only [hscan] at hread
      rcases Option.map_eq_some_iff.mp hread.symm with ⟨a', hr, hsame⟩
      cases hsame
      simp only [hr]
      rfl

end Json
end EntityCache
