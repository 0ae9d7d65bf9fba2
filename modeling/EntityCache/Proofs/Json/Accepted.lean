import EntityCache.Json.Structure

/-!
# What readers accept

* `Json.Yields`: whatever a reader accepts has a property, on any text.
* `Json.yields_elements`, `Json.yields_members`, `Json.yields_positions`: what every part keeps, a
  container keeps.
* `Json.yields_record`: a record, whether its fields are given by name or by position.
* `Json.yields_named`, `Json.yields_series`: objects and arrays with parts of one kind.  The keys of
  an object come out in order.
-/

namespace EntityCache
namespace Json

variable {σ α β : Type}

/-- Whatever the reader accepts has the property. -/
def Yields (reader : Symbols → Scan α) (P : α → Prop) : Prop :=
  ∀ s a rest, reader s = .ok (a, rest) → P a

theorem exists_of_map_eq_ok {ε : Type} {x : Except ε α} {f : α → β} {b : β}
    (h : x.map f = .ok b) : ∃ a, x = .ok a ∧ f a = b := by
  cases x with
  | error e =>
      cases h
  | ok a =>
      exact ⟨a, rfl, Except.ok.inj h⟩

namespace Yields

variable {reader : Symbols → Scan α} {P : α → Prop}

/-- The result of a reading, made into something else. -/
theorem map (h : Yields reader P) {f : α → β} {Q : β → Prop} (hf : ∀ a, P a → Q (f a)) :
    Yields (fun s => (reader s).map (fun (a, rest) => (f a, rest))) Q := by
  intro s b rest hmapped
  rcases exists_of_map_eq_ok hmapped with ⟨found, hread, hfound⟩
  cases hfound
  exact hf found.1 (h s found.1 found.2 hread)

/-- Any reader yields something. -/
theorem any (reader : Symbols → Scan α) : Yields reader fun _ => True :=
  fun _ _ _ _ => trivial

end Yields

/-! ## Containers -/

section Loops

variable {P : σ → Prop}

theorem yields_elements {item : σ → Symbols → Scan σ} (hitem : ∀ acc, P acc → Yields (item acc) P)
    (fuel : Nat) (first : Bool) (acc : σ) (hacc : P acc) :
    Yields (readElements item fuel first acc) P := by
  induction fuel generalizing first acc with
  | zero =>
      intro s a rest h
      cases h
  | succ fuel ih =>
      intro s a rest h
      rw [readElements] at h
      split at h
      · cases h
      · cases h
        exact hacc
      · split at h
        · cases h
        · next hread =>
            exact ih false _ (hitem acc hacc _ _ _ hread) _ _ _ h

theorem yields_members {member : String → σ → Symbols → Scan σ}
    (hmember : ∀ key acc, P acc → Yields (member key acc) P)
    (fuel : Nat) (first : Bool) (acc : σ) (hacc : P acc) :
    Yields (readMembers member fuel first acc) P := by
  -- What was read so far has the property, and the next member keeps it.
  induction fuel generalizing first acc with
  | zero =>
      intro s a rest h
      cases h
  | succ fuel ih =>
      intro s a rest h
      rw [readMembers] at h
      split at h
      · cases h
      · cases h
        exact hacc
      · split at h
        · cases h
        · split at h
          · cases h
          · next hread =>
              exact ih false _ (hmember _ acc hacc _ _ _ hread) _ _ _ h
      · cases h

theorem yields_positions {field : String → σ → Symbols → Scan σ}
    (hfield : ∀ name acc, P acc → Yields (field name acc) P)
    (fields : List String) (first : Bool) (acc : σ) (hacc : P acc) :
    Yields (readPositions field fields first acc) P := by
  -- Fields are read in turn; the array may end before the last of them.
  induction fields generalizing first acc with
  | nil =>
      intro s a rest h
      rw [readPositions] at h
      split at h
      · cases h
      · split at h
        · cases h
          exact hacc
        · cases h
  | cons name fields ih =>
      intro s a rest h
      rw [readPositions] at h
      split at h
      · cases h
      · cases h
        exact hacc
      · split at h
        · cases h
        · next hread =>
            exact ih false _ (hfield name acc hacc _ _ _ hread) _ _ _ h

/-- A member of a record is one of its fields, or changes nothing. -/
theorem yields_field {field : String → σ → Symbols → Scan σ}
    (hfield : ∀ name acc, P acc → Yields (field name acc) P) (fields : List String) (key : String)
    (p : Partial σ) (hp : P p.state) :
    Yields (readField fields field key p) fun p => P p.state := by
  intro s a rest h
  rw [readField] at h
  split at h
  -- Only the last way through reads the field: no word before it is wrong and it was not there yet.
  · split at h
    · cases h
    · split at h
      · cases h
      · split at h
        · cases h
        · next hread =>
            cases h
            exact hfield key p.state hp _ _ _ hread
  · split at h
    · cases h
    · split at h
      · cases h
      · cases h
        exact hp

theorem yields_record {fields : List String} {room : Nat} {field : String → σ → Symbols → Scan σ}
    {start : σ} {finish : σ → Except Fault α} {Q : α → Prop} (hstart : P start)
    (hfield : ∀ name acc, P acc → Yields (field name acc) P)
    (hfinish : ∀ state a, P state → finish state = .ok a → Q a) :
    Yields (readRecord fields room field start finish) fun a => room ≠ 0 ∧ Q a := by
  intro s a rest h
  rw [readRecord] at h
  split at h
  · cases h
  · simp only at h
    split at h
    · cases h
    · next state rest' houtcome =>
        rcases exists_of_map_eq_ok h with ⟨a', hfinished, hsame⟩
        cases hsame
        have hstate : room ≠ 0 ∧ P state := by
          -- A record is written as an array by position or as an object by name.
          split at houtcome
          · split at houtcome
            · cases houtcome
            · next hroom =>
                exact ⟨hroom, yields_positions hfield fields true start hstart _ _ _ houtcome⟩
          · split at houtcome
            · split at houtcome
              · cases houtcome
              · next hroom =>
                  split at houtcome
                  · cases houtcome
                  · next hmembers =>
                      cases houtcome
                      exact ⟨hroom, yields_members (fun key p hp =>
                        yields_field hfield fields key p hp) _ true ⟨start, []⟩ hstart _ _ _
                        hmembers⟩
            · cases houtcome
        exact ⟨hstate.1, hfinish state a hstate.2 hfinished⟩

end Loops

/-! ## Objects and arrays with parts of one kind -/

variable {item : Symbols → Scan α} {room : Nat} {P : α → Prop}

theorem yields_named (hitem : room ≠ 0 → Yields item P) :
    Yields (readNamed room item) fun l => room ≠ 0 ∧ Assoc.Sorted l ∧ ∀ b ∈ l, P b.2 := by
  intro s l rest h
  rw [readNamed] at h
  split at h
  · split at h
    · cases h
    · next hroom =>
        refine ⟨hroom, @yields_members _ (fun l => Assoc.Sorted l ∧ ∀ b ∈ l, P b.2) _
          (fun key acc hacc => ?_) _ true []
          ⟨Assoc.sorted_nil, fun b hb => absurd hb List.not_mem_nil⟩ _ _ _ h⟩
        intro s l' rest' hmember
        dsimp only at hmember
        split at hmember
        · cases hmember
        · split at hmember
          · cases hmember
          · next v rest'' hread =>
              cases hmember
              refine ⟨hacc.1.insert key v, fun b hb => ?_⟩
              rcases Assoc.mem_insert hb with rfl | hold
              · exact hitem hroom _ _ _ hread
              · exact hacc.2 b hold
  · cases h

theorem yields_series (hitem : room ≠ 0 → Yields item P) :
    Yields (readSeries room item) fun l => room ≠ 0 ∧ ∀ a ∈ l, P a := by
  intro s l rest h
  rw [readSeries] at h
  split at h
  · split at h
    · cases h
    · next hroom =>
        split at h
        · cases h
        · next acc rest' hread =>
            cases h
            have hall : ∀ a ∈ acc, P a := by
              refine @yields_elements _ (fun l => ∀ a ∈ l, P a) _ (fun acc hacc => ?_) _ true []
                (fun a ha => absurd ha List.not_mem_nil) _ _ _ hread
              intro s l' rest' helement
              dsimp only at helement
              split at helement
              · cases helement
              · next v rest'' hitem' =>
                  cases helement
                  exact List.forall_mem_cons.mpr ⟨hitem hroom _ _ _ hitem', hacc⟩
            exact ⟨hroom, fun a ha => hall a (List.mem_reverse.mp ha)⟩
  · cases h

/-- A text is accepted as what its reader yields. -/
theorem document_yields {reader : Symbols → Scan α} (h : Yields reader P) {s : Symbols} {a : α}
    (hread : document reader s = .ok a) : P a := by
  rw [document] at hread
  split at hread
  · cases hread
  · next hfound =>
      split at hread
      · cases hread
        exact h _ _ _ hfound
      · cases hread

end Json
end EntityCache
