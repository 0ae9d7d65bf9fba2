import EntityCache.Proofs.Codec.Floats

/-!
# Entities as they are read

* `Snapshot.fields_of_decode`: what every value has that is read, the fields of an entity have,
  whatever bytes it was decoded from.
* `Snapshot.get?_reread`: what was written is read back field by field.
-/

namespace EntityCache

open Json

namespace Value

/-- Fields are read back one by one, in their order. -/
theorem rereadFields_apply {room : Nat} (fields : List (String × Value)) :
    ∀ {l : List (String × Value)}, rereadFields fields room = some l →
      l.map Prod.fst = fields.map Prod.fst ∧
        ∀ k, Assoc.get? k l = (Assoc.get? k fields).bind (fun v => v.reread room) := by
  induction fields with
  | nil =>
      intro l h
      cases h
      exact ⟨rfl, fun _ => rfl⟩
  | cons b rest ih =>
      rcases b with ⟨k, v⟩
      intro l h
      simp only [rereadFields, Option.bind_eq_bind, Option.bind_eq_some_iff, Option.pure_def,
        Option.some.injEq] at h
      rcases h with ⟨v', hv, rest', hrest, rfl⟩
      rcases ih hrest with ⟨hkeys, hget⟩
      refine ⟨by simp only [List.map_cons, hkeys], fun k' => ?_⟩
      simp only [Assoc.get?_cons, hget]
      split
      · simp only [Option.bind_some, hv]
      · rfl

end Value

namespace Snapshot

variable {s s' : Snapshot} {room : Nat}

section Fields

variable {P : Nat → Value → Prop} (hvalue : ∀ room, Yields (Value.read room) (P room))

include hvalue

/-- The fields of an entity stand two levels below its text. -/
theorem yields_fields (room : Nat) :
    Yields (read room) fun s => ∀ b ∈ s.fields.bindings, P (room - 2) b.2 := by
  intro text s rest h
  -- The fields read so far are such as well.
  have hrecord := yields_record (P := fun d : Draft => ∀ b ∈ d.fields, P (room - 2) b.2)
    (Q := fun s => ∀ b ∈ s.fields.bindings, P (room - 2) b.2)
    (fun b hb => absurd hb List.not_mem_nil) ?_ ?_ text s rest h
  · exact hrecord.2
  · intro name d hd text d' rest hread
    rw [readField] at hread
    split at hread
    · rcases exists_of_map_eq_ok hread with ⟨⟨guid, _⟩, -, hfound⟩
      cases hfound
      exact hd
    · rcases exists_of_map_eq_ok hread with ⟨⟨fields, _⟩, hnamed, hfound⟩
      cases hfound
      exact (yields_named (fun _ => hvalue _) _ _ _ hnamed).2.2
  · intro d s hd hfinish
    rw [finish] at hfinish
    split at hfinish
    · cases hfinish
      exact fun b hb => hd b (Assoc.mem_of_mem_ofList hb)
    · cases hfinish

/-- Whatever bytes an entity is decoded from, its fields are as values are read. -/
theorem fields_of_decode {key : String} {blob : Blob}
    (h : Blob.decode ofSymbols? key blob = .ok s) :
    ∀ b ∈ s.fields.bindings, P (maxRoom - 2) b.2 := by
  simp only [Blob.decode] at h
  split at h
  · cases h
  · next raw _ =>
      cases hread : ofSymbols? raw.symbols with
      | error fault =>
          rw [hread] at h
          cases h
      | ok found =>
          rw [hread] at h
          cases h
          exact document_yields (yields_fields hvalue maxRoom) hread

end Fields

/-- An entity is read back field by field. -/
theorem get?_reread (h : s.reread room = some s') (k : String) :
    s'.fields.get? k = (s.fields.get? k).bind (fun v => v.reread (room - 2)) := by
  rw [reread] at h
  split at h
  · cases h
  rcases Option.map_eq_some_iff.mp h with ⟨l, hl, rfl⟩
  rw [rereadFields] at hl
  split at hl
  · cases hl
  rcases Option.map_eq_some_iff.mp hl with ⟨l', hl', rfl⟩
  rcases Value.rereadFields_apply _ hl' with ⟨hkeys, hget⟩
  -- The fields stand in order, and so they do when they are read back.
  have hsorted : Assoc.Sorted l' := Assoc.sorted_of_keys hkeys s.fields.sorted
  have hsame : Assoc.ofList l' = l' := Assoc.ofList_of_sorted hsorted
  show Assoc.get? k (Assoc.ofList (Assoc.ofList l')) = _
  rw [hsame, hsame]
  exact hget k

end Snapshot
end EntityCache
