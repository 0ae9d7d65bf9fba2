import EntityCache.Normalize.Assemble
import EntityCache.Normalize.Pass
import EntityCache.Proofs.Normalize.Effects

/-!
# Records under effects

A record set is seen through the record that it has under each guid.  Where every record is kept
under its own guid, an effect changes one of them and leaves the others alone:

* `RecordSet.Keyed`: every record is kept under its own guid.
* `Progress.get?_apply`: what one effect does to the records.
* `Progress.field?_applyAll`: after a walk a record field has the value written last, or else its
  old one.
* `Progress.mem_dependentsAt_applyAll`, `Progress.mem_impacted_applyAll`,
  `Progress.touches_applyAll`: the dependents, the impacted queries and the touched records.
-/

namespace EntityCache

namespace Pool

theorem get?_lt {p : Pool} {h : Handle} {r : Record} (hr : p.get? h = some r) :
    h < p.cells.size := by
  rcases Array.getElem?_eq_some_iff.mp hr with ⟨hlt, -⟩
  exact hlt

theorem add_fst (p : Pool) (r : Record) : (p.add r).1 = p.cells.size := rfl

/-- A new record leaves those that exist alone. -/
theorem get?_add_of_lt (p : Pool) (r : Record) {h : Handle} (hlt : h < p.cells.size) :
    (p.add r).2.get? h = p.get? h := by
  rw [get?_add, if_neg]
  simp only [add_fst]
  exact Nat.ne_of_lt hlt

theorem size_add (p : Pool) (r : Record) : (p.add r).2.cells.size = p.cells.size + 1 := by
  simp [add]

theorem get?_add_self (p : Pool) (r : Record) : (p.add r).2.get? p.cells.size = some r := by
  simp only [get?_add, add_fst, if_true]

theorem size_modify (p : Pool) (h : Handle) (f : Record → Record) :
    (p.modify h f).cells.size = p.cells.size := by
  simp [modify]

end Pool

namespace Record

@[simp] theorem dependents_put (r : Record) (k : String) (v : Value) (q : Option QueryKey) :
    (r.put k v q).dependents = (r.enroll q).dependents := by
  cases q <;> rfl

theorem mem_dependents_enroll (r : Record) (requestor : Option QueryKey) (q : QueryKey) :
    (r.enroll requestor).dependents.mem q = true ↔
      r.dependents.mem q = true ∨ requestor = some q := by
  cases requestor with
  | none =>
      simp [enroll]
  | some q' =>
      simp only [enroll, addDependent, KeySet.mem_add, Bool.or_eq_true, decide_eq_true_eq,
        Option.some.injEq]
      constructor
      · rintro (h | h)
        · exact Or.inr h.symm
        · exact Or.inl h
      · rintro (h | h)
        · exact Or.inr h
        · exact Or.inl h.symm

end Record

namespace Normalize

namespace RecordSet

variable {s : RecordSet} {guid guid' : Guid} {h : Handle}

/-- Every record is kept under its own guid. -/
def Keyed (s : RecordSet) : Prop :=
  ∀ guid h, s.handle? guid = some h → ∃ r, s.pool.get? h = some r ∧ r.guid = guid

/-- The field `k` of the record under a guid. -/
def field? (s : RecordSet) (guid : Guid) (k : String) : Option Value :=
  (s.get? guid).bind (fun r => r.fields.get? k)

/-- The dependents of the record under a guid; none if there is no record. -/
def dependentsAt (s : RecordSet) (guid : Guid) : KeySet QueryKey :=
  ((s.get? guid).map Record.dependents).getD .empty

theorem get?_of_handle? (hh : s.handle? guid = some h) : s.get? guid = s.pool.get? h := by
  simp only [get?, hh, Option.bind_some]

theorem get?_eq_none_iff (hs : s.Keyed) : s.get? guid = none ↔ s.handle? guid = none := by
  constructor
  · intro hnone
    cases hh : s.handle? guid with
    | none =>
        rfl
    | some h =>
        rcases hs guid h hh with ⟨r, hr, -⟩
        simp only [get?_of_handle? hh, hr] at hnone
        cases hnone
  · intro hnone
    simp only [get?, hnone, Option.bind_none]

theorem keyed_of_index_empty (hs : s.index = .empty) : s.Keyed := by
  intro guid h hh
  simp only [handle?, hs] at hh
  cases hh

theorem Keyed.handle_lt (hs : s.Keyed) (hh : s.handle? guid = some h) : h < s.pool.cells.size := by
  rcases hs guid h hh with ⟨r, hr, -⟩
  exact Pool.get?_lt hr

theorem Keyed.guid_of_get? (hs : s.Keyed) {r : Record} (hr : s.get? guid = some r) :
    r.guid = guid := by
  rcases Option.bind_eq_some_iff.mp hr with ⟨h, hh, hget⟩
  rcases hs guid h hh with ⟨r', hr', hguid⟩
  cases hget.symm.trans hr'
  exact hguid

/-- Different guids have different records. -/
theorem Keyed.handle_inj (hs : s.Keyed) (hh : s.handle? guid = some h)
    (hh' : s.handle? guid' = some h) : guid = guid' := by
  rcases hs guid h hh with ⟨r, hr, hguid⟩
  rcases hs guid' h hh' with ⟨r', hr', hguid'⟩
  have hsame : r = r' := Option.some.inj (hr.symm.trans hr')
  calc
    guid = r.guid := hguid.symm
    _ = r'.guid := congrArg Record.guid hsame
    _ = guid' := hguid'

theorem Keyed.own_eq (hs : s.Keyed) (guid : Guid) : s.own guid = guid := by
  simp only [own]
  cases hh : s.handle? guid with
  | none =>
      simp only [(get?_eq_none_iff hs).mpr hh]
      rfl
  | some h =>
      rcases hs guid h hh with ⟨r, hr, hguid⟩
      simp only [get?_of_handle? hh, hr]
      exact hguid

/-! ## Finding and changing a record -/

theorem size_fetch_le (s : RecordSet) (guid : Guid) :
    s.pool.cells.size ≤ (s.fetch guid).2.pool.cells.size := by
  simp only [fetch]
  cases s.handle? guid with
  | some h =>
      exact Nat.le_refl _
  | none =>
      simp [Pool.add]

theorem handle?_fetch (s : RecordSet) (guid : Guid) :
    (s.fetch guid).2.handle? guid = some (s.fetch guid).1 := by
  simp only [fetch]
  cases hh : s.handle? guid with
  | none =>
      simp [handle?]
  | some h =>
      exact hh

theorem handle?_fetch_of_ne (s : RecordSet) (hne : guid' ≠ guid) :
    (s.fetch guid).2.handle? guid' = s.handle? guid' := by
  simp only [fetch]
  cases hh : s.handle? guid with
  | none =>
      simp [handle?, Dict.get?_insert, hne]
  | some h =>
      rfl

theorem get?_fetch (hs : s.Keyed) (guid guid' : Guid) :
    (s.fetch guid).2.get? guid' =
      if guid' = guid then some ((s.get? guid).getD (.fresh guid)) else s.get? guid' := by
  cases hh : s.handle? guid with
  | some h =>
      have hsame : (s.fetch guid).2 = s := by simp [fetch, hh]
      rcases hs guid h hh with ⟨r, hr, -⟩
      simp only [hsame]
      split
      · next e => simp only [e, get?_of_handle? hh, hr]; rfl
      · rfl
  | none =>
      -- The fresh record is the last one of the pool, so the others stay where they are.
      have hnone : s.get? guid = none := (get?_eq_none_iff hs).mpr hh
      have hpool : (s.fetch guid).2.pool = (s.pool.add (.fresh guid)).2 := by simp [fetch, hh]
      have hhandle : (s.fetch guid).1 = (s.pool.add (.fresh guid)).1 := by simp [fetch, hh]
      split
      · next e =>
          rw [e, get?_of_handle? (handle?_fetch s guid), hpool, hhandle, Pool.get?_add, if_pos rfl,
            hnone]
          rfl
      · next hne =>
          rw [get?, handle?_fetch_of_ne s hne, hpool]
          cases hh' : s.handle? guid' with
          | none =>
              simp only [Option.bind_none, get?, hh']
          | some h' =>
              simp only [Option.bind_some, Pool.get?_add_of_lt _ _ (hs.handle_lt hh'),
                get?_of_handle? hh']

/-- One more record, under its own guid. -/
theorem Keyed.add (hs : s.Keyed) (r : Record) : (s.add r.guid r).Keyed := by
  intro guid h hh
  have hindex : (s.index.insert r.guid s.pool.cells.size).get? guid = some h := hh
  rw [Dict.get?_insert] at hindex
  split at hindex
  · next hguid =>
      cases hindex
      exact ⟨r, Pool.get?_add_self s.pool r, hguid.symm⟩
  · rcases hs guid h hindex with ⟨r', hr', hguid⟩
    exact ⟨r', (Pool.get?_add_of_lt s.pool r (Pool.get?_lt hr')).trans hr', hguid⟩

theorem Keyed.fetch (hs : s.Keyed) (guid : Guid) : (s.fetch guid).2.Keyed := by
  simp only [RecordSet.fetch]
  cases s.handle? guid with
  | some h =>
      exact hs
  | none =>
      exact hs.add (.fresh guid)

theorem get?_modify (hs : s.Keyed) (hh : s.handle? guid = some h) (f : Record → Record)
    (guid' : Guid) :
    (s.modify h f).get? guid' = if guid' = guid then (s.get? guid).map f else s.get? guid' := by
  have hhandle : (s.modify h f).handle? guid' = s.handle? guid' := rfl
  rw [get?, hhandle]
  split
  · next e =>
      subst e
      rw [hh, Option.bind_some, modify, Pool.get?_modify, if_pos rfl, get?_of_handle? hh]
  · next hne =>
      cases hh' : s.handle? guid' with
      | none =>
          simp only [Option.bind_none, get?, hh']
      | some h' =>
          -- Another guid has another record.
          have hother : h ≠ h' := by
            rintro rfl
            exact hne (hs.handle_inj hh' hh)
          simp only [Option.bind_some, modify, Pool.get?_modify, if_neg hother, get?_of_handle? hh']

theorem Keyed.modify (hs : s.Keyed) (hh : s.handle? guid = some h) {f : Record → Record}
    (hf : ∀ r : Record, (f r).guid = r.guid) : (s.modify h f).Keyed := by
  intro guid' h' hh'
  have hbefore : s.handle? guid' = some h' := hh'
  rcases hs guid' h' hbefore with ⟨r, hr, hguid⟩
  have hget := get?_modify hs hh f guid'
  simp only [get?_of_handle? hh'] at hget
  split at hget
  · next e =>
      subst e
      simp only [get?_of_handle? hbefore, hr] at hget
      exact ⟨f r, hget, by simp only [hf, hguid]⟩
  · simp only [get?_of_handle? hbefore, hr] at hget
    exact ⟨r, hget, hguid⟩

theorem dependents_eq (hh : s.handle? guid = some h) : s.dependents h = s.dependentsAt guid := by
  simp only [dependents, dependentsAt, get?_of_handle? hh]

end RecordSet

/-! ## One effect -/

/-- What an effect does to its record. -/
def Effect.change (requestor : Option QueryKey) : Effect → Record → Record
  | .visit _ => id
  | .put _ k v => fun r => r.put k v requestor
  | .leave _ => fun r => r.enroll requestor

/-- Entering an object alone does not make queries depend on it. -/
def Effect.enrolls : Effect → Bool
  | .visit _ => false
  | _ => true

namespace Progress

open RecordSet

variable (requestor : Option QueryKey) {p : Progress}

/-- The records after an effect, whatever is reported of it. -/
theorem records_apply (hp : p.records.Keyed) (e : Effect) :
    (p.apply requestor e).records.Keyed ∧
      ∀ guid, (p.apply requestor e).records.get? guid =
        if guid = e.guid then
          some (e.change requestor ((p.records.get? guid).getD (.fresh guid)))
        else p.records.get? guid := by
  have hkeyed := hp.fetch e.guid
  have hhandle := handle?_fetch p.records e.guid
  have hget := get?_fetch hp e.guid
  -- Every effect first finds its record; all but the first kind then change it.
  have changed : ∀ f : Record → Record, (∀ r : Record, (f r).guid = r.guid) →
      ((p.records.fetch e.guid).2.modify (p.records.fetch e.guid).1 f).Keyed ∧
        ∀ guid, ((p.records.fetch e.guid).2.modify (p.records.fetch e.guid).1 f).get? guid =
          if guid = e.guid then some (f ((p.records.get? guid).getD (.fresh guid)))
          else p.records.get? guid := by
    intro f hf
    refine ⟨hkeyed.modify hhandle hf, ?_⟩
    intro guid
    rw [get?_modify hkeyed hhandle, hget, hget, if_pos rfl]
    split
    · next h => simp only [h]; rfl
    · rfl
  cases e with
  | visit guid =>
      refine ⟨hkeyed, ?_⟩
      intro guid'
      refine (hget guid').trans ?_
      by_cases h : guid' = (Effect.visit guid).guid
      · rw [if_pos h, if_pos h, h]
        rfl
      · rw [if_neg h, if_neg h]
  | put guid k v =>
      exact changed _ (fun r => Record.guid_put r k v requestor)
  | leave guid =>
      exact changed _ (fun r => Record.guid_enroll r requestor)

theorem keyed_apply (hp : p.records.Keyed) (e : Effect) :
    (p.apply requestor e).records.Keyed :=
  (records_apply requestor hp e).1

theorem get?_apply (hp : p.records.Keyed) (e : Effect) (guid : Guid) :
    (p.apply requestor e).records.get? guid =
      if guid = e.guid then
        some (e.change requestor ((p.records.get? guid).getD (.fresh guid)))
      else p.records.get? guid :=
  (records_apply requestor hp e).2 guid

theorem field?_apply (hp : p.records.Keyed) (e : Effect) (guid : Guid) (k : String) :
    (p.apply requestor e).records.field? guid k =
      (Assoc.get? (guid, k) e.put?.toList).or (p.records.field? guid k) := by
  -- A fresh record has no fields, so it shows what was shown without it.
  have fresh : ((p.records.get? guid).getD (.fresh guid)).fields.get? k =
      p.records.field? guid k := by
    simp only [field?]
    cases p.records.get? guid <;> rfl
  rw [field?, get?_apply requestor hp]
  split
  · next h =>
      simp only [Option.bind_some]
      cases e with
      | visit _ =>
          exact fresh
      | leave _ =>
          simpa [Effect.change, Effect.put?] using fresh
      | put guid' k' v =>
          simp only [Effect.guid] at h
          subst h
          by_cases hk : k = k'
          · simp [Effect.change, Effect.put?, Assoc.get?_cons, hk]
          · simpa [Effect.change, Effect.put?, Dict.get?_insert, Assoc.get?_cons, hk] using fresh
  · next h =>
      cases e with
      | put guid' k' v =>
          have hne : (guid, k) ≠ (guid', k') := fun heq => h (congrArg Prod.fst heq)
          simp [Effect.put?, Assoc.get?_cons, hne, field?]
      | _ =>
          simp [Effect.put?, field?]

theorem mem_dependentsAt_apply (hp : p.records.Keyed) (e : Effect) (guid : Guid)
    (q : QueryKey) :
    ((p.apply requestor e).records.dependentsAt guid).mem q = true ↔
      (p.records.dependentsAt guid).mem q = true ∨
        (e.enrolls = true ∧ e.guid = guid ∧ requestor = some q) := by
  -- Nor has it any dependents.
  have fresh : ((p.records.get? guid).getD (.fresh guid)).dependents =
      p.records.dependentsAt guid := by
    simp only [dependentsAt]
    cases p.records.get? guid <;> rfl
  rw [dependentsAt, get?_apply requestor hp]
  split
  · next h =>
      simp only [Option.map_some, Option.getD_some, ← fresh]
      cases e with
      | visit _ =>
          simp [Effect.change, Effect.enrolls]
      | put _ k v =>
          simp [Effect.change, Effect.enrolls, Record.mem_dependents_enroll, h]
      | leave _ =>
          simp [Effect.change, Effect.enrolls, Record.mem_dependents_enroll, h]
  · next h =>
      have hne : ¬ e.guid = guid := fun heq => h heq.symm
      simp [hne, dependentsAt]

theorem mem_impacted_apply (hp : p.records.Keyed) (e : Effect) {q : QueryKey}
    (hq : requestor ≠ some q) :
    (p.apply requestor e).impacted.mem q = true ↔
      p.impacted.mem q = true ∨
        (e.enrolls = true ∧ (p.records.dependentsAt e.guid).mem q = true) := by
  cases e with
  | visit _ =>
      simp [apply, Effect.enrolls]
  | put guid k v =>
      -- The dependents that are reported are those after the effect, the requestor included.
      have hafter := mem_dependentsAt_apply requestor hp (.put guid k v) guid q
      have hreport : (p.apply requestor (.put guid k v)).impacted = p.impacted.union
          ((p.apply requestor (.put guid k v)).records.dependentsAt guid) := by
        have hnow : (p.apply requestor (.put guid k v)).records.handle? guid =
            some (p.records.fetch guid).1 := handle?_fetch p.records guid
        simp only [← dependents_eq hnow]
        rfl
      simp only [hreport, KeySet.mem_union, Bool.or_eq_true, hafter]
      simp [Effect.enrolls, Effect.guid, hq]
  | leave guid =>
      -- Here they are those before the effect, so the requestor need not be among them.
      have hreport : (p.apply requestor (.leave guid)).impacted = p.impacted.union
          ((p.records.fetch guid).2.dependentsAt guid) := by
        simp only [← dependents_eq (handle?_fetch p.records guid)]
        rfl
      have hbefore : (p.records.fetch guid).2.dependentsAt guid = p.records.dependentsAt guid := by
        rw [dependentsAt, get?_fetch hp, if_pos rfl, dependentsAt]
        cases p.records.get? guid <;> rfl
      simp only [hreport, KeySet.mem_union, Bool.or_eq_true, hbefore]
      simp [Effect.enrolls, Effect.guid]

/-- What is known of the touched records: exactly the objects left so far, by their own guid. -/
def Touches (p : Progress) (left : List Guid) : Prop :=
  ∀ guid, p.touched.get? guid = if guid ∈ left then p.records.handle? guid else none

theorem handle?_apply_of_ne {e : Effect} {guid : Guid} (h : guid ≠ e.guid) :
    (p.apply requestor e).records.handle? guid = p.records.handle? guid := by
  have hfetch := handle?_fetch_of_ne p.records h
  cases e <;> exact hfetch

theorem handle?_apply_of_isSome {e : Effect} {guid : Guid} {h : Handle}
    (hh : p.records.handle? guid = some h) :
    (p.apply requestor e).records.handle? guid = some h := by
  by_cases hg : guid = e.guid
  · subst hg
    have hfetch : (p.records.fetch e.guid).2.handle? e.guid = some h := by
      simp only [handle?_fetch]
      simp [fetch, hh]
    cases e <;> exact hfetch
  · simp only [handle?_apply_of_ne requestor hg, hh]

theorem touches_apply (hp : p.records.Keyed) {left : List Guid} (ht : p.Touches left)
    (hleft : ∀ guid ∈ left, (p.records.handle? guid).isSome = true) (e : Effect) :
    (p.apply requestor e).Touches (left ++ e.left?.toList) ∧
      ∀ guid ∈ left ++ e.left?.toList,
        ((p.apply requestor e).records.handle? guid).isSome = true := by
  -- The records of objects left before are found under the same handle as ever.
  have hkept : ∀ guid ∈ left,
      (p.apply requestor e).records.handle? guid = p.records.handle? guid := by
    intro guid hguid
    rcases Option.isSome_iff_exists.mp (hleft guid hguid) with ⟨h, hh⟩
    simp only [hh, handle?_apply_of_isSome requestor hh]
  -- An effect that leaves no object touches nothing.
  have hstays : (p.apply requestor e).touched = p.touched → e.left? = none →
      (p.apply requestor e).Touches (left ++ e.left?.toList) ∧
        ∀ guid ∈ left ++ e.left?.toList,
          ((p.apply requestor e).records.handle? guid).isSome = true := by
    intro htouched hnone
    simp only [hnone, Option.toList_none, List.append_nil]
    refine ⟨?_, fun guid hguid => by simp only [hkept guid hguid]; exact hleft guid hguid⟩
    intro guid
    simp only [htouched, ht guid]
    split
    · next hguid => simp only [hkept guid hguid]
    · rfl
  cases e with
  | visit _ =>
      exact hstays rfl rfl
  | put _ _ _ =>
      exact hstays rfl rfl
  | leave guid =>
      have hhandle : (p.apply requestor (.leave guid)).records.handle? guid =
          some (p.records.fetch guid).1 := handle?_fetch p.records guid
      -- The record is listed under its own guid, which is the one it is kept under.
      have hown := (keyed_apply requestor hp (.leave guid)).own_eq guid
      have htouched : (p.apply requestor (.leave guid)).touched =
          p.touched.insert guid (p.records.fetch guid).1 :=
        congrArg (fun g => p.touched.insert g (p.records.fetch guid).1) hown
      constructor
      · intro guid'
        simp only [htouched, Dict.get?_insert]
        by_cases hg : guid' = guid
        · subst hg
          simp [hhandle, Effect.left?]
        · simp only [if_neg hg, ht guid']
          by_cases hmem : guid' ∈ left
          · simp [hmem, hkept guid' hmem]
          · simp [hmem, hg, Effect.left?]
      · intro guid' hguid'
        rcases List.mem_append.mp hguid' with hmem | hmem
        · simp only [hkept guid' hmem]
          exact hleft guid' hmem
        · simp only [List.mem_singleton.mp hmem, hhandle]
          rfl

/-- No record ceases to exist. -/
theorem size_apply_le (p : Progress) (e : Effect) :
    p.records.pool.cells.size ≤ (p.apply requestor e).records.pool.cells.size := by
  have hfetch := size_fetch_le p.records e.guid
  cases e with
  | visit guid =>
      exact hfetch
  -- Changing a record leaves the size of the pool as it is.
  | put guid k v =>
      exact Nat.le_trans hfetch (Nat.le_of_eq (Pool.size_modify _ _ _).symm)
  | leave guid =>
      exact Nat.le_trans hfetch (Nat.le_of_eq (Pool.size_modify _ _ _).symm)

/-! ## All effects of a walk -/

theorem applyAll_cons (p : Progress) (e : Effect) (rest : List Effect) :
    p.applyAll requestor (e :: rest) = (p.apply requestor e).applyAll requestor rest := rfl

theorem size_applyAll_le (effects : List Effect) : ∀ p : Progress,
    p.records.pool.cells.size ≤ (p.applyAll requestor effects).records.pool.cells.size := by
  induction effects with
  | nil =>
      intro p
      exact Nat.le_refl _
  | cons e rest ih =>
      intro p
      calc
        p.records.pool.cells.size ≤ (p.apply requestor e).records.pool.cells.size :=
          size_apply_le requestor p e
        _ ≤ (p.applyAll requestor (e :: rest)).records.pool.cells.size := ih (p.apply requestor e)

theorem keyed_applyAll (effects : List Effect) :
    ∀ {p : Progress}, p.records.Keyed → (p.applyAll requestor effects).records.Keyed := by
  induction effects with
  | nil =>
      intro p hp
      exact hp
  | cons e rest ih =>
      intro p hp
      exact ih (keyed_apply requestor hp e)

/-- A record field has the value written last, or else its old one. -/
theorem field?_applyAll (effects : List Effect) (guid : Guid) (k : String) :
    ∀ {p : Progress}, p.records.Keyed →
      (p.applyAll requestor effects).records.field? guid k =
        (Assoc.get? (guid, k) (puts effects).reverse).or (p.records.field? guid k) := by
  induction effects with
  | nil =>
      intro p hp
      rfl
  | cons e rest ih =>
      intro p hp
      -- What the rest writes hides what the first effect writes, and that hides the old value.
      have hsingle : e.put?.toList.reverse = e.put?.toList := by cases e.put? <;> rfl
      have hwritten : Assoc.get? (guid, k) (puts (e :: rest)).reverse =
          (Assoc.get? (guid, k) (puts rest).reverse).or (Assoc.get? (guid, k) e.put?.toList) := by
        rw [puts_cons, List.reverse_append, hsingle, Assoc.get?_append]
      calc
        (p.applyAll requestor (e :: rest)).records.field? guid k
            = (Assoc.get? (guid, k) (puts rest).reverse).or
                ((p.apply requestor e).records.field? guid k) := ih (keyed_apply requestor hp e)
        _ = (Assoc.get? (guid, k) (puts rest).reverse).or
              ((Assoc.get? (guid, k) e.put?.toList).or (p.records.field? guid k)) := by
            rw [field?_apply requestor hp]
        _ = (Assoc.get? (guid, k) (puts (e :: rest)).reverse).or (p.records.field? guid k) := by
            rw [hwritten, Option.or_assoc]

/-- A record that no effect concerns stays as it is. -/
theorem get?_applyAll_of_forall_ne (effects : List Effect) (guid : Guid) :
    ∀ {p : Progress}, p.records.Keyed → (∀ e ∈ effects, e.guid ≠ guid) →
      (p.applyAll requestor effects).records.get? guid = p.records.get? guid := by
  induction effects with
  | nil =>
      intro p hp _
      rfl
  | cons e rest ih =>
      intro p hp hne
      have he : guid ≠ e.guid := (hne e List.mem_cons_self).symm
      have hrest : ∀ x ∈ rest, x.guid ≠ guid := fun x hx => hne x (List.mem_cons_of_mem _ hx)
      calc
        (p.applyAll requestor (e :: rest)).records.get? guid
            = (p.apply requestor e).records.get? guid := ih (keyed_apply requestor hp e) hrest
        _ = p.records.get? guid := by rw [get?_apply requestor hp, if_neg he]

theorem mem_dependentsAt_applyAll (effects : List Effect) (guid : Guid) (q : QueryKey) :
    ∀ {p : Progress}, p.records.Keyed →
      (((p.applyAll requestor effects).records.dependentsAt guid).mem q = true ↔
        (p.records.dependentsAt guid).mem q = true ∨
          ∃ e ∈ effects, e.enrolls = true ∧ e.guid = guid ∧ requestor = some q) := by
  induction effects with
  | nil =>
      intro p hp
      simp [applyAll]
  | cons e rest ih =>
      intro p hp
      rw [applyAll_cons, ih (keyed_apply requestor hp e), mem_dependentsAt_apply requestor hp]
      simp only [List.mem_cons, exists_eq_or_imp, or_assoc]

/-- Of the queries other than the requestor, exactly those are impacted that depended on one of the
records before. -/
theorem mem_impacted_applyAll (effects : List Effect) {q : QueryKey} (hq : requestor ≠ some q) :
    ∀ {p : Progress}, p.records.Keyed →
      ((p.applyAll requestor effects).impacted.mem q = true ↔
        p.impacted.mem q = true ∨
          ∃ e ∈ effects, e.enrolls = true ∧ (p.records.dependentsAt e.guid).mem q = true) := by
  induction effects with
  | nil =>
      intro p hp
      simp [applyAll]
  | cons e rest ih =>
      intro p hp
      -- An effect enrolls nobody but the requestor, so the dependents stay the same for `q`.
      have hsame : ∀ guid, ((p.apply requestor e).records.dependentsAt guid).mem q = true ↔
          (p.records.dependentsAt guid).mem q = true := by
        intro guid
        simp only [mem_dependentsAt_apply requestor hp]
        simp [hq]
      rw [applyAll_cons, ih (keyed_apply requestor hp e), mem_impacted_apply requestor hp e hq]
      simp only [hsame, List.mem_cons, exists_eq_or_imp, or_assoc]

theorem handle?_applyAll (effects : List Effect) {guid : Guid} {h : Handle} :
    ∀ {p : Progress}, p.records.handle? guid = some h →
      (p.applyAll requestor effects).records.handle? guid = some h := by
  induction effects with
  | nil =>
      intro p hh
      exact hh
  | cons e rest ih =>
      intro p hh
      exact ih (handle?_apply_of_isSome requestor hh)

theorem touches_applyAll (effects : List Effect) :
    ∀ {p : Progress} {left : List Guid}, p.records.Keyed → p.Touches left →
      (∀ guid ∈ left, (p.records.handle? guid).isSome = true) →
      (p.applyAll requestor effects).Touches (left ++ lefts effects) ∧
        ∀ guid ∈ left ++ lefts effects,
          ((p.applyAll requestor effects).records.handle? guid).isSome = true := by
  induction effects with
  | nil =>
      intro p left hp ht hleft
      simp only [lefts_nil, List.append_nil]
      exact ⟨ht, hleft⟩
  | cons e rest ih =>
      intro p left hp ht hleft
      rcases touches_apply requestor hp ht hleft e with ⟨ht', hleft'⟩
      simp only [applyAll_cons, lefts_cons, ← List.append_assoc]
      exact ih (keyed_apply requestor hp e) ht' hleft'

end Progress
end Normalize
end EntityCache
