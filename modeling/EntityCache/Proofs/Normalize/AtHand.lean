import EntityCache.Proofs.Data.Distinct
import EntityCache.Proofs.Normalize.FanOut
import EntityCache.Proofs.Normalize.Merged
import EntityCache.Proofs.Normalize.Reindex

/-!
# Passes over records at hand

Where the record of every entity that a pass asks for is at hand, the pass makes no record.  This
holds for any records, also for those that are not kept under their own guids:

* `Pool.ext_get?`: a pool is determined by its look-ups.
* `Progress.Knows`: the record of every effect is at hand.
* `Progress.records_apply_of_known`: such an effect changes the record that it finds, and nothing
  else.
* `Progress.index_applyAll`, `Progress.size_applyAll`: all effects together make no record.
* `Progress.pool_applyAll_of_known`: they leave alone what no guid of theirs leads to.
* `RecordSet.leftLast`: a touched record is listed under what it calls itself, so of several that
  call themselves alike the last one counts; `Progress.get?_touched_applyAll`.
* `Pass.Supplied`: what a pass does whose records are all at hand; `Pass.supplied`.
-/

namespace EntityCache

theorem Pool.ext_get? {p q : Pool} (h : ∀ i, p.get? i = q.get? i) : p = q := by
  rcases p with ⟨cells⟩
  rcases q with ⟨cells'⟩
  exact congrArg Pool.mk (Array.ext_getElem? h)

theorem Pool.modify_id (p : Pool) (h : Handle) : p.modify h id = p := by
  refine Pool.ext_get? fun i => ?_
  rw [get?_modify]
  split
  · exact Option.map_id_apply
  · rfl

namespace Normalize
namespace Progress

variable (requestor : Option QueryKey) {p : Progress}

/-- The record of every effect is at hand. -/
def Knows (p : Progress) (effects : List Effect) : Prop :=
  ∀ e ∈ effects, (p.records.handle? e.guid).isSome = true

/-- An effect changes the record that it finds. -/
theorem records_apply_of_known {e : Effect} {h : Handle} :
    p.records.handle? e.guid = some h →
      (p.apply requestor e).records = p.records.modify h (e.change requestor) := by
  intro hh
  have hfetch : p.records.fetch e.guid = (h, p.records) := fetch_of_handle? hh
  cases e with
  | visit guid =>
      simp only [Effect.guid] at hfetch
      simp only [apply, hfetch, Effect.change, RecordSet.modify, Pool.modify_id]
  | put guid k v =>
      simp only [Effect.guid] at hfetch
      simp only [apply, hfetch]
      rfl
  | leave guid =>
      simp only [Effect.guid] at hfetch
      simp only [apply, hfetch]
      rfl

theorem index_applyAll {effects : List Effect} (hknown : p.Knows effects) :
    (p.applyAll requestor effects).records.index = p.records.index := by
  -- The index leads where it led before.
  have hsame : ∀ e ∈ effects, ∃ h, p.records.handle? e.guid = some h ∧
      p.records.index.get? e.guid = some h := by
    intro e he
    rcases Option.isSome_iff_exists.mp (hknown e he) with ⟨h, hh⟩
    exact ⟨h, hh, hh⟩
  exact (applyAll_reindex requestor effects p.records.index hsame).2

/-- No record is made. -/
theorem size_applyAll {effects : List Effect} : ∀ {p : Progress}, p.Knows effects →
    (p.applyAll requestor effects).records.pool.cells.size = p.records.pool.cells.size := by
  induction effects with
  | nil =>
      intro p _
      rfl
  | cons e rest ih =>
      intro p hknown
      rcases Option.isSome_iff_exists.mp (hknown e List.mem_cons_self) with ⟨h, hh⟩
      have hrecords := records_apply_of_known requestor hh
      have hrest : (p.apply requestor e).Knows rest := by
        intro e' he'
        rw [hrecords]
        exact hknown e' (List.mem_cons_of_mem e he')
      rw [applyAll_cons, ih hrest, hrecords]
      exact Pool.size_modify _ _ _

/-- A record that is not found for any effect stays as it is. -/
theorem pool_applyAll_of_known {effects : List Effect} {i : Handle} (hknown : p.Knows effects)
    (hother : ∀ e ∈ effects, p.records.handle? e.guid ≠ some i) :
    (p.applyAll requestor effects).records.pool.get? i = p.records.pool.get? i := by
  have hsize := size_applyAll requestor hknown
  by_cases hlt : i < p.records.pool.cells.size
  · refine pool_applyAll requestor effects p hlt ?_
    intro e he hh
    refine hother e he ?_
    simpa only [RecordSet.handle?, index_applyAll requestor hknown] using hh
  -- Beyond the end there is no record before or afterwards.
  · have hend := Nat.le_of_not_lt hlt
    exact (Array.getElem?_eq_none (hsize ▸ hend)).trans (Array.getElem?_eq_none hend).symm

end Progress

/-! ## Records that call themselves alike -/

theorem Effect.guid_change (requestor : Option QueryKey) (e : Effect) (r : Record) :
    (e.change requestor r).guid = r.guid := by
  cases e with
  | visit _ =>
      rfl
  | put _ k v =>
      exact Record.guid_put r k v requestor
  | leave _ =>
      exact Record.guid_enroll r requestor

namespace RecordSet

/-- What a record calls itself does not change with its fields and dependents. -/
theorem own_modify (s : RecordSet) (h : Handle) {f : Record → Record}
    (hf : ∀ r : Record, (f r).guid = r.guid) (guid : Guid) :
    (s.modify h f).own guid = s.own guid := by
  have hhandle : (s.modify h f).handle? guid = s.handle? guid := rfl
  simp only [own, get?, hhandle]
  cases s.handle? guid with
  | none =>
      rfl
  | some i =>
      simp only [Option.bind_some, modify, Pool.get?_modify]
      split
      · cases s.pool.get? i <;> simp [hf]
      · rfl

theorem own_of_get? {s : RecordSet} {guid : Guid} {h : Handle} {r : Record}
    (hh : s.handle? guid = some h) (hr : s.pool.get? h = some r) : s.own guid = r.guid := by
  simp only [own, get?_of_handle? hh, hr, Option.map_some, Option.getD_some]

/-- The last one of several entities whose record calls itself `k`. -/
def lastAlike? (s : RecordSet) (left : List Guid) (k : Guid) : Option Guid :=
  left.reverse.find? (fun guid => s.own guid = k)

/-- The record of that entity. -/
def leftLast (s : RecordSet) (left : List Guid) (k : Guid) : Option Handle :=
  (s.lastAlike? left k).bind s.handle?

variable {s : RecordSet} {left : List Guid} {k guid : Guid}

theorem own_of_lastAlike? (h : s.lastAlike? left k = some guid) :
    s.own guid = k ∧ guid ∈ left := by
  refine ⟨?_, List.mem_reverse.mp (List.mem_of_find?_eq_some h)⟩
  simpa using List.find?_some h

theorem isSome_lastAlike? (hguid : guid ∈ left) :
    (s.lastAlike? left (s.own guid)).isSome = true := by
  rw [lastAlike?, List.find?_isSome]
  exact ⟨guid, List.mem_reverse.mpr hguid, decide_eq_true rfl⟩

theorem lastAlike?_cons (first : Guid) (rest : List Guid) :
    s.lastAlike? (first :: rest) k =
      (s.lastAlike? rest k).or (if s.own first = k then some first else none) := by
  simp only [lastAlike?, List.reverse_cons, List.find?_append, List.find?_singleton,
    decide_eq_true_eq]

end RecordSet

namespace Progress

variable (requestor : Option QueryKey)

/-- Effects on records at hand change nothing in what records call themselves. -/
theorem own_apply_of_known {p : Progress} {e : Effect} {h : Handle}
    (hh : p.records.handle? e.guid = some h) :
    (p.apply requestor e).records.own = p.records.own := by
  rw [records_apply_of_known requestor hh]
  exact funext (p.records.own_modify h (e.guid_change requestor))

/-- As an object is left, its record is listed under what it calls itself. -/
theorem touched_leave_of_known {p : Progress} {guid : Guid} {h : Handle}
    (hh : p.records.handle? guid = some h) :
    (p.apply requestor (.leave guid)).touched = p.touched.insert (p.records.own guid) h := by
  have hfetch : p.records.fetch guid = (h, p.records) := fetch_of_handle? hh
  have hlisted : (p.apply requestor (.leave guid)).touched =
      p.touched.insert ((p.apply requestor (.leave guid)).records.own guid)
        (p.records.fetch guid).1 := rfl
  have hown : (p.apply requestor (.leave guid)).records.own = p.records.own :=
    own_apply_of_known requestor hh
  rw [hlisted, hown, hfetch]

/-- The records that are touched, each listed under what it calls itself. -/
theorem get?_touched_applyAll (k : Guid) {effects : List Effect} : ∀ {p : Progress},
    p.Knows effects → (p.applyAll requestor effects).touched.get? k =
      (p.records.leftLast (lefts effects) k).or (p.touched.get? k) := by
  induction effects with
  | nil =>
      intro p _
      rfl
  | cons e rest ih =>
      intro p hknown
      rcases Option.isSome_iff_exists.mp (hknown e List.mem_cons_self) with ⟨h, hh⟩
      have hhandle : (p.apply requestor e).records.handle? = p.records.handle? := by
        rw [records_apply_of_known requestor hh]
        rfl
      have hrest : (p.apply requestor e).Knows rest := by
        intro e' he'
        rw [hhandle]
        exact hknown e' (List.mem_cons_of_mem e he')
      have hlast : (p.apply requestor e).records.leftLast (lefts rest) k =
          p.records.leftLast (lefts rest) k := by
        simp only [RecordSet.leftLast, RecordSet.lastAlike?, own_apply_of_known requestor hh,
          hhandle]
      rw [applyAll_cons, ih hrest, hlast]
      cases e with
      | visit _ =>
          rfl
      | put _ _ _ =>
          rfl
      | leave guid =>
          have hguid : p.records.handle? guid = some h := hh
          have hlefts : lefts (.leave guid :: rest) = guid :: lefts rest := rfl
          rw [touched_leave_of_known requestor hguid, hlefts, RecordSet.leftLast, RecordSet.leftLast,
            RecordSet.lastAlike?_cons, Dict.get?_insert]
          cases hlater : p.records.lastAlike? (lefts rest) k with
          | none =>
              simp only [Option.none_or, Option.bind_none]
              by_cases hk : p.records.own guid = k
              · simp [hk, hguid]
              · have hk' : ¬ k = p.records.own guid := fun heq => hk heq.symm
                simp [hk, hk']
          | some guid' =>
              -- The object of that entity is left later, so its record is at hand.
              have hleft := (RecordSet.own_of_lastAlike? hlater).2
              rcases Option.isSome_iff_exists.mp
                (hknown _ (List.mem_cons_of_mem _ (mem_lefts.mp hleft))) with ⟨h', hh'⟩
              have hguid' : p.records.handle? guid' = some h' := hh'
              simp only [Option.some_or, Option.bind_some, hguid']

end Progress

/-! ## Passes over records at hand -/

namespace Pass

/-- The pass has changed a record: its fields or its dependents. -/
def Changes (s : RecordSet) (pass : Pass) (h : Handle) : Prop :=
  pass.records.pool.get? h ≠ s.pool.get? h

/-- What a pass over an object does to records all of which are at hand. -/
structure Supplied (ids : IdIndex) (fields : List (String × Value)) (s : RecordSet)
    (pass : Pass) : Prop where
  /-- The records that the walk asks for are those of ids within the object. -/
  asked : ∃ effects, split? ids s.own (.map fields) = some (pass.root, effects) ∧
    ∀ e ∈ effects, (idsWithin ids (.map fields)).mem e.guid = true
  /-- No record is made. -/
  index : pass.records.index = s.index
  size : pass.records.pool.cells.size = s.pool.cells.size
  /-- A record that is changed is one at hand, of an entity of the object. -/
  changed : ∀ h, pass.Changes s h → ∃ guid ∈ entitiesOf ids fields, s.handle? guid = some h
  /-- Touched are the records of the entities, of those that call themselves alike the one whose
  object is left last. -/
  touched : ∀ k, pass.touched.get? k = s.leftLast (lefts (effectsOf ids fields)) k
  /-- A record that is changed is touched, or another one is that calls itself the same. -/
  listed : ∀ h r, pass.Changes s h → s.pool.get? h = some r → pass.Touched r.guid
  /-- It is touched once if no other record of an entity calls itself the same, and in any case not
  more often. -/
  once : ∀ h, pass.Changes s h → pass.touched.values.count h ≤ 1 ∧
    ((∀ guid ∈ entitiesOf ids fields, ∀ guid' ∈ entitiesOf ids fields,
      s.own guid = s.own guid' → s.handle? guid = s.handle? guid') →
        pass.touched.values.count h = 1)

/-- A pass over an object does what its effects do, whatever the records call themselves. -/
theorem exists_run? (ids : IdIndex) (fields : List (String × Value)) (s : RecordSet)
    (requestor : Option QueryKey) : ∃ root,
      split? ids s.own (.map fields) = some (root, effectsOf ids fields) ∧
      let p := Progress.last ids fields s requestor
      run? (.map fields) ids s requestor =
        some ⟨root, others requestor p.impacted, p.touched, p.records⟩ := by
  have heffects : (objectAt ids s.own Path.root fields).2 = effectsOf ids fields :=
    effects_objectAt ids s.own Path.root (fun guid => guid) fields
  have hsplit : split? ids s.own (.map fields) =
      some ((objectAt ids s.own Path.root fields).1, effectsOf ids fields) :=
    congrArg (fun effects => some ((objectAt ids s.own Path.root fields).1, effects)) heffects
  refine ⟨_, hsplit, ?_⟩
  simp only [run?, hsplit]
  rfl

section

variable {ids : IdIndex} {fields : List (String × Value)} {s : RecordSet} {pass : Pass}
  {h : Handle} {r : Record} {guid k : Guid}

/-- What is changed was a record before. -/
theorem Changes.exists_record (hchanges : pass.Changes s h)
    (hsize : pass.records.pool.cells.size = s.pool.cells.size) :
    ∃ r, s.pool.get? h = some r := by
  refine Option.ne_none_iff_exists'.mp fun hnone => hchanges ?_
  have hend : s.pool.cells.size ≤ h := Array.getElem?_eq_none_iff.mp hnone
  exact (Array.getElem?_eq_none (hsize ▸ hend)).trans hnone.symm

/-- A record is listed under nothing but what it calls itself. -/
theorem own_of_leftLast {left : List Guid} (hlast : s.leftLast left k = some h)
    (hr : s.pool.get? h = some r) : k = r.guid := by
  rcases Option.bind_eq_some_iff.mp hlast with ⟨guid, hfound, hh⟩
  rw [← (RecordSet.own_of_lastAlike? hfound).1, RecordSet.own_of_get? hh hr]

/-- Some record is listed under what the record of an entity calls itself. -/
theorem exists_leftLast (hall : ∀ guid ∈ entitiesOf ids fields, (s.handle? guid).isSome = true)
    (hguid : guid ∈ entitiesOf ids fields) :
    ∃ guid' ∈ entitiesOf ids fields, s.own guid' = s.own guid ∧
      (s.handle? guid').isSome = true ∧
      s.leftLast (lefts (effectsOf ids fields)) (s.own guid) = s.handle? guid' := by
  have hleft := (mem_lefts_effectsOf ids fields guid).mpr hguid
  rcases Option.isSome_iff_exists.mp (RecordSet.isSome_lastAlike? (s := s) hleft) with
    ⟨guid', hfound⟩
  rcases RecordSet.own_of_lastAlike? hfound with ⟨hown, hmem⟩
  have hguid' := (mem_lefts_effectsOf ids fields guid').mp hmem
  refine ⟨guid', hguid', hown, hall guid' hguid', ?_⟩
  rw [RecordSet.leftLast, hfound, Option.bind_some]

end

/-- A pass over an object all of whose entities have a record at hand. -/
theorem supplied (ids : IdIndex) (fields : List (String × Value)) {s : RecordSet}
    (requestor : Option QueryKey)
    (hall : ∀ guid ∈ entitiesOf ids fields, (s.handle? guid).isSome = true) :
    ∃ pass, run? (.map fields) ids s requestor = some pass ∧ pass.Supplied ids fields s := by
  rcases exists_run? ids fields s requestor with ⟨root, hsplit, hrun⟩
  let p := Progress.last ids fields s requestor
  let pass : Pass := ⟨root, others requestor p.impacted, p.touched, p.records⟩
  have hknown : (Progress.start s).Knows (effectsOf ids fields) := by
    intro e he
    exact hall e.guid (guid_mem_entitiesOf he)
  have hsize : pass.records.pool.cells.size = s.pool.cells.size :=
    Progress.size_applyAll requestor hknown
  -- Only records of entities of the result change, and none is made.
  have hchanged : ∀ h, pass.Changes s h →
      ∃ guid ∈ entitiesOf ids fields, s.handle? guid = some h := by
    intro h hchanges
    refine Classical.byContradiction fun hnone => hchanges ?_
    refine Progress.pool_applyAll_of_known requestor hknown fun e he hh => ?_
    exact hnone ⟨e.guid, guid_mem_entitiesOf he, hh⟩
  have htouched : ∀ k, pass.touched.get? k = s.leftLast (lefts (effectsOf ids fields)) k := by
    intro k
    have hget := Progress.get?_touched_applyAll requestor k hknown
    have hstart : (Progress.start s).touched.get? k = none := rfl
    rwa [hstart, Option.or_none] at hget
  refine ⟨pass, hrun, ⟨_, hsplit, ?_⟩, Progress.index_applyAll requestor hknown, hsize, hchanged,
    htouched, ?_, ?_⟩
  · intro e he
    exact (KeySet.mem_iff_mem_toList _ _).mpr
      (mem_idsWithin_of_mem_entitiesOf (guid_mem_entitiesOf he))
  · intro h r hchanges hr
    rcases hchanged h hchanges with ⟨guid, hguid, hh⟩
    rcases exists_leftLast hall hguid with ⟨guid', -, -, hsome, hlast⟩
    rw [Touched, htouched, ← RecordSet.own_of_get? hh hr, hlast]
    exact hsome
  · intro h hchanges
    rcases hchanges.exists_record hsize with ⟨r, hr⟩
    -- A record is touched under its own id, so its handle is listed once at most.
    have hone : pass.touched.values.count h ≤ 1 := by
      refine Dict.count_values_le_one fun k k' hk hk' => ?_
      rw [htouched] at hk hk'
      rw [own_of_leftLast hk hr, own_of_leftLast hk' hr]
    refine ⟨hone, fun halike => Nat.le_antisymm hone ?_⟩
    rcases hchanged h hchanges with ⟨guid, hguid, hh⟩
    rcases exists_leftLast hall hguid with ⟨guid', hguid', hown, -, hlast⟩
    have hlisted : pass.touched.get? (s.own guid) = some h := by
      rw [htouched, hlast, halike guid' hguid' guid hguid hown, hh]
    exact List.count_pos_iff.mpr
      (List.mem_map.mpr ⟨(s.own guid, h), Dict.get?_eq_some_iff.mp hlisted, rfl⟩)

/-- Two records of which each calls itself `P1`. -/
def alikeRecords : RecordSet :=
  (RecordSet.empty.add "P1" ⟨"P1", .empty, .empty⟩).add "P2" ⟨"P1", .empty, .empty⟩

/-- A pass over entities `P1` and `P2` writes both and lists the second one only. -/
example : (run? (.map [("a", .map [("id", .id "P1")]), ("b", .map [("id", .id "P2")])]) .empty
    alikeRecords none).map (fun pass => (pass.touched.bindings,
      (List.range 2).map (fun h => (pass.records.pool.get? h).map (fun r => r.fields.size)))) =
    some ([("P1", 1)], [some 1, some 1]) := by
  decide +kernel

end Pass
end Normalize
end EntityCache
