import EntityCache.IdIndex
import EntityCache.Proofs.Cache.Counters

/-!
# What a metadata list says

The index of a metadata list, beside what its records say one after the other:

* `Path.ofValue?_eq_some_iff`: the paths that are read are those that are written so.
* `IdIndex.Says`, `IdIndex.States`: the ids that a record, and that a list of records, assigns to
  paths, in order.
* `IdIndex.states_iff`: what the reader makes of a metadata value is what it states.
* `IdIndex.latest?`, `IdIndex.replacements`: the last id that a path is assigned, and how many
  assignments replace a different one.
* `IdIndex.Knows`: an index that holds the last ids; `Knows.assign` for one assignment and
  `Knows.assignAll` for a list of them.
* `IdIndex.ofMetadata_last`: the index of every value.
-/

namespace EntityCache

/-- Where a function finds just the values that another one writes, so it does in a list. -/
theorem mapM_eq_some_iff {α β : Type} {f : α → Option β} {g : β → α}
    (h : ∀ a b, f a = some b ↔ a = g b) (l : List α) (out : List β) :
    l.mapM f = some out ↔ l = out.map g := by
  induction l generalizing out with
  | nil =>
      simp [eq_comm]
  | cons a rest ih =>
      rw [List.mapM_cons]
      simp only [Option.bind_eq_bind, Option.bind_eq_some_iff, Option.pure_def, Option.some.injEq]
      constructor
      · rintro ⟨b, hb, bs, hbs, rfl⟩
        rw [List.map_cons, (h a b).mp hb, (ih bs).mp hbs]
      · intro hl
        rcases List.map_eq_cons_iff.mp hl.symm with ⟨b, bs, rfl, hb, hbs⟩
        exact ⟨b, (h a b).mpr hb.symm, bs, (ih bs).mpr hbs.symm, rfl⟩

/-! ## Paths -/

namespace Path

/-- A name, or a position as a whole number. -/
def Step.written : Step → Value
  | .field name => .str name
  | .index i => .num (.int i)

/-- A path as a list of names and positions. -/
def written (p : Path) : Value :=
  .list (p.map Step.written)

theorem stepOf?_eq_some_iff (v : Value) (s : Step) : stepOf? v = some s ↔ v = s.written := by
  constructor
  · intro h
    cases v with
    | str name =>
        cases h
        rfl
    | num n =>
        rcases n with (i | i) | x
        · cases h
          rfl
        · cases h
        · cases h
    | null | bool _ | id _ | list _ | map _ =>
        cases h
  · rintro rfl
    cases s <;> rfl

theorem ofValue?_eq_some_iff (v : Value) (p : Path) : ofValue? v = some p ↔ v = p.written := by
  cases v with
  | list items =>
      simp only [ofValue?, written, mapM_eq_some_iff stepOf?_eq_some_iff, Value.list.injEq]
  | null | bool _ | num _ | str _ | id _ | map _ =>
      simp [ofValue?, written]

end Path

namespace IdIndex

/-! ## What records say -/

/-- A record that assigns nothing: it has no path, or neither an id nor a list of ids. -/
def Malformed (record : Value) : Prop :=
  (∀ p : Path, record.field? "path" ≠ some p.written) ∨
    (∀ id, record.field? "entityId" ≠ some (.str id)) ∧
      ∀ ids : List Guid, record.field? "entityIds" ≠ some (.list (ids.map .str))

/-- The ids that a record assigns to paths, in order. -/
inductive Says (record : Value) : List (Path × Guid) → Prop where
  /-- The object at the path is an entity. -/
  | single {p : Path} {id : Guid} (path : record.field? "path" = some p.written)
      (entity : record.field? "entityId" = some (.str id)) : Says record [(p, id)]
  /-- Without an id of its own, the list at the path may have one for each element. -/
  | each {p : Path} {ids : List Guid} (path : record.field? "path" = some p.written)
      (unidentified : ∀ id, record.field? "entityId" ≠ some (.str id))
      (entities : record.field? "entityIds" = some (.list (ids.map .str))) :
      Says record (ids.mapIdx fun i id => (p.index i, id))
  | malformed (h : Malformed record) : Says record []

/-- What records say one after the other. -/
inductive SayInTurn : List Value → List (Path × Guid) → Prop where
  | nil : SayInTurn [] []
  | cons {record : Value} {rest : List Value} {as bs : List (Path × Guid)} (first : Says record as)
      (later : SayInTurn rest bs) : SayInTurn (record :: rest) (as ++ bs)

/-- What a metadata value says; only a list says anything. -/
inductive States : Value → List (Path × Guid) → Prop where
  | list {records : List Value} {as : List (Path × Guid)} (h : SayInTurn records as) :
      States (.list records) as
  | other {v : Value} (h : ∀ records, v ≠ .list records) : States v []

theorem plainText?_eq_some_iff (v : Value) (s : String) : plainText? v = some s ↔ v = .str s := by
  cases v <;> simp [plainText?]

theorem elementsFrom_eq_mapIdx (p : Path) (at₀ : Nat) (ids : List Guid) :
    elementsFrom p at₀ ids = ids.mapIdx fun i id => (p.index (at₀ + i), id) := by
  induction ids generalizing at₀ with
  | nil =>
      rfl
  | cons id rest ih =>
      rw [elementsFrom, ih, List.mapIdx_cons]
      simp only [Nat.add_zero, Nat.add_right_comm at₀ 1, Nat.add_assoc]

/-! ## Reading records -/

variable {record : Value}

theorem path_eq_some_iff (p : Path) :
    (record.field? "path").bind Path.ofValue? = some p ↔
      record.field? "path" = some p.written := by
  simp only [Option.bind_eq_some_iff, Path.ofValue?_eq_some_iff, exists_eq_right]

theorem entity_eq_some_iff (id : Guid) :
    (record.field? "entityId").bind plainText? = some id ↔
      record.field? "entityId" = some (.str id) := by
  simp only [Option.bind_eq_some_iff, plainText?_eq_some_iff, exists_eq_right]

/-- Every record says something, if only that it assigns nothing. -/
theorem exists_says (record : Value) : ∃ as, Says record as := by
  by_cases hpath : ∃ p : Path, record.field? "path" = some p.written
  · rcases hpath with ⟨p, hpath⟩
    by_cases hone : ∃ id, record.field? "entityId" = some (.str id)
    · rcases hone with ⟨id, hone⟩
      exact ⟨_, .single hpath hone⟩
    · by_cases hall : ∃ ids : List Guid, record.field? "entityIds" = some (.list (ids.map .str))
      · rcases hall with ⟨ids, hall⟩
        exact ⟨_, .each hpath (not_exists.mp hone) hall⟩
      · exact ⟨[], .malformed (.inr ⟨not_exists.mp hone, not_exists.mp hall⟩)⟩
  · exact ⟨[], .malformed (.inl (not_exists.mp hpath))⟩

theorem Says.eq_readEntry {as : List (Path × Guid)} (h : Says record as) :
    as = (readEntry record).1 := by
  have unidentified : (∀ id, record.field? "entityId" ≠ some (.str id)) →
      (record.field? "entityId").bind plainText? = none := fun hnone =>
    Option.eq_none_iff_forall_ne_some.mpr fun id h => hnone id ((entity_eq_some_iff id).mp h)
  cases h with
  | single hpath hone =>
      simp only [readEntry, (path_eq_some_iff _).mpr hpath, (entity_eq_some_iff _).mpr hone,
        Hint.assignments]
  | @each p ids hpath hnone hall =>
      have hids : (ids.map Value.str).mapM plainText? = some ids :=
        (mapM_eq_some_iff plainText?_eq_some_iff _ _).mpr rfl
      simp only [readEntry, (path_eq_some_iff _).mpr hpath, unidentified hnone, hall, hids,
        Hint.assignments, elementsFrom_eq_mapIdx, Nat.zero_add]
  | malformed h =>
      -- No path, or else neither an id nor a list of ids.
      rcases h with hpath | ⟨hnone, hall⟩
      · have hno : (record.field? "path").bind Path.ofValue? = none :=
          Option.eq_none_iff_forall_ne_some.mpr fun p h => hpath p ((path_eq_some_iff p).mp h)
        simp only [readEntry, hno]
      · cases hpath : (record.field? "path").bind Path.ofValue? with
        | none =>
            simp only [readEntry, hpath]
        | some p =>
            simp only [readEntry, hpath, unidentified hnone]
            split
            · next items hitems =>
                have hids : items.mapM plainText? = none := by
                  refine Option.eq_none_iff_forall_ne_some.mpr fun ids hids => hall ids ?_
                  rw [hitems, (mapM_eq_some_iff plainText?_eq_some_iff items ids).mp hids]
                rw [hids]
            · rfl

theorem says_iff {as : List (Path × Guid)} : Says record as ↔ as = (readEntry record).1 := by
  refine ⟨Says.eq_readEntry, ?_⟩
  rintro rfl
  rcases exists_says record with ⟨as, has⟩
  exact has.eq_readEntry ▸ has

theorem Malformed.readEntry (h : Malformed record) : (readEntry record).1 = [] :=
  (Says.malformed h).eq_readEntry.symm

/-- What the reader makes of the records of a value. -/
def stated (v : Value) : List (Path × Guid) :=
  match v with
  | .list records => records.flatMap fun record => (readEntry record).1
  | _ => []

theorem sayInTurn_iff {records : List Value} {as : List (Path × Guid)} :
    SayInTurn records as ↔ as = records.flatMap fun record => (readEntry record).1 := by
  constructor
  · intro h
    induction h with
    | nil =>
        rfl
    | cons first later ih =>
        rw [List.flatMap_cons, ← first.eq_readEntry, ← ih]
  · rintro rfl
    induction records with
    | nil =>
        exact .nil
    | cons record rest ih =>
        exact .cons (says_iff.mpr rfl) ih

theorem states_iff {v : Value} {as : List (Path × Guid)} : States v as ↔ as = stated v := by
  constructor
  · intro h
    cases h with
    | list h =>
        exact sayInTurn_iff.mp h
    | other h =>
        cases v with
        | list records =>
            exact absurd rfl (h records)
        | null | bool _ | num _ | str _ | id _ | map _ =>
            rfl
  · rintro rfl
    cases v with
    | list records =>
        exact .list (sayInTurn_iff.mpr rfl)
    | null | bool _ | num _ | str _ | id _ | map _ =>
        exact .other (by simp)

/-! ## Assigning in turn -/

/-- The last id that a path is assigned. -/
def latest? (as : List (Path × Guid)) (p : Path) : Option Guid :=
  ((as.filter fun a => a.1 = p).getLast?).map Prod.snd

/-- How many assignments replace a different id: the one that those before them left. -/
def replacements (as : List (Path × Guid)) : Nat :=
  as.zipIdx.countP fun a => (latest? (as.take a.2) a.1.1).any fun previous => previous != a.1.2

theorem latest?_concat (as : List (Path × Guid)) (a : Path × Guid) (p : Path) :
    latest? (as ++ [a]) p = if p = a.1 then some a.2 else latest? as p := by
  by_cases hp : a.1 = p
  · simp [latest?, List.filter_append, hp]
  · simp [latest?, List.filter_append, hp, Ne.symm hp]

theorem replacements_concat (as : List (Path × Guid)) (a : Path × Guid) :
    replacements (as ++ [a]) =
      replacements as +
        if (latest? as a.1).any (fun previous => previous != a.2) then 1 else 0 := by
  have hbefore : ∀ b ∈ as.zipIdx, (as ++ [a]).take b.2 = as.take b.2 := by
    intro b hb
    have hlt : b.2 < as.length := List.snd_lt_of_mem_zipIdx hb
    exact List.take_append_of_le_length (Nat.le_of_lt hlt)
  simp only [replacements, List.zipIdx_append, List.countP_append]
  congr 1
  · exact List.countP_congr fun b hb => by rw [hbefore b hb]
  · simp

/-- The index holds the last id of each path, and every replacement has been reported. -/
structure Knows (ix : IdIndex) (j : Journal) (as : List (Path × Guid)) : Prop where
  ids : ∀ p, ix.get? p = latest? as p
  reported : j.count (.anomaly .duplicatePath) = replacements as

namespace Knows

variable {ix : IdIndex} {j : Journal} {as : List (Path × Guid)}

theorem empty : Knows .empty [] [] :=
  ⟨fun _ => rfl, rfl⟩

/-- Messages are no anomalies. -/
theorem notices (h : Knows ix j as) (flaws : List Notice) :
    Knows ix (j ++ flaws.map .notice) as := by
  refine ⟨h.ids, ?_⟩
  have hnone : (flaws.map Signal.notice).count (.anomaly .duplicatePath) = 0 :=
    List.count_eq_zero.mpr (by simp)
  rw [List.count_append, hnone, Nat.add_zero, h.reported]

theorem assign (h : Knows ix j as) (a : Path × Guid) :
    Knows (ix.assign a).1 (j ++ (ix.assign a).2) (as ++ [a]) := by
  constructor
  · intro p
    rw [latest?_concat, ← h.ids p]
    exact Dict.get?_insert _ _ _ _
  · rw [List.count_append, h.reported, replacements_concat, ← h.ids a.1]
    simp only [IdIndex.assign]
    split <;> simp

theorem assignAll (h : Knows ix j as) (bs : List (Path × Guid)) :
    Knows (ix.assignAll bs).1 (j ++ (ix.assignAll bs).2) (as ++ bs) := by
  induction bs generalizing ix j as with
  | nil =>
      simpa only [IdIndex.assignAll, List.append_nil] using h
  | cons b rest ih =>
      have hrest := ih (h.assign b)
      simp only [List.append_assoc, List.singleton_append] at hrest
      exact hrest

theorem addEntries (h : Knows ix j as) (records : List Value) :
    Knows (ix.addEntries records).1 (j ++ (ix.addEntries records).2)
      (as ++ records.flatMap fun record => (readEntry record).1) := by
  induction records generalizing ix j as with
  | nil =>
      simpa only [IdIndex.addEntries, List.flatMap_nil, List.append_nil] using h
  | cons record rest ih =>
      have hrest := ih ((h.notices (readEntry record).2).assignAll (readEntry record).1)
      simp only [List.append_assoc] at hrest
      simpa only [IdIndex.addEntries, List.flatMap_cons, List.append_assoc] using hrest

end Knows

theorem knows_ofMetadata (v : Value) : Knows (ofMetadata v).1 (ofMetadata v).2 (stated v) := by
  cases v with
  | list records =>
      exact Knows.empty.addEntries records
  | null =>
      exact Knows.empty
  | bool _ | num _ | str _ | id _ | map _ =>
      exact Knows.empty.notices [.metadataNotList]

/-! ## Leaving malformed records out -/

/-- The list without some of its malformed records. -/
inductive Trimmed : List Value → List Value → Prop where
  | nil : Trimmed [] []
  | keep (record : Value) {rest kept : List Value} (h : Trimmed rest kept) :
      Trimmed (record :: rest) (record :: kept)
  | drop {record : Value} {rest kept : List Value} (malformed : Malformed record)
      (h : Trimmed rest kept) : Trimmed (record :: rest) kept

theorem Trimmed.stated {records kept : List Value} (h : Trimmed records kept) :
    stated (.list kept) = stated (.list records) := by
  induction h with
  | nil =>
      rfl
  | keep record h ih =>
      exact congrArg ((readEntry record).1 ++ ·) ih
  | @drop record rest kept malformed h ih =>
      show _ = (readEntry record).1 ++ IdIndex.stated (.list rest)
      rw [malformed.readEntry, List.nil_append, ih]

/-- The index of a metadata value holds, for each path, the id of the last assignment that the value
states; as many replacements are counted as there are assignments of an id that differs from the one
that the path has from those before.  Malformed records can be left out. -/
theorem ofMetadata_last (v : Value) :
    ∃ as, (∀ bs, States v bs ↔ bs = as) ∧
      (∀ p, (ofMetadata v).1.get? p = latest? as p) ∧
      (Metrics.of (ofMetadata v).2).anomalies .duplicatePath = replacements as ∧
      ∀ records kept, v = .list records → Trimmed records kept →
        (ofMetadata (.list kept)).1 = (ofMetadata v).1 := by
  have hknows := knows_ofMetadata v
  refine ⟨stated v, fun bs => states_iff, hknows.ids, ?_, ?_⟩
  · rw [Metrics.anomalies_of, hknows.reported]
  · rintro records kept rfl htrimmed
    have hsame : ∀ p,
        (ofMetadata (.list kept)).1.get? p = (ofMetadata (.list records)).1.get? p := by
      intro p
      rw [(knows_ofMetadata _).ids, hknows.ids, htrimmed.stated]
    exact congrArg IdIndex.mk (Dict.ext_get? hsame)

/-- A list gives its second element an id, a record of its own gives it another one; between them
stands a record without a proper path. -/
def overlap : List Value :=
  [.map [("entityIds", .list [.str "A", .str "B"]), ("path", .list [.str "items"])],
    .map [("entityId", .str "X"), ("path", .list [.bool true])],
    .map [("entityId", .str "C"), ("path", .list [.str "items", .num (.int 1)])]]

theorem trimmed_overlap :
    Trimmed overlap [overlap[0], overlap[2]] := by
  refine .keep _ (.drop (.inl ?_) (.keep _ .nil))
  intro p hp
  have hread : Path.ofValue? (.list [.bool true]) = some p :=
    (Path.ofValue?_eq_some_iff _ p).mpr (Option.some.inj hp)
  cases hread

theorem ofMetadata_last_overlap :
    (ofMetadata (.list overlap)).1.get? [.field "items", .index 1] = some "C" ∧
      (Metrics.of (ofMetadata (.list overlap)).2).anomalies .duplicatePath = 1 ∧
      (ofMetadata (.list [overlap[0], overlap[2]])).1 = (ofMetadata (.list overlap)).1 := by
  rcases ofMetadata_last (.list overlap) with ⟨as, hstates, hids, hcount, htrimmed⟩
  obtain rfl : stated (.list overlap) = as := (hstates _).mp (states_iff.mpr rfl)
  refine ⟨?_, ?_, htrimmed overlap _ rfl trimmed_overlap⟩
  · rw [hids]
    decide
  · rw [hcount]
    decide

end IdIndex
end EntityCache
