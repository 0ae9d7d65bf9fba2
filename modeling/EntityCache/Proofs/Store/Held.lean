import EntityCache.Proofs.Store.Handling
import EntityCache.Proofs.Store.Lookup

/-!
# Records that are held at the same time

A store in a file knows the records that it has handed out, as long as somebody holds them.  It
finds them by the guid that they bear, and asks the file for everything else:

* `Tables.Files`: no row but the one of `guid` holds its record, and that one holds no other.
* `Stays`: a call that hands out nothing leaves alone what is known.
* `Shares`: a record that was handed out for `guid` and that somebody holds is known under it.
* `Grants`: a call hands out records, and `Shares` stays true; `grants_entity`, `grants_find?`,
  `grants_collected` for those that ask for several.
* `Course`: calls on the store, records that are changed, saved and let go, sweeps at any size, and
  others who change the file.
* `Course.held_shared`: what is held for one entity at the same time is one record.
-/

namespace EntityCache

open Normalize

/-! ## Rows -/

/-- Of the rows that can be decoded, the one of `guid` and no other holds its record. -/
def Tables.Files (t : Tables) (guid : Guid) : Prop :=
  ∀ rows key blob s, t.entities = some rows → rows.get? key = some blob →
    Blob.decode Snapshot.ofSymbols? key blob = .ok s → (s.guid = guid ↔ key = guid)

namespace Tables.Files

variable {t u : Tables} {guid : Guid}

/-- Without a table of entities there are no rows. -/
theorem of_none (hnone : t.entities = none) : t.Files guid := by
  intro rows key blob s hrows
  cases hnone.symm.trans hrows

theorem putTree? {q : QueryKey} {row : TreeRow} (h : t.Files guid)
    (hput : t.putTree? q row = some u) : u.Files guid := by
  rcases Option.map_eq_some_iff.mp hput with ⟨rows, -, rfl⟩
  exact h

/-- The row that a record is saved in is its own one. -/
theorem saveEntity? {r : Record} (h : t.Files guid)
    (hsave : t.saveEntity? r.guid r.snapshot.text.toUTF8 r.dependents = some u) :
    u.Files guid := by
  rcases Option.bind_eq_some_iff.mp hsave with ⟨t₁, hput, hrest⟩
  rcases Option.map_eq_some_iff.mp hput with ⟨rows, hrows, rfl⟩
  have hsaved : u.entities = some (rows.insert r.guid r.snapshot.text.toUTF8) := by
    split at hrest
    · cases hrest
      rfl
    · rcases Option.map_eq_some_iff.mp hrest with ⟨pairs, -, rfl⟩
      rfl
  intro rows' key blob s hrows' hrow hdecode
  cases hsaved.symm.trans hrows'
  rw [Dict.get?_insert] at hrow
  split at hrow
  · next hkey =>
      cases hrow
      rw [FileStore.Contents.guid_of_decode_text hdecode, hkey]
      rfl
  · exact h rows key blob s hrows hrow hdecode

end Tables.Files

namespace FileStore.Connected

variable {guid : Guid} {w w' w'' : World Connected} {α : Type}

/-! ## Calls that hand out nothing -/

/-- Only the file and what was reported may differ, and the rows of `guid` are still in order. -/
structure Stays (guid : Guid) (w w' : World Connected) : Prop where
  pool : w'.pool = w.pool
  held : w'.held = w.held
  opened : w'.store.opened = w.store.opened
  files : w.store.state.tables.Files guid → w'.store.state.tables.Files guid

theorem composes_stays (guid : Guid) : Composes (Stays guid) where
  refl _ := ⟨rfl, rfl, rfl, fun h => h⟩
  trans h h' := ⟨h'.pool.trans h.pool, h'.held.trans h.held, h'.opened.trans h.opened,
    fun hfiles => h'.files (h.files hfiles)⟩

theorem Stays.isHeld (h : Stays guid w w') (i : Handle) : w'.isHeld i = w.isHeld i :=
  congrArg (fun held => held.contains i) h.held

/-- The tables that a store still reaches are those of its file, or it reaches none. -/
theorem files_reachable (h : w.store.state.tables.Files guid) :
    w.store.reachable.Files guid := by
  simp only [reachable]
  split
  · exact .of_none rfl
  · exact h

theorem table_cases (pick : Tables → Option α) (w : World Connected) :
    (∃ rows, pick w.store.reachable = some rows ∧ table pick w = (.ok rows, w)) ∨
      table pick w = (.error noTable, w) := by
  simp only [table, Act.bind_ok (a := Act.world) rfl]
  cases pick w.store.reachable with
  | none =>
      exact .inr rfl
  | some rows =>
      exact .inl ⟨rows, rfl, rfl⟩

theorem closed_stays (guid : Guid) : Act.Closed (fun m => Within (Stays guid) m) :=
  Act.closed_within (composes_stays guid)

theorem stays_change {f : Tables → Option Tables}
    (hf : ∀ {t u : Tables}, t.Files guid → f t = some u → u.Files guid) :
    Within (Stays guid) (change f) := by
  intro w
  rcases table_cases f w with ⟨u, hu, hrun⟩ | hrun
  · simp only [change, Act.bind_ok hrun]
    exact ⟨rfl, rfl, rfl, fun h => hf (files_reachable h) hu⟩
  · simp only [change, Act.bind_error hrun]
    exact (composes_stays guid).refl w

theorem stays_report (signals : Journal) :
    Within (Stays guid) (Act.report signals : Act Connected Unit) := by
  intro w
  exact ⟨rfl, rfl, rfl, fun h => h⟩

theorem stays_putTree? (q : QueryKey) (row : TreeRow) :
    Within (Stays guid) (change fun t => t.putTree? q row) :=
  stays_change fun h hput => h.putTree? hput

theorem stays_writeEntity (r : Record) : Within (Stays guid) (writeEntity r) := by
  intro w
  simp only [writeEntity, Blob.encode_eq, Act.bind_ok (a := Act.ofExcept _) rfl]
  exact stays_change (fun h hsave => h.saveEntity? hsave) w

theorem stays_readOrCreate : ∀ guid', Within (Stays guid) (readOrCreate guid') :=
  closed_readOrCreate (closed_stays guid) stays_writeEntity (stays_report _)

/-! ## What is read -/

/-- An entity is read from its row, and `guid` is that of its own row alone. -/
theorem guid_of_readEntity {guid' : Guid} {r : Record}
    (hfiles : w.store.state.tables.Files guid)
    (hread : (readEntity guid' w).1 = .ok (some r)) : r.guid = guid ↔ guid' = guid := by
  rcases table_cases Tables.entities w with ⟨rows, hrows, hrun⟩ | hrun
  · simp only [readEntity, Act.bind_ok hrun] at hread
    -- Only a row that is there and that can be decoded gives a record.
    cases hrow : rows.get? guid' with
    | none =>
        simp only [hrow] at hread
        cases hread
    | some blob =>
        simp only [hrow] at hread
        cases hdecode : Blob.decode Snapshot.ofSymbols? guid' blob with
        | error e =>
            simp only [hdecode] at hread
            cases hread
        | ok s =>
            simp only [hdecode, Act.bind_ok (a := Act.ofExcept _) rfl] at hread
            rcases Act.bind_eq_ok_iff.mp (Prod.ext hread rfl) with ⟨dependents, v, -, hr⟩
            obtain rfl : Record.restore s dependents = r :=
              Option.some.inj (Except.ok.inj (congrArg Prod.fst hr))
            exact files_reachable hfiles rows guid' blob s hrows hrow hdecode
  · simp only [readEntity, Act.bind_error hrun] at hread
    cases hread

/-- So is an entity that is made if it cannot be read. -/
theorem guid_of_readOrCreate {guid' : Guid} {r : Record}
    (hfiles : w.store.state.tables.Files guid) (hrun : readOrCreate guid' w = (.ok r, w')) :
    r.guid = guid ↔ guid' = guid := by
  rcases Act.bind_eq_ok_iff.mp hrun with ⟨answer, v, hread, hrest⟩
  have hanswer : (readEntity guid' w).1 = answer := Except.ok.inj (congrArg Prod.fst hread)
  cases answer with
  | ok found =>
      cases found with
      | some s =>
          cases hrest
          exact guid_of_readEntity hfiles hanswer
      | none =>
          rcases Act.bind_eq_ok_iff.mp hrest with ⟨-, v', -, hr⟩
          cases hr
          rfl
  | error e =>
      simp only at hrest
      -- An entity that is started over gets the guid that it was asked for.
      split at hrest
      · rcases Act.bind_eq_ok_iff.mp hrest with ⟨-, v₁, -, hrest⟩
        rcases Act.bind_eq_ok_iff.mp hrest with ⟨dependents, v₂, -, hr⟩
        cases hr
        rfl
      · cases hrest

/-! ## What is known -/

/-- Of the records that were handed out, `out` says for which guids.  Records are known under the
guids that they bear, and one that was handed out for `guid` is known as long as somebody holds
it. -/
structure Shares (guid : Guid) (w : World Connected) (out : List (Guid × Handle)) : Prop where
  bounded : w.Bounded
  known : ∀ {guid' h}, live? w guid' = some h → ∃ r, w.pool.get? h = some r ∧ r.guid = guid'
  files : w.store.state.tables.Files guid
  named : ∀ {guid' h}, (guid', h) ∈ out →
    ∃ r, w.pool.get? h = some r ∧ (r.guid = guid ↔ guid' = guid)
  shared : ∀ {h}, (guid, h) ∈ out → w.isHeld h = true → live? w guid = some h

/-- Records may be changed, others may be held, and others may be known under other guids. -/
theorem Shares.of_known {out : List (Guid × Handle)} (h : Shares guid w out)
    (hpool : ∀ {i r}, w.pool.get? i = some r → ∃ r', w'.pool.get? i = some r' ∧ r'.guid = r.guid)
    (hbounded : w'.Bounded) (hfiles : w'.store.state.tables.Files guid)
    (hlive : ∀ {guid' i}, live? w' guid' = some i → live? w guid' = some i)
    (hkept : ∀ {i}, (guid, i) ∈ out → w'.isHeld i = true → live? w guid = some i →
      live? w' guid = some i)
    (hheld : ∀ {i r}, w.pool.get? i = some r → w'.isHeld i = true → w.isHeld i = true) :
    Shares guid w' out where
  bounded := hbounded
  known hknown := by
    rcases h.known (hlive hknown) with ⟨r, hr, hguid⟩
    rcases hpool hr with ⟨r', hr', hsame⟩
    exact ⟨r', hr', hsame.trans hguid⟩
  files := hfiles
  named hout := by
    rcases h.named hout with ⟨r, hr, hguid⟩
    rcases hpool hr with ⟨r', hr', hsame⟩
    exact ⟨r', hr', hsame ▸ hguid⟩
  shared hout hi := by
    rcases h.named hout with ⟨r, hr, -⟩
    exact hkept hout hi (h.shared hout (hheld hr hi))

theorem Shares.stays {out : List (Guid × Handle)} (h : Shares guid w out)
    (hstays : Stays guid w w') : Shares guid w' out := by
  have hlive := live?_congr hstays.held hstays.opened
  refine h.of_known ?_ ?_ (hstays.files h.files) (fun hi => hlive _ ▸ hi)
    (fun _ _ hi => (hlive _).trans hi) ?_
  · intro i r hr
    exact ⟨r, hstays.pool ▸ hr, rfl⟩
  · intro guid' i hi
    rw [hstays.pool]
    exact h.bounded guid' i (hstays.opened ▸ hi)
  · intro i r _ hi
    exact (hstays.isHeld i).symm.trans hi

/-! ## Handing out -/

/-- A call hands out the records in `granted`, they are held from then on, and what was held before
still is. -/
structure Grants (guid : Guid) (w : World Connected) (out : List (Guid × Handle))
    (w' : World Connected) (granted : List (Guid × Handle)) : Prop where
  shares : Shares guid w' (out ++ granted)
  held : ∀ p ∈ granted, w'.isHeld p.2 = true
  keeps : ∀ h, w.isHeld h = true → w'.isHeld h = true

namespace Grants

variable {out granted more : List (Guid × Handle)}

/-- Whether all that is handed out reaches the caller does not matter. -/
theorem mono (h : Grants guid w out w' granted) (hsub : ∀ p ∈ more, p ∈ granted) :
    Grants guid w out w' more := by
  have hall : ∀ {p}, p ∈ out ++ more → p ∈ out ++ granted := by
    intro p hp
    exact List.mem_append.mpr ((List.mem_append.mp hp).imp_right (hsub p))
  exact ⟨⟨h.shares.bounded, h.shares.known, h.shares.files, fun hp => h.shares.named (hall hp),
    fun hp => h.shares.shared (hall hp)⟩, fun p hp => h.held p (hsub p hp), h.keeps⟩

theorem trans (h : Grants guid w out w' granted) (h' : Grants guid w' (out ++ granted) w'' more) :
    Grants guid w out w'' (granted ++ more) := by
  refine ⟨?_, ?_, fun i hi => h'.keeps i (h.keeps i hi)⟩
  · rw [← List.append_assoc]
    exact h'.shares
  · intro p hp
    exact (List.mem_append.mp hp).elim (fun hp => h'.keeps p.2 (h.held p hp)) (h'.held p)

theorem stays (h : Shares guid w out) (hstays : Stays guid w w') : Grants guid w out w' [] := by
  refine ⟨?_, ?_, ?_⟩
  · rw [List.append_nil]
    exact h.stays hstays
  · intro p hp
    cases hp
  · intro i hi
    exact (hstays.isHeld i).trans hi

/-- Before it, nothing is handed out. -/
theorem after (hstays : Stays guid w w') (h : Grants guid w' out w'' granted) :
    Grants guid w out w'' granted := by
  exact ⟨h.shares, h.held, fun i hi => h.keeps i ((hstays.isHeld i).trans hi)⟩

/-- A record that is known is handed out once more. -/
theorem known (h : Shares guid w out) {guid' : Guid} {i : Handle}
    (hlive : live? w guid' = some i) : Grants guid w out w [(guid', i)] := by
  rcases h.known hlive with ⟨r, hr, rfl⟩
  refine ⟨⟨h.bounded, h.known, h.files, ?_, ?_⟩, ?_, fun i hi => hi⟩
  · intro guid' j hout
    rcases List.mem_append.mp hout with hold | hnew
    · exact h.named hold
    · cases List.mem_singleton.mp hnew
      exact ⟨r, hr, Iff.rfl⟩
  · intro j hout hj
    rcases List.mem_append.mp hout with hold | hnew
    · exact h.shared hold hj
    · cases List.mem_singleton.mp hnew
      exact hlive
  · intro p hp
    cases List.mem_singleton.mp hp
    exact (live?_eq_some_iff.mp hlive).2

/-- A new record is handed out if none is known. -/
theorem handOut (h : Shares guid w out) {guid' : Guid} {r : Record}
    (hnone : live? w guid' = none) (hguid : r.guid = guid ↔ guid' = guid) :
    Grants guid w out (handOut r w).2 [(guid', w.pool.cells.size)] := by
  have hlive := live?_handOut h.bounded r
  have hloads : w.Loads (Connected.handOut r w).2 := handOut_loads w r
  have hnew : (Connected.handOut r w).2.pool.get? w.pool.cells.size = some r :=
    Pool.get?_add_self w.pool r
  have hkeeps : ∀ i, w.isHeld i = true → (Connected.handOut r w).2.isHeld i = true := by
    intro i hi
    exact List.contains_iff_mem.mpr (List.mem_cons_of_mem _ (List.contains_iff_mem.mp hi))
  have hself : (Connected.handOut r w).2.isHeld w.pool.cells.size = true :=
    List.contains_iff_mem.mpr List.mem_cons_self
  refine ⟨⟨hloads.bounded h.bounded, ?_, h.files, ?_, ?_⟩, ?_, hkeeps⟩
  · intro guid'' i hknown
    rw [hlive] at hknown
    split at hknown
    · next hsame =>
        cases hknown
        exact ⟨r, hnew, hsame.symm⟩
    · rcases h.known hknown with ⟨s, hs, hrest⟩
      exact ⟨s, hloads.pool hs, hrest⟩
  · intro guid'' i hout
    rcases List.mem_append.mp hout with hold | hlast
    · rcases h.named hold with ⟨s, hs, hrest⟩
      exact ⟨s, hloads.pool hs, hrest⟩
    · cases List.mem_singleton.mp hlast
      exact ⟨r, hnew, hguid⟩
  · intro i hout hi
    rcases List.mem_append.mp hout with hold | hlast
    · rcases h.named hold with ⟨s, hs, -⟩
      have hne : i ≠ w.pool.cells.size := Nat.ne_of_lt (Pool.get?_lt hs)
      have hheld : w.isHeld i = true := List.contains_iff_mem.mpr
        ((List.mem_cons.mp (List.contains_iff_mem.mp hi)).resolve_left hne)
      have hbefore := h.shared hold hheld
      -- Nothing was known under `guid'`, so the new record is not that of `guid`.
      have hother : guid ≠ r.guid := by
        intro hsame
        rw [hguid.mp hsame.symm, hbefore] at hnone
        cases hnone
      rw [hlive, if_neg hother, hbefore]
    · cases List.mem_singleton.mp hlast
      rw [hlive, if_pos (hguid.mpr rfl).symm]
  · intro p hp
    cases List.mem_singleton.mp hp
    exact hself

end Grants

/-! ### Single entities -/

variable {out : List (Guid × Handle)}

/-- What has been asked for under a guid, if it has been found. -/
def named (guid' : Guid) (answer : Except StoreError Handle) : List (Guid × Handle) :=
  (answer.toOption.map fun h => (guid', h)).toList

theorem grants_entity (h : Shares guid w out) (guid' : Guid) :
    Grants guid w out (entity guid' w).2 (named guid' (entity guid' w).1) := by
  cases hlive : live? w guid' with
  | some i =>
      rw [entity_known hlive]
      exact .known h hlive
  | none =>
      simp only [entity, Act.bind_ok (a := Act.world) rfl, hlive]
      have hstays : Stays guid w (readOrCreate guid' w).2 := stays_readOrCreate guid' w
      cases hrun : readOrCreate guid' w with
      | mk answer w₁ =>
          rw [hrun] at hstays
          cases answer with
          | error e =>
              rw [Act.bind_error hrun]
              exact .stays h hstays
          | ok r =>
              rw [Act.bind_ok hrun]
              -- Reading the row makes nothing known, so the record that is handed out is the first
              -- one.
              have hnone : live? w₁ guid' = none :=
                (live?_congr hstays.held hstays.opened guid').trans hlive
              have hguid := guid_of_readOrCreate h.files hrun
              exact .after hstays (.handOut (h.stays hstays) hnone hguid)

/-- What has been looked up under a guid, if it was there. -/
def namedIfAny (guid' : Guid) (answer : Except StoreError (Option Handle)) :
    List (Guid × Handle) :=
  (answer.toOption.join.map fun h => (guid', h)).toList

theorem grants_find? (h : Shares guid w out) (guid' : Guid) :
    Grants guid w out (find? guid' w).2 (namedIfAny guid' (find? guid' w).1) := by
  cases hlive : live? w guid' with
  | some i =>
      simp only [find?, Act.bind_ok (a := Act.world) rfl, hlive]
      exact .known h hlive
  | none =>
      simp only [find?, Act.bind_ok (a := Act.world) rfl, hlive]
      have hstays : Stays guid w (readEntity guid' w).2 :=
        closed_readEntity (closed_stays guid) guid' w
      cases hrun : readEntity guid' w with
      | mk answer w₁ =>
          rw [hrun] at hstays
          cases answer with
          | error e =>
              rw [Act.bind_error hrun]
              exact .stays h hstays
          | ok found =>
              rw [Act.bind_ok hrun]
              cases found with
              | none =>
                  exact .stays h hstays
              | some r =>
                  -- Reading the row made no record known, so the one that was read is new.
                  have hnone : live? w₁ guid' = none :=
                    (live?_congr hstays.held hstays.opened guid').trans hlive
                  have hguid := guid_of_readEntity h.files (congrArg Prod.fst hrun)
                  exact .after hstays (.handOut (h.stays hstays) hnone hguid)

/-! ### Several entities -/

/-- A call hands out what is new among the records that it finds. -/
def Collects (guid : Guid) (found : Dict Guid Handle) (m : Act Connected (Dict Guid Handle)) :
    Prop :=
  ∀ w out, Shares guid w out → ∃ granted, Grants guid w out (m w).2 granted ∧
    ∀ found', (m w).1 = .ok found' → ∀ p ∈ found'.bindings, p ∈ found.bindings ∨ p ∈ granted

namespace Collects

variable {found : Dict Guid Handle}

theorem pure (found : Dict Guid Handle) : Collects guid found (pure found) := by
  intro w out h
  refine ⟨[], .stays h ((composes_stays guid).refl w), ?_⟩
  intro found' hfound p hp
  cases hfound
  exact .inl hp

/-- What the first call hands out may be found from then on. -/
theorem bind {first : Except StoreError α → List (Guid × Handle)} {a : Act Connected α}
    {f : α → Act Connected (Dict Guid Handle)}
    (ha : ∀ {w out}, Shares guid w out → Grants guid w out (a w).2 (first (a w).1))
    (hf : ∀ x, ∃ found₁, Collects guid found₁ (f x) ∧
      ∀ p ∈ found₁.bindings, p ∈ found.bindings ∨ p ∈ first (.ok x)) :
    Collects guid found (a >>= f) := by
  intro w out h
  have hfirst := ha h
  cases hrun : a w with
  | mk answer w₁ =>
      rw [hrun] at hfirst
      cases answer with
      | error e =>
          rw [Act.bind_error hrun]
          refine ⟨_, hfirst, ?_⟩
          intro found' hfound
          cases hfound
      | ok x =>
          rw [Act.bind_ok hrun]
          rcases hf x with ⟨found₁, hcollects, hbetween⟩
          -- What the first call handed out is kept in mind while the second one runs.
          rcases hcollects w₁ _ hfirst.shares with ⟨granted, hrest, hfound⟩
          refine ⟨_, hfirst.trans hrest, fun found' hfound' p hp => ?_⟩
          refine (hfound found' hfound' p hp).elim (fun hp => ?_) fun hp => ?_
          · exact (hbetween p hp).imp_right (List.mem_append_left _)
          · exact .inr (List.mem_append_right _ hp)

end Collects

theorem mem_bindings_insert (found : Dict Guid Handle) (guid' : Guid) (i : Handle) :
    ∀ p ∈ (found.insert guid' i).bindings, p ∈ found.bindings ∨ p ∈ [(guid', i)] := by
  intro p hp
  have hget := Dict.get?_eq_some_iff.mpr hp
  rw [Dict.get?_insert] at hget
  split at hget
  · next hsame =>
      exact .inr (List.mem_singleton.mpr (Prod.ext hsame (Option.some.inj hget).symm))
  · exact .inl (Dict.get?_eq_some_iff.mp hget)

theorem collects_oneByOne (guids : List Guid) :
    ∀ found, Collects guid found (Backend.oneByOne entity guids found) := by
  induction guids with
  | nil =>
      exact .pure
  | cons first rest ih =>
      intro found
      exact .bind (fun h => grants_entity h first) fun i =>
        ⟨found.insert first i, ih _, mem_bindings_insert found first i⟩

theorem collects_findAll (guids : List Guid) :
    ∀ found, Collects guid found (findAll guids found) := by
  induction guids with
  | nil =>
      exact .pure
  | cons first rest ih =>
      intro found
      refine .bind (fun h => grants_find? h first) fun there => ?_
      cases there with
      | none =>
          exact ⟨found, ih found, fun p hp => .inl hp⟩
      | some i =>
          exact ⟨found.insert first i, ih _, mem_bindings_insert found first i⟩

/-- All records that are known are handed out once more. -/
theorem grants_known (h : Shares guid w out) (granted : List (Guid × Handle))
    (hlive : ∀ p ∈ granted, live? w p.1 = some p.2) : Grants guid w out w granted := by
  induction granted generalizing out with
  | nil =>
      exact .stays h ((composes_stays guid).refl w)
  | cons p rest ih =>
      rcases List.forall_mem_cons.mp hlive with ⟨hp, hrest⟩
      have hfirst : Grants guid w out w [p] := .known h hp
      exact hfirst.trans (ih hfirst.shares hrest)

theorem collects_batch (guids : KeySet Guid) : Collects guid .empty (batch guids) := by
  intro w out h
  let known := guids.toList.filterMap fun guid' => (live? w guid').map fun i => (guid', i)
  have hknown : Grants guid w out w known := by
    refine grants_known h known fun p hp => ?_
    rcases List.mem_filterMap.mp hp with ⟨guid', -, hguid'⟩
    rcases Option.map_eq_some_iff.mp hguid' with ⟨i, hi, rfl⟩
    exact hi
  let unknown := guids.toList.filter fun guid' => (live? w guid').isNone
  rcases collects_oneByOne unknown (.ofList known) w _ hknown.shares with ⟨granted, hrest, hfound⟩
  refine ⟨_, hknown.trans hrest, fun found' hfound' p hp => .inr ?_⟩
  exact List.mem_append.mpr ((hfound found' hfound' p hp).imp_left Assoc.mem_of_mem_ofList)

/-! ## Other steps -/

namespace Shares

theorem edit (h : Shares guid w out) (i : Handle) (edits : List Record.Edit) :
    Shares guid (w.edit i edits) out := by
  refine h.of_known ?_ (h.bounded.edit i edits) h.files (fun hj => hj) (fun _ _ hj => hj)
    (fun _ hj => hj)
  intro j r hr
  by_cases hsame : i = j
  · subst hsame
    exact ⟨_, World.get?_edit_self edits hr, Record.guid_editAll r edits⟩
  · exact ⟨r, (World.get?_edit_of_ne w edits hsame).trans hr, rfl⟩

theorem release (h : Shares guid w out) (i : Handle) : Shares guid (w.release i) out := by
  have hheld : ∀ {j}, (w.release i).isHeld j = true → w.isHeld j = true := by
    intro j hj
    exact List.contains_iff_mem.mpr (List.mem_filter.mp (List.contains_iff_mem.mp hj)).1
  refine h.of_known (fun {j r} hr => ⟨r, hr, rfl⟩) h.bounded h.files ?_ ?_ (fun _ hj => hheld hj)
  · intro guid' j hj
    rcases live?_eq_some_iff.mp hj with ⟨hget, hj⟩
    exact live?_eq_some_iff.mpr ⟨hget, hheld hj⟩
  · intro j _ hj hknown
    exact live?_eq_some_iff.mpr ⟨(live?_eq_some_iff.mp hknown).1, hj⟩

/-- A record that is made elsewhere is not known. -/
theorem build (h : Shares guid w out) (r : Record) : Shares guid (Act.allocate r w).2 out := by
  have hheld : ∀ {j : Handle}, j < w.pool.cells.size →
      (Act.allocate r w).2.isHeld j = true → w.isHeld j = true := by
    intro j hlt hj
    have hmem : j ∈ w.pool.cells.size :: w.held := List.contains_iff_mem.mp hj
    exact List.contains_iff_mem.mpr ((List.mem_cons.mp hmem).resolve_left (Nat.ne_of_lt hlt))
  refine h.of_known ?_ ?_ h.files ?_ ?_ (fun hr hj => hheld (Pool.get?_lt hr) hj)
  · intro j s hs
    exact ⟨s, (Pool.get?_add_of_lt w.pool r (Pool.get?_lt hs)).trans hs, rfl⟩
  · intro guid' j hj
    show j < (w.pool.add r).2.cells.size
    rw [Pool.size_add]
    exact Nat.lt_succ_of_lt (h.bounded guid' j hj)
  · intro guid' j hj
    rcases live?_eq_some_iff.mp hj with ⟨hget, hj⟩
    exact live?_eq_some_iff.mpr ⟨hget, hheld (h.bounded guid' j hget) hj⟩
  · intro j _ hj hknown
    exact live?_eq_some_iff.mpr ⟨(live?_eq_some_iff.mp hknown).1, hj⟩

/-- A record of another entity is forgotten. -/
theorem forget (h : Shares guid w out) {guid' : Guid} (hne : guid ≠ guid') : Shares guid
    { w with store := { w.store with opened := w.store.opened.forget guid' } } out := by
  have hget : ∀ guid'', (w.store.opened.forget guid').live.get? guid'' =
      if guid'' = guid' then none else w.store.opened.live.get? guid'' :=
    fun guid'' => Dict.get?_erase _ _ _
  -- Forgetting makes nothing known, and what is held for `guid` stays known.
  refine h.of_known (fun {j r} hr => ⟨r, hr, rfl⟩) ?_ h.files ?_ ?_ (fun _ hj => hj)
  · intro guid'' j hj
    rw [hget] at hj
    split at hj
    · cases hj
    · exact h.bounded guid'' j hj
  · intro guid'' j hj
    rcases live?_eq_some_iff.mp hj with ⟨hj, hheld⟩
    rw [hget] at hj
    split at hj
    · cases hj
    · exact live?_eq_some_iff.mpr ⟨hj, hheld⟩
  · intro j _ hj hknown
    refine live?_eq_some_iff.mpr ⟨?_, hj⟩
    rw [hget, if_neg hne]
    exact (live?_eq_some_iff.mp hknown).1

/-- Saving a record that was handed out, and that is held, forgets no record of `guid`. -/
theorem save (h : Shares guid w out) {guid' : Guid} {i : Handle} (hout : (guid', i) ∈ out)
    (hheld : w.isHeld i = true) : Shares guid (Connected.save i w).2 out := by
  rcases h.named hout with ⟨r, hr, hguid⟩
  simp only [Connected.save, Act.bind_ok (a := Act.world) rfl, hr]
  have hstays : Stays guid w (writeEntity r w).2 := stays_writeEntity r w
  cases hrun : writeEntity r w with
  | mk answer w₁ =>
      rw [hrun] at hstays
      have h₁ := h.stays hstays
      cases answer with
      | error e =>
          rw [Act.bind_error hrun]
          exact h₁
      | ok done =>
          rw [Act.bind_ok hrun]
          show Shares guid (if (live? w₁ r.guid).any (· != i) then _ else w₁) out
          split
          · next hforget =>
              refine h₁.forget fun hsame => ?_
              -- If it is a record of `guid`, then it is the known one itself.
              have hsaved : (guid, i) ∈ out := hguid.mp hsame.symm ▸ hout
              have hheld₁ : w₁.isHeld i = true := (hstays.isHeld i).trans hheld
              rw [← hsame, h₁.shared hsaved hheld₁] at hforget
              simp at hforget
          · exact h₁

end Shares

end FileStore.Connected

/-! ## Runs -/

/-- The records that a step hands out, with the guids that they were asked for under. -/
def Backend.handed {σ : Type} (b : Backend σ) (s : Handling) (w : World σ) :
    List (Guid × Handle) :=
  match s with
  | .entity guid => ((b.entity guid w).1.toOption.map fun h => (guid, h)).toList
  | .batch guids => ((b.batch guids w).1.toOption.map Dict.bindings).getD []
  | .stored guids => ((b.stored guids w).1.toOption.map Dict.bindings).getD []
  | _ => []

/-- A step saves no record but one that was handed out, and that is held. -/
def Handling.IsOwn {σ : Type} (s : Handling) (w : World σ) (out : List (Guid × Handle)) : Prop :=
  ∀ h edits, s = .update h edits → w.isHeld h = true ∧ ∃ guid, (guid, h) ∈ out

namespace FileStore

/-- Forgets the records that nobody holds if at least `size` ones are known. -/
def Connected.sweepOut (size : Nat) (w : World Connected) : World Connected :=
  { w with store := { w.store with
      opened := { w.store.opened with sweepAt := size }.sweep w.isHeld } }

/-- What happens to an opened store and to the records that it hands out, which `out` lists. -/
inductive Course (guid : Guid) (first : World Connected) :
    World Connected → List (Guid × Handle) → Prop
  | start : Course guid first first []
  /-- A call on the store, or a step of somebody who holds records. -/
  | step {w : World Connected} {out : List (Guid × Handle)} (s : Handling)
      (before : Course guid first w out) (own : s.IsOwn w out) :
      Course guid first (backend.handle s w) (out ++ backend.handed s w)
  | sweep {w : World Connected} {out : List (Guid × Handle)} (size : Nat)
      (before : Course guid first w out) : Course guid first (Connected.sweepOut size w) out
  /-- Others may change the file, except for what the rows say of `guid`. -/
  | elsewhere {w : World Connected} {out : List (Guid × Handle)} {state : FileState}
      (files : state.tables.Files guid) (before : Course guid first w out) :
      Course guid first { w with store := { w.store with state := state } } out

variable {guid : Guid} {w first : World Connected} {out : List (Guid × Handle)}

namespace Connected

theorem grants_collected {m : Act Connected (Dict Guid Handle)} (hm : Collects guid .empty m)
    (h : Shares guid w out) :
    Grants guid w out (m w).2 (((m w).1.toOption.map Dict.bindings).getD []) := by
  rcases hm w out h with ⟨granted, hgrants, hfound⟩
  refine hgrants.mono fun p hp => ?_
  cases hrun : (m w).1 with
  | error e =>
      rw [hrun] at hp
      cases hp
  | ok found =>
      rw [hrun] at hp
      refine (hfound found hrun p hp).resolve_left fun hnone => ?_
      cases hnone

/-- What a step hands out is held from then on, and it leaves known what is held. -/
theorem grants_handle (h : Shares guid w out) (s : Handling) (hown : s.IsOwn w out) :
    Shares guid (backend.handle s w) (out ++ backend.handed s w) ∧
      ∀ p ∈ backend.handed s w, (backend.handle s w).isHeld p.2 = true := by
  -- Calls grant records; edits, saves and releases hand out none.
  have hgrants : ∀ {w' granted}, Grants guid w out w' granted →
      Shares guid w' (out ++ granted) ∧ ∀ p ∈ granted, w'.isHeld p.2 = true :=
    fun h' => ⟨h'.shares, h'.held⟩
  have hnone : ∀ {w'}, Shares guid w' out →
      Shares guid w' (out ++ []) ∧ ∀ p ∈ ([] : List (Guid × Handle)), w'.isHeld p.2 = true := by
    intro w' h'
    rw [List.append_nil]
    refine ⟨h', fun p hp => ?_⟩
    cases hp
  cases s with
  | tree q =>
      exact hgrants (.stays h (closed_tree? stays_putTree? (closed_stays guid) q w))
  | setTree q e =>
      exact hgrants (.stays h (closed_setTree stays_putTree? (closed_stays guid) q e w))
  | entity guid' =>
      exact hgrants (grants_entity h guid')
  | batch guids =>
      exact hgrants (grants_collected (collects_batch guids) h)
  | stored guids =>
      exact hgrants (grants_collected (collects_findAll guids.toList .empty) h)
  | counts =>
      exact hgrants (.stays h (closed_counts (closed_stays guid) w))
  | update i edits =>
      rcases hown i edits rfl with ⟨hheld, guid', hout⟩
      exact hnone ((h.edit i edits).save hout hheld)
  | edit i edits =>
      exact hnone (h.edit i edits)
  | build r =>
      exact hnone (h.build r)
  | release i =>
      exact hnone (h.release i)

/-- A sweep forgets no record that somebody holds. -/
theorem get?_sweep (s : FileStore) {held : Handle → Bool} {guid : Guid} {h : Handle}
    (hknown : s.live.get? guid = some h) (hheld : held h = true) :
    (s.sweep held).live.get? guid = some h := by
  have hlive : (s.sweep held).live? held guid = some h :=
    (live?_sweep s held guid).trans (Option.filter_eq_some_iff.mpr ⟨hknown, hheld⟩)
  exact (Option.filter_eq_some_iff.mp hlive).1

theorem live?_swept (size : Nat) (w : World Connected) (guid : Guid) :
    live? (sweepOut size w) guid = live? w guid :=
  live?_sweep { w.store.opened with sweepAt := size } w.isHeld guid

namespace Shares

theorem sweep (h : Shares guid w out) (size : Nat) :
    Shares guid (Connected.sweepOut size w) out := by
  refine h.of_known (fun {_ r} hr => ⟨r, hr, rfl⟩) ?_ h.files (fun hi => live?_swept size w _ ▸ hi)
    (fun _ _ hi => (live?_swept size w _).trans hi) (fun _ hi => hi)
  intro guid' i hi
  refine h.bounded guid' i ?_
  have hget : ({ w.store.opened with sweepAt := size }.sweep w.isHeld).live.get? guid' =
    some i := hi
  simp only [FileStore.sweep] at hget
  split at hget
  · exact hget
  · rw [Dict.get?_filter] at hget
    exact (Option.filter_eq_some_iff.mp hget).1

theorem elsewhere (h : Shares guid w out) {state : FileState} (hfiles : state.tables.Files guid) :
    Shares guid { w with store := { w.store with state := state } } out :=
  h.of_known (fun {_ r} hr => ⟨r, hr, rfl⟩) h.bounded hfiles (fun hi => hi) (fun _ _ hi => hi)
    (fun _ hi => hi)

/-- A store that has handed out nothing knows nothing. -/
theorem start (hlive : w.store.opened.live = .empty) (hfiles : w.store.state.tables.Files guid) :
    Shares guid w [] := by
  have hget : ∀ guid', w.store.opened.live.get? guid' = none := by
    intro guid'
    rw [hlive]
    rfl
  refine ⟨?_, ?_, hfiles, ?_, ?_⟩
  · intro guid' i hi
    rw [hget] at hi
    cases hi
  · intro guid' i hi
    have hi := (live?_eq_some_iff.mp hi).1
    rw [hget] at hi
    cases hi
  · intro guid' i hout
    cases hout
  · intro i hout
    cases hout

end Shares
end Connected

namespace Course

theorem shares (hlive : first.store.opened.live = .empty)
    (hfiles : first.store.state.tables.Files guid) (hrun : Course guid first w out) :
    Connected.Shares guid w out := by
  induction hrun with
  | start =>
      exact .start hlive hfiles
  | step s before own ih =>
      exact (Connected.grants_handle ih s own).1
  | sweep size before ih =>
      exact ih.sweep size
  | elsewhere files before ih =>
      exact ih.elsewhere files

/-- Let a store that has handed out nothing yet be used in any way, and let none but the row of
`guid` hold its record, and this row no other one.  What was handed out for `guid` are its records.
Those that are held at the same time are one record, so what is changed through one handle shows
through the other.  What a step hands out is held; and whatever is known, and whatever is held, a
sweep forgets no record that somebody holds. -/
theorem held_shared (hlive : first.store.opened.live = .empty)
    (hfiles : first.store.state.tables.Files guid) (hrun : Course guid first w out) :
    (∀ h, (guid, h) ∈ out → ∃ r, w.pool.get? h = some r ∧ r.guid = guid) ∧
    (∀ h h', (guid, h) ∈ out → (guid, h') ∈ out → w.isHeld h = true → w.isHeld h' = true →
      h = h' ∧ ∀ edits,
        (w.edit h edits).pool.get? h' = (w.pool.get? h').map (fun r => r.editAll edits)) ∧
    (∀ s : Handling, s.IsOwn w out →
      ∀ p ∈ backend.handed s w, (backend.handle s w).isHeld p.2 = true) ∧
    ∀ (s : FileStore) (held : Handle → Bool) (guid' : Guid) (h : Handle),
      s.live.get? guid' = some h → held h = true → (s.sweep held).live.get? guid' = some h := by
  have hshares := hrun.shares hlive hfiles
  refine ⟨?_, ?_, fun s hown => (Connected.grants_handle hshares s hown).2,
    fun s held guid' h => Connected.get?_sweep s⟩
  · intro h hout
    rcases hshares.named hout with ⟨r, hr, hguid⟩
    exact ⟨r, hr, hguid.mpr rfl⟩
  · intro h h' hout hout' hheld hheld'
    -- Both are known under the same guid.
    obtain rfl : h = h' := Option.some.inj
      ((hshares.shared hout hheld).symm.trans (hshares.shared hout' hheld'))
    refine ⟨rfl, fun edits => ?_⟩
    rcases hshares.named hout with ⟨r, hr, -⟩
    rw [World.get?_edit_self edits hr, hr, Option.map_some]

/-- A new store in a new file. -/
def unused : World Connected :=
  ⟨.empty, [], [], 0, ⟨.new 0, ⟨Contents.empty.tables, .blank⟩⟩⟩

/-- An entity is asked for, its record is kept, everything else is swept out. -/
def swept : World Connected :=
  Connected.sweepOut 0 (backend.handle (.entity "P1") unused)

/-- Asked for once more, it is the same record. -/
theorem held_shared_swept :
    Course "P1" unused (backend.handle (.entity "P1") swept) [("P1", 0), ("P1", 0)] ∧
      (backend.handle (.entity "P1") swept).isHeld 0 = true ∧
      ((backend.handle (.entity "P1") swept).edit 0 [.addDependent "Q"]).pool.get? 0 =
        ((backend.handle (.entity "P1") swept).pool.get? 0).map
          (fun r => r.editAll [.addDependent "Q"]) := by
  have hown : ∀ (w : World Connected) out, (Handling.entity "P1").IsOwn w out := by
    intro w out h edits hs
    cases hs
  have hrun : Course "P1" unused (backend.handle (.entity "P1") swept) [("P1", 0), ("P1", 0)] :=
    .step (.entity "P1") (.sweep 0 (.step (.entity "P1") .start (hown _ _))) (hown _ _)
  have hheld : (backend.handle (.entity "P1") swept).isHeld 0 = true := by
    decide
  have hfiles : unused.store.state.tables.Files "P1" := by
    intro rows key blob s hrows hrow
    cases hrows
    cases hrow
  have hshared := (held_shared rfl hfiles hrun).2.1 0 0 (by decide) (by decide) hheld hheld
  exact ⟨hrun, hheld, hshared.2 _⟩

end Course
end FileStore
end EntityCache
