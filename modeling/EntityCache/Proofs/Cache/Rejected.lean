import EntityCache.Proofs.Cache.LastWrite
import EntityCache.Proofs.Cache.Notified
import EntityCache.Proofs.Store.Seeded

/-!
# Results that are no objects

Whether the root of a result is an object is only found out once the store was asked for a record of
every id within it.

* `Backend.absorb_other`: what the store was asked for stays.
* `Cache.write_refused`: a write of such a result is dropped.  Each cached result and each record is
  left as it was; what is new is a fresh record for every id that had none.
-/

namespace EntityCache

open Normalize

variable {σ : Type} {view : Vault → σ} {b : Backend σ} {v : Value} {w : World Vault}

/-! ## Absorbing -/

namespace Backend

/-- The refusal takes nothing back. -/
theorem absorb_other (b : Backend σ) (hv : v.isMap = false) (ids : IdIndex)
    (requestor : Option QueryKey) (w : World σ) : ∃ e signals,
      b.absorb v ids requestor w =
        (.error e, { (b.batch (idsWithin ids v) w).2.report signals with held := w.held }) := by
  cases hbatch : b.batch (idsWithin ids v) w with
  | mk answer w₁ =>
      cases answer with
      | error e =>
          refine ⟨e, [], ?_⟩
          rw [World.report_nil]
          exact Act.holding_apply (Act.bind_error hbatch)
      | ok index =>
          exact ⟨_, _, absorb_of_refused hbatch (splitOver_of_other hv)⟩

end Backend

/-- In view nothing has happened. -/
def Unasked (view : Vault → σ) (w w' : World Vault) : Prop :=
  ∃ signals, w'.focus view = (w.focus view).report signals

/-- In view the store was asked for records, and they were let go. -/
def Asked (view : Vault → σ) (b : Backend σ) (guids : KeySet Guid) (w w' : World Vault) : Prop :=
  ∃ signals, w'.focus view =
    { (b.batch guids (w.focus view)).2.report signals with held := w.held }

namespace Backend

variable {b' : Backend Vault} {ids : IdIndex} {requestor : Option QueryKey} {w₁ : World Vault}
  {e : StoreError}

/-- A call may be made to fail before the store is asked. -/
theorem Follows.unasked_or_asked (h : b'.Follows view b) (hv : v.isMap = false)
    (habsorb : b'.absorb v ids requestor w = (.error e, w₁)) :
    Unasked view w w₁ ∨ Asked view b (idsWithin ids v) w w₁ := by
  rcases h.absorb v ids requestor w with
    ⟨_, w', hrun, hsame⟩ | ⟨w', hrun, hsame⟩ | ⟨_, _, _, _, _, _, _, _, -, -, hsplit, -⟩
  · cases habsorb.symm.trans hrun
    exact Or.inl ⟨[], hsame.trans (World.report_nil _).symm⟩
  · rcases Prod.mk.inj (habsorb.symm.trans hrun) with ⟨-, rfl⟩
    rcases b.absorb_other hv ids requestor (w.focus view) with ⟨_, signals, hbare⟩
    rw [hbare] at hsame
    exact Or.inr ⟨signals, hsame⟩
  · rw [splitOver_of_other hv] at hsplit
    cases hsplit

theorem Mirrors.asked (h : b'.Mirrors view b) (hv : v.isMap = false)
    (habsorb : b'.absorb v ids requestor w = (.error e, w₁)) :
    Asked view b (idsWithin ids v) w w₁ := by
  rcases b.absorb_other hv ids requestor (w.focus view) with ⟨_, signals, hbare⟩
  have hsame := (h.absorb v ids requestor w).2
  rw [habsorb, hbare] at hsame
  exact ⟨signals, hsame⟩

end Backend

/-! ## Writing -/

section

variable {guids : KeySet Guid} {w' : World Vault} {n : Nat}

theorem Unasked.report (h : Unasked view w w') (later : Journal) :
    Unasked view w (w'.report later) := by
  rcases h with ⟨signals, hsame⟩
  refine ⟨signals ++ later, ?_⟩
  rw [← World.report_report, ← hsame]
  rfl

/-- What is reported afterwards concerns no store. -/
theorem Asked.report (h : Asked view b guids w w') (later : Journal) :
    Asked view b guids w (w'.report later) := by
  rcases h with ⟨signals, hsame⟩
  refine ⟨signals ++ later, ?_⟩
  rw [← World.report_report]
  exact congrArg (fun v : World σ => v.report later) hsame

theorem Unasked.memory (h : Unasked (Vault.memory n) w w') :
    MemoryStore.Seeded guids.toList (w.focus (Vault.memory n)) (w'.focus (Vault.memory n)) := by
  rcases h with ⟨signals, hsame⟩
  rw [hsame]
  exact ⟨rfl, .refl _⟩

theorem Asked.memory (h : Asked (Vault.memory n) MemoryStore.backend guids w w') :
    MemoryStore.Sown guids.toList (w.focus (Vault.memory n)) (w'.focus (Vault.memory n)) := by
  rcases h with ⟨signals, hsame⟩
  have hsown := MemoryStore.sown_batch guids (w.focus (Vault.memory n))
  rw [hsame]
  exact ⟨⟨hsown.trees, hsown.records⟩, hsown.all, hsown.counts, hsown.unchanged⟩

theorem Unasked.file (h : Unasked (Vault.connected n) w w') (guids : List Guid) :
    FileStore.Seeded guids (w.focus (Vault.connected n)) (w'.focus (Vault.connected n)) := by
  rcases h with ⟨signals, hsame⟩
  rw [hsame]
  exact .of_state rfl fun h => h

theorem Asked.file (h : Asked (Vault.connected n) FileStore.backend guids w w') :
    FileStore.Seeded (FileStore.Connected.unknown (w.focus (Vault.connected n)) guids)
      (w.focus (Vault.connected n)) (w'.focus (Vault.connected n)) := by
  rcases h with ⟨signals, hsame⟩
  have hseeded := FileStore.Connected.seeded_batch guids (w.focus (Vault.connected n))
  rw [hsame]
  exact ⟨hseeded.trees, hseeded.dependents, hseeded.missing, hseeded.entities, hseeded.pool⟩

/-- Where the file can be used, a row is made for every id whose record is not at hand. -/
theorem Asked.all_file (h : Asked (Vault.connected n) FileStore.backend guids w w')
    {C : List Record → FileStore.Contents → Prop} {L : List Record → Record → Prop}
    {log : List Record} {t : FileStore.Contents}
    (htracks : FileStore.Tracks C L log (w.focus (Vault.connected n)) t) :
    ∃ t', (w'.focus (Vault.connected n)).Holds t' ∧ FileStore.Contents.Sown
      (FileStore.Connected.unknown (w.focus (Vault.connected n)) guids) t t' := by
  rcases h with ⟨signals, hsame⟩
  rcases htracks.batch guids with ⟨index, v, hbatch, hv, -⟩
  rw [show FileStore.backend.batch guids (w.focus (Vault.connected n)) = _ from hbatch] at hsame
  refine ⟨_, ?_, t.sown_makeAll (guids.nodup_toList.filter _)⟩
  rw [hsame]
  exact hv

end

/-- What a refused result with ids in it leaves in the store that it was written to. -/
structure StoreRef.Leaves (r : StoreRef) (ids : KeySet Guid) (w w' : World Vault) : Prop where
  /-- In memory all cached results and all records are as before, and those that are new are fresh
  ones for some of the ids. -/
  memory : ∀ n, r.store = .memory n →
    MemoryStore.Seeded ids.toList (w.focus (Vault.memory n)) (w'.focus (Vault.memory n))
  /-- Where no call is made to fail, there is one for each of them. -/
  all_memory : ∀ n, r.store = .memory n → r.guards = [] →
    MemoryStore.Sown ids.toList (w.focus (Vault.memory n)) (w'.focus (Vault.memory n))
  /-- In a file all rows are as before, whatever they are, and those that are new are rows of fresh
  records for some of the ids whose records are not at hand. -/
  file : ∀ n, r.store = .file n →
    FileStore.Seeded (FileStore.Connected.unknown (w.focus (Vault.connected n)) ids)
      (w.focus (Vault.connected n)) (w'.focus (Vault.connected n))
  /-- Where no call is made to fail and the file can be used, there is one for each of them. -/
  all_file : ∀ n, r.store = .file n → r.guards = [] →
    ∀ {C L log t}, FileStore.Tracks C L log (w.focus (Vault.connected n)) t →
      ∃ t', (w'.focus (Vault.connected n)).Holds t' ∧
        FileStore.Contents.Sown (FileStore.Connected.unknown (w.focus (Vault.connected n)) ids) t t'

theorem StoreRef.write_other (r : StoreRef) (config : Config) (q : QueryKey) {response : Response}
    (hroot : response.data.isMap = false) (requestor : Option QueryKey) (u : Upkeep)
    (w : World Vault) : ∃ w',
      r.backend.write config q response requestor u w = ((.dropped, u), w') ∧
      w'.held = w.held ∧ r.Leaves (idsWithin response.ids response.data) w w' := by
  rcases r.backend.absorb_other hroot response.ids requestor w with ⟨e, signals, habsorb⟩
  rcases Backend.write_of_failed config q u habsorb with ⟨later, hwrite⟩
  refine ⟨_, hwrite, rfl, fun n hstore => ?_, fun n hstore hguards => ?_, fun n hstore => ?_,
    fun n hstore hguards C L log t htracks => ?_⟩
  · rcases (StoreRef.follows_memory hstore).unasked_or_asked hroot habsorb with h | h
    · exact (h.report later).memory
    · exact (h.report later).memory.toSeeded
  · have h := (StoreRef.backend_mirrors_memory hstore hguards).asked hroot habsorb
    exact (h.report later).memory
  · rcases (StoreRef.follows_file hstore).unasked_or_asked hroot habsorb with h | h
    · exact (h.report later).file _
    · exact (h.report later).file
  · have h := (StoreRef.backend_mirrors_file hstore hguards).asked hroot habsorb
    exact (h.report later).all_file htracks

/-- A write of a result that is no object is dropped, whatever state the cache and its store are
in, and nothing is scheduled.  In the store all cached results and all records stay as they were,
but records are made for ids within the result.  Where no call is made to fail, there is one for
each of these ids afterwards, so the store is the same as before exactly if it had all of them; a
store in a file has a row for each of them whose record is not at hand. -/
theorem Cache.write_refused (c : Cache) (q : QueryKey) {response : Response}
    (hroot : response.data.isMap = false) (requestor : Option QueryKey) (w : World Vault) : ∃ w',
      c.write q response requestor w = ((.dropped, c), w') ∧ w'.held = w.held ∧
      (c.store? = none → w' = w) ∧
      ∀ r, c.store? = some r → r.Leaves (idsWithin response.ids response.data) w w' := by
  cases hstore : c.store? with
  | none =>
      refine ⟨w, ?_, rfl, fun _ => rfl, ?_⟩
      · simp only [Cache.write, hstore]
        rfl
      · rintro r ⟨⟩
  | some r =>
      rcases r.write_other c.config q hroot requestor c.upkeep w with ⟨w', hwrite, hheld, hleaves⟩
      refine ⟨w', ?_, hheld, ?_, ?_⟩
      · simp only [Cache.write, hstore, bindM_apply hwrite]
        rfl
      · rintro ⟨⟩
      · rintro _ ⟨⟩
        exact hleaves

/-- A list with an item. -/
def listResponse : Response :=
  ⟨.list [.map [("id", .id "P1"), ("price", .num (.int 3))]], none, .empty⟩

/-- Two new stores had nothing, and have a record of the item now. -/
theorem Cache.write_refused_listed :
    (∃ w', memoryCache.write "list" listResponse (some "list") ⟨.empty, [], [], 0, .empty false⟩ =
        ((.dropped, memoryCache), w') ∧
      (w'.store.memory 0).counts = ⟨0, 1⟩ ∧ (w'.store.memory 0).trees = .empty) ∧
    ∃ w', fileCache.write "list" listResponse (some "list") newFileWorld =
        ((.dropped, fileCache), w') ∧
      ∃ t, (w'.focus (Vault.connected 1)).Holds t ∧ t.counts = ⟨0, 1⟩ ∧ t.trees = .empty := by
  have hroot : listResponse.data.isMap = false := rfl
  constructor
  · rcases memoryCache.write_refused "list" hroot (some "list")
      ⟨.empty, [], [], 0, .empty false⟩ with ⟨w', hwrite, -, -, hleaves⟩
    have hsown := (hleaves _ rfl).all_memory 0 rfl rfl
    exact ⟨w', hwrite, hsown.counts, hsown.trees⟩
  · rcases fileCache.write_refused "list" hroot (some "list") newFileWorld with
      ⟨w', hwrite, -, -, hleaves⟩
    have htracks : FileStore.Tracks (fun _ _ => True) (fun _ _ => True) []
        (newFileWorld.focus (Vault.connected 1)) .empty :=
      .of_opened ⟨rfl, rfl⟩ rfl FileStore.Contents.keyed_empty trivial
    rcases (hleaves _ rfl).all_file 1 rfl rfl htracks with ⟨t, hholds, hsown⟩
    exact ⟨w', hwrite, t, hholds, hsown.counts, hsown.trees⟩

end EntityCache
