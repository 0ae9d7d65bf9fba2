import EntityCache.Proofs.Cache.Outcomes
import EntityCache.Proofs.Store.FileCatalog
import EntityCache.Proofs.Store.MemoryCatalog
import EntityCache.Proofs.Store.Reopening

/-!
# Runs of a cache on one store

* `StoreId.catalog`, `StoreId.Sound`: what a store has to show, and that its calls can be relied on.
* `Reached`: what a run of writes and reads may come to, through any schedules of failures, where a
  store in a file may be let go and opened again.
* `Reached.sound`: the store is sound after every run.
* `Reached.indexed`: every query is listed for the entities that it names, if each write was made
  for the query itself.
-/

namespace EntityCache

open Normalize

/-! ## Stores -/

namespace StoreId

/-- What a store has to show. -/
def catalog (id : StoreId) (w : World Vault) : Catalog :=
  match id with
  | memory n => MemoryStore.catalog (w.focus (Vault.memory n))
  | file n => FileStore.catalog (w.focus (Vault.connected n))

/-- The calls on a store do to its catalog what they should. -/
def Sound (id : StoreId) (w : World Vault) : Prop :=
  match id with
  | memory n => (w.focus (Vault.memory n)).records.Keyed
  | file n => FileStore.Sound (w.focus (Vault.connected n))

end StoreId

namespace Backend

variable {σ τ : Type} {view : τ → σ} {b' : Backend τ} {b : Backend σ} {Sound : World σ → Prop}
  {catalog : World σ → Catalog}

theorem Follows.posts (h : b'.Follows view b) (hserves : b.Serves Sound catalog) (config : Config)
    (u : Upkeep) (e : Posting) {w : World τ} (hw : Sound (w.focus view)) :
    ∃ outcome u' w', b'.post config u e w = ((outcome, u'), w') ∧ Sound (w'.focus view) ∧
      Catalog.Posts e (catalog (w.focus view)) outcome (catalog (w'.focus view)) := by
  rcases h.posted hserves.counts config u e w with ⟨outcome, u', w', hpost, hposted⟩
  have hw₀ : Sound ((w.focus view).setTime e.time) := hserves.time e.time hw
  have hcatalog : catalog ((w.focus view).setTime e.time) = catalog (w.focus view) :=
    hserves.catalog_time _ _
  rcases hposted.posts hserves hw₀ with ⟨hw', hposts⟩
  simp only [hcatalog] at hposts
  exact ⟨outcome, u', w', hpost, hw', hposts⟩

theorem Follows.kept_read (h : b'.Follows view b) (hserves : b.Serves Sound catalog) (q : QueryKey)
    {w : World τ} (hw : Sound (w.focus view)) :
    Sound ((b'.read q w).2.focus view) ∧
      catalog ((b'.read q w).2.focus view) = catalog (w.focus view) := by
  -- The invariant speaks of the catalog before the read, which stays what it was.
  refine h.keeps_read (fun v => Sound v ∧ catalog v = catalog (w.focus view)) ?_ ?_ ?_ q w
    ⟨hw, rfl⟩
  · intro v signals hv
    exact ⟨hserves.report signals hv.1, (hserves.catalog_report v signals).trans hv.2⟩
  · intro q v hv
    rcases hserves.tree? q hv.1 with ⟨hsound, hsame⟩
    exact ⟨hsound, hsame.trans hv.2⟩
  · intro root v hv
    rcases hserves.project root hv.1 with ⟨hsound, hsame⟩
    exact ⟨hsound, hsame.trans hv.2⟩

/-- Without schedules in between a write is refused without effect or stored. -/
theorem Mirrors.writes (h : b'.Mirrors view b) (hserves : b.Serves Sound catalog) (config : Config)
    (u : Upkeep) (e : Posting) {w : World τ} (hw : Sound (w.focus view)) :
    ∃ outcome u' w', b'.post config u e w = ((outcome, u'), w') ∧
      Catalog.Writes e (catalog (w.focus view)) outcome (catalog (w'.focus view)) := by
  rcases hserves.post config u e hw with ⟨outcome, u', v, hpost, -, hwrites⟩
  rcases (h.post config u e).eq hpost with ⟨w', hpost', rfl⟩
  exact ⟨outcome, u', w', hpost', hwrites⟩

theorem Mirrors.read_shown (h : b'.Mirrors view b) (hserves : b.Serves Sound catalog) (q : QueryKey)
    {w : World τ} (hw : Sound (w.focus view)) :
    (b'.read q w).1.map CachedResult.data = (catalog (w.focus view)).shown q := by
  simp only [(h.read q w).1]
  exact hserves.read q hw

end Backend

namespace StoreRef

variable {r : StoreRef} {w : World Vault}

/-- Whatever its kind, a store is a part of all stores, and its calls do to its catalog what they
should. -/
theorem served (r : StoreRef) : ∃ (σ : Type) (view : Vault → σ) (b : Backend σ)
    (Sound : World σ → Prop) (catalog : World σ → Catalog),
      b.Serves Sound catalog ∧ r.backend.Follows view b ∧
      (r.guards = [] → r.backend.Mirrors view b) ∧
      (∀ w, r.store.Sound w = Sound (w.focus view)) ∧
      ∀ w, r.store.catalog w = catalog (w.focus view) := by
  cases hstore : r.store with
  | memory n =>
      exact ⟨MemoryStore, Vault.memory n, MemoryStore.backend, _, _, MemoryStore.serves,
        follows_memory hstore, backend_mirrors_memory hstore, fun _ => rfl, fun _ => rfl⟩
  | file n =>
      exact ⟨FileStore.Connected, Vault.connected n, FileStore.backend, _, _, FileStore.serves,
        follows_file hstore, backend_mirrors_file hstore, fun _ => rfl, fun _ => rfl⟩

/-- A write keeps the store sound, however it ends. -/
theorem posts (config : Config) (u : Upkeep) (e : Posting) (hw : r.store.Sound w) :
    ∃ outcome u' w', r.backend.post config u e w = ((outcome, u'), w') ∧ r.store.Sound w' ∧
      Catalog.Posts e (r.store.catalog w) outcome (r.store.catalog w') := by
  rcases r.served with ⟨σ, view, b, Sound, catalog, hserves, hfollows, -, hsound, hcatalog⟩
  simp only [hsound, hcatalog] at hw ⊢
  exact hfollows.posts hserves config u e hw

/-- A read changes nothing that is shown. -/
theorem kept_read (q : QueryKey) (hw : r.store.Sound w) :
    r.store.Sound (r.backend.read q w).2 ∧
      r.store.catalog (r.backend.read q w).2 = r.store.catalog w := by
  rcases r.served with ⟨σ, view, b, Sound, catalog, hserves, hfollows, -, hsound, hcatalog⟩
  simp only [hsound, hcatalog] at hw ⊢
  exact hfollows.kept_read hserves q hw

theorem writes (hguards : r.guards = []) (config : Config) (u : Upkeep) (e : Posting)
    (hw : r.store.Sound w) : ∃ outcome u' w', r.backend.post config u e w = ((outcome, u'), w') ∧
      Catalog.Writes e (r.store.catalog w) outcome (r.store.catalog w') := by
  rcases r.served with ⟨σ, view, b, Sound, catalog, hserves, -, hmirrors, hsound, hcatalog⟩
  simp only [hsound, hcatalog] at hw ⊢
  exact (hmirrors hguards).writes hserves config u e hw

theorem read_shown (hguards : r.guards = []) (q : QueryKey) (hw : r.store.Sound w) :
    (r.backend.read q w).1.map CachedResult.data = (r.store.catalog w).shown q := by
  rcases r.served with ⟨σ, view, b, Sound, catalog, hserves, -, hmirrors, hsound, hcatalog⟩
  simp only [hsound, hcatalog] at hw ⊢
  exact (hmirrors hguards).read_shown hserves q hw

theorem sound_setTime (t : Time) (hw : r.store.Sound w) : r.store.Sound (w.setTime t) ∧
    r.store.catalog (w.setTime t) = r.store.catalog w := by
  rcases r.served with ⟨σ, view, b, Sound, catalog, hserves, -, -, hsound, hcatalog⟩
  simp only [hsound, hcatalog] at hw ⊢
  exact ⟨hserves.time t hw, hserves.catalog_time (w.focus view) t⟩

end StoreRef

/-! ## Runs -/

/-- A run on one store, each of whose writes is allowed, may lead to this world. -/
inductive Reached (allowed : Posting → Prop) : StoreId → World Vault → Prop
  /-- A new store in memory. -/
  | memory {n : Nat} {w : World Vault} (hnew : w.store.memory n = .empty) :
      Reached allowed (.memory n) w
  /-- A new store in a new file. -/
  | file {n file : Nat} {w : World Vault} (hheld : w.held = [])
      (hnew : w.store.fileStore n = .new file) (htables : w.store.tables file = .empty) :
      Reached allowed (.file n) w
  /-- A write through a cache, which may have schedules of failures before the store. -/
  | posted {c : Cache} {r : StoreRef} {w : World Vault} (h : Reached allowed r.store w)
      (hstore : c.store? = some r) {e : Posting} (he : allowed e) :
      Reached allowed r.store (c.post e w).2
  /-- A read at any time. -/
  | read {c : Cache} {r : StoreRef} {w : World Vault} (h : Reached allowed r.store w)
      (hstore : c.store? = some r) (q : QueryKey) (t : Time) :
      Reached allowed r.store (c.read q (w.setTime t)).2
  /-- The store is let go, or not, and the file is opened again.  Its number is below the next one,
  as that of every file. -/
  | reopened {n m : Nat} {w w' : World Vault} (h : Reached allowed (.file n) w)
      (inUse : StoreId → Bool) {scope : Scope} {path : String} {policy : Retry.Policy}
      {r : StoreRef} (hopen : Vault.openFile scope path policy
        { w with store := w.store.release inUse } = (.ok r, w'))
      (hstore : r.store = .file m)
      (hfile : (w'.store.fileStore m).file = (w.store.fileStore n).file)
      (hused : (w.store.fileStore n).file < w.store.next) : Reached allowed (.file m) w'

namespace Reached

variable {allowed : Posting → Prop} {id : StoreId} {w : World Vault}

/-- A store that has just been opened is on the contents of its file. -/
theorem holds_file {n file : Nat} (hnew : w.store.fileStore n = .new file) {t : FileStore.Contents}
    (htables : w.store.tables file = t.tables) : (w.focus (Vault.connected n)).Holds t := by
  refine ⟨?_, ?_⟩
  · show (w.store.fileStore n).closed = false
    simp only [hnew]
    rfl
  · show w.store.tables (w.store.fileStore n).file = t.tables
    simp only [hnew]
    exact htables

/-- A store that has just been opened shows what its file holds. -/
theorem sound_file {n file : Nat} (hheld : w.held = []) (hnew : w.store.fileStore n = .new file)
    {t : FileStore.Contents} (htables : w.store.tables file = t.tables) (ht : t.Keyed) :
    (StoreId.file n).Sound w ∧ (StoreId.file n).catalog w = t.catalog := by
  have hholds := holds_file hnew htables
  refine ⟨⟨hheld, ?_, t, hholds, ht⟩, FileStore.catalog_of_holds hholds⟩
  -- No record is known, so every known one exists.
  intro guid h hlive
  have hnone : (w.store.fileStore n).live.get? guid = none := by
    simp only [hnew]
    rfl
  cases hlive.symm.trans hnone

/-- A file that is opened again shows what it showed. -/
theorem sound_reopened {n m : Nat} {w' : World Vault} (hw : (StoreId.file n).Sound w)
    {inUse : StoreId → Bool} {scope : Scope} {path : String} {policy : Retry.Policy} {r : StoreRef}
    (hopen : Vault.openFile scope path policy
      { w with store := w.store.release inUse } = (.ok r, w'))
    (hstore : r.store = .file m)
    (hfile : (w'.store.fileStore m).file = (w.store.fileStore n).file)
    (hused : (w.store.fileStore n).file < w.store.next) :
    (StoreId.file m).Sound w' ∧ (StoreId.file m).catalog w' = (StoreId.file n).catalog w := by
  rcases hw.holds with ⟨t, hholds, ht⟩
  have htables : w.store.tables (w.store.fileStore n).file = t.tables := hholds.2
  rcases Vault.reopened hopen hstore hfile hused with ⟨hnew, hrepair, hheld⟩
  simp only [htables] at hrepair
  -- No table was missing, so there is nothing to repair.
  rcases sound_file (hheld.trans hw.held) hnew (t := t) hrepair ht with ⟨hsound, hcatalog⟩
  refine ⟨hsound, ?_⟩
  calc
    (StoreId.file m).catalog w' = t.catalog := hcatalog
    _ = (StoreId.file n).catalog w := (FileStore.catalog_of_holds hholds).symm

/-- After every run the calls on the store can be relied on. -/
theorem sound (h : Reached allowed id w) : id.Sound w := by
  induction h with
  | memory hnew =>
      exact RecordSet.keyed_of_index_empty (congrArg MemoryStore.entities hnew)
  | file hheld hnew htables =>
      exact (sound_file hheld hnew (t := .empty) htables FileStore.Contents.keyed_empty).1
  | @posted c r w _ hstore e _ ih =>
      -- Schedules may stop the write anywhere; what is left behind is sound all the same.
      rcases StoreRef.posts c.config c.upkeep e ih with ⟨outcome, u', w', hpost, hw', -⟩
      simp only [Cache.post_apply hstore e hpost]
      exact hw'
  | @read c r w _ hstore q t ih =>
      simp only [Cache.read, hstore]
      exact (StoreRef.kept_read q (StoreRef.sound_setTime t ih).1).1
  | reopened _ inUse hopen hstore hfile hused ih =>
      exact (sound_reopened ih hopen hstore hfile hused).1

/-- If each write was made for the query itself, every stored skeleton names only entities whose
records list its query. -/
theorem indexed (h : Reached allowed id w)
    (hallowed : ∀ e, allowed e → e.requestor = some e.query) : (id.catalog w).Indexed := by
  induction h with
  -- A new store shows nothing.
  | @memory n w hnew =>
      intro q n' hn'
      have hnone : (w.store.memory n).trees.get? q = none := by
        simp only [hnew]
        rfl
      have hskeleton : ((StoreId.memory n).catalog w).skeleton? q = none := by
        show ((w.store.memory n).trees.get? q).bind _ = none
        simp only [hnone]
        rfl
      cases hn'.symm.trans hskeleton
  | file hheld hnew htables =>
      simp only [(sound_file hheld hnew (t := .empty) htables FileStore.Contents.keyed_empty).2]
      intro q n' hn'
      cases hn'
  | @posted c r w hreached hstore e he ih =>
      rcases StoreRef.posts c.config c.upkeep e hreached.sound with
        ⟨outcome, u', w', hpost, -, hposts⟩
      simp only [Cache.post_apply hstore e hpost]
      exact hposts.indexed ih (hallowed e he)
  | @read c r w hreached hstore q t ih =>
      rcases StoreRef.sound_setTime t hreached.sound with ⟨hsound, hcatalog⟩
      simp only [Cache.read, hstore]
      simp only [(StoreRef.kept_read q hsound).2, hcatalog]
      exact ih
  | reopened hreached inUse hopen hstore hfile hused ih =>
      simp only [(sound_reopened hreached.sound hopen hstore hfile hused).2]
      exact ih

end Reached
end EntityCache
