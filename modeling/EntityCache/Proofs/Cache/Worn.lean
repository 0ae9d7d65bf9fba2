import EntityCache.Proofs.Cache.Reached
import EntityCache.Proofs.Store.Damage

/-!
# Histories of a store file

* `Worn`: what may have become of a store in a file: writes and reads through caches with any
  schedules of failures, calls by somebody who holds records meanwhile, damage to its rows, and the
  file being opened again.
* `Worn.orderly`: after every history the file lists dependents of stored entities only, and the
  store is between two operations.
-/

namespace EntityCache

open FileStore (Contents)

/-- What may have become of the opened store with a number. -/
inductive Worn : Nat → World Vault → Prop
  /-- A new store in a new file. -/
  | new {n file : Nat} {w : World Vault} (hheld : w.held = [])
      (hnew : w.store.fileStore n = .new file) (htables : w.store.tables file = .empty) : Worn n w
  /-- A write through a cache, which may have schedules of failures before the store. -/
  | posted {n : Nat} {w : World Vault} (h : Worn n w) {c : Cache} {r : StoreRef}
      (hstore : c.store? = some r) (hr : r.store = .file n) (e : Posting) : Worn n (c.post e w).2
  /-- A read at any time. -/
  | read {n : Nat} {w : World Vault} (h : Worn n w) {c : Cache} {r : StoreRef}
      (hstore : c.store? = some r) (hr : r.store = .file n) (q : QueryKey) (t : Time) :
      Worn n (c.read q (w.setTime t)).2
  /-- Somebody has called the store, held records and let them go again. -/
  | handled {n : Nat} {w w' : World Vault} (h : Worn n w) (steps : List Handling)
      (hsteps : w'.focus (Vault.connected n) =
        FileStore.backend.handleAll steps (w.focus (Vault.connected n)))
      (hheld : w'.held = []) : Worn n w'
  /-- Cached results were replaced by any bytes, and entities by bytes that cannot be decoded. -/
  | damaged {n : Nat} {w w' : World Vault} (h : Worn n w) {t t' : Contents}
      (hw : (w.focus (Vault.connected n)).Holds t) (hdamaged : t.Damaged t')
      (hw' : w'.focus (Vault.connected n) = (w.focus (Vault.connected n)).withContents t') :
      Worn n w'
  /-- The store is let go, or not, and the file is opened again.  Its number is below the next one,
  as that of every file. -/
  | reopened {n m : Nat} {w w' : World Vault} (h : Worn n w) (inUse : StoreId → Bool)
      {scope : Scope} {path : String} {policy : Retry.Policy} {r : StoreRef}
      (hopen : Vault.openFile scope path policy
        { w with store := w.store.release inUse } = (.ok r, w'))
      (hstore : r.store = .file m)
      (hfile : (w'.store.fileStore m).file = (w.store.fileStore n).file)
      (hused : (w.store.fileStore n).file < w.store.next) : Worn m w'

namespace Worn

variable {n : Nat} {w : World Vault}

/-- Rows of the file are damaged, and nothing else. -/
theorem damage (h : Worn n w) {t t' : Contents} (hw : (w.focus (Vault.connected n)).Holds t)
    (hdamaged : t.Damaged t') :
    Worn n { w with
      store := w.store.putConnected n ((w.focus (Vault.connected n)).withContents t').store } := by
  refine .damaged h hw hdamaged ?_
  simp only [World.focus, World.withStore, Vault.connected_putConnected]
  rfl

/-- A store that has just been opened is between two operations. -/
theorem orderly_file {file : Nat} (hheld : w.held = []) (hnew : w.store.fileStore n = .new file)
    {t : Contents} (htables : w.store.tables file = t.tables) (ht : t.Keyed) (hrowed : t.Rowed) :
    FileStore.Orderly (w.focus (Vault.connected n)) := by
  have hsound : FileStore.Sound (w.focus (Vault.connected n)) :=
    (Reached.sound_file hheld hnew htables ht).1
  exact ⟨t, ⟨hsound.held, hsound.bounded, Reached.holds_file hnew htables, ht⟩, hrowed⟩

theorem orderly (h : Worn n w) : FileStore.Orderly (w.focus (Vault.connected n)) := by
  induction h with
  | new hheld hnew htables =>
      exact orderly_file hheld hnew (t := .empty) htables Contents.keyed_empty Contents.rowed_empty
  | posted _ hstore hr e ih =>
      rename_i n w _ c r
      -- Schedules may stop the write anywhere; what is left behind is orderly all the same.
      rcases (StoreRef.follows_file hr).posts FileStore.serves_orderly c.config c.upkeep e ih with
        ⟨outcome, u', w', hpost, hw', -⟩
      simp only [Cache.post_apply hstore e hpost]
      exact hw'
  | read _ hstore hr q t ih =>
      simp only [Cache.read, hstore]
      exact ((StoreRef.follows_file hr).kept_read FileStore.serves_orderly q
        (FileStore.serves_orderly.time t ih)).1
  | handled _ steps hsteps hheld ih =>
      rw [hsteps]
      refine ih.handled steps ?_
      rw [← hsteps]
      exact hheld
  | damaged _ hw hdamaged hw' ih =>
      rw [hw']
      exact ih.damaged hw hdamaged
  | reopened _ inUse hopen hstore hfile hused ih =>
      rcases ih with ⟨t, hsettled, hrowed⟩
      have htables := hsettled.holds.2
      rcases Vault.reopened hopen hstore hfile hused with ⟨hnew, hrepair, hheld⟩
      -- No table was missing, so there is nothing to repair.
      refine orderly_file (hheld.trans hsettled.held) hnew (t := t) ?_ hsettled.keyed hrowed
      rw [hrepair]
      exact congrArg _ htables

end Worn
end EntityCache
