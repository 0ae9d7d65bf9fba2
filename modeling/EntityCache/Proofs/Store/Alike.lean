import EntityCache.Proofs.Store.Places
import EntityCache.Proofs.Store.Through

/-!
# Stores that look alike

What the stores have in them decides nothing about opening and closing them:

* `Vault.Alike`: the same directory, the same numbers, and the same stores on the same files.
* `StoreId.Through.alike`: nothing that is done through an opened store can be told from that.
* `Vault.Alike.release`, `Vault.Alike.openFor`: stores that are alike are let go and opened alike.
* `Vault.AlikeFor`: alike, with the same tables in the file of one scope.
-/

namespace EntityCache

/-- The file of an opened store, and whether the store is closed. -/
def FileStore.link (s : FileStore) : Nat × Bool :=
  (s.file, s.closed)

/-- A file with a connected store has a log. -/
theorem FileState.log_connect_ne (s : FileState) : s.connect.log ≠ .absent := by
  simp only [connect]
  split
  · exact ChangeLog.begin_ne_absent _
  · exact fun h => ChangeLog.begin_ne_absent _ (ChangeLog.append_eq_absent_iff.mp h)

namespace Vault

/-- Stores that differ at most in what they have. -/
structure Alike (v v' : Vault) : Prop where
  directory : v'.directory = v.directory
  next : v'.next = v.next
  opened : ∀ n, (v'.opened.get? n).map FileStore.link = (v.opened.get? n).map FileStore.link
  logged : ∀ file, (v'.fileState file).log = .absent ↔ (v.fileState file).log = .absent

namespace Alike

variable {v v' v'' : Vault}

theorem refl (v : Vault) : v.Alike v :=
  ⟨rfl, rfl, fun _ => rfl, fun _ => Iff.rfl⟩

theorem symm (h : v.Alike v') : v'.Alike v :=
  ⟨h.directory.symm, h.next.symm, fun n => (h.opened n).symm, fun file => (h.logged file).symm⟩

theorem trans (h : v.Alike v') (h' : v'.Alike v'') : v.Alike v'' :=
  ⟨h'.directory.trans h.directory, h'.next.trans h.next,
    fun n => (h'.opened n).trans (h.opened n), fun file => (h'.logged file).trans (h.logged file)⟩

end Alike
end Vault

/-- Nothing that is done through an opened store can be told from the outside. -/
theorem StoreId.Through.alike {id : StoreId} {w w' : World Vault} (h : id.Through w w')
    (hopened : ∀ n, id = .file n → (w.store.opened.get? n).isSome = true) :
    w.store.Alike w'.store where
  directory := h.directory
  next := h.next
  opened := by
    intro n
    by_cases hsame : id = .file n
    · -- The store was and is opened, on the same file.
      have hold := hopened n hsame
      rcases Option.isSome_iff_exists.mp hold with ⟨s, hs⟩
      rcases Option.isSome_iff_exists.mp (h.known n hold) with ⟨s', hs'⟩
      have htied := h.tied n hsame
      have hfile : (w'.store.fileStore n).file = (w.store.fileStore n).file := htied.file
      have hclosed : (w'.store.fileStore n).closed = (w.store.fileStore n).closed := htied.closed
      simp only [Vault.fileStore, hs, hs', Option.getD_some] at hfile hclosed
      simp only [hs, hs', Option.map_some, FileStore.link, hfile, hclosed]
    · rw [h.opened n hsame]
  logged := by
    intro file
    -- Only the file that the store is tied to may change, and it keeps its log.
    by_cases hown : ∃ n, id = .file n ∧ (w.store.fileStore n).file = file
    · rcases hown with ⟨n, hsame, rfl⟩
      have htied := h.tied n hsame
      have hfile : (w'.store.fileStore n).file = (w.store.fileStore n).file := htied.file
      have hlog : (w'.store.fileState (w'.store.fileStore n).file).log = .absent ↔ _ := htied.log
      rw [hfile] at hlog
      exact hlog
    · have hkept := h.files file fun n hn hfile => hown ⟨n, hn, hfile⟩
      simp only [Vault.fileState, hkept]

namespace Vault
namespace Alike

variable {v v' : Vault}

/-! ## Letting go -/

theorem isConnected (h : v.Alike v') (file : Nat) : v'.isConnected file = v.isConnected file := by
  -- Whether a store is connected is seen from its file and whether it is closed.
  have hiff : ∀ v : Vault, v.isConnected file = true ↔
      ∃ n, (v.opened.get? n).map FileStore.link = some (file, false) := by
    intro v
    simp only [Vault.isConnected, List.any_eq_true, Dict.values, List.mem_map, Bool.and_eq_true,
      beq_iff_eq, Bool.not_eq_true', Option.map_eq_some_iff, FileStore.link, Prod.mk.injEq]
    constructor
    · rintro ⟨s, ⟨⟨n, s'⟩, hmem, rfl⟩, hs⟩
      exact ⟨n, s', Dict.get?_eq_some_iff.mpr hmem, hs⟩
    · rintro ⟨n, s, hget, hs⟩
      exact ⟨s, ⟨(n, s), Dict.get?_eq_some_iff.mp hget, rfl⟩, hs⟩
  exact Bool.eq_iff_iff.mpr (by simp only [hiff, h.opened])

theorem releaseLog (h : v.Alike v') (l : Location) : (v.releaseLog l).Alike (v'.releaseLog l) := by
  simp only [Vault.releaseLog, h.directory, h.isConnected, h.logged]
  split
  · next file _ =>
      split
      · exact h
      · refine ⟨rfl, h.next, h.opened, fun file' => ?_⟩
        simp only [fileState, Dict.get?_insert]
        split
        · exact Iff.rfl
        · exact h.logged file'
  · exact h

theorem release (h : v.Alike v') (inUse : StoreId → Bool) :
    (v.release inUse).Alike (v'.release inUse) := by
  have hlogs : ∀ (ls : List Location) {v v' : Vault}, v.Alike v' →
      (ls.foldl Vault.releaseLog v).Alike (ls.foldl Vault.releaseLog v') := by
    intro ls
    induction ls with
    | nil =>
        exact fun h => h
    | cons l rest ih =>
        exact fun h => ih (h.releaseLog l)
  simp only [Vault.release, h.directory]
  refine hlogs _ ⟨rfl, h.next, fun n => ?_, h.logged⟩
  simp only [Dict.get?_filter]
  -- The number alone decides whether a store stays.
  have hfilter : ∀ o : Option FileStore, (o.filter fun _ => inUse (.file n)).map FileStore.link =
      (o.map FileStore.link).filter fun _ => inUse (.file n) := by
    intro o
    cases o with
    | none =>
        rfl
    | some s =>
        simp only [Option.filter, Option.map_some]
        split <;> rfl
  simp only [hfilter, h.opened]

/-! ## Opening -/

theorem addMemoryStore (h : v.Alike v') (scope : Scope) :
    (v'.addMemoryStore scope).1 = (v.addMemoryStore scope).1 ∧
      (v.addMemoryStore scope).2.Alike (v'.addMemoryStore scope).2 := by
  refine ⟨?_, h.directory, ?_, h.opened, h.logged⟩
  · simp only [Vault.addMemoryStore, h.next]
  · simp only [Vault.addMemoryStore, h.next]

theorem fileAt (h : v.Alike v') (l : Location) :
    (v'.fileAt l).1 = (v.fileAt l).1 ∧ (v.fileAt l).2.Alike (v'.fileAt l).2 := by
  cases hfile : v.directory.storeAt? l with
  | some file =>
      have hfile' : v'.directory.storeAt? l = some file := by
        rw [h.directory, hfile]
      simp only [fileAt_of_store hfile, fileAt_of_store hfile']
      exact ⟨trivial, h⟩
  | none =>
      have hfile' : v'.directory.storeAt? l = none := by
        rw [h.directory, hfile]
      simp only [fileAt_of_none hfile, fileAt_of_none hfile', h.directory, h.next]
      refine ⟨trivial, rfl, rfl, h.opened, fun file => ?_⟩
      simp only [fileState, Dict.get?_insert]
      split
      · exact Iff.rfl
      · exact h.logged file

theorem addFileStore (h : v.Alike v') (scope : Scope) (l : Location) :
    (v'.addFileStore scope l).1 = (v.addFileStore scope l).1 ∧
      (v.addFileStore scope l).2.Alike (v'.addFileStore scope l).2 := by
  rcases h.fileAt l with ⟨hfile, hafter⟩
  refine ⟨?_, ?_, ?_, fun n => ?_, fun file => ?_⟩
  · simp only [Vault.addFileStore, hafter.next]
  · simp only [Vault.addFileStore, hafter.directory]
  · simp only [Vault.addFileStore, hafter.next]
  · simp only [Vault.addFileStore, hfile, hafter.next, Dict.get?_insert]
    split
    · rfl
    · exact hafter.opened n
  · simp only [Vault.addFileStore, hfile, fileState, Dict.get?_insert]
    split
    · -- Both have a log from now on.
      simp only [Option.getD_some]
      exact iff_of_false (FileState.log_connect_ne _) (FileState.log_connect_ne _)
    · exact hafter.logged file

/-- The directory may change alike. -/
theorem withDirectory (h : v.Alike v') (d : Directory) :
    Alike { v with directory := d } { v' with directory := d } :=
  ⟨rfl, h.next, h.opened, h.logged⟩

end Alike

/-- The file of a scope is never taken for a log. -/
theorem isLog_fileName (v : Vault) (s : Scope) : v.isLog [s.fileName] = false := by
  have hlog : ∀ k : Location, k.beside Directory.logSuffix ≠ [s.fileName] :=
    fun k => Location.beside_ne_fileName s k (by decide)
  have hindex : ∀ k : Location, k.beside Directory.indexSuffix ≠ [s.fileName] :=
    fun k => Location.beside_ne_fileName s k (by decide)
  refine Bool.eq_false_iff.mpr fun h => ?_
  simp only [isLog, List.any_eq_true] at h
  rcases h with ⟨k, -, hk⟩
  split at hk
  · cases hk
  · exact hindex k (beq_iff_eq.mp hk)
  · rcases Bool.or_eq_true_iff.mp hk with hk | hk
    · exact hindex k (beq_iff_eq.mp hk)
    · exact hlog k (beq_iff_eq.mp hk)

namespace Alike

variable {v v' : Vault}

theorem isOpenable (h : v.Alike v') (s : Scope) :
    v'.isOpenable [s.fileName] = v.isOpenable [s.fileName] := by
  have hlogAt : v'.logAt [s.fileName] = .absent ↔ v.logAt [s.fileName] = .absent := by
    simp only [logAt, h.directory]
    split
    · next file _ => exact h.logged file
    · exact Iff.rfl
  have hlog : (v'.logAt [s.fileName] != .absent) = (v.logAt [s.fileName] != .absent) :=
    Bool.eq_iff_iff.mpr (by simp only [bne_iff_ne, ne_eq, hlogAt])
  simp only [Vault.isOpenable, isLog_fileName, hasForeignJournal, hlog, h.directory]

theorem attempts (h : v.Alike v') (s : Scope) (policy : Retry.Policy) :
    v'.attempts s.fileName policy = v.attempts s.fileName policy := by
  have hplace : (v'.directory.locate? s.fileName).filter v'.isOpenable =
      (v.directory.locate? s.fileName).filter v.isOpenable := by
    simp only [h.directory]
    cases hlocate : v.directory.locate? s.fileName with
    | none =>
        rfl
    | some l =>
        cases Directory.locate?_fileName hlocate
        simp only [Option.filter, h.isOpenable]
  simp only [Vault.attempts, hplace]

end Alike

/-! ## With the same tables for one scope -/

/-- Stores that are alike, with the same tables in the file of a scope. -/
structure AlikeFor (s : Scope) (v v' : Vault) : Prop extends Alike v v' where
  shelf : v'.shelf s = v.shelf s

namespace AlikeFor

variable {s : Scope} {v v' : Vault}

theorem release (h : v.AlikeFor s v') (inUse : StoreId → Bool) :
    (v.release inUse).AlikeFor s (v'.release inUse) where
  toAlike := h.toAlike.release inUse
  shelf := by
    simp only [shelf_release]
    exact h.shelf

theorem addFileStore (h : v.AlikeFor s v') (hv : v.Filed) (hv' : v'.Filed) (scope : Scope)
    (l : Location) : (v.addFileStore scope l).2.AlikeFor s (v'.addFileStore scope l).2 where
  toAlike := (h.toAlike.addFileStore scope l).2
  shelf := by
    by_cases hown : [s.fileName] = l
    · subst hown
      simp only [shelf_addFileStore, h.shelf]
    · simp only [shelf_addFileStore_of_ne hv scope hown, shelf_addFileStore_of_ne hv' scope hown,
        h.shelf]

theorem filed (h : v.AlikeFor s v') (hv : v.Filed) : v'.Filed :=
  hv.mono (fun hl => by rwa [h.directory] at hl) (Nat.le_of_eq h.next.symm)

/-- A directory without other store files. -/
theorem withDirectory (h : v.AlikeFor s v') {d : Directory}
    (hstores : ∀ l, d.storeAt? l = v.directory.storeAt? l) :
    AlikeFor s { v with directory := d } { v' with directory := d } where
  toAlike := h.toAlike.withDirectory d
  shelf := by
    have hshelf := h.shelf
    simp only [Vault.shelf, h.directory] at hshelf
    simp only [Vault.shelf, hstores]
    exact hshelf

end AlikeFor

/-- For stores that are alike, opening one more has the same answer and leaves them alike. -/
theorem AlikeFor.openFor {s : Scope} {w w' : World Vault} (h : w.store.AlikeFor s w'.store)
    (hw : w.store.Filed) (scope : Scope) (policy : Retry.Policy) :
    (Vault.openFor scope policy w').1 = (Vault.openFor scope policy w).1 ∧
      (Vault.openFor scope policy w).2.store.AlikeFor s
        (Vault.openFor scope policy w').2.store := by
  simp only [Vault.openFor]
  cases scope.backing with
  | memory =>
      rcases h.toAlike.addMemoryStore scope with ⟨hanswer, halike⟩
      exact ⟨congrArg Except.ok hanswer, halike, h.shelf⟩
  | persistent =>
      simp only [Act.bind_ok (a := Act.world) rfl, h.directory]
      by_cases hblocked : w.store.directory.blocked = true
      · simp only [if_pos hblocked]
        exact ⟨rfl, h⟩
      · simp only [if_neg hblocked]
        -- The same places are tried, and the same one is found.
        have hdirectory : w'.store.directoryAfter scope.fileName =
            w.store.directoryAfter scope.fileName := by
          simp only [directoryAfter, h.directory]
        simp only [openFile_apply, h.toAlike.attempts, hdirectory]
        -- Nothing else matters about the directory than that it has the same store files.
        have hstores : ∀ l, (w.store.directoryAfter scope.fileName).storeAt? l =
            w.store.directory.storeAt? l := storeAt?_directoryAfter w.store scope.fileName
        generalize w.store.directoryAfter scope.fileName = d at hstores ⊢
        have hafter := h.withDirectory hstores
        split
        · next l _ =>
            have hfiled := hw.withDirectory hstores
            exact ⟨congrArg Except.ok (hafter.toAlike.addFileStore scope l).1,
              hafter.addFileStore hfiled (hafter.filed hfiled) scope l⟩
        · exact ⟨rfl, hafter⟩

end Vault
end EntityCache
