import EntityCache.Store.Vault

/-!
# Opening a file again

* `Vault.release_apply`: letting stores go leaves the tables of every file alone.
* `Vault.openFile_apply`: what opening a file comes to.
* `Vault.addFileStore_apply`: a store that was opened knows no record.
* `Vault.reopened`: a store in the same file as another one, which was let go, finds its tables.
-/

namespace EntityCache
namespace Vault

/-! ## Letting go -/

theorem tables_releaseLog (v : Vault) (l : Location) (file : Nat) :
    (v.releaseLog l).tables file = v.tables file := by
  simp only [releaseLog]
  split
  · next file' _ =>
      split
      · rfl
      · simp only [tables, fileState, Dict.get?_insert]
        split
        · next hfile =>
            simp only [hfile]
            rfl
        · rfl
  · rfl

theorem next_releaseLog (v : Vault) (l : Location) : (v.releaseLog l).next = v.next := by
  simp only [releaseLog]
  split
  · split <;> rfl
  · rfl

/-- Stores are let go first, then logs, one location after the other. -/
theorem release_induction {motive : Vault → Prop} {v : Vault} {inUse : StoreId → Bool}
    (hstores : motive { v with opened := v.opened.filter (fun n _ => inUse (.file n)) })
    (hlog : ∀ v' l, motive v' → motive (v'.releaseLog l)) : motive (v.release inUse) :=
  List.foldlRecOn (motive := motive) _ releaseLog hstores fun v' hv' l _ => hlog v' l hv'

/-- Files keep their tables, and no number is given out. -/
theorem release_apply (v : Vault) (inUse : StoreId → Bool) :
    (∀ file, (v.release inUse).tables file = v.tables file) ∧ (v.release inUse).next = v.next := by
  refine release_induction
    (motive := fun v' : Vault => (∀ file, v'.tables file = v.tables file) ∧ v'.next = v.next)
    ⟨fun _ => rfl, rfl⟩ ?_
  rintro v' l ⟨htables, hnext⟩
  exact ⟨fun file => (tables_releaseLog v' l file).trans (htables file),
    (next_releaseLog v' l).trans hnext⟩

/-- Only stores in use stay opened. -/
theorem opened_release (v : Vault) (inUse : StoreId → Bool) :
    (v.release inUse).opened = v.opened.filter (fun n _ => inUse (.file n)) := by
  refine release_induction
    (motive := fun v' : Vault => v'.opened = v.opened.filter (fun n _ => inUse (.file n))) rfl ?_
  intro v' l h
  simp only [← h, releaseLog]
  split
  · split <;> rfl
  · rfl

theorem memories_release (v : Vault) (inUse : StoreId → Bool) :
    (v.release inUse).memories = v.memories := by
  refine release_induction (motive := fun v' : Vault => v'.memories = v.memories) rfl ?_
  intro v' l h
  simp only [← h, releaseLog]
  split
  · split <;> rfl
  · rfl

/-! ## Opening -/

/-- A file is found at its location, or it gets the next number. -/
theorem fileAt_cases (v : Vault) (l : Location) :
    (v.fileAt l).2 = v ∨ (v.fileAt l).1 = v.next := by
  simp only [fileAt]
  split
  · exact Or.inl rfl
  · exact Or.inr rfl

/-- A store that was opened knows no record, and no table of its file is missing. -/
theorem addFileStore_apply (scope : Scope) (l : Location) (v : Vault) :
    ∃ n, (v.addFileStore scope l).1.store = .file n ∧
      (v.addFileStore scope l).2.fileStore n = .new (v.fileAt l).1 ∧
      (v.addFileStore scope l).2.tables (v.fileAt l).1 =
        ((v.fileAt l).2.tables (v.fileAt l).1).repair := by
  cases hplace : v.fileAt l with
  | mk file v' =>
      simp only [addFileStore, hplace]
      refine ⟨v'.next, rfl, ?_, ?_⟩
      · simp [fileStore]
      · simp only [tables, fileState, Dict.get?_insert_self, Option.getD_some]
        exact FileState.tables_connect _

/-- A file in use keeps its tables, whatever is found or made beside it. -/
theorem tables_fileAt (v : Vault) (l : Location) {file : Nat} (hused : file < v.next) :
    (v.fileAt l).2.tables file = v.tables file := by
  simp only [fileAt]
  split
  · rfl
  · simp only [tables, fileState, Dict.get?_insert, if_neg (Nat.ne_of_lt hused)]

/-- Only the file at the location may get new tables. -/
theorem tables_addFileStore_of_ne (scope : Scope) (l : Location) (v : Vault) {file : Nat}
    (hused : file < v.next) (hother : file ≠ (v.fileAt l).1) :
    (v.addFileStore scope l).2.tables file = v.tables file := by
  simp only [← tables_fileAt v l hused, addFileStore]
  simp only [tables, fileState, Dict.get?_insert, if_neg hother]

/-- The tables of a file in use stay, but for missing ones, which are made anew. -/
theorem tables_addFileStore (scope : Scope) (l : Location) (v : Vault) {file : Nat}
    (hused : file < v.next) :
    (v.addFileStore scope l).2.tables file = v.tables file ∨
      (v.addFileStore scope l).2.tables file = (v.tables file).repair := by
  by_cases hfile : file = (v.fileAt l).1
  · right
    rcases addFileStore_apply scope l v with ⟨-, -, -, hrepair⟩
    rw [← tables_fileAt v l hused, hfile, hrepair]
  · exact Or.inl (tables_addFileStore_of_ne scope l v hused hfile)

/-- One more store is opened, under a new number. -/
theorem opened_addFileStore (scope : Scope) (l : Location) (v : Vault) :
    (v.addFileStore scope l).2.opened =
        v.opened.insert (v.fileAt l).2.next (.new (v.fileAt l).1) ∧
      v.next ≤ (v.fileAt l).2.next ∧
      (v.addFileStore scope l).2.next = (v.fileAt l).2.next + 1 := by
  have hfileAt : (v.fileAt l).2.opened = v.opened ∧ v.next ≤ (v.fileAt l).2.next := by
    simp only [fileAt]
    split
    · exact ⟨rfl, Nat.le_refl _⟩
    · exact ⟨rfl, Nat.le_succ _⟩
  refine ⟨?_, hfileAt.2, ?_⟩
  · simp only [addFileStore, hfileAt.1]
  · simp only [addFileStore]

/-- What all attempts at opening the file at a path come to. -/
def attempts (v : Vault) (path : String) (policy : Retry.Policy) : Retry.Run StoreError Location :=
  Retry.run policy (fun _ =>
    match (v.directory.locate? path).filter v.isOpenable with
    | some l => .ok l
    | none => .error noFile)

/-- The directory after attempts at opening the file at a path. -/
def directoryAfter (v : Vault) (path : String) : Directory :=
  ((v.directory.locate? path).map v.directory.afterAttempt).getD v.directory

/-- Once attempts and paths are settled, a store is added, unless all attempts have failed. -/
theorem openFile_apply (scope : Scope) (path : String) (policy : Retry.Policy) (w : World Vault) :
    openFile scope path policy w =
      match (w.store.attempts path policy).outcome.getD (.error noFile) with
      | .ok l =>
          (.ok (addFileStore scope l { w.store with directory := w.store.directoryAfter path }).1,
            { w.report ((w.store.attempts path policy).pauses.map (fun _ => .notice .retrying)) with
              store := (addFileStore scope l
                { w.store with directory := w.store.directoryAfter path }).2 })
      | .error e =>
          (.error e,
            { w.report ((w.store.attempts path policy).pauses.map (fun _ => .notice .retrying)) with
              store := { w.store with directory := w.store.directoryAfter path } }) := by
  have hrun : openFile scope path policy w =
      (Act.ofExcept ((w.store.attempts path policy).outcome.getD (.error noFile)) >>=
        fun l => edit (addFileStore scope l))
          { w.report ((w.store.attempts path policy).pauses.map (fun _ => .notice .retrying)) with
            store := { w.store with directory := w.store.directoryAfter path } } := rfl
  simp only [hrun]
  cases (w.store.attempts path policy).outcome.getD (.error noFile) with
  | ok l =>
      rfl
  | error e =>
      rfl

theorem openFile_eq {scope : Scope} {path : String} {policy : Retry.Policy} {w w' : World Vault}
    {r : StoreRef} (hopen : openFile scope path policy w = (.ok r, w')) :
    ∃ l directory signals, r = (addFileStore scope l { w.store with directory := directory }).1 ∧
      w' = { w.report signals with
        store := (addFileStore scope l { w.store with directory := directory }).2 } := by
  simp only [openFile_apply] at hopen
  split at hopen
  · next l _ =>
      rcases Prod.mk.inj hopen with ⟨hr, rfl⟩
      exact ⟨l, _, _, (Except.ok.inj hr).symm, rfl⟩
  · cases hopen

/-- A store in a file that was in use before finds its tables, and no more. -/
theorem reopened {scope : Scope} {path : String} {policy : Retry.Policy} {inUse : StoreId → Bool}
    {w w' : World Vault} {r : StoreRef} {m file : Nat}
    (hopen : openFile scope path policy { w with store := w.store.release inUse } = (.ok r, w'))
    (hstore : r.store = .file m) (hfile : (w'.store.fileStore m).file = file)
    (hused : file < w.store.next) :
    w'.store.fileStore m = .new file ∧ w'.store.tables file = (w.store.tables file).repair ∧
      w'.held = w.held := by
  rcases openFile_eq hopen with ⟨l, directory, signals, rfl, rfl⟩
  let v : Vault := { w.store.release inUse with directory := directory }
  rcases w.store.release_apply inUse with ⟨htables, hnext⟩
  rcases addFileStore_apply scope l v with ⟨n, hn, hnew, hrepair⟩
  cases hn.symm.trans hstore
  -- The store is in the file that was found or made at the location.
  have hsame : (v.fileAt l).1 = file := by
    simp only [← hfile]
    show _ = ((v.addFileStore scope l).2.fileStore m).file
    simp only [hnew]
    rfl
  simp only [hsame] at hnew hrepair
  refine ⟨hnew, ?_, rfl⟩
  rcases fileAt_cases v l with hthere | hfresh
  · calc
      (v.addFileStore scope l).2.tables file
          = ((v.fileAt l).2.tables file).repair := hrepair
      _ = (v.tables file).repair := by simp only [hthere]
      _ = (w.store.tables file).repair := congrArg Tables.repair (htables file)
  · -- The number of a new file was not in use.
    simp only [hsame] at hfresh
    have hlast : v.next = w.store.next := hnext
    omega

end Vault
end EntityCache
