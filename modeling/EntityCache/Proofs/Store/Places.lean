import EntityCache.Proofs.Store.Reopening

/-!
# Where the file of a scope lies

* `Directory.locate?_fileName`: the name of a store file leads to a place in the directory itself.
* `Location.beside_ne_fileName`: what accompanies a store file has no such name.
* `Directory.storeAt?`, `Vault.shelf`: the store file at a place, and the tables in that of a scope.
* `Vault.Filed`: every place has a file of its own, with a number in use.
* `Vault.shelf_release`, `Vault.shelf_addFileStore`: what a scope has stays when stores are let go,
  and gets all tables when its file is opened.
-/

namespace EntityCache

/-! ## Names -/

theorem Text.Hex.digit_ne {n : Nat} (hn : n < 16) : digit n ≠ '/' ∧ digit n ≠ '\x00' := by
  have hdigits : ∀ n : Fin 16, digit n ≠ '/' ∧ digit n ≠ '\x00' := by decide
  exact hdigits ⟨n, hn⟩

namespace Scope

theorem toList_fileName (s : Scope) : s.fileName.toList =
    (Hash.Sha256.digest s.preimage).flatMap Text.Hex.encodeByte ++ ".sqlite".toList := by
  simp only [fileName, digest, Text.Hex.encode, String.toList_append, String.toList_ofList]

/-- The name of a store file is that of a file in the directory itself. -/
theorem not_mem_fileName (s : Scope) : '/' ∉ s.fileName.toList ∧ '\x00' ∉ s.fileName.toList := by
  have hdigits : ∀ c ∈ (Hash.Sha256.digest s.preimage).flatMap Text.Hex.encodeByte,
      c ≠ '/' ∧ c ≠ '\x00' := by
    intro c hc
    rcases List.mem_flatMap.mp hc with ⟨b, -, hb⟩
    have hbyte := b.toNat_lt
    simp only [Text.Hex.encodeByte, List.mem_cons, List.not_mem_nil, or_false] at hb
    rcases hb with rfl | rfl
    · exact Text.Hex.digit_ne (by omega)
    · exact Text.Hex.digit_ne (by omega)
  simp only [toList_fileName, List.mem_append, not_or]
  exact ⟨⟨fun h => (hdigits _ h).1 rfl, by decide⟩, ⟨fun h => (hdigits _ h).2 rfl, by decide⟩⟩

theorem getLast?_fileName (s : Scope) : s.fileName.toList.getLast? = some 'e' := by
  simp only [toList_fileName]
  rw [List.getLast?_append]
  rfl

theorem length_fileName (s : Scope) : 7 ≤ s.fileName.toList.length := by
  simp only [toList_fileName, List.length_append]
  exact Nat.le_add_left 7 _

end Scope

/-- What accompanies a store file. -/
def Directory.companions : List String :=
  [Directory.journalSuffix, Directory.logSuffix, Directory.indexSuffix]

/-- What accompanies a store file is not taken for one. -/
theorem Location.beside_ne_fileName (s : Scope) (l : Location) {suffix : String} :
    suffix ∈ Directory.companions → l.beside suffix ≠ [s.fileName] := by
  intro hsuffix hsame
  -- The names end in different letters.
  have hends : ∃ c, suffix.toList.getLast? = some c ∧ c ≠ 'e' := by
    simp only [Directory.companions, List.mem_cons, List.not_mem_nil, or_false] at hsuffix
    rcases hsuffix with rfl | rfl | rfl
    · exact ⟨'l', rfl, by decide⟩
    · exact ⟨'l', rfl, by decide⟩
    · exact ⟨'m', rfl, by decide⟩
  rcases hends with ⟨c, hc, hne⟩
  rcases List.eq_nil_or_concat l with rfl | ⟨init, name, rfl⟩
  · cases hsame
  · have hname : name ++ suffix = s.fileName := by
      have hlast := congrArg List.getLast? hsame
      simpa [beside] using hlast
    have hletter := s.getLast?_fileName
    simp only [← hname, String.toList_append, List.getLast?_append, hc, Option.some_or,
      Option.some.injEq] at hletter
    exact hne hletter

/-- The name of a store file leads to a place in the directory itself. -/
theorem Directory.locate?_fileName {d : Directory} {s : Scope} {l : Location} :
    d.locate? s.fileName = some l → l = [s.fileName] := by
  intro h
  have hlength := s.length_fileName
  -- The other names that a path may use are shorter than that of a store file.
  have hidle : Location.idleNames.contains s.fileName = false := by
    refine Bool.eq_false_iff.mpr fun hmem => ?_
    simp only [Location.idleNames, List.contains_eq_mem, decide_eq_true_eq, List.mem_cons,
      List.not_mem_nil, or_false] at hmem
    rcases hmem with hname | hname
    · rw [hname] at hlength
      exact absurd hlength (by decide)
    · rw [hname] at hlength
      exact absurd hlength (by decide)
  have hup : s.fileName ≠ Location.up := by
    intro hname
    rw [hname] at hlength
    exact absurd hlength (by decide)
  simp only [locate?, List.splitOn_eq_singleton s.not_mem_fileName.1, List.map_cons, List.map_nil,
    String.ofList_toList, List.foldlM_cons, List.foldlM_nil, follow?, hidle, if_neg hup,
    Bool.false_eq_true, if_false] at h
  split at h
  · cases h
  · split at h
    · cases h
    · split at h
      · cases h
      · cases h
        rfl

/-! ## Files by place -/

/-- The number of a store file. -/
def PathState.file? : PathState → Option Nat
  | store file => some file
  | _ => none

namespace Directory

/-- The store file at a location, if there is one. -/
def storeAt? (d : Directory) (l : Location) : Option Nat :=
  (d.entries.get? l).bind PathState.file?

variable {d : Directory}

theorem storeAt?_congr {d' : Directory} {l : Location}
    (h : d'.entries.get? l = d.entries.get? l) : d'.storeAt? l = d.storeAt? l := by
  simp only [storeAt?, h]

theorem storeAt?_put (l l' : Location) (p : PathState) :
    (d.put l p).storeAt? l' = if l' = l then p.file? else d.storeAt? l' := by
  simp only [storeAt?, put, Dict.get?_insert]
  split <;> rfl

/-- Nothing but a store file counts. -/
theorem storeAt?_afterAttempt (l l' : Location) :
    (d.afterAttempt l).storeAt? l' = d.storeAt? l' := by
  simp only [afterAttempt]
  split
  · next hjunk =>
      have hnone : d.entries.get? l = none := by
        simp only [Bool.and_eq_true, Bool.not_eq_true', Dict.contains] at hjunk
        exact Option.isNone_iff_eq_none.mp (Option.isSome_eq_false_iff.mp hjunk.2)
      simp only [storeAt?_put]
      split
      · next hl =>
          simp only [hl, storeAt?, hnone, Option.bind_none]
          rfl
      · rfl
  · rfl

/-- Some places are cleared, and nothing else changes. -/
theorem get?_withoutBeside (l l' : Location) (suffixes : List String) :
    (d.withoutBeside l suffixes).entries.get? l' =
      if ∃ suffix ∈ suffixes, l.beside suffix = l' then none else d.entries.get? l' := by
  have herase : ∀ e : Dict Location PathState,
      (suffixes.foldl (fun e s => e.erase (l.beside s)) e).get? l' =
        if ∃ suffix ∈ suffixes, l.beside suffix = l' then none else e.get? l' := by
    induction suffixes with
    | nil =>
        intro e
        simp
    | cons suffix rest ih =>
        intro e
        simp only [List.foldl_cons, ih, Dict.get?_erase, List.mem_cons, exists_eq_or_imp]
        by_cases hfirst : l.beside suffix = l'
        · simp [hfirst]
        · simp [hfirst, Ne.symm hfirst]
  exact herase d.entries

/-- Clearing what accompanies a store file leaves the files of all scopes alone. -/
theorem storeAt?_withoutBeside (s : Scope) (l : Location) {suffixes : List String}
    (hsuffixes : ∀ suffix ∈ suffixes, suffix ∈ companions) :
    (d.withoutBeside l suffixes).storeAt? [s.fileName] = d.storeAt? [s.fileName] := by
  refine storeAt?_congr ((get?_withoutBeside l _ suffixes).trans (if_neg ?_))
  rintro ⟨suffix, hsuffix, hsame⟩
  exact Location.beside_ne_fileName s l (hsuffixes suffix hsuffix) hsame

theorem storeAt?_of_withoutBeside {l l' : Location} {suffixes : List String} {file : Nat} :
    (d.withoutBeside l suffixes).storeAt? l' = some file → d.storeAt? l' = some file := by
  simp only [storeAt?, get?_withoutBeside]
  split
  · intro h
    cases h
  · exact fun h => h

end Directory

namespace Vault

/-- The tables of the file of a scope, if it has one. -/
def shelf (v : Vault) (s : Scope) : Option Tables :=
  (v.directory.storeAt? [s.fileName]).map (fun file => v.tables file)

/-- Every place has a file of its own, with a number in use. -/
structure Filed (v : Vault) : Prop where
  used : ∀ {l file}, v.directory.storeAt? l = some file → file < v.next
  apart : ∀ {l l' file}, v.directory.storeAt? l = some file →
    v.directory.storeAt? l' = some file → l = l'

variable {v : Vault}

theorem Filed.mono (h : v.Filed) {v' : Vault}
    (hstores : ∀ {l file}, v'.directory.storeAt? l = some file →
      v.directory.storeAt? l = some file) (hnext : v.next ≤ v'.next) : v'.Filed where
  used hl := Nat.lt_of_lt_of_le (h.used (hstores hl)) hnext
  apart hl hl' := h.apart (hstores hl) (hstores hl')

/-- Another directory with the same store files. -/
theorem Filed.withDirectory (h : v.Filed) {d : Directory}
    (hstores : ∀ l, d.storeAt? l = v.directory.storeAt? l) :
    Filed { v with directory := d } :=
  h.mono (fun hl => (hstores _).symm.trans hl) (Nat.le_refl _)

/-! ## Letting go -/

theorem directory_releaseLog (v : Vault) (l : Location) :
    (v.releaseLog l).directory = v.directory ∨ (v.releaseLog l).directory =
      v.directory.withoutBeside l [Directory.logSuffix, Directory.indexSuffix] := by
  simp only [releaseLog]
  split
  · split
    · exact Or.inl rfl
    · exact Or.inr rfl
  · exact Or.inl rfl

/-- Every scope keeps its file, and no place gets another one. -/
theorem directory_release (v : Vault) (inUse : StoreId → Bool) :
    (∀ s : Scope, (v.release inUse).directory.storeAt? [s.fileName] =
      v.directory.storeAt? [s.fileName]) ∧
    ∀ {l file}, (v.release inUse).directory.storeAt? l = some file →
      v.directory.storeAt? l = some file := by
  refine release_induction
    (motive := fun v' : Vault => (∀ s : Scope, v'.directory.storeAt? [s.fileName] =
        v.directory.storeAt? [s.fileName]) ∧
      ∀ {l file}, v'.directory.storeAt? l = some file → v.directory.storeAt? l = some file)
    ⟨fun _ => rfl, fun h => h⟩ ?_
  rintro v' l ⟨hscopes, hstores⟩
  rcases v'.directory_releaseLog l with hsame | hcleared
  · simp only [hsame]
    exact ⟨hscopes, hstores⟩
  · simp only [hcleared]
    refine ⟨fun s => ?_, fun h => hstores (Directory.storeAt?_of_withoutBeside h)⟩
    rw [Directory.storeAt?_withoutBeside s l (by decide)]
    exact hscopes s

theorem Filed.release (h : v.Filed) (inUse : StoreId → Bool) : (v.release inUse).Filed :=
  h.mono (v.directory_release inUse).2 (Nat.le_of_eq (v.release_apply inUse).2.symm)

theorem shelf_release (v : Vault) (inUse : StoreId → Bool) (s : Scope) :
    (v.release inUse).shelf s = v.shelf s := by
  simp only [shelf, (v.directory_release inUse).1, (v.release_apply inUse).1]

/-! ## Opening -/

theorem fileAt_of_store {l : Location} {file : Nat} :
    v.directory.storeAt? l = some file → v.fileAt l = (file, v) := by
  intro h
  simp only [Directory.storeAt?] at h
  rcases Option.bind_eq_some_iff.mp h with ⟨p, hp, hfile⟩
  cases p with
  | store n =>
      cases hfile
      simp only [fileAt, hp]
  | directory =>
      cases hfile
  | junk =>
      cases hfile

theorem fileAt_of_none {l : Location} :
    v.directory.storeAt? l = none → v.fileAt l = (v.next, { v with
      directory := v.directory.put l (.store v.next)
      files := v.files.insert v.next .fresh
      next := v.next + 1 }) := by
  intro h
  simp only [fileAt]
  split
  · next file hp =>
      simp only [Directory.storeAt?, hp] at h
      cases h
  · rfl

/-- Attempts at opening a file make no store file. -/
theorem storeAt?_directoryAfter (v : Vault) (path : String) (l : Location) :
    (v.directoryAfter path).storeAt? l = v.directory.storeAt? l := by
  simp only [directoryAfter]
  cases v.directory.locate? path with
  | none =>
      rfl
  | some l' =>
      exact Directory.storeAt?_afterAttempt l' l

/-- The scope whose file is opened has one from now on, and every other scope keeps what it has. -/
theorem storeAt?_addFileStore (scope s : Scope) (l : Location) :
    (v.addFileStore scope l).2.directory.storeAt? [s.fileName] =
      if [s.fileName] = l then some (v.fileAt l).1 else v.directory.storeAt? [s.fileName] := by
  have hclear : (v.addFileStore scope l).2.directory.storeAt? [s.fileName] =
      (v.fileAt l).2.directory.storeAt? [s.fileName] :=
    Directory.storeAt?_withoutBeside s l (by decide)
  rw [hclear]
  cases hfile : v.directory.storeAt? l with
  | some file =>
      simp only [fileAt_of_store hfile]
      split
      · next hsame => rw [hsame, hfile]
      · rfl
  | none =>
      simp only [fileAt_of_none hfile, Directory.storeAt?_put]
      rfl

theorem Filed.addFileStore (h : v.Filed) (scope : Scope) (l : Location) :
    (v.addFileStore scope l).2.Filed := by
  have hfileAt : (v.fileAt l).2.Filed := by
    cases hfile : v.directory.storeAt? l with
    | some file =>
        simp only [fileAt_of_store hfile]
        exact h
    | none =>
        simp only [fileAt_of_none hfile]
        -- The number of the new file was not in use.
        have hnew : ∀ {l file}, v.directory.storeAt? l = some file → file ≠ v.next :=
          fun hl => Nat.ne_of_lt (h.used hl)
        constructor
        · intro l' file hl'
          simp only [Directory.storeAt?_put] at hl'
          split at hl'
          · cases hl'
            exact Nat.lt_succ_self _
          · exact Nat.lt_succ_of_lt (h.used hl')
        · intro l₁ l₂ file hl₁ hl₂
          simp only [Directory.storeAt?_put] at hl₁ hl₂
          split at hl₁
          · next hfirst =>
              cases hl₁
              split at hl₂
              · next hsecond => rw [hfirst, hsecond]
              · exact absurd rfl (hnew hl₂)
          · split at hl₂
            · cases hl₂
              exact absurd rfl (hnew hl₁)
            · exact h.apart hl₁ hl₂
  exact hfileAt.mono (fun hl => Directory.storeAt?_of_withoutBeside hl) (Nat.le_succ _)

/-- The scope whose file is opened has all tables, empty where there were none. -/
theorem shelf_addFileStore (scope s : Scope) :
    (v.addFileStore scope [s.fileName]).2.shelf s =
      some ((v.shelf s).getD .missing).repair := by
  rcases addFileStore_apply scope [s.fileName] v with ⟨-, -, -, hrepair⟩
  simp only [shelf, storeAt?_addFileStore, if_true, Option.map_some, hrepair]
  cases hfile : v.directory.storeAt? [s.fileName] with
  | some file =>
      simp only [fileAt_of_store hfile]
      rfl
  | none =>
      have hfresh : (v.fileAt [s.fileName]).2.tables (v.fileAt [s.fileName]).1 = .missing := by
        simp only [fileAt_of_none hfile, tables, fileState, Dict.get?_insert_self]
        rfl
      simp only [hfresh]
      rfl

/-- Every other scope keeps what it has. -/
theorem shelf_addFileStore_of_ne (h : v.Filed) (scope : Scope) {s : Scope} {l : Location}
    (hother : [s.fileName] ≠ l) : (v.addFileStore scope l).2.shelf s = v.shelf s := by
  simp only [shelf, storeAt?_addFileStore, if_neg hother]
  cases hfile : v.directory.storeAt? [s.fileName] with
  | none =>
      rfl
  | some file =>
      have hused := h.used hfile
      -- The file at the location is another one.
      have hne : file ≠ (v.fileAt l).1 := by
        cases hplace : v.directory.storeAt? l with
        | none =>
            simp only [fileAt_of_none hplace]
            exact Nat.ne_of_lt hused
        | some file' =>
            simp only [fileAt_of_store hplace]
            rintro rfl
            exact hother (h.apart hfile hplace)
      simp only [Option.map_some, tables_addFileStore_of_ne scope l v hused hne]

end Vault
end EntityCache
