import EntityCache.Proofs.Cache.Rescoping
import EntityCache.Proofs.Store.FileLedger

/-!
# Stores that share a file

A store file is the only state of the stores that are connected to it:

* `Spread`: a run of operations through any caches and stores on one file, between which stores are
  opened, let go and closed.
* `StoreRef.serveAll`: the same operations on one store.
* `Shares`: all stores on the file are as good as its contents; kept by every step.
* `outcomes_spread`: every operation of the first run has the outcome that it has in the second.
-/

namespace EntityCache

open Normalize

/-- An operation, the cache that it went through, and its outcome. -/
structure Answer where
  cache : Cache
  operation : Operation
  outcome : Outcome

/-- A run on the stores of one file. -/
inductive Spread (file : Nat) : World Vault → List Answer → World Vault → Prop
  | done {w : World Vault} : Spread file w [] w
  /-- An operation through any cache whose store is connected to the file. -/
  | perform {w w₁ w' : World Vault} {log : List Answer} {c c₁ : Cache} {r : StoreRef} {n : Nat}
      {s : FileStore} {o : Operation} {outcome : Outcome} (hstore : c.store? = some r)
      (hr : r.store = .file n) (hguards : r.guards = []) (hopened : w.store.opened.get? n = some s)
      (hfile : s.file = file) (hclosed : s.closed = false)
      (hrun : c.perform o w = ((outcome, c₁), w₁)) (hrest : Spread file w₁ log w') :
      Spread file w (⟨c, o, outcome⟩ :: log) w'
  /-- A cache is pointed at another scope; a store may be opened for it. -/
  | rescoped {w w' : World Vault} {log : List Answer} (c : Cache) (inUse : StoreRef → Bool)
      (scope : Scope) (hrest : Spread file (c.rescope inUse scope w).2 log w') :
      Spread file w log w'
  /-- An attempt at opening a store, outside any cache. -/
  | opened {w w' : World Vault} {log : List Answer} (scope : Scope) (path : String)
      (policy : Retry.Policy)
      (hrest : Spread file (Vault.openAt scope path policy w).2 log w') : Spread file w log w'
  /-- Stores that are not in use are let go. -/
  | released {w w' : World Vault} {log : List Answer} (inUse : StoreId → Bool)
      (hrest : Spread file { w with store := w.store.release inUse } log w') : Spread file w log w'
  /-- A store is closed for good. -/
  | closed {w w' : World Vault} {log : List Answer} (n : Nat)
      (hrest : Spread file { w with store := { w.store with
        opened := w.store.opened.insert n (w.store.fileStore n).close } } log w') :
      Spread file w log w'

/-- Operations, each through its own cache, all of them on one store. -/
def StoreRef.serveAll (r : StoreRef) :
    List (Cache × Operation) → StateM (World Vault) (List Outcome)
  | [] => pure []
  | (c, o) :: rest => do
      let (outcome, _) ← Cache.perform { c with target := .ready r } o
      let outcomes ← serveAll r rest
      pure (outcome :: outcomes)

/-! ## What the file has -/

/-- Nobody holds a record, every store knows only records that exist, and the file has the given
contents. -/
structure Shares (file : Nat) (w : World Vault) (t : FileStore.Contents) : Prop
    extends World.Quiet w where
  tables : w.store.tables file = t.tables
  keyed : t.Keyed
  /-- The number of the file is in use. -/
  used : file < w.store.next

namespace Shares

variable {file : Nat} {w : World Vault} {t : FileStore.Contents}

theorem report (h : Shares file w t) (signals : Journal) : Shares file (w.report signals) t :=
  ⟨⟨h.held, h.bounded⟩, h.tables, h.keyed, h.used⟩

theorem settled (h : Shares file w t) {n : Nat} {s : FileStore}
    (hopened : w.store.opened.get? n = some s) (hfile : s.file = file)
    (hclosed : s.closed = false) :
    FileStore.Settled (w.focus (Vault.connected n)) t := by
  have hstore : w.store.fileStore n = s := by
    simp only [Vault.fileStore, hopened, Option.getD_some]
  have hseen : (w.focus (Vault.connected n)).store = ⟨s, w.store.fileState file⟩ := by
    show FileStore.Connected.mk _ (w.store.fileState (w.store.fileStore n).file) = _
    simp only [hstore, hfile]
  refine ⟨h.held, h.toQuiet.focus n, ⟨?_, ?_⟩, h.keyed⟩
  · simp only [hseen, hclosed]
  · simp only [hseen]
    exact h.tables

/-- An operation has the outcome that the contents of the file give it. -/
theorem perform (h : Shares file w t) {c c₁ : Cache} {r : StoreRef} {n : Nat} {s : FileStore}
    {o : Operation} {outcome : Outcome} {w₁ : World Vault} (hstore : c.store? = some r)
    (hr : r.store = .file n) (hguards : r.guards = []) (hopened : w.store.opened.get? n = some s)
    (hfile : s.file = file) (hclosed : s.closed = false)
    (hrun : c.perform o w = ((outcome, c₁), w₁)) :
    outcome = (FileStore.ledger.perform c.config o t).1 ∧
      Shares file w₁ (FileStore.ledger.perform c.config o t).2 := by
  rcases Cache.perform_of_keeps hstore (StoreRef.backend_mirrors_file hr hguards) FileStore.keeps o
    (h.settled hopened hfile hclosed) with ⟨u, w', hcache, hw'⟩
  cases hrun.symm.trans hcache
  refine ⟨rfl, ?_⟩
  have hthrough := Cache.through hstore hguards o w
  simp only [hcache, hr] at hthrough
  -- The store stays tied to its file, so it is there that the new contents stand.
  have hsame : (w₁.store.fileStore n).file = file := by
    have hthere : w.store.fileStore n = s := by
      simp only [Vault.fileStore, hopened, Option.getD_some]
    have htied : (w₁.store.fileStore n).file = (w.store.fileStore n).file :=
      (hthrough.1.tied n rfl).file
    simp only [htied, hthere, hfile]
  refine ⟨h.toQuiet.through hthrough, ?_, hw'.keyed, ?_⟩
  · have htables : w₁.store.tables (w₁.store.fileStore n).file = _ := hw'.holds.2
    rw [hsame] at htables
    exact htables
  · rw [hthrough.1.next]
    exact h.used

/-! ## Opening and letting go -/

/-- A store in another file is a new one; one in this file finds all of its tables. -/
theorem opens (h : Shares file w t) {scope : Scope} {l : Location}
    {answer : Except StoreError StoreRef} {v' : Vault} (signals : Journal)
    (hopens : Vault.Opens scope l w.store answer v') :
    Shares file { w.report signals with store := v' } t := by
  have hquiet := h.toQuiet.opens signals hopens
  cases hopens with
  | failed e d _ =>
      exact ⟨hquiet, h.tables, h.keyed, h.used⟩
  | memory _ =>
      exact ⟨hquiet, h.tables, h.keyed, Nat.lt_succ_of_lt h.used⟩
  | file d _ _ =>
      let v : Vault := { w.store with directory := d }
      rcases v.opened_addFileStore scope l with ⟨-, hle, hnext⟩
      -- Opening makes the tables that are missing in the file, and none of them is.
      refine ⟨hquiet, ?_, h.keyed, ?_⟩
      · rcases v.tables_addFileStore scope l h.used with hkept | hrepair
        · exact hkept.trans h.tables
        · have htables : v.tables file = t.tables := h.tables
          show (v.addFileStore scope l).2.tables file = t.tables
          simp only [hrepair, htables]
          rfl
      · have hused : file < v.next := h.used
        show file < (v.addFileStore scope l).2.next
        omega

theorem openAt (h : Shares file w t) (scope : Scope) (path : String) (policy : Retry.Policy) :
    Shares file (Vault.openAt scope path policy w).2 t := by
  rcases Vault.openAt_opens scope path policy w with ⟨l, answer, v', signals, hopen, hopens⟩
  simp only [hopen]
  exact h.opens signals hopens

/-- Whatever becomes of a cache that is pointed at a scope, the file keeps its contents. -/
theorem rescope (h : Shares file w t) (c : Cache) (inUse : StoreRef → Bool) (scope : Scope) :
    Shares file (c.rescope inUse scope w).2 t := by
  rcases c.rescope_cases inUse scope w with
    ⟨-, hrescope⟩ | ⟨-, answer, v', signals, hrescope, ⟨r, -, -, rfl⟩ | hopens⟩
  · simp only [hrescope]
    exact h
  · simp only [hrescope]
    exact h.report signals
  · simp only [hrescope]
    exact h.opens signals hopens

theorem release (h : Shares file w t) (inUse : StoreId → Bool) :
    Shares file { w with store := w.store.release inUse } t := by
  rcases w.store.release_apply inUse with ⟨htables, hnext⟩
  refine ⟨h.toQuiet.release inUse, (htables file).trans h.tables, h.keyed, ?_⟩
  show file < (w.store.release inUse).next
  simp only [hnext]
  exact h.used

/-- A store that is closed knows what it knew. -/
theorem close (h : Shares file w t) (n : Nat) :
    Shares file { w with store := { w.store with
      opened := w.store.opened.insert n (w.store.fileStore n).close } } t := by
  refine ⟨⟨h.held, ?_⟩, h.tables, h.keyed, h.used⟩
  intro m s hm guid i hi
  simp only [Dict.get?_insert] at hm
  split at hm
  · next hsame =>
      cases hm
      exact h.toQuiet.focus n guid i hi
  · exact h.bounded m s hm guid i hi

end Shares

/-! ## Runs -/

/-- The operation of an answer, with the configuration that it was run under. -/
def Answer.configured (a : Answer) : Config × Operation :=
  (a.cache.config, a.operation)

/-- A run on the stores of a file has the outcomes that the contents of the file give it. -/
theorem Spread.performAll {file : Nat} {w w' : World Vault} {log : List Answer}
    (hrun : Spread file w log w') : ∀ {t : FileStore.Contents}, Shares file w t →
      log.map Answer.outcome = (FileStore.ledger.performAll (log.map Answer.configured) t).1 := by
  induction hrun with
  | done =>
      intro t _
      rfl
  | @perform w w₁ w' log c c₁ r n s o outcome hstore hr hguards hopened hfile hclosed hrun _ ih =>
      intro t h
      rcases h.perform hstore hr hguards hopened hfile hclosed hrun with ⟨houtcome, h₁⟩
      show outcome :: _ = (FileStore.ledger.perform c.config o t).1 :: _
      rw [ih h₁, houtcome]
      rfl
  | rescoped c inUse scope _ ih =>
      intro t h
      exact ih (h.rescope c inUse scope)
  | opened scope path policy _ ih =>
      intro t h
      exact ih (h.openAt scope path policy)
  | released inUse _ ih =>
      intro t h
      exact ih (h.release inUse)
  | closed n _ ih =>
      intro t h
      exact ih (h.close n)

theorem StoreRef.serveAll_of_settled {r : StoreRef} {n : Nat} (hr : r.store = .file n)
    (hguards : r.guards = []) (run : List (Cache × Operation)) :
    ∀ {w : World Vault} {t : FileStore.Contents},
      FileStore.Settled (w.focus (Vault.connected n)) t →
      (r.serveAll run w).1 =
        (FileStore.ledger.performAll (run.map (fun p => (p.1.config, p.2))) t).1 := by
  have hmirrors := backend_mirrors_file hr hguards
  induction run with
  | nil =>
      intro w t _
      rfl
  | cons p rest ih =>
      intro w t hw
      rcases p with ⟨c, o⟩
      rcases Cache.perform_of_keeps (c := { c with target := .ready r }) rfl hmirrors
        FileStore.keeps o hw with ⟨u, w₁, hfirst, hw₁⟩
      simp only [serveAll, bindM_apply hfirst]
      cases hrest : serveAll r rest w₁ with
      | mk outcomes w₂ =>
          have hsame := ih hw₁
          simp only [hrest] at hsame
          simp only [bindM_apply hrest, hsame]
          rfl

/-- Operations that are spread over any stores on a file, which may be opened, let go and closed in
between, have the outcomes that they have on a single store whose file has the same contents. -/
theorem outcomes_spread {file n : Nat} {w w' w₀ : World Vault} {log : List Answer} {r : StoreRef}
    {t : FileStore.Contents} (hfile : Shares file w t) (hrun : Spread file w log w')
    (hr : r.store = .file n) (hguards : r.guards = [])
    (hsingle : FileStore.Settled (w₀.focus (Vault.connected n)) t) :
    log.map Answer.outcome =
      (r.serveAll (log.map (fun a => (a.cache, a.operation))) w₀).1 := by
  have hlog : (log.map (fun a => (a.cache, a.operation))).map (fun p => (p.1.config, p.2)) =
      log.map Answer.configured := by
    simp only [List.map_map]
    rfl
  calc
    log.map Answer.outcome
        = (FileStore.ledger.performAll (log.map Answer.configured) t).1 := hrun.performAll hfile
    _ = (r.serveAll (log.map (fun a => (a.cache, a.operation))) w₀).1 := by
      rw [StoreRef.serveAll_of_settled hr hguards _ hsingle, hlog]

/-- A result with one entity. -/
def onePosting : Posting :=
  ⟨1, "item", ⟨.map [("id", .id "P1"), ("price", .num (.int 5))], none, .empty⟩, some "item"⟩

/-- The first store is let go after a write; what was written is read through the second one. -/
theorem outcomes_spread_two :
    let first := (shopCache 1).perform (.write onePosting) newFile
    let later : World Vault :=
      { first.2 with store := first.2.store.release (fun id => id == .file 2) }
    let second := (shopCache 2).perform (.read 2 "item") later
    Spread 0 newFile
        [⟨shopCache 1, .write onePosting, first.1.1⟩, ⟨shopCache 2, .read 2 "item", second.1.1⟩]
        second.2 ∧
      [first.1.1, second.1.1] = ((StoreRef.mk (Scope.of .persistent "shop" none "local") (.file 1)
        []).serveAll [(shopCache 1, .write onePosting), (shopCache 2, .read 2 "item")]
          newFile).1 := by
  intro first later second
  have hthrough : (StoreId.file 1).Through newFile first.2 :=
    (Cache.through (c := shopCache 1) rfl rfl (.write onePosting) newFile).1
  have hlater : later.store.opened.get? 2 = some (.new 0) := by
    show (first.2.store.release _).opened.get? 2 = _
    simp only [Vault.opened_release, Dict.get?_filter]
    rw [hthrough.opened 2 (by decide)]
    rfl
  have hspread : Spread 0 newFile
      [⟨shopCache 1, .write onePosting, first.1.1⟩, ⟨shopCache 2, .read 2 "item", second.1.1⟩]
      second.2 := by
    refine .perform (n := 1) (s := .new 0) rfl rfl rfl rfl rfl rfl rfl ?_
    refine .released (fun id => id == .file 2) ?_
    exact .perform (n := 2) (s := .new 0) rfl rfl rfl hlater rfl rfl rfl .done
  have hshares : Shares 0 newFile .empty := by
    refine ⟨⟨rfl, ?_⟩, rfl, FileStore.Contents.keyed_empty, by decide⟩
    intro n s hs guid h hlive
    have hmem : (n, s) ∈ [(1, FileStore.new 0), (2, .new 0)] := Dict.get?_eq_some_iff.mp hs
    simp only [List.mem_cons, Prod.mk.injEq, List.not_mem_nil, or_false] at hmem
    rcases hmem with ⟨-, rfl⟩ | ⟨-, rfl⟩
    · cases hlive
    · cases hlive
  refine ⟨hspread, ?_⟩
  exact outcomes_spread (r := ⟨Scope.of .persistent "shop" none "local", .file 1, []⟩) (n := 1)
    hshares hspread rfl rfl (hshares.settled (s := .new 0) rfl rfl rfl)

end EntityCache
