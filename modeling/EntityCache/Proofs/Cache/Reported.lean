import EntityCache.Proofs.Cache.Notified
import EntityCache.Proofs.Cache.Recorded
import EntityCache.Proofs.Normalize.Named
import EntityCache.Proofs.Store.Damage

/-!
# Whom a write reports

The queries that an entity is listed for only ever grow in number, while the result of a query is
replaced by its next write.  So a write reports every other query that has ever brought a touched
entity, be it in a result that has been replaced since:

* `Posting.Touches`, `Posting.Places`: the entities that a write touches, and those of them that the
  skeleton of its result names.
* `Ledger.Enlists`: what the calls on a ledger do to the queries that entities are listed for, and
  to the rows of results.
* `Ledger.Recalls`: an entity is listed for the queries that have touched it, and the row of a query
  is that of its latest result; kept by every operation.
* `Reports`: whom a write reports, and what is stored for them.
* `Cache.write_reports`: so it is after every run of a cache on a new store.
-/

namespace EntityCache

open Normalize

/-! ## Entities of a write -/

namespace Posting

/-- The result has an object of the entity, in a list that is kept as a whole or not. -/
def Touches (e : Posting) (guid : Guid) : Prop :=
  HasEntity e.response.ids guid (visits e.response.data)

/-- The skeleton of the result has a node for an object of the entity. -/
def Places (e : Posting) (guid : Guid) : Prop :=
  HasEntity e.response.ids guid (placed e.response.data)

instance (e : Posting) (guid : Guid) : Decidable (e.Touches guid) :=
  inferInstanceAs (Decidable (HasEntity _ _ _))

variable {e : Posting} {guid : Guid}

theorem touches_of_map {fields : List (String × Value)} (hfields : e.response.data = .map fields) :
    e.Touches guid ↔ guid ∈ entitiesOf e.response.ids fields := by
  simp only [Touches, hfields, mem_entitiesOf]
  exact Iff.rfl

/-- What is no object is refused, and touches nothing. -/
theorem not_touches_of_other (hdata : e.response.data.isMap = false) : ¬ e.Touches guid := by
  rintro ⟨o, ho, -⟩
  simp only [visits_of_other hdata] at ho
  cases ho

/-- Whoever touches an entity brings a skeleton. -/
theorem exists_skeleton_of_touches (h : e.Touches guid) : ∃ n, e.skeleton? = some n := by
  cases hdata : e.response.data.isMap with
  | false =>
      exact absurd h (not_touches_of_other hdata)
  | true =>
      rcases exists_fields_of_isMap hdata with ⟨fields, hfields⟩
      exact ⟨_, skeleton?_of_map hfields⟩

theorem mem_guidList_iff {n : Skeleton} :
    e.skeleton? = some n → (guid ∈ n.guidList ↔ e.Places guid) := by
  intro hn
  rcases exists_fields_of_skeleton hn with ⟨fields, hfields, rfl⟩
  simp only [Places, hfields, mem_guidList_skeletonOf]

/-- What the skeleton names is touched. -/
theorem touches_of_mem_guidList {n : Skeleton} :
    e.skeleton? = some n → guid ∈ n.guidList → e.Touches guid := by
  intro hn hguid
  rcases exists_fields_of_skeleton hn with ⟨fields, hfields, rfl⟩
  exact (touches_of_map hfields).mpr (mem_entitiesOf_of_mem_skeletonOf hguid)

end Posting

/-- A query with a write that is not refused has a latest one. -/
theorem exists_latest? {run : List Posting} {e : Posting} {n : Skeleton} (he : e ∈ run)
    (hn : e.skeleton? = some n) : ∃ e' n', latest? run e.query = some (e', n') := by
  have hsome : (latest? run e.query).isSome = true := by
    refine List.findSome?_isSome_iff.mpr ⟨e, List.mem_reverse.mpr he, ?_⟩
    simp only [hn, if_true, Option.map_some, Option.isSome_some]
  rcases Option.isSome_iff_exists.mp hsome with ⟨⟨e', n'⟩, hlatest⟩
  exact ⟨e', n', hlatest⟩

theorem query_of_latest? {run : List Posting} {q : QueryKey} {e : Posting} {n : Skeleton} :
    latest? run q = some (e, n) → e.query = q := by
  intro h
  rcases List.exists_of_findSome?_eq_some h with ⟨e', -, hfound⟩
  split at hfound
  · next hq =>
      rcases Option.map_eq_some_iff.mp hfound with ⟨n', -, hsame⟩
      cases hsame
      exact hq
  · cases hfound

/-! ## Ledgers -/

namespace Ledger

variable {S β : Type}

/-- The entity is listed for the query. -/
def Lists (l : Ledger S) (s : S) (guid : Guid) (q : QueryKey) : Prop :=
  (l.record s guid).dependents.mem q = true

/-- Absorbing an object lists its entities for the requestor, storing an entry replaces the row of
its query, and nothing else changes either, as long as what is kept is `Fit`. -/
structure Enlists (l : Ledger S) (Fit : S → Prop) (row? : S → QueryKey → Option β)
    (form : Entry → β) : Prop where
  made : ∀ guids {s}, Fit s → Fit (l.made guids s) ∧
    (∀ guid q, l.Lists (l.made guids s) guid q ↔ l.Lists s guid q) ∧
    row? (l.made guids s) = row? s
  absorbed : ∀ ids fields requestor {s}, Fit s → Fit (l.absorbed ids fields requestor s) ∧
    (∀ guid q, l.Lists (l.absorbed ids fields requestor s) guid q ↔
      l.Lists s guid q ∨ guid ∈ entitiesOf ids fields ∧ requestor = some q) ∧
    row? (l.absorbed ids fields requestor s) = row? s
  stored : ∀ q e {s}, Fit s → Fit (l.stored q e s) ∧
    (∀ guid q', l.Lists (l.stored q e s) guid q' ↔ l.Lists s guid q') ∧
    ∀ q', row? (l.stored q e s) q' = if q' = q then some (form e) else row? s q'
  accessed : ∀ now q {s}, Fit s → Fit (l.accessed now q s) ∧
    (∀ guid q', l.Lists (l.accessed now q s) guid q' ↔ l.Lists s guid q') ∧
    row? (l.accessed now q s) = row? s

/-- What is kept after a run of writes. -/
structure Recalls (l : Ledger S) (Fit : S → Prop) (row? : S → QueryKey → Option β)
    (form : Entry → β) (config : Config) (run : List Posting) (s : S) : Prop where
  fit : Fit s
  lists : ∀ guid q, l.Lists s guid q ↔ ∃ e ∈ run, e.requestor = some q ∧ e.Touches guid
  row : ∀ q, row? s q = (latest? run q).map (fun (e, n) => form (e.entry config n))

variable {l : Ledger S} {Fit : S → Prop} {row? : S → QueryKey → Option β} {form : Entry → β}
  {config : Config} {run : List Posting} {s : S}

/-- A write reports the other queries that one of its entities is listed for. -/
theorem mem_impacted_post (l : Ledger S) (config : Config) (e : Posting) (s : S) (q : QueryKey) :
    (l.post config e s).1.impacted.mem q = true ↔
      e.requestor ≠ some q ∧ ∃ guid, e.Touches guid ∧ l.Lists s guid q := by
  cases hdata : e.response.data.isMap with
  | false =>
      have hnone : ∀ guid, ¬ e.Touches guid := fun guid => Posting.not_touches_of_other hdata
      simp only [l.post_other config hdata, hnone, false_and, exists_false, and_false, iff_false]
      exact Bool.false_ne_true
  | true =>
      rcases exists_fields_of_isMap hdata with ⟨fields, hfields⟩
      simp only [l.post_map config hfields, mem_impactedBy, Posting.touches_of_map hfields, Lists]

namespace Recalls

/-- One more write is recalled. -/
theorem post (h : Recalls l Fit row? form config run s) (hl : l.Enlists Fit row? form)
    (e : Posting) : Recalls l Fit row? form config (run ++ [e]) (l.post config e s).2 := by
  have hsnoc : ∀ guid q, (∃ e' ∈ run ++ [e], e'.requestor = some q ∧ e'.Touches guid) ↔
      l.Lists s guid q ∨ e.Touches guid ∧ e.requestor = some q := by
    intro guid q
    simp only [h.lists, List.mem_append, List.mem_singleton, or_and_right, exists_or,
      exists_eq_left, and_comm]
  -- A result that is no object touches no entity and leaves no row; an object does both.
  cases hdata : e.response.data.isMap with
  | false =>
      rcases hl.made (idsWithin e.response.ids e.response.data) h.fit with ⟨hfit, hlists, hrow⟩
      simp only [l.post_other config hdata]
      exact
        { fit := hfit
          lists := by
            intro guid q
            simp only [hlists, hsnoc, Posting.not_touches_of_other hdata, false_and, or_false]
          row := by
            intro q
            simp only [hrow, h.row, latest?_append, Posting.skeleton?_of_other hdata,
              Option.map_none, ite_self, Option.none_or] }
  | true =>
      rcases exists_fields_of_isMap hdata with ⟨fields, hfields⟩
      rcases hl.absorbed e.response.ids fields e.requestor h.fit with ⟨hfit, hlists, hrow⟩
      rcases hl.stored e.query (e.entry config (skeletonOf e.response.ids fields)) hfit with
        ⟨hfit', hlists', hrow'⟩
      simp only [l.post_map config hfields]
      exact
        { fit := hfit'
          lists := by
            intro guid q
            simp only [hlists', hlists, hsnoc, Posting.touches_of_map hfields]
          row := by
            intro q
            simp only [hrow', hrow, h.row, latest?_append, Posting.skeleton?_of_map hfields]
            by_cases hq : q = e.query
            · simp only [hq, if_true, Option.map_some, Option.some_or]
            · simp only [if_neg hq, if_neg (Ne.symm hq), Option.none_or] }

/-- Looking at a result leaves the same. -/
theorem accessed (h : Recalls l Fit row? form config run s) (hl : l.Enlists Fit row? form)
    (now : Time) (q : QueryKey) : Recalls l Fit row? form config run (l.accessed now q s) := by
  rcases hl.accessed now q h.fit with ⟨hfit, hlists, hrow⟩
  exact
    { fit := hfit
      lists := fun guid q' => (hlists guid q').trans (h.lists guid q')
      row := fun q' => (congrFun hrow q').trans (h.row q') }

theorem perform (h : Recalls l Fit row? form config run s) (hl : l.Enlists Fit row? form)
    (o : Operation) :
    Recalls l Fit row? form config (run ++ postings [o]) (l.perform config o s).2 := by
  -- What is no write adds nothing to the run.
  have hother : ∀ {s' : S}, Recalls l Fit row? form config run s' → o.posting? = none →
      Recalls l Fit row? form config (run ++ postings [o]) s' := by
    intro s' hs' ho
    have hnone : postings [o] = [] := List.filterMap_cons_none ho
    rw [hnone, List.append_nil]
    exact hs'
  cases o with
  | write e =>
      exact h.post hl e
  | read now q =>
      exact hother (h.accessed hl now q) rfl
  | lookup now q policy =>
      cases policy with
      | serverOnly =>
          exact hother h rfl
      | preferCache =>
          exact hother (h.accessed hl now q) rfl
      | cacheOnly =>
          exact hother (h.accessed hl now q) rfl
  | stats now =>
      exact hother h rfl

/-- After every run on what is kept of nothing. -/
theorem performAll (h : Recalls l Fit row? form config [] s) (hl : l.Enlists Fit row? form)
    (run : List Operation) : Recalls l Fit row? form config (postings run)
      (l.performAll (run.map (fun o => (config, o))) s).2 :=
  l.performAll_induction (P := Recalls l Fit row? form config) (fun o h => h.perform hl o) run h

end Recalls
end Ledger

namespace MemoryStore

/-- The entry of a query, whenever it was looked at last. -/
def Holdings.row? (s : Holdings) (q : QueryKey) : Option Entry :=
  (s.trees.get? q).map (fun e => e.touch 0)

theorem enlists : ledger.Enlists (fun _ => True) Holdings.row? (fun e => e.touch 0) where
  made := by
    intro guids s _
    refine ⟨trivial, fun guid q => ?_, rfl⟩
    simp only [Ledger.Lists, ledger, Holdings.record_made]
  absorbed := by
    intro ids fields requestor s _
    refine ⟨trivial, fun guid q => ?_, rfl⟩
    simp only [Ledger.Lists, ledger, Holdings.record_absorbed]
    split
    · next hguid => simp only [Record.mem_dependents_merged, hguid, true_and]
    · next hguid => simp only [hguid, false_and, or_false]
  stored := by
    intro q e s _
    refine ⟨trivial, fun _ _ => Iff.rfl, fun q' => ?_⟩
    show ((s.trees.insert q e).get? q').map (fun e => e.touch 0) = _
    simp only [Dict.get?_insert]
    split <;> rfl
  accessed := by
    intro now q s _
    refine ⟨trivial, fun _ _ => Iff.rfl, funext fun q' => ?_⟩
    show ((s.accessed now q).trees.get? q').map (fun e => e.touch 0) = _
    simp only [Holdings.get?_accessed, Holdings.row?]
    -- The time of access is not part of the row.
    split
    · simp only [Option.map_map]
      rfl
    · rfl

theorem recalls_empty (config : Config) :
    ledger.Recalls (fun _ => True) Holdings.row? (fun e => e.touch 0) config [] .empty where
  fit := trivial
  lists guid q := by
    simp only [List.not_mem_nil, false_and, exists_false, iff_false]
    exact Bool.false_ne_true
  row _ := rfl

end MemoryStore

namespace FileStore

/-- The bytes in the row of a query. -/
def Contents.row? (t : Contents) (q : QueryKey) : Option ByteArray :=
  (t.trees.get? q).map TreeRow.blob

theorem enlists : ledger.Enlists (fun t => t.Keyed ∧ t.Rowed) Contents.row?
    (fun e => e.text.toUTF8) where
  made := by
    rintro guids t ⟨hkeyed, hrowed⟩
    have hframe := t.frame_makeAll guids.toList
    refine ⟨⟨hkeyed.makeAll _, hrowed.makeAll _⟩, fun guid q => ?_, funext fun q => ?_⟩
    · show ((t.makeAll guids.toList).record guid).dependents.mem q = true ↔ _
      rw [(hrowed.makeAll _).mem_record, hframe.2]
      exact (hrowed.mem_record guid q).symm
    · show ((t.makeAll guids.toList).trees.get? q).map TreeRow.blob = _
      rw [hframe.1]
      rfl
  absorbed := by
    rintro ids fields requestor t ⟨hkeyed, hrowed⟩
    have hrowed' := hrowed.absorbed ids fields requestor
    refine ⟨⟨(hkeyed.makeAll _).saveAll _, hrowed'⟩, fun guid q => ?_, funext fun q => ?_⟩
    · show ((t.absorbed ids fields requestor).record guid).dependents.mem q = true ↔
        (t.record guid).dependents.mem q = true ∨ _
      simp only [hrowed'.mem_record, Contents.mem_dependents_absorbed hkeyed, hrowed.mem_record]
      -- The requestor is added to those that were listed before.
      constructor
      · rintro (hold | ⟨hguid, hold | hnew⟩)
        · exact Or.inl hold
        · exact Or.inl hold
        · exact Or.inr ⟨hguid, hnew⟩
      · rintro (hold | ⟨hguid, hnew⟩)
        · exact Or.inl hold
        · exact Or.inr ⟨hguid, Or.inr hnew⟩
    · show ((t.absorbed ids fields requestor).trees.get? q).map TreeRow.blob = _
      rw [Contents.trees_absorbed]
      rfl
  stored := by
    rintro q e t ⟨hkeyed, hrowed⟩
    refine ⟨⟨hkeyed, hrowed.stored q e⟩, fun _ _ => Iff.rfl, fun q' => ?_⟩
    show ((t.trees.insert q _).get? q').map TreeRow.blob = _
    simp only [Dict.get?_insert, apply_ite (Option.map TreeRow.blob), Option.map_some,
      Contents.row?]
  accessed := by
    rintro now q t ⟨hkeyed, hrowed⟩
    have hrowed' := hrowed.accessed now q
    refine ⟨⟨hkeyed.accessed now q, hrowed'⟩, fun guid q' => ?_, funext fun q' => ?_⟩
    · show ((t.accessed now q).record guid).dependents.mem q' = true ↔ _
      rw [hrowed'.mem_record, t.dependents_accessed]
      exact (hrowed.mem_record guid q').symm
    · exact t.get?_accessed now q q'

theorem recalls_empty (config : Config) : ledger.Recalls (fun t => t.Keyed ∧ t.Rowed)
    Contents.row? (fun e => e.text.toUTF8) config [] .empty where
  fit := ⟨Contents.keyed_empty, Contents.rowed_empty⟩
  lists guid q := by
    simp only [List.not_mem_nil, false_and, exists_false, iff_false]
    exact Bool.false_ne_true
  row _ := rfl

end FileStore

/-! ## Reports -/

/-- The entry is what is stored for a query, whenever it was looked at last. -/
def StoreId.Stores (id : StoreId) (w : World Vault) (q : QueryKey) (e : Entry) : Prop :=
  match id with
  | memory n => ((w.store.memory n).trees.get? q).map (fun e => e.touch 0) = some (e.touch 0)
  | file n => ((w.store.connected n).contents.trees.get? q).map TreeRow.blob = some e.text.toUTF8

/-- Whom a write reports after a run of writes, and what is stored for them. -/
structure Reports (config : Config) (run : List Posting) (e : Posting)
    (impacted : KeySet QueryKey) (Stores : QueryKey → Entry → Prop) : Prop where
  /-- Every other query that has ever brought an entity that is touched, and nobody else. -/
  reported : ∀ q, impacted.mem q = true ↔
    q ≠ e.query ∧ ∃ e' ∈ run, e'.query = q ∧ ∃ guid, e'.Touches guid ∧ e.Touches guid
  /-- Each has its latest result stored, which names a touched entity only if it brings that entity
  itself, and not just in a list that is kept as a whole. -/
  stored : ∀ q, impacted.mem q = true → ∃ e' n, latest? run q = some (e', n) ∧
    Stores q (e'.entry config n) ∧
    ((∃ guid ∈ n.guidList, e.Touches guid) ↔ ∃ guid, e'.Places guid ∧ e.Touches guid)
  /-- Whose stored result names a touched entity is reported. -/
  named : ∀ q e' n, q ≠ e.query → latest? run q = some (e', n) →
    (∃ guid ∈ n.guidList, e.Touches guid) → impacted.mem q = true

namespace Ledger.Recalls

variable {S β : Type} {l : Ledger S} {Fit : S → Prop} {row? : S → QueryKey → Option β}
  {form : Entry → β} {config : Config} {run : List Posting} {s : S} {e : Posting}

/-- Where every write is made for its own query. -/
theorem mem_impacted (h : Recalls l Fit row? form config run s) (hrun : ∀ e ∈ run, e.IsOwn)
    (he : e.IsOwn) (q : QueryKey) : (l.post config e s).1.impacted.mem q = true ↔
      q ≠ e.query ∧ ∃ e' ∈ run, e'.query = q ∧ ∃ guid, e'.Touches guid ∧ e.Touches guid := by
  have hown : e.requestor ≠ some q ↔ q ≠ e.query := by
    rw [he, ne_eq, Option.some.injEq]
    exact ne_comm
  rw [l.mem_impacted_post, hown]
  refine and_congr_right fun _ => ?_
  simp only [h.lists]
  constructor
  · rintro ⟨guid, hguid, e', he', hq, hguid'⟩
    rw [hrun e' he', Option.some.injEq] at hq
    exact ⟨e', he', hq, guid, hguid', hguid⟩
  · rintro ⟨e', he', hq, guid, hguid', hguid⟩
    exact ⟨guid, hguid, e', he', hq ▸ hrun e' he', hguid'⟩

theorem reports (h : Recalls l Fit row? form config run s) (hl : l.Enlists Fit row? form)
    (hrun : ∀ e ∈ run, e.IsOwn) (he : e.IsOwn) {Stores : QueryKey → Entry → Prop}
    (hstores : ∀ q e', row? (l.post config e s).2 q = some (form e') → Stores q e') :
    Reports config run e (l.post config e s).1.impacted Stores where
  reported := h.mem_impacted hrun he
  stored := by
    intro q hq
    rcases (h.mem_impacted hrun he q).mp hq with ⟨hother, e₀, he₀, rfl, guid, hguid, -⟩
    rcases Posting.exists_skeleton_of_touches hguid with ⟨n₀, hn₀⟩
    rcases exists_latest? he₀ hn₀ with ⟨e', n, hlatest⟩
    refine ⟨e', n, hlatest, hstores _ _ ?_, ?_⟩
    -- The write replaces no row but that of its own query.
    · rw [(h.post hl e).row, latest?_append, if_neg (Ne.symm hother), Option.none_or, hlatest]
      rfl
    · simp only [Posting.mem_guidList_iff (mem_of_latest? hlatest).2]
  named := by
    rintro q e' n hq hlatest ⟨guid, hguid, htouched⟩
    rcases mem_of_latest? hlatest with ⟨hmem, hn⟩
    exact (h.mem_impacted hrun he q).mpr ⟨hq, e', hmem, query_of_latest? hlatest, guid,
      Posting.touches_of_mem_guidList hn hguid, htouched⟩

end Ledger.Recalls

/-- A write through a cache reports what the ledger of its store says. -/
theorem Cache.reports_of_keeps {σ S β : Type} {view : Vault → σ} {b : Backend σ} {l : Ledger S}
    {Holds : World σ → S → Prop} {Fit : S → Prop} {row? : S → QueryKey → Option β}
    {form : Entry → β} {c : Cache} {r : StoreRef} (hstore : c.store? = some r)
    (hmirrors : r.backend.Mirrors view b) (hkeeps : b.Keeps l Holds)
    (hl : l.Enlists Fit row? form) {w : World Vault} {s : S} (hw : Holds (w.focus view) s)
    (hs : l.Recalls Fit row? form c.config [] s)
    (hstores : ∀ {w : World Vault} {s : S}, Holds (w.focus view) s → ∀ q e,
      row? s q = some (form e) → r.store.Stores w q e)
    {run : List Operation} (hrun : ∀ e ∈ postings run, e.IsOwn) {e : Posting} (he : e.IsOwn) :
    ∃ r outcomes outcome c' w', c.store? = some r ∧
      c.performAll (run ++ [.write e]) w = ((outcomes ++ [.written outcome], c'), w') ∧
      Reports c.config (postings run) e outcome.impacted (r.store.Stores w') := by
  rcases performAll_of_keeps hmirrors hkeeps (run ++ [.write e]) hstore hw with
    ⟨c', w', hall, hw'⟩
  simp only [List.map_append, List.map_cons, List.map_nil, Ledger.performAll_append] at hall hw'
  exact ⟨r, _, _, c', w', hstore, hall, (hs.performAll hl run).reports hl hrun he (hstores hw')⟩

/-- After any run of a cache on a new store, each of whose writes is made for its own query, one
more such write reports exactly the other queries that have ever brought a touched entity.  Each of
them has its latest result stored; but this one names a touched entity only if it brings one itself,
outside lists that are kept as a whole. -/
theorem Cache.write_reports {c : Cache} {w : World Vault} (hnew : Fresh c w [])
    {run : List Operation} (hrun : ∀ e ∈ postings run, e.IsOwn) {e : Posting} (he : e.IsOwn) :
    ∃ r outcomes outcome c' w', c.store? = some r ∧
      c.performAll (run ++ [.write e]) w = ((outcomes ++ [.written outcome], c'), w') ∧
      Reports c.config (postings run) e outcome.impacted (r.store.Stores w') := by
  cases hnew with
  | @memory r n hstore hr hguards hempty =>
      refine reports_of_keeps hstore (StoreRef.backend_mirrors_memory hr hguards)
        MemoryStore.keeps MemoryStore.enlists (MemoryStore.settled_empty hempty)
        (MemoryStore.recalls_empty c.config) ?_ hrun he
      intro w s hw q e hrow
      have htrees : (w.store.memory n).trees = s.trees := hw.trees
      simp only [StoreId.Stores, hr, htrees]
      exact hrow
  | @file r n hstore hr hguards hsettled hlegible =>
      refine reports_of_keeps hstore (StoreRef.backend_mirrors_file hr hguards)
        FileStore.keeps FileStore.enlists hsettled (FileStore.recalls_empty c.config) ?_ hrun he
      intro w t hw q e hrow
      have hcontents : (w.store.connected n).contents = t :=
        FileStore.Orderly.contents_eq hw.holds
      simp only [StoreId.Stores, hr, hcontents]
      exact hrow

/-- The list once its item is gone. -/
def emptiedPosting : Posting :=
  ⟨2, "list", ⟨.map [("items", .list [])], none, .empty⟩, some "list"⟩

/-- The list is told of the new price of an item that it no longer has: what is stored for it names
no entity at all. -/
theorem Cache.write_reports_emptied : ∃ outcomes outcome c w,
    memoryCache.performAll [.write listPosting, .write emptiedPosting, .write itemPosting]
        ⟨.empty, [], [], 0, .empty false⟩ =
      ((outcomes ++ [.written outcome], c), w) ∧
    outcome.impacted.mem "list" = true ∧
    (StoreId.memory 0).Stores w "list"
      (emptiedPosting.entry memoryCache.config ⟨none, [], [], []⟩) ∧
    (⟨none, [], [], []⟩ : Skeleton).guidList = [] := by
  have hnew : Fresh memoryCache ⟨.empty, [], [], 0, .empty false⟩ [] := .memory rfl rfl rfl rfl
  have hown : ∀ e ∈ postings [.write listPosting, .write emptiedPosting], e.IsOwn :=
    List.forall_mem_cons.mpr ⟨rfl, List.forall_mem_singleton.mpr rfl⟩
  rcases Cache.write_reports hnew hown (e := itemPosting) rfl with
    ⟨r, outcomes, outcome, c', w', hstore, hall, hreports⟩
  have himpacted : outcome.impacted.mem "list" = true := by
    have hshared : listPosting.Touches "P1" ∧ itemPosting.Touches "P1" := by
      decide +kernel
    exact (hreports.reported "list").mpr
      ⟨by decide, listPosting, List.mem_cons_self, rfl, "P1", hshared⟩
  rcases hreports.stored "list" himpacted with ⟨e', n, hlatest, hstored, -⟩
  have hskeleton : emptiedPosting.skeleton? = some ⟨none, [], [], []⟩ := by
    simp [Posting.skeleton?, emptiedPosting, skeletonOf, objectAt, splitFields, splitItems,
      Parts.series, Parts.empty, Parts.skeleton, objectId?, IdIndex.get?, IdIndex.empty,
      Value.idAmong]
  have hlast : latest? ([listPosting] ++ [emptiedPosting]) "list" =
      some (emptiedPosting, ⟨none, [], [], []⟩) := by
    have hquery : emptiedPosting.query = "list" := rfl
    simp only [latest?_append, hskeleton, hquery, if_true, Option.map_some, Option.some_or]
  cases hlatest.symm.trans hlast
  cases hstore
  exact ⟨outcomes, outcome, c', w', hall, himpacted, hstored, rfl⟩

end EntityCache
