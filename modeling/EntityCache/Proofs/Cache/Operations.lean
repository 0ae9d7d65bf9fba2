import EntityCache.Proofs.Cache.Postings
import EntityCache.Proofs.Normalize.Merged

/-!
# Operations

* `Operation`, `Outcome`: everything that a cache is asked for, and what it answers.
* `Backend.perform`, `Cache.perform`: one operation; `Cache.performAll`: a run of them.
* `Cache.perform_apply`: a cache does what it does through the backend of its store.
* `Ledger`: what a store keeps, as plain data, with the change that each call makes to it.
* `Backend.Keeps`: the calls of a backend do to a ledger what they should; then every operation
  answers what the ledger says, and leaves what the ledger says.
-/

namespace EntityCache

open Normalize

/-- What a cache is asked for. -/
inductive Operation where
  | write (e : Posting)
  | read (time : Time) (q : QueryKey)
  | lookup (time : Time) (q : QueryKey) (policy : FetchPolicy)
  | stats (time : Time)

/-- What a cache answers. -/
inductive Outcome where
  | written (outcome : WriteOutcome)
  | shown (result : Option CachedResult)
  | decided (decision : Decision)
  | counted (counts : Option Counts)

namespace Operation

/-- The time of an operation. -/
def time : Operation → Time
  | write e => e.time
  | read time _ => time
  | lookup time _ _ => time
  | stats time => time

/-- The answer of a cache that has no store. -/
def unserved : Operation → Outcome
  | write _ => .written .dropped
  | read _ _ => .shown none
  | lookup _ _ policy => .decided (policy.choose none)
  | stats _ => .counted none

end Operation

/-! ## Through a backend -/

/-- An operation through a backend. -/
def Backend.perform {σ : Type} (b : Backend σ) (config : Config) (u : Upkeep) :
    Operation → StateM (World σ) (Outcome × Upkeep)
  | .write e => do
      let (outcome, u) ← b.post config u e
      pure (.written outcome, u)
  | .read time q => do
      modify (fun w => w.setTime time)
      let result ← b.read q
      pure (.shown result, u)
  | .lookup time q policy => do
      modify (fun w => w.setTime time)
      let decision ← b.lookup q policy
      pure (.decided decision, u)
  | .stats time => do
      modify (fun w => w.setTime time)
      let counts ← b.countEntries
      pure (.counted counts, u)

namespace Backend.Mirrors

variable {σ τ : Type} {view : τ → σ} {b' : Backend τ} {b : Backend σ}

theorem lookup (h : b'.Mirrors view b) (q : QueryKey) (policy : FetchPolicy) :
    EntityCache.Mirrors view (b'.lookup q policy) (b.lookup q policy) := by
  cases policy with
  | serverOnly =>
      exact .pureM _
  | preferCache =>
      exact .bindM (h.read q) fun result => .pureM _
  | cacheOnly =>
      exact .bindM (h.read q) fun result => .pureM _

theorem countEntries (h : b'.Mirrors view b) :
    EntityCache.Mirrors view b'.countEntries b.countEntries := by
  refine .bindM (Backend.levels_mirrors h.backing h.counts) fun r => ?_
  cases r with
  | error _ =>
      exact .bindM (.note _) fun _ => .pureM none
  | ok n =>
      exact .pureM (some n)

/-- An operation concerns no other store. -/
theorem perform (h : b'.Mirrors view b) (config : Config) (u : Upkeep) (o : Operation) :
    EntityCache.Mirrors view (b'.perform config u o) (b.perform config u o) := by
  have htime : ∀ t, EntityCache.Mirrors view
      (modify (fun w => w.setTime t) : StateM (World τ) PUnit)
      (modify (fun w => w.setTime t) : StateM (World σ) PUnit) := by
    intro t w
    exact ⟨rfl, rfl⟩
  cases o with
  | write e =>
      exact .bindM (h.post config u e) fun answer => .pureM _
  | read t q =>
      exact .bindM (htime t) fun _ => .bindM (h.read q) fun result => .pureM _
  | lookup t q policy =>
      exact .bindM (htime t) fun _ => .bindM (h.lookup q policy) fun decision => .pureM _
  | stats t =>
      exact .bindM (htime t) fun _ => .bindM h.countEntries fun counts => .pureM _

end Backend.Mirrors

/-! ## Through a cache -/

namespace Cache

/-- An operation through a cache. -/
def perform (c : Cache) : Operation → StateM (World Vault) (Outcome × Cache)
  | .write e => do
      let (outcome, c) ← c.post e
      pure (.written outcome, c)
  | .read time q => do
      modify (fun w => w.setTime time)
      let result ← c.read q
      pure (.shown result, c)
  | .lookup time q policy => do
      modify (fun w => w.setTime time)
      let decision ← c.lookup q policy
      pure (.decided decision, c)
  | .stats time => do
      modify (fun w => w.setTime time)
      let counts ← c.stats
      pure (.counted counts, c)

/-- Operations through a cache, one after the other. -/
def performAll (c : Cache) : List Operation → StateM (World Vault) (List Outcome × Cache)
  | [] => pure ([], c)
  | o :: rest => do
      let (outcome, c) ← c.perform o
      let (outcomes, c) ← c.performAll rest
      pure (outcome :: outcomes, c)

theorem performAll_cons {c c₁ c₂ : Cache} {o : Operation} {rest : List Operation}
    {w w₁ w₂ : World Vault} {outcome : Outcome} {outcomes : List Outcome}
    (hfirst : c.perform o w = ((outcome, c₁), w₁))
    (hrest : c₁.performAll rest w₁ = ((outcomes, c₂), w₂)) :
    c.performAll (o :: rest) w = ((outcome :: outcomes, c₂), w₂) := by
  simp only [performAll, bindM_apply hfirst]
  exact (bindM_apply hrest).trans rfl

/-- A cache does what it does through the backend of its store. -/
theorem perform_apply {c : Cache} {r : StoreRef} (hstore : c.store? = some r) {o : Operation}
    {w w' : World Vault} {outcome : Outcome} {u : Upkeep}
    (hrun : r.backend.perform c.config c.upkeep o w = ((outcome, u), w')) :
    c.perform o w = ((outcome, { c with upkeep := u }), w') := by
  -- Only a write changes what is kept up.
  have hsame : ∀ {α : Type} {m : StateM (World Vault) α} {v : World Vault} {f : α → Outcome},
      ((m >>= fun a => pure (f a, c.upkeep)) : StateM (World Vault) (Outcome × Upkeep)) v =
        ((outcome, u), w') →
      ((m >>= fun a => pure (f a, c)) : StateM (World Vault) (Outcome × Cache)) v =
        ((outcome, { c with upkeep := u }), w') := by
    intro α m v f hm
    cases hm
    rfl
  cases o with
  | write e =>
      cases hpost : r.backend.post c.config c.upkeep e w with
      | mk answer w₁ =>
          rcases answer with ⟨outcome₁, u₁⟩
          cases (((bindM_apply hpost).trans rfl).symm.trans hrun :
            ((Outcome.written outcome₁, u₁), w₁) = _)
          exact (bindM_apply (post_apply hstore e hpost)).trans rfl
  | read t q =>
      simp only [Backend.perform, bindM_apply (m := modify _) rfl] at hrun
      simp only [perform, read, hstore, bindM_apply (m := modify _) rfl]
      exact hsame hrun
  | lookup t q policy =>
      simp only [Backend.perform, bindM_apply (m := modify _) rfl] at hrun
      simp only [perform, lookup, hstore, bindM_apply (m := modify _) rfl]
      exact hsame hrun
  | stats t =>
      simp only [Backend.perform, bindM_apply (m := modify _) rfl] at hrun
      simp only [perform, stats, hstore, bindM_apply (m := modify _) rfl]
      exact hsame hrun

/-- A cache without a store answers all the same, and changes nothing but the time. -/
theorem perform_of_none {c : Cache} (hstore : c.store? = none) (o : Operation) (w : World Vault) :
    c.perform o w = ((o.unserved, c), w.setTime o.time) := by
  cases o with
  | write e =>
      have hwrite : c.write e.query e.response e.requestor (w.setTime e.time) =
          ((.dropped, c), w.setTime e.time) := by
        simp only [write, hstore]
        rfl
      -- A dropped write leaves no size to look at.
      have hreview : c.review (w.setTime e.time) = (c, w.setTime e.time) := by
        simp only [review, hstore]
        rfl
      have hpost : c.post e w = ((.dropped, c), w.setTime e.time) := by
        simp only [post, bindM_apply (m := modify _) rfl, bindM_apply hwrite]
        exact (bindM_apply hreview).trans rfl
      exact (bindM_apply hpost).trans rfl
  | read t q =>
      simp only [perform, read, hstore]
      rfl
  | lookup t q policy =>
      simp only [perform, lookup, hstore]
      rfl
  | stats t =>
      simp only [perform, stats, hstore]
      rfl

end Cache

/-! ## Ledgers -/

/-- How what a store keeps, as data of type `S`, answers the calls on it and changes with them. -/
structure Ledger (S : Type) where
  /-- The record that is handed out for an entity. -/
  record : S → Guid → Record
  /-- Every one of the entities has a record from now on. -/
  made : KeySet Guid → S → S
  /-- An object of the server is split over the records of its entities. -/
  absorbed : IdIndex → List (String × Value) → Option QueryKey → S → S
  stored : QueryKey → Entry → S → S
  /-- What a query shows at a time. -/
  shown : Time → QueryKey → S → Option CachedResult
  /-- What a query shows has been looked at. -/
  accessed : Time → QueryKey → S → S
  counts : S → Counts

namespace Ledger

variable {S : Type} (l : Ledger S) (config : Config)

/-- A write: an object is absorbed and its skeleton stored, anything else is refused. -/
def post (e : Posting) (s : S) : WriteOutcome × S :=
  match e.response.data with
  | .map fields =>
      (⟨true, impactedBy e.response.ids fields e.requestor (l.record s)⟩,
        l.stored e.query (e.entry config (skeletonOf e.response.ids fields))
          (l.absorbed e.response.ids fields e.requestor s))
  | v => (.dropped, l.made (idsWithin e.response.ids v) s)

/-- A look-up.  What a query shows matters unless the policy passes it by. -/
def lookup (time : Time) (q : QueryKey) (policy : FetchPolicy) (s : S) : Decision × S :=
  match policy with
  | .serverOnly => (policy.choose none, s)
  | _ => (policy.choose (l.shown time q s), l.accessed time q s)

def perform (o : Operation) (s : S) : Outcome × S :=
  match o with
  | .write e => (.written (l.post config e s).1, (l.post config e s).2)
  | .read time q => (.shown (l.shown time q s), l.accessed time q s)
  | .lookup time q policy =>
      (.decided (l.lookup time q policy s).1, (l.lookup time q policy s).2)
  | .stats _ => (.counted (some (l.counts s)), s)

/-- A run, each operation of which has its own configuration. -/
def performAll : List (Config × Operation) → S → List Outcome × S
  | [], s => ([], s)
  | (config, o) :: rest, s =>
      let (outcome, s) := l.perform config o s
      let (outcomes, s) := performAll rest s
      (outcome :: outcomes, s)

theorem performAll_cons (o : Operation) (rest : List (Config × Operation)) (s : S) :
    l.performAll ((config, o) :: rest) s =
      ((l.perform config o s).1 :: (l.performAll rest (l.perform config o s).2).1,
        (l.performAll rest (l.perform config o s).2).2) := rfl

theorem post_map {e : Posting} {fields : List (String × Value)}
    (hfields : e.response.data = .map fields) (s : S) :
    l.post config e s = (⟨true, impactedBy e.response.ids fields e.requestor (l.record s)⟩,
      l.stored e.query (e.entry config (skeletonOf e.response.ids fields))
        (l.absorbed e.response.ids fields e.requestor s)) := by
  simp only [post, hfields]

theorem post_other {e : Posting} (hdata : e.response.data.isMap = false) (s : S) :
    l.post config e s = (.dropped, l.made (idsWithin e.response.ids e.response.data) s) := by
  simp only [post]
  split
  · next fields hfields =>
      simp only [hfields] at hdata
      cases hdata
  · rfl

end Ledger

/-- The calls of a backend do to a ledger what they should. -/
structure Backend.Keeps {σ S : Type} (b : Backend σ) (l : Ledger S) (Holds : World σ → S → Prop) :
    Prop where
  report : ∀ {w s} (signals : Journal), Holds w s → Holds (w.report signals) s
  time : ∀ {w s} (t : Time), Holds w s → Holds (w.setTime t) s
  absorb : ∀ fields ids requestor {w s}, Holds w s → ∃ pass w',
    b.absorb (.map fields) ids requestor w = (.ok pass, w') ∧
    Holds w' (l.absorbed ids fields requestor s) ∧ w'.now = w.now ∧
    pass.root = skeletonOf ids fields ∧ pass.impacted = impactedBy ids fields requestor (l.record s)
  /-- What is no object is refused. -/
  refuse : ∀ {v} ids requestor {w s}, v.isMap = false → Holds w s → ∃ e w',
    b.absorb v ids requestor w = (.error e, w') ∧ Holds w' (l.made (idsWithin ids v) s)
  setTree : ∀ q n span {w s}, Holds w s → ∃ w',
    b.setTree q (Entry.new q n.text span (some n) w.now) w = (.ok (), w') ∧
    Holds w' (l.stored q (Entry.new q n.text span (some n) w.now) s)
  read : ∀ q {w s}, Holds w s → ∃ w',
    b.read q w = (l.shown w.now q s, w') ∧ Holds w' (l.accessed w.now q s)
  counts : ∀ {w s}, Holds w s → b.counts w = (.ok (l.counts s), w)

namespace Backend.Keeps

variable {σ S : Type} {b : Backend σ} {l : Ledger S} {Holds : World σ → S → Prop} {w : World σ}
  {s : S}

/-- A write answers what the ledger says. -/
theorem post (h : b.Keeps l Holds) (config : Config) (u : Upkeep) (e : Posting) (hw : Holds w s) :
    ∃ u' w', b.post config u e w = (((l.post config e s).1, u'), w') ∧
      Holds w' (l.post config e s).2 := by
  have hw₀ : Holds (w.setTime e.time) s := h.time e.time hw
  cases hdata : e.response.data.isMap with
  | false =>
      simp only [l.post_other config hdata]
      rcases h.refuse e.response.ids e.requestor hdata hw₀ with ⟨failure, w₁, habsorb, hw₁⟩
      rcases Backend.write_of_failed config e.query u habsorb with ⟨signals, hwrite⟩
      have hw₂ := h.report signals hw₁
      rcases Backend.review_apply (h.counts hw₂) u config.maxEntries with ⟨u', later, hreview⟩
      exact ⟨u', _, Backend.post_eq hwrite hreview, h.report later hw₂⟩
  | true =>
      rcases exists_fields_of_isMap hdata with ⟨fields, hfields⟩
      simp only [l.post_map config hfields]
      rcases h.absorb fields e.response.ids e.requestor hw₀ with
        ⟨pass, w₁, habsorb, hw₁, hnow, hroot, himpacted⟩
      simp only [← hfields] at habsorb
      -- The skeleton is that of the object, and the time is that of the write.
      have hentry : Entry.new e.query pass.root.text (e.span config) (some pass.root) w₁.now =
          e.entry config (skeletonOf e.response.ids fields) := by
        simp only [hroot, hnow]
        rfl
      rcases h.setTree e.query pass.root (e.span config) hw₁ with ⟨w₂, hset, hw₂⟩
      simp only [hentry] at hw₂
      rcases Backend.write_of_stored config e.query u habsorb hset with ⟨u₁, signals, hwrite⟩
      have hw₃ := h.report signals hw₂
      rcases Backend.review_apply (h.counts hw₃) u₁ config.maxEntries with ⟨u', later, hreview⟩
      simp only [← himpacted]
      exact ⟨u', _, Backend.post_eq hwrite hreview, h.report later hw₃⟩

theorem lookup (h : b.Keeps l Holds) (q : QueryKey) (policy : FetchPolicy) (hw : Holds w s) :
    ∃ w', b.lookup q policy w = ((l.lookup w.now q policy s).1, w') ∧
      Holds w' (l.lookup w.now q policy s).2 := by
  rcases h.read q hw with ⟨w', hread, hw'⟩
  cases policy with
  | serverOnly =>
      exact ⟨w, rfl, hw⟩
  | preferCache =>
      exact ⟨w', (bindM_apply hread).trans rfl, hw'⟩
  | cacheOnly =>
      exact ⟨w', (bindM_apply hread).trans rfl, hw'⟩

theorem countEntries (h : b.Keeps l Holds) (hw : Holds w s) : ∃ w',
    b.countEntries w = (some (l.counts s), w') ∧ Holds w' s := by
  rcases Backend.levels_apply (h.counts hw) with ⟨signals, hlevels⟩
  exact ⟨_, (bindM_apply hlevels).trans rfl, h.report signals hw⟩

/-- An operation answers what the ledger says, and leaves what the ledger says. -/
theorem perform (h : b.Keeps l Holds) (config : Config) (u : Upkeep) (o : Operation)
    (hw : Holds w s) : ∃ u' w',
      b.perform config u o w = (((l.perform config o s).1, u'), w') ∧
        Holds w' (l.perform config o s).2 := by
  -- Other than a write, an operation sets the time and makes one call.
  cases o with
  | write e =>
      rcases h.post config u e hw with ⟨u', w', hpost, hw'⟩
      exact ⟨u', w', (bindM_apply hpost).trans rfl, hw'⟩
  | read t q =>
      rcases h.read q (h.time t hw) with ⟨w', hread, hw'⟩
      refine ⟨u, w', ?_, hw'⟩
      simp only [Backend.perform, bindM_apply (m := modify _) rfl]
      exact (bindM_apply hread).trans rfl
  | lookup t q policy =>
      rcases h.lookup q policy (h.time t hw) with ⟨w', hlookup, hw'⟩
      refine ⟨u, w', ?_, hw'⟩
      simp only [Backend.perform, bindM_apply (m := modify _) rfl]
      exact (bindM_apply hlookup).trans rfl
  | stats t =>
      rcases h.countEntries (h.time t hw) with ⟨w', hcounts, hw'⟩
      refine ⟨u, w', ?_, hw'⟩
      simp only [Backend.perform, bindM_apply (m := modify _) rfl]
      exact (bindM_apply hcounts).trans rfl

end Backend.Keeps

/-! ## Runs of a cache -/

/-- An operation through a cache answers what the ledger of its store says. -/
theorem Cache.perform_of_keeps {σ S : Type} {view : Vault → σ} {b : Backend σ} {l : Ledger S}
    {Holds : World σ → S → Prop} {c : Cache} {r : StoreRef} (hstore : c.store? = some r)
    (hmirrors : r.backend.Mirrors view b) (hkeeps : b.Keeps l Holds) (o : Operation)
    {w : World Vault} {s : S} (hw : Holds (w.focus view) s) : ∃ u w',
      c.perform o w = (((l.perform c.config o s).1, { c with upkeep := u }), w') ∧
        Holds (w'.focus view) (l.perform c.config o s).2 := by
  rcases hkeeps.perform c.config c.upkeep o hw with ⟨u, v, hrun, hv⟩
  rcases (hmirrors.perform c.config c.upkeep o).eq hrun with ⟨w', hrun', rfl⟩
  exact ⟨u, w', perform_apply hstore hrun', hv⟩

/-- A run through a cache answers what the ledger of its store says. -/
theorem Cache.performAll_of_keeps {σ S : Type} {view : Vault → σ} {b : Backend σ} {l : Ledger S}
    {Holds : World σ → S → Prop} {r : StoreRef} (hmirrors : r.backend.Mirrors view b)
    (hkeeps : b.Keeps l Holds) (run : List Operation) :
    ∀ {c : Cache} {w : World Vault} {s : S}, c.store? = some r → Holds (w.focus view) s →
      ∃ c' w', c.performAll run w =
          (((l.performAll (run.map (fun o => (c.config, o))) s).1, c'), w') ∧
        Holds (w'.focus view) (l.performAll (run.map (fun o => (c.config, o))) s).2 := by
  induction run with
  | nil =>
      intro c w s _ hw
      exact ⟨c, w, rfl, hw⟩
  | cons o rest ih =>
      intro c w s hstore hw
      rcases perform_of_keeps hstore hmirrors hkeeps o hw with ⟨u, w₁, hfirst, hw₁⟩
      rcases ih (c := { c with upkeep := u }) hstore hw₁ with ⟨c', w', hrest, hw'⟩
      exact ⟨c', w', performAll_cons hfirst hrest, hw'⟩

end EntityCache
