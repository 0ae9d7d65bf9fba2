import EntityCache.Proofs.Cache.Reached

/-!
# Writes that fail

What a failing call of the store leaves behind, depending on how far the write has come:

* `StoreId.shown`: what a query shows to a read in which no call fails.
* `Backend.Follows.post_of_unfetched`: without records nothing happens.
* `Backend.Follows.post_of_unstored`: without the skeleton the records stay as they were saved.
* `read_of_dropped`: what every query shows afterwards.
-/

namespace EntityCache

open Normalize

/-- What a query shows to a read in which no call fails. -/
def StoreId.shown (id : StoreId) (q : QueryKey) (w : World Vault) : Option Value :=
  (id.backend.read q w).1.map CachedResult.data

theorem StoreId.shown_setTime {id : StoreId} {w : World Vault} (hw : id.Sound w) (q : QueryKey)
    (t : Time) : id.shown q (w.setTime t) = (id.catalog w).shown q := by
  let r : StoreRef := ⟨Scope.of .memory "" none "", id, []⟩
  rcases StoreRef.sound_setTime (r := r) t hw with ⟨hsound, hcatalog⟩
  have hread := StoreRef.read_shown (r := r) rfl q hsound
  rw [StoreRef.backend_eq_of_guards rfl, hcatalog] at hread
  exact hread

theorem WriteOutcome.eq_dropped {outcome : WriteOutcome} (hstored : outcome.stored = false)
    (himpacted : outcome.impacted.isEmpty = true) : outcome = .dropped := by
  rcases outcome with ⟨stored, impacted⟩
  obtain rfl : impacted = .empty := KeySet.ext_mem (KeySet.mem_of_isEmpty himpacted)
  obtain rfl : stored = false := hstored
  rfl

/-! ## Failing calls -/

namespace Backend

variable {σ τ : Type} {view : τ → σ} {b' : Backend τ} {b : Backend σ} {Sound : World σ → Prop}
  {catalog : World σ → Catalog} {e : Posting} {w : World τ}

/-- Without records the write is dropped, and nothing has happened. -/
theorem Follows.post_of_unfetched (h : b'.Follows view b) (hserves : b.Serves Sound catalog)
    (config : Config) (u : Upkeep) (hw : Sound (w.focus view)) {failure : StoreError} {w₁ : World τ}
    (hbatch : b'.batch (idsWithin e.response.ids e.response.data) (w.setTime e.time) =
      (.error failure, w₁)) :
    ∃ u' w', b'.post config u e w = ((.dropped, u'), w') ∧
      catalog (w'.focus view) = catalog (w.focus view) := by
  have hw₀ : Sound ((w.setTime e.time).focus view) := hserves.time e.time hw
  -- Without schedules the records would have been found, so this call was refused.
  have hfocus : w₁.focus view = (w.setTime e.time).focus view := by
    rcases h.batch (idsWithin e.response.ids e.response.data) (w.setTime e.time) with
      ⟨_, _, hrefused, hsame⟩ | ⟨_, hrun, -⟩
    · cases hbatch.symm.trans hrefused
      exact hsame
    · rcases hserves.batch (idsWithin e.response.ids e.response.data) hw₀ with ⟨_, _, hbare⟩
      simp only [hbare] at hrun
      cases hbatch.symm.trans hrun
  have habsorb : b'.absorb e.response.data e.response.ids e.requestor (w.setTime e.time) =
      (.error failure, { w₁ with held := (w.setTime e.time).held }) :=
    Act.holding_apply (Act.bind_error hbatch)
  rcases write_of_failed config e.query u habsorb with ⟨signals, hwrite⟩
  rcases h.reviewed hserves.counts u config.maxEntries
    (World.report { w₁ with held := (w.setTime e.time).held } signals) with
    ⟨u', w', later, hreview, hlast⟩
  refine ⟨u', w', post_eq hwrite hreview, ?_⟩
  rw [hlast, hserves.catalog_report, focus_report, hserves.catalog_report]
  calc
    catalog (World.focus view { w₁ with held := (w.setTime e.time).held })
        = catalog { w₁.focus view with held := w.held } := rfl
    _ = catalog ((w.setTime e.time).focus view) := by simp only [hfocus]; rfl
    _ = catalog (w.focus view) := hserves.catalog_time (w.focus view) e.time

/-- Without the skeleton the records stay as they were saved. -/
theorem Follows.post_of_unstored (h : b'.Follows view b) (hserves : b.Serves Sound catalog)
    (config : Config) (u : Upkeep) (hw : Sound (w.focus view)) {pass : Pass} {w₁ w₂ : World τ}
    {failure : StoreError}
    (habsorb : b'.absorb e.response.data e.response.ids e.requestor (w.setTime e.time) =
      (.ok pass, w₁))
    (hset : b'.setTree e.query (Entry.new e.query pass.root.text (e.span config) (some pass.root)
      w₁.now) w₁ = (.error failure, w₂)) :
    ∃ fields u' w', b'.post config u e w = ((⟨false, pass.impacted⟩, u'), w') ∧
      catalog (w'.focus view) = catalog (w₁.focus view) ∧
      Catalog.Absorbs e fields pass.impacted (catalog (w.focus view))
        (catalog (w₁.focus view)) := by
  have hw₀ : Sound ((w.setTime e.time).focus view) := hserves.time e.time hw
  have hcatalog : catalog ((w.setTime e.time).focus view) = catalog (w.focus view) :=
    hserves.catalog_time (w.focus view) e.time
  -- The records were absorbed as without schedules.
  have hbare : b.absorb e.response.data e.response.ids e.requestor ((w.setTime e.time).focus view) =
      (.ok pass, w₁.focus view) := by
    rcases h.absorb e.response.data e.response.ids e.requestor (w.setTime e.time) with
      ⟨_, _, hrun, -⟩ | ⟨_, hrun, hfocus⟩ | ⟨_, _, _, _, _, _, _, _, hrun, -⟩
    · cases habsorb.symm.trans hrun
    · rcases Prod.mk.inj (habsorb.symm.trans hrun) with ⟨hanswer, rfl⟩
      exact Prod.ext hanswer.symm hfocus.symm
    · cases habsorb.symm.trans hrun
  rcases hserves.absorb_cases e hw₀ with ⟨_, _, hfailed, -, -⟩ |
    ⟨fields, _, _, hrun, hw₁, -, habsorbs⟩
  · cases hbare.symm.trans hfailed
  cases hbare.symm.trans hrun
  -- The skeleton would have been stored as well.
  have hfocus : w₂.focus view = w₁.focus view := by
    rcases h.setTree e.query (Entry.new e.query pass.root.text (e.span config) (some pass.root)
      w₁.now) w₁ with ⟨_, _, hrefused, hsame⟩ | ⟨_, hrun, -⟩
    · cases hset.symm.trans hrefused
      exact hsame
    · rcases hserves.setTree e.query pass.root (e.span config) hw₁ with ⟨_, hstored, -, -⟩
      have hanswer := congrArg Prod.fst (hset.symm.trans hrun)
      have hok := congrArg Prod.fst hstored
      cases hanswer.trans hok
  rcases write_of_unstored config e.query u habsorb hset with ⟨u₁, signals, hwrite⟩
  rcases h.reviewed hserves.counts u₁ config.maxEntries (w₂.report signals) with
    ⟨u', w', later, hreview, hlast⟩
  simp only [hcatalog] at habsorbs
  refine ⟨fields, u', w', post_eq hwrite hreview, ?_, habsorbs⟩
  rw [hlast, hserves.catalog_report, focus_report, hserves.catalog_report, hfocus]

end Backend

/-! ## What is shown afterwards -/

/-- After any run, through any schedule of failures: a write that gets no records is dropped, and
every query shows what it showed before.  A write whose skeleton alone is not stored keeps all that
was absorbed and says whom this concerns: no skeleton changes, and a query that shows something else
is impacted, unless it is the requestor itself or was not listed for all the entities that it
names. -/
theorem read_of_dropped {allowed : Posting → Prop} (c : Cache) (r : StoreRef) (w : World Vault)
    (e : Posting) (hreached : Reached allowed r.store w) (hstore : c.store? = some r) :
    (∀ failure, (r.backend.batch (idsWithin e.response.ids e.response.data)
        (w.setTime e.time)).1 = .error failure →
      (c.post e w).1.1 = .dropped ∧
      ∀ q t t', r.store.shown q ((c.post e w).2.setTime t') = r.store.shown q (w.setTime t)) ∧
    ∀ pass w₁ failure, r.backend.absorb e.response.data e.response.ids e.requestor
        (w.setTime e.time) = (.ok pass, w₁) →
      (r.backend.setTree e.query (Entry.new e.query pass.root.text (e.span c.config)
        (some pass.root) w₁.now) w₁).1 = .error failure →
      (c.post e w).1.1 = ⟨false, pass.impacted⟩ ∧
      r.store.catalog (c.post e w).2 = r.store.catalog w₁ ∧
      (∀ q, (r.store.catalog (c.post e w).2).skeleton? q = (r.store.catalog w).skeleton? q) ∧
      ∀ q t t', r.store.shown q ((c.post e w).2.setTime t') = r.store.shown q (w.setTime t) ∨
        pass.impacted.mem q = true ∨ e.requestor = some q ∨
        ∃ n, (r.store.catalog w).skeleton? q = some n ∧
          ∃ guid ∈ n.guidList, ¬ (r.store.catalog w).Lists guid q := by
  have hbefore := hreached.sound
  rcases StoreRef.posts c.config c.upkeep e hbefore with ⟨_, _, _, hpost, hafter, -⟩
  -- Before and after the write the store is sound, so a read shows what its catalog says.
  have hshown : ∀ q t t', r.store.shown q ((c.post e w).2.setTime t') =
      (r.store.catalog (c.post e w).2).shown q ∧
      r.store.shown q (w.setTime t) = (r.store.catalog w).shown q := by
    intro q t t'
    simp only [Cache.post_apply hstore e hpost]
    exact ⟨StoreId.shown_setTime hafter q t', StoreId.shown_setTime hbefore q t⟩
  rcases r.served with ⟨σ, view, b, Sound, catalog, hserves, hfollows, -, hsound, hcatalog⟩
  simp only [hsound] at hbefore
  constructor
  · intro failure hbatch
    rcases hfollows.post_of_unfetched (e := e) hserves c.config c.upkeep
      hbefore (Prod.ext hbatch rfl) with ⟨u', w', hpost', hsame⟩
    have hlast := Cache.post_apply hstore e hpost'
    refine ⟨by simp only [hlast], ?_⟩
    intro q t t'
    calc
      r.store.shown q ((c.post e w).2.setTime t')
          = (r.store.catalog (c.post e w).2).shown q := (hshown q t t').1
      _ = (r.store.catalog w).shown q := by rw [hlast, hcatalog, hcatalog, hsame]
      _ = r.store.shown q (w.setTime t) := (hshown q t t').2.symm
  · intro pass w₁ failure habsorb hset
    rcases hfollows.post_of_unstored hserves c.config
      c.upkeep hbefore habsorb (Prod.ext hset rfl) with ⟨fields, u', w', hpost', hkept, habsorbs⟩
    have hlast := Cache.post_apply hstore e hpost'
    rw [← hcatalog, ← hcatalog] at hkept habsorbs
    simp only [← hkept] at habsorbs
    refine ⟨by simp only [hlast], by simp only [hlast]; exact hkept, ?_, ?_⟩
    · intro q
      simp only [hlast]
      exact habsorbs.grows.skeleton? q
    · intro q t t'
      rw [(hshown q t t').1, (hshown q t t').2, hlast]
      exact habsorbs.shown_or q

/-! ## A store that fails once -/

def injected : StoreError :=
  .backend (.told "injected failure")

/-- A new store in memory behind a schedule that fails one call. -/
def failingWorld (call : Nat) : World Vault :=
  ⟨.empty, [], [], 0, { Vault.empty false with
    schedules := .ofList [(0, .new (fun n => if n = call then some injected else none))] }⟩

def failingRef : StoreRef :=
  ⟨Scope.of .memory "shop" none "local", .memory 0, [0]⟩

def failingCache : Cache :=
  { Cache.new .default false with target := .ready failingRef }

/-- An item with its price. -/
def pricePosting (t : Time) (price : Int) : Posting :=
  ⟨t, "item", ⟨.map [("item", .map [("id", .id "P1"), ("price", .num (.int price))])], none,
    .empty⟩, some "item"⟩

/-- A first price was written with three calls, and one of the later calls is to fail. -/
def pricedWorld (call : Nat) : World Vault :=
  (failingCache.post (pricePosting 1 10) (failingWorld call)).2

theorem reached_pricedWorld (call : Nat) :
    Reached (fun _ => True) failingRef.store (pricedWorld call) :=
  .posted (c := failingCache) (r := failingRef) (.memory rfl) rfl trivial

/-- A call behind the schedule fails where the schedule says so. -/
theorem fails_of_refused {α : Type} (call : Act Vault α) {w : World Vault}
    (hrefused : (Vault.pass 0 w).1.toOption.isNone = true) :
    ∃ failure, ((do Vault.pass 0; call) w).1 = .error failure := by
  cases hpass : Vault.pass 0 w with
  | mk answer w₁ =>
      cases answer with
      | error failure =>
          exact ⟨failure, congrArg Prod.fst (Act.bind_error hpass)⟩
      | ok _ =>
          simp only [hpass] at hrefused
          cases hrefused

/-- The second write fails at its records, or else at its skeleton. -/
theorem read_of_dropped_item :
    ((failingCache.post (pricePosting 2 20) (pricedWorld 4)).1.1 = .dropped ∧
      failingRef.store.shown "item"
        ((failingCache.post (pricePosting 2 20) (pricedWorld 4)).2.setTime 3) =
          failingRef.store.shown "item" ((pricedWorld 4).setTime 2)) ∧
    (failingCache.post (pricePosting 2 20) (pricedWorld 6)).1.1.stored = false := by
  constructor
  · rcases fails_of_refused
      ((StoreId.memory 0).backend.batch (idsWithin .empty (pricePosting 2 20).response.data))
      (w := (pricedWorld 4).setTime 2) (by decide +kernel) with ⟨failure, hbatch⟩
    rcases (read_of_dropped failingCache failingRef (pricedWorld 4)
      (pricePosting 2 20) (reached_pricedWorld 4) rfl).1 failure hbatch with ⟨houtcome, hshown⟩
    exact ⟨houtcome, hshown "item" 2 3⟩
  · cases habsorb : failingRef.backend.absorb (pricePosting 2 20).response.data
        (pricePosting 2 20).response.ids (pricePosting 2 20).requestor
        ((pricedWorld 6).setTime 2) with
    | mk answer w₁ =>
        have hok : (failingRef.backend.absorb (pricePosting 2 20).response.data
            (pricePosting 2 20).response.ids (pricePosting 2 20).requestor
            ((pricedWorld 6).setTime 2)).1.toOption.isSome = true := by
          decide +kernel
        have hrefused : (Vault.pass 0 (failingRef.backend.absorb (pricePosting 2 20).response.data
            (pricePosting 2 20).response.ids (pricePosting 2 20).requestor
            ((pricedWorld 6).setTime 2)).2).1.toOption.isNone = true := by
          decide +kernel
        simp only [habsorb] at hok hrefused
        cases answer with
        | error failure =>
            cases hok
        | ok pass =>
            rcases fails_of_refused
              ((StoreId.memory 0).backend.setTree "item"
                (Entry.new "item" pass.root.text ((pricePosting 2 20).span failingCache.config)
                  (some pass.root) w₁.now)) hrefused with ⟨failure, hset⟩
            rcases (read_of_dropped failingCache failingRef (pricedWorld 6)
              (pricePosting 2 20) (reached_pricedWorld 6) rfl).2 pass w₁ failure habsorb hset with
              ⟨houtcome, -⟩
            simp only [houtcome]

/-- A write may return the outcome of a dropped one, and yet its own query shows something else: its
records were saved before its skeleton was refused, and nobody else is concerned. -/
theorem not_shown_of_dropped :
    ¬ ∀ (c : Cache) (r : StoreRef) (w : World Vault) (e : Posting),
      Reached (fun _ => True) r.store w → c.store? = some r → e.response.data.isMap = true →
      (c.post e w).1.1 = .dropped → ∀ q t t',
        r.store.shown q ((c.post e w).2.setTime t') = r.store.shown q (w.setTime t) := by
  intro hall
  have houtcome : (failingCache.post (pricePosting 2 20) (pricedWorld 6)).1.1 = .dropped :=
    WriteOutcome.eq_dropped (by decide +kernel) (by decide +kernel)
  have hsame := hall failingCache failingRef (pricedWorld 6) (pricePosting 2 20)
    (reached_pricedWorld 6) rfl rfl houtcome "item" 2 3
  have htext := congrArg (Option.map Value.text) hsame
  revert htext
  decide +kernel

end EntityCache
