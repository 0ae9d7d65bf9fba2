import EntityCache.Proofs.Cache.Reached

/-!
# No missed notification

Where every write is made for its own query, a query that shows something else after the write of
another one is among the impacted ones:

* `Posting.IsOwn`: a write made for its own query.
* `Cache.read_shown`: reads through a cache show what the catalog of its store says.
* `mem_impacted_of_read_ne`: whoever reads something else than before is told.
-/

namespace EntityCache

/-- The write is made for the query whose result it brings. -/
def Posting.IsOwn (e : Posting) : Prop :=
  e.requestor = some e.query

/-- A read at any time shows what the store has to show. -/
theorem Cache.read_shown {c : Cache} {r : StoreRef} {w : World Vault} (hstore : c.store? = some r)
    (hguards : r.guards = []) (hw : r.store.Sound w) (q : QueryKey) (t : Time) :
    (c.read q (w.setTime t)).1.map CachedResult.data = (r.store.catalog w).shown q := by
  rcases StoreRef.sound_setTime t hw with ⟨hsound, hcatalog⟩
  simp only [Cache.read, hstore, StoreRef.read_shown hguards q hsound, hcatalog]

/-- After any run of writes, each made for its own query, one more write reports every other query
whose result it changes, be it that there is none now or none before, on a store in memory as on one
in a file.  For every stored skeleton, the entities that it names have records that list its query,
and this is so after the write again. -/
theorem mem_impacted_of_read_ne (c : Cache) (r : StoreRef) (w : World Vault) (e : Posting)
    (hreached : Reached Posting.IsOwn r.store w) (hstore : c.store? = some r)
    (hguards : r.guards = []) (hown : e.IsOwn) :
    (∀ (q : QueryKey) (t t' : Time), q ≠ e.query →
      ((c.post e w).1.2.read q ((c.post e w).2.setTime t')).1.map CachedResult.data ≠
        (c.read q (w.setTime t)).1.map CachedResult.data →
      (c.post e w).1.1.impacted.mem q = true) ∧
    (r.store.catalog w).Indexed ∧ (r.store.catalog (c.post e w).2).Indexed := by
  have hlater : Reached Posting.IsOwn r.store (c.post e w).2 := hreached.posted hstore hown
  refine ⟨?_, hreached.indexed fun _ h => h, hlater.indexed fun _ h => h⟩
  intro q t t' hq hchanged
  have hsound := hlater.sound
  rcases StoreRef.writes hguards c.config c.upkeep e hreached.sound with
    ⟨outcome, u', w', hpost, hwrites⟩
  rw [Cache.post_apply hstore e hpost] at hchanged hsound ⊢
  have hbefore := Cache.read_shown hstore hguards hreached.sound q t
  have hafter : (Cache.read { c with upkeep := u' } q (w'.setTime t')).1.map CachedResult.data =
      (r.store.catalog w').shown q := Cache.read_shown hstore hguards hsound q t'
  refine hwrites.mem_impacted (hreached.indexed fun _ h => h) hown hq ?_
  -- Had the catalog shown the same, so would the reads.
  intro hsame
  refine hchanged ?_
  calc
    (Cache.read { c with upkeep := u' } q (w'.setTime t')).1.map CachedResult.data
        = (r.store.catalog w').shown q := hafter
    _ = (r.store.catalog w).shown q := hsame
    _ = (c.read q (w.setTime t)).1.map CachedResult.data := hbefore.symm

/-- A store in a new file. -/
def newFileWorld : World Vault :=
  ⟨.empty, [], [], 0, { Vault.empty false with
    files := .ofList [(0, ⟨.empty, .blank⟩)], opened := .ofList [(1, .new 0)], next := 2 }⟩

/-- A cache on that store. -/
def fileCache : Cache :=
  { Cache.new .default false with
    target := .ready ⟨Scope.of .persistent "shop" none "local", .file 1, []⟩ }

/-- A list with an item. -/
def listPosting : Posting :=
  ⟨1, "list", ⟨.map [("items", .list [.map [("id", .id "P1"), ("price", .num (.int 3))]])], none,
    .empty⟩, some "list"⟩

/-- The item alone, at another price. -/
def itemPosting : Posting :=
  ⟨2, "item", ⟨.map [("id", .id "P1"), ("price", .num (.int 5))], none, .empty⟩, some "item"⟩

/-- The list is told of the new price of its item. -/
theorem mem_impacted_of_read_ne_item :
    ((fileCache.post itemPosting (fileCache.post listPosting newFileWorld).2).1.1.impacted.mem
      "list" = true) := by
  refine (mem_impacted_of_read_ne fileCache ⟨Scope.of .persistent "shop" none "local", .file 1, []⟩
    (fileCache.post listPosting newFileWorld).2 itemPosting
    (.posted (c := fileCache) (r := ⟨Scope.of .persistent "shop" none "local", .file 1, []⟩)
      (.file rfl rfl rfl) rfl rfl) rfl rfl rfl).1 "list" 9 9 (by decide) ?_
  intro hsame
  have htext := congrArg (Option.map Value.text) hsame
  revert htext
  decide +kernel

end EntityCache
