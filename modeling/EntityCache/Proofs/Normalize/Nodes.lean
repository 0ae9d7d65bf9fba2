import Mathlib.Data.List.Infix
import EntityCache.Proofs.Normalize.FanOut
import EntityCache.Proofs.Normalize.Named
import EntityCache.Proofs.Normalize.Placed

/-!
# The nodes of a skeleton

A skeleton is a tree of another shape than the result that it was split from: what is kept on
records is gone, nested objects and lists of objects are apart, and a mixed list has become one
value.  Node by node the two still correspond:

* `Value.mixedOn`: a mixed list lies on the way along a path.
* `placed_eq`: the objects that have nodes are the visited ones with no mixed list on their way.
* `nodesFrom_skeletonOf`: there is one node for each of these objects.
* `Shows`: what the node of an object holds.
* `Pass.shaped`: all this of the skeleton of a pass, which names touched records alone, with what
  the records of the pass hold in place of the kept fields.
-/

namespace EntityCache

/-! ## Mixed lists -/

namespace Value

/-- A list of objects and other values. -/
def isMixed : Value → Bool
  | .list items => items.any isMap && !items.all isMap
  | _ => false

/-- A mixed list lies on the way along a path. -/
def mixedOn (v : Value) (p : Path) : Bool :=
  p.inits.any (fun q => (v.at? q).any isMixed)

variable {v part : Value} {p q : Path}

theorem mixedOn_iff :
    v.mixedOn p = true ↔ ∃ q, q <+: p ∧ ∃ part, v.at? q = some part ∧ part.isMixed = true := by
  simp only [mixedOn, List.any_eq_true, List.mem_inits, Option.any_eq_true]

theorem mixedOn_root : v.mixedOn Path.root = v.isMixed := by
  have hself : v.at? Path.root = some v := rfl
  rw [Bool.eq_iff_iff, mixedOn_iff]
  constructor
  · rintro ⟨q, hq, part, hpart, hmixed⟩
    rw [List.prefix_nil.mp hq] at hpart
    cases hself.symm.trans hpart
    exact hmixed
  · intro hmixed
    exact ⟨_, List.prefix_rfl, v, hself, hmixed⟩

/-- One step further only the part there can be a mixed list. -/
theorem mixedOn_step {s : Path.Step} (hp : v.mixedOn p = false)
    (hpart : v.at? (p ++ [s]) = some part) : v.mixedOn (p ++ [s]) = part.isMixed := by
  rw [Bool.eq_iff_iff, mixedOn_iff]
  constructor
  · rintro ⟨q, hq, part', hpart', hmixed⟩
    rcases List.prefix_concat_iff.mp hq with rfl | hq
    · cases hpart.symm.trans hpart'
      exact hmixed
    · rw [mixedOn_iff.mpr ⟨q, hq, part', hpart', hmixed⟩] at hp
      cases hp
  · intro hmixed
    exact ⟨_, List.prefix_rfl, part, hpart, hmixed⟩

end Value

namespace Normalize

/-! ## Objects with nodes -/

/-- No mixed list lies on the way to a visited object. -/
def Visit.isOpen (v : Value) (o : Visit) : Bool :=
  !v.mixedOn o.path

/-- The visited objects of a value that are in no mixed list. -/
def openVisits (v : Value) : List Visit :=
  (visits v).filter (Visit.isOpen v)

/-- Behind a list that is kept as a whole no object is open. -/
theorem not_isOpen_of_kept {V : Value} {p : Path} {items : List Value}
    (hlist : V.at? p = some (.list items)) (hkept : (Value.list items).isKept = true) :
    (visitsAmong p 0 items).filter (Visit.isOpen V) = [] := by
  refine List.filter_eq_nil_iff.mpr fun o ho => ?_
  rcases ((mem_visits_walk o).2 items p 0).mp ho with ⟨j, u, hitem, inner, rfl, hvisited⟩
  have hmem := List.mem_of_getElem? hitem
  -- The list has an element that is an object, so it is kept for another one that is none.
  have hmixed : (Value.list items).isMixed = true := by
    have hany : items.any Value.isMap = true := List.any_eq_true.mpr ⟨_, hmem, rfl⟩
    have hsome : items.isEmpty = false := by
      cases items with
      | nil =>
          cases hmem
      | cons _ _ =>
          rfl
    rw [Value.isKept, hsome, Bool.false_or] at hkept
    rw [Value.isMixed, hany, hkept]
    rfl
  have hway : V.mixedOn o.path = true :=
    Value.mixedOn_iff.mpr ⟨p, (List.prefix_append _ _).trans hvisited.prefix_path, _, hlist, hmixed⟩
  rw [Visit.isOpen, hway]
  decide

/-- What is placed below the parts of a value with no mixed list on their way is what is open. -/
theorem placed_walk (V : Value) :
    (∀ fields, ∀ p, Value.OrderedFields fields →
      (∀ b ∈ fields, V.at? (p.field b.1) = some b.2) → V.mixedOn p = false →
        placedIn p fields = (visitsIn p fields).filter (Visit.isOpen V)) ∧
    (∀ items, ∀ p i, Value.OrderedItems items →
      (∀ j u, items[j]? = some u → V.at? (p.index (i + j)) = some u) → V.mixedOn p = false →
        placedAmong p i items = (visitsAmong p i items).filter (Visit.isOpen V)) := by
  -- An object with no mixed list on its way is open, and its fields are parts of the value.
  have hobject : ∀ {p : Path} {s : Path.Step} {inner},
      (∀ p, Value.OrderedFields inner → (∀ b ∈ inner, V.at? (p.field b.1) = some b.2) →
        V.mixedOn p = false → placedIn p inner = (visitsIn p inner).filter (Visit.isOpen V)) →
      (Value.map inner).Ordered → V.at? (p ++ [s]) = some (.map inner) → V.mixedOn p = false →
        placedFrom (p ++ [s]) inner =
          (visitsFrom (p ++ [s]) inner).filter (Visit.isOpen V) := by
    intro p s inner ih hordered hat hp
    have hway : V.mixedOn (p ++ [s]) = false := Value.mixedOn_step hp hat
    have hfields : ∀ b ∈ inner, V.at? (Path.field (p ++ [s]) b.1) = some b.2 := by
      intro b hb
      rw [Value.at?_field hat]
      exact (Assoc.get?_eq_some_iff hordered.1).mpr hb
    have hopen : Visit.isOpen V ⟨p ++ [s], inner⟩ = true := by
      rw [Visit.isOpen, hway]
      rfl
    rw [placedFrom, visitsFrom, ih _ hordered.2 hfields hway]
    exact (List.filter_cons_of_pos hopen).symm
  refine walk_induction ?nil ?object ?series ?leaf ?noItem ?objectItem ?otherItem
  case nil =>
    intro p _ _ _
    simp only [placedIn, visitsIn, List.filter_nil]
  case object =>
    intro k inner rest ihFields ihRest p hordered hat hp
    rcases List.forall_mem_cons.mp hat with ⟨hfirst, hrest⟩
    have hhead := hobject (s := .field k) ihFields hordered.1 hfirst hp
    rw [placedFrom, visitsFrom] at hhead
    simp only [placedIn, visitsIn, Path.field, ← List.cons_append, List.filter_append, hhead,
      ihRest p hordered.2 hrest hp]
  case series =>
    intro k items rest ihItems ihRest p hordered hat hp
    rcases List.forall_mem_cons.mp hat with ⟨hfirst, hrest⟩
    simp only [placedIn, visitsIn, List.filter_append, ihRest p hordered.2 hrest hp]
    congr 1
    split
    · next hkept => exact (not_isOpen_of_kept hfirst hkept).symm
    · next hkept =>
        -- A list of objects is not mixed, and its elements are parts of the value too.
        have hway : V.mixedOn (p.field k) = false := by
          have hstep : V.mixedOn (p.field k) = (Value.list items).isMixed :=
            Value.mixedOn_step hp hfirst
          simp only [Value.isKept, Bool.or_eq_true, not_or, Bool.not_eq_true,
            Bool.not_eq_false'] at hkept
          rw [hstep, Value.isMixed, hkept.2]
          simp
        refine ihItems (p.field k) 0 hordered.1 ?_ hway
        intro j u hitem
        have hstep : V.at? ((p.field k).index (0 + j)) =
            (V.at? (p.field k)).bind (fun part => part.at? [.index (0 + j)]) :=
          Value.at?_append _ _ _
        rw [hstep, hfirst, Option.bind_some, Value.at?_cons, Value.step?_list, Nat.zero_add, hitem]
        rfl
  case leaf =>
    intro k v rest hv ihRest p hordered hat hp
    rw [placedIn_leaf p k hv, visitsIn_leaf p k hv]
    exact ihRest p hordered.2 (List.forall_mem_cons.mp hat).2 hp
  case noItem =>
    intro p i _ _ _
    simp only [placedAmong, visitsAmong, List.filter_nil]
  case objectItem =>
    intro inner rest ihFields ihRest p i hordered hat hp
    have hhead := hobject (s := .index i) ihFields hordered.1 (hat 0 _ rfl) hp
    have hrest : ∀ j u, rest[j]? = some u → V.at? (p.index (i + 1 + j)) = some u := by
      intro j u hitem
      have hnext := hat (j + 1) u hitem
      rwa [← Nat.add_assoc, Nat.add_right_comm] at hnext
    rw [placedFrom, visitsFrom] at hhead
    simp only [placedAmong, visitsAmong, Path.index, ← List.cons_append, List.filter_append, hhead]
    congr 1
    exact ihRest p (i + 1) hordered.2 hrest hp
  case otherItem =>
    intro v rest hv ihRest p i hordered hat hp
    rw [placedAmong_other p i hv, visitsAmong_other p i hv]
    refine ihRest p (i + 1) hordered.2 ?_ hp
    intro j u hitem
    have hnext := hat (j + 1) u hitem
    rwa [← Nat.add_assoc, Nat.add_right_comm] at hnext

/-- The objects that a skeleton has nodes for. -/
theorem placed_eq {fields : List (String × Value)} (h : (Value.map fields).Ordered) :
    placed (.map fields) = openVisits (.map fields) := by
  have hroot : (Value.map fields).mixedOn Path.root = false := Value.mixedOn_root
  have hopen : Visit.isOpen (.map fields) ⟨Path.root, fields⟩ = true := by
    rw [Visit.isOpen, hroot]
    rfl
  have hfields : ∀ b ∈ fields, (Value.map fields).at? (Path.root.field b.1) = some b.2 := by
    intro b hb
    have hself : (Value.map fields).at? Path.root = some (.map fields) := rfl
    rw [Value.at?_field hself]
    exact (Assoc.get?_eq_some_iff h.1).mpr hb
  rw [placed, placedFrom, (placed_walk _).1 fields Path.root h.2 hfields hroot]
  exact (List.filter_cons_of_pos hopen).symm

/-! ## The nodes -/

end Normalize

namespace Skeleton

def scalarKeys (n : Skeleton) : List String :=
  n.scalars.map Prod.fst

def refKeys (n : Skeleton) : List String :=
  n.refs.map Prod.fst

def listKeys (n : Skeleton) : List String :=
  n.lists.map Prod.fst

end Skeleton

namespace Normalize

/-- What the node of an object holds. -/
structure Shows (ids : IdIndex) (o : Visit) (n : Skeleton) : Prop where
  /-- The entity of the object backs the node. -/
  guid : n.guid = o.guid? ids
  /-- Where an entity backs it, nothing is kept in place. -/
  bare : n.isBacked = true → n.scalars = []
  /-- No field of the node is there in two ways. -/
  scalars_refs : ∀ k ∈ n.scalarKeys, k ∉ n.refKeys
  scalars_lists : ∀ k ∈ n.scalarKeys, k ∉ n.listKeys
  refs_lists : ∀ k ∈ n.refKeys, k ∉ n.listKeys
  /-- Its fields and those that the object keeps on the record are the fields of the object, but
  for the empty lists of one without record. -/
  keys : ∀ k, (k ∈ n.scalarKeys ∨ k ∈ n.refKeys ∨ k ∈ n.listKeys ∨ ∃ guid v, o.Keeps ids guid k v) ↔
    ∃ v, (k, v) ∈ o.fields ∧ ¬ (n.isBacked = false ∧ v = .list [])
  /-- A list of nodes is as long as the list that it comes from, and not empty. -/
  lists : ∀ k nodes, (k, nodes) ∈ n.lists →
    nodes ≠ [] ∧ ∃ items, (k, .list items) ∈ o.fields ∧ nodes.length = items.length

/-- One node for each visited object that is in no mixed list. -/
theorem nodesFrom_skeletonOf (ids : IdIndex) {fields : List (String × Value)}
    (h : (Value.map fields).Ordered) :
    ((skeletonOf ids fields).nodesFrom Path.root).Perm
      ((openVisits (.map fields)).map (Visit.placedNode ids)) := by
  rw [← placed_eq h]
  exact nodesFrom_perm ids fields

/-! ## What a node holds -/

section Parts

variable (ids : IdIndex) (own : Guid → Guid) (p : Path) (backing : Option Guid) (k : String)
  (v : Value)

/-- A field that stays in place is kept as a whole where no record is, empty lists apart. -/
theorem isSome_scalarOf : (scalarOf backing v).isSome = true ↔
    backing = none ∧ v.isKept = true ∧ v ≠ .list [] := by
  cases backing with
  | some guid =>
      simp [scalarOf]
  | none =>
      cases v with
      | list items =>
          cases items with
          | nil =>
              simp [scalarOf]
          | cons v rest =>
              cases hkept : (Value.list (v :: rest)).isKept <;> simp [scalarOf, hkept]
      | _ =>
          simp [scalarOf, Value.isKept]

theorem isSome_refOf : (refOf ids own p k v).isSome = true ↔ v.isMap = true := by
  cases v <;> simp [refOf, Value.isMap]

theorem seriesOf_eq_some {nodes : List Skeleton} :
    seriesOf ids own p k v = some nodes ↔ ∃ items, v = .list items ∧ v.isKept = false ∧
      nodes = (splitItems ids own (p.field k) 0 items).objects := by
  cases v with
  | list items =>
      cases hkept : (Value.list items).isKept <;> simp [seriesOf, hkept, eq_comm]
  | _ =>
      simp [seriesOf]

theorem isSome_seriesOf : (seriesOf ids own p k v).isSome = true ↔
    v.isMap = false ∧ v.isKept = false := by
  rw [Option.isSome_iff_exists]
  simp only [seriesOf_eq_some]
  cases v <;> simp [Value.isMap, Value.isKept]

end Parts

section Keys

variable (ids : IdIndex) (o : Visit) (k : String)

theorem mem_scalarKeys : k ∈ (nodeOf ids o).scalarKeys ↔
    ∃ v, (k, v) ∈ o.fields ∧ o.guid? ids = none ∧ v.isKept = true ∧ v ≠ .list [] := by
  have hscalars : (nodeOf ids o).scalars = Assoc.filterMap _ o.fields :=
    (splitFields_eq ids (fun guid => guid) o.path (o.guid? ids) o.fields).2.2
  rw [Skeleton.scalarKeys, hscalars, Assoc.mem_keys_filterMap]
  simp only [isSome_scalarOf]

theorem mem_refKeys : k ∈ (nodeOf ids o).refKeys ↔
    ∃ v, (k, v) ∈ o.fields ∧ v.isMap = true := by
  have hrefs : (nodeOf ids o).refs = Assoc.filterMap _ o.fields :=
    (splitFields_eq ids (fun guid => guid) o.path (o.guid? ids) o.fields).1
  rw [Skeleton.refKeys, hrefs, Assoc.mem_keys_filterMap]
  simp only [isSome_refOf]

theorem lists_nodeOf : (nodeOf ids o).lists =
    Assoc.filterMap (seriesOf ids (fun guid => guid) o.path) o.fields :=
  (splitFields_eq ids (fun guid => guid) o.path (o.guid? ids) o.fields).2.1

theorem mem_listKeys : k ∈ (nodeOf ids o).listKeys ↔
    ∃ v, (k, v) ∈ o.fields ∧ v.isMap = false ∧ v.isKept = false := by
  rw [Skeleton.listKeys, lists_nodeOf, Assoc.mem_keys_filterMap]
  simp only [isSome_seriesOf]

end Keys

section Fields

variable (ids : IdIndex) (o : Visit)

theorem isBacked_nodeOf : (nodeOf ids o).isBacked = (o.guid? ids).isSome := by
  rw [Skeleton.isBacked, guid_nodeOf]

theorem scalars_nodeOf_of_backed (h : (nodeOf ids o).isBacked = true) :
    (nodeOf ids o).scalars = [] := by
  have hkeys : (nodeOf ids o).scalarKeys = [] := by
    refine List.eq_nil_iff_forall_not_mem.mpr fun k hk => ?_
    rcases (mem_scalarKeys ids o k).mp hk with ⟨v, -, hnone, -⟩
    rw [isBacked_nodeOf, hnone] at h
    cases h
  exact List.map_eq_nil_iff.mp hkeys

/-- A field of an object goes into one of the three parts of its node or onto its record, or it is
an empty list and there is no record. -/
theorem mem_keys_nodeOf (k : String) :
    (k ∈ (nodeOf ids o).scalarKeys ∨ k ∈ (nodeOf ids o).refKeys ∨ k ∈ (nodeOf ids o).listKeys ∨
        ∃ guid v, o.Keeps ids guid k v) ↔
      ∃ v, (k, v) ∈ o.fields ∧ ¬ ((nodeOf ids o).isBacked = false ∧ v = .list []) := by
  rw [mem_scalarKeys, mem_refKeys, mem_listKeys, isBacked_nodeOf]
  constructor
  -- None of the four is an empty list without record.
  · rintro (⟨v, hv, -, -, hsome⟩ | ⟨v, hv, hmap⟩ | ⟨v, hv, -, hnested⟩ | ⟨guid, v, hid, hv, -⟩)
    · exact ⟨v, hv, fun hdrop => hsome hdrop.2⟩
    · refine ⟨v, hv, fun hdrop => ?_⟩
      rw [hdrop.2] at hmap
      cases hmap
    · refine ⟨v, hv, fun hdrop => ?_⟩
      rw [hdrop.2] at hnested
      cases hnested
    · refine ⟨v, hv, fun hdrop => ?_⟩
      rw [hid] at hdrop
      cases hdrop.1
  · rintro ⟨v, hv, hdrop⟩
    -- Objects and nested lists have parts of their own; the rest depends on the record.
    by_cases hmap : v.isMap = true
    · exact Or.inr (Or.inl ⟨v, hv, hmap⟩)
    · by_cases hkept : v.isKept = true
      · cases hid : o.guid? ids with
        | some guid =>
            exact Or.inr (Or.inr (Or.inr ⟨guid, v, hid, hv, hkept⟩))
        | none =>
            rw [hid] at hdrop
            exact Or.inl ⟨v, hv, rfl, hkept, fun he => hdrop ⟨rfl, he⟩⟩
      · exact Or.inr (Or.inr (Or.inl ⟨v, hv, Bool.eq_false_iff.mpr hmap,
          Bool.eq_false_iff.mpr hkept⟩))

/-- A list of nodes comes from a list of nothing but objects, and of at least one. -/
theorem exists_items_of_mem_lists {k : String} {nodes : List Skeleton}
    (h : (k, nodes) ∈ (nodeOf ids o).lists) :
    nodes ≠ [] ∧ ∃ items, (k, .list items) ∈ o.fields ∧ nodes.length = items.length := by
  rw [lists_nodeOf, Assoc.mem_filterMap] at h
  rcases h with ⟨v, hv, hseries⟩
  rcases (seriesOf_eq_some ids _ _ k v).mp hseries with ⟨items, rfl, hnested, rfl⟩
  simp only [Value.isKept, Bool.or_eq_false_iff, Bool.not_eq_false',
    List.isEmpty_eq_false_iff] at hnested
  have hlength : (splitItems ids (fun guid => guid) (o.path.field k) 0 items).objects.length =
      items.length := by
    rw [length_objects, List.countP_eq_length]
    exact List.all_eq_true.mp hnested.2
  refine ⟨fun hnil => hnested.1 ?_, items, hv, hlength⟩
  rw [hnil] at hlength
  exact List.eq_nil_of_length_eq_zero hlength.symm

end Fields

theorem shows_nodeOf (ids : IdIndex) {o : Visit} (h : (Value.map o.fields).Ordered) :
    Shows ids o (nodeOf ids o) where
  guid := guid_nodeOf ids o
  bare := scalars_nodeOf_of_backed ids o
  scalars_refs := by
    intro k hscalar href
    rcases (mem_scalarKeys ids o k).mp hscalar with ⟨v, hv, -, hkept, -⟩
    rcases (mem_refKeys ids o k).mp href with ⟨w, hw, hmap⟩
    -- A key has one value, which cannot be in two parts.
    cases h.1.eq_of_mem hv hw
    rcases exists_fields_of_isMap hmap with ⟨fields, rfl⟩
    cases hkept
  scalars_lists := by
    intro k hscalar hlist
    rcases (mem_scalarKeys ids o k).mp hscalar with ⟨v, hv, -, hkept, -⟩
    rcases (mem_listKeys ids o k).mp hlist with ⟨w, hw, -, hnested⟩
    cases h.1.eq_of_mem hv hw
    cases hkept.symm.trans hnested
  refs_lists := by
    intro k href hlist
    rcases (mem_refKeys ids o k).mp href with ⟨v, hv, hmap⟩
    rcases (mem_listKeys ids o k).mp hlist with ⟨w, hw, hother, -⟩
    cases h.1.eq_of_mem hv hw
    cases hmap.symm.trans hother
  keys := mem_keys_nodeOf ids o
  lists _ _ hnodes := exists_items_of_mem_lists ids o hnodes

/-! ## Whole passes -/

namespace Pass

/-- The skeleton of a pass over an object, and what it leaves to the records. -/
structure Shaped (ids : IdIndex) (fields : List (String × Value)) (records : RecordSet)
    (pass : Pass) : Prop where
  /-- Each visited object that is in no mixed list has one node, at its path, and there are no
  others. -/
  nodes : ∃ node : Visit → Skeleton,
    (pass.root.nodesFrom Path.root).Perm
      ((openVisits (.map fields)).map (fun o => (o.path, node o))) ∧
    ∀ o ∈ openVisits (.map fields), Shows ids o (node o)
  /-- What objects keep on records is what the walk puts on them. -/
  puts : ∃ effects, split? ids records.own (.map fields) = some (pass.root, effects) ∧
    ∀ guid k v, Effect.put guid k v ∈ effects ↔
      ∃ o ∈ visits (.map fields), o.Keeps ids guid k v
  /-- After the pass each of these fields has a value on its record that an object keeps there. -/
  held : ∀ o ∈ visits (.map fields), ∀ guid k v, o.Keeps ids guid k v →
    ∃ o' ∈ visits (.map fields), ∃ w, o'.Keeps ids guid k w ∧
      pass.records.field? guid k = some w
  /-- Any other field is as it was. -/
  unkept : ∀ guid k, (∀ o ∈ visits (.map fields), ∀ v, ¬ o.Keeps ids guid k v) →
    pass.records.field? guid k = records.field? guid k
  /-- The skeleton names only entities whose record is touched. -/
  named : ∀ guid, pass.root.guids.mem guid = true → pass.Touched guid

/-- A pass over an object succeeds, and its skeleton is as described. -/
theorem shaped (ids : IdIndex) {fields : List (String × Value)} {records : RecordSet}
    (requestor : Option QueryKey) :
    (Value.map fields).Ordered → records.Keyed →
      ∃ pass, run? (.map fields) ids records requestor = some pass ∧
        pass.Shaped ids fields records := by
  intro hordered hs
  rcases run?_map ids fields hs requestor with ⟨pass, hrun, hpass⟩
  refine ⟨pass, hrun, ⟨nodeOf ids, ?_, ?_⟩, ⟨effectsOf ids fields, ?_, ?_⟩,
    fun _ ho _ _ _ hkeeps => hpass.held ho hkeeps, fun _ _ hnone => hpass.unkept hnone, ?_⟩
  · rw [hpass.root_eq]
    exact nodesFrom_skeletonOf ids hordered
  · intro o ho
    refine shows_nodeOf ids ?_
    exact visit_of_hereditary Value.hereditary_ordered hordered o (List.mem_filter.mp ho).1
  · have hown : records.own = fun guid => guid := funext hs.own_eq
    rw [hpass.root_eq, hown]
    rfl
  · intro guid k v
    rw [← mem_puts, effectsOf, puts_effects, mem_assignmentsFrom]
    rfl
  · intro guid hguid
    rw [hpass.touched_iff]
    refine mem_entitiesOf_of_mem_skeletonOf ?_
    rw [← hpass.root_eq]
    rwa [Skeleton.guids, KeySet.mem_ofKeys, decide_eq_true_eq] at hguid

/-- A mixed list and a list of objects, one of them an entity, and an empty list. -/
def mingledFields : List (String × Value) :=
  [("all", .list [.map [("id", .id "P1"), ("tags", .list [])], .map [("n", .num (.int 1))]]),
    ("mix", .list [.null, .map [("id", .id "P2")]]), ("none", .list [])]

theorem shaped_mingled : (Value.map mingledFields).Ordered ∧ crowdedRecords.Keyed ∧
    ∃ pass, run? (.map mingledFields) .empty crowdedRecords (some "own") = some pass ∧
      pass.Shaped .empty mingledFields crowdedRecords := by
  have hordered : (Value.map mingledFields).Ordered := by
    simp only [Value.Ordered, Value.OrderedFields, Value.OrderedItems, mingledFields, Assoc.Sorted,
      and_true, true_and]
    decide
  exact ⟨hordered, keyed_crowdedRecords, shaped .empty (some "own") hordered keyed_crowdedRecords⟩

/-- The root and the two objects of the list have nodes, the object in the mixed list has none. -/
example : (openVisits (.map mingledFields)).map Visit.path =
    [[], [.field "all", .index 0], [.field "all", .index 1]] := by
  decide +kernel

end Pass
end Normalize
end EntityCache
