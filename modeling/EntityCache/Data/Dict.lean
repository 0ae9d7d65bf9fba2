import EntityCache.Data.Assoc

/-!
# Sorted dictionaries

`Dict κ α` is a sorted list of bindings together with the fact that it is sorted, so that equal
look-ups mean equal dictionaries:

* `get?`, `insert`, `erase`, `ofList`, `filter`, `map`, `keys`, `values`, `size`.
* `KeySet κ`: sets of keys, as dictionaries without content.
* `Dict.ext_get?`: a dictionary is determined by its look-ups.
-/

namespace EntityCache

/-- Bindings in ascending key order. -/
structure Dict (κ : Type) (α : Type) [Key κ] where
  bindings : List (κ × α)
  sorted : Assoc.Sorted bindings

namespace Dict

variable {κ α β : Type} [DecidableEq κ] [Key κ]

def empty : Dict κ α :=
  ⟨[], Assoc.sorted_nil⟩

instance : Inhabited (Dict κ α) := ⟨empty⟩

def get? (d : Dict κ α) (k : κ) : Option α :=
  Assoc.get? k d.bindings

def contains (d : Dict κ α) (k : κ) : Bool :=
  (d.get? k).isSome

def insert (d : Dict κ α) (k : κ) (v : α) : Dict κ α :=
  ⟨Assoc.insert k v d.bindings, d.sorted.insert k v⟩

def erase (d : Dict κ α) (k : κ) : Dict κ α :=
  ⟨Assoc.erase k d.bindings, d.sorted.erase k⟩

/-- The last binding of each key. -/
def ofList (l : List (κ × α)) : Dict κ α :=
  ⟨Assoc.ofList l, Assoc.sorted_ofList l⟩

/-- The bindings that pass a test. -/
def filter (d : Dict κ α) (p : κ → α → Bool) : Dict κ α :=
  ⟨d.bindings.filter (fun b => p b.1 b.2), List.Pairwise.filter _ d.sorted⟩

/-- Every value changed by `f`. -/
def map (d : Dict κ α) (f : α → β) : Dict κ β :=
  ⟨d.bindings.map (fun b => (b.1, f b.2)), by
    simpa [Assoc.Sorted, List.pairwise_map] using d.sorted⟩

def keys (d : Dict κ α) : List κ :=
  d.bindings.map Prod.fst

def values (d : Dict κ α) : List α :=
  d.bindings.map Prod.snd

def size (d : Dict κ α) : Nat :=
  d.bindings.length

def isEmpty (d : Dict κ α) : Bool :=
  d.bindings.isEmpty

/-! ## Look-up after each operation -/

@[simp] theorem get?_empty (k : κ) : (empty : Dict κ α).get? k = none := rfl

theorem get?_insert (d : Dict κ α) (k k' : κ) (v : α) :
    (d.insert k v).get? k' = if k' = k then some v else d.get? k' :=
  Assoc.get?_insert k k' v d.bindings

@[simp] theorem get?_insert_self (d : Dict κ α) (k : κ) (v : α) :
    (d.insert k v).get? k = some v := by
  simp [get?_insert]

theorem get?_erase (d : Dict κ α) (k k' : κ) :
    (d.erase k).get? k' = if k' = k then none else d.get? k' :=
  Assoc.get?_erase k k' d.bindings

theorem ext_get? {d e : Dict κ α} (h : ∀ k, d.get? k = e.get? k) : d = e := by
  obtain ⟨l, hl⟩ := d
  obtain ⟨m, hm⟩ := e
  have : l = m := Assoc.eq_of_get?_eq hl hm h
  subst this
  rfl

theorem get?_eq_some_iff {d : Dict κ α} {k : κ} {v : α} :
    d.get? k = some v ↔ (k, v) ∈ d.bindings :=
  Assoc.get?_eq_some_iff d.sorted

end Dict

/-! ## Sets -/

/-- A set of keys, listed in ascending order. -/
abbrev KeySet (κ : Type) [Key κ] : Type := Dict κ Unit

namespace KeySet

variable {κ : Type} [DecidableEq κ] [Key κ]

def mem (s : KeySet κ) (k : κ) : Bool :=
  s.contains k

def add (s : KeySet κ) (k : κ) : KeySet κ :=
  s.insert k ()

/-- The members of either set. -/
def union (s t : KeySet κ) : KeySet κ :=
  ⟨Assoc.union s.bindings t.bindings, s.sorted.union t.bindings⟩

def ofKeys (l : List κ) : KeySet κ :=
  Dict.ofList (l.map (fun k => (k, ())))

def toList (s : KeySet κ) : List κ :=
  s.keys

/-! ## Membership -/

@[simp] theorem mem_empty (k : κ) : mem (Dict.empty : KeySet κ) k = false := rfl

theorem mem_add (s : KeySet κ) (k k' : κ) : (s.add k).mem k' = (decide (k' = k) || s.mem k') := by
  simp only [mem, add, Dict.contains, Dict.get?_insert]
  by_cases h : k' = k <;> simp [h]

theorem mem_erase (s : KeySet κ) (k k' : κ) :
    mem (Dict.erase s k) k' = (decide (k' ≠ k) && s.mem k') := by
  simp only [mem, Dict.contains, Dict.get?_erase]
  by_cases h : k' = k <;> simp [h]

theorem mem_iff_mem_bindings (s : KeySet κ) (k : κ) : s.mem k = true ↔ (k, ()) ∈ s.bindings := by
  rw [← Dict.get?_eq_some_iff, mem, Dict.contains, Option.isSome_iff_exists]
  exact ⟨fun ⟨_, h⟩ => h, fun h => ⟨(), h⟩⟩

theorem mem_iff_mem_toList (s : KeySet κ) (k : κ) : s.mem k = true ↔ k ∈ s.toList := by
  rw [mem_iff_mem_bindings, toList, Dict.keys, List.mem_map]
  exact ⟨fun h => ⟨_, h, rfl⟩, fun ⟨_, h, e⟩ => e ▸ h⟩

theorem mem_ofKeys (l : List κ) (k : κ) : (ofKeys l).mem k = decide (k ∈ l) := by
  have bound : ∀ m : List κ,
      (Assoc.get? k (m.map (fun x => (x, ())))).isSome = decide (k ∈ m) := by
    intro m
    induction m with
    | nil =>
        simp
    | cons x rest ih =>
        by_cases h : k = x <;> simp [Assoc.get?_cons, h, ih]
  have lookup := Assoc.get?_union k [] (l.map (fun x => (x, ())))
  rw [Assoc.get?_nil, Option.or_none, ← List.map_reverse] at lookup
  have found := (congrArg Option.isSome lookup).trans (bound l.reverse)
  rw [show decide (k ∈ l.reverse) = decide (k ∈ l) by simp] at found
  exact found

theorem mem_union (s t : KeySet κ) (k : κ) : (s.union t).mem k = (s.mem k || t.mem k) := by
  have unit : ∀ l : List (κ × Unit), (Assoc.get? k l).isSome = true ↔ (k, ()) ∈ l := by
    intro l
    induction l with
    | nil =>
        simp
    | cons b rest ih =>
        obtain ⟨b₁, b₂⟩ := b
        rw [Assoc.get?_cons]
        by_cases h : k = b₁ <;> simp [h, ih]
  have hs : (s.union t).mem k = ((Assoc.get? k t.bindings.reverse).or (s.get? k)).isSome :=
    congrArg Option.isSome (Assoc.get?_union k s.bindings t.bindings)
  have ht : (Assoc.get? k t.bindings.reverse).isSome = t.mem k := by
    rw [Bool.eq_iff_iff, unit, List.mem_reverse, mem_iff_mem_bindings]
  rw [hs, Option.isSome_or, ht, Bool.or_comm]
  rfl

theorem ext_mem {s t : KeySet κ} (h : ∀ k, s.mem k = t.mem k) : s = t := by
  refine Dict.ext_get? (fun k => ?_)
  have := h k
  simp only [mem, Dict.contains] at this
  cases hs : s.get? k <;> cases ht : t.get? k <;> simp_all

end KeySet

end EntityCache
