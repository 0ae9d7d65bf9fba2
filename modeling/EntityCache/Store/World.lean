import EntityCache.Entry
import EntityCache.Journal
import EntityCache.Record
import EntityCache.Store.Error

/-!
# The world of a store call

* `World σ`: what every call may touch: the records that exist, which of them somebody holds, the
  signals given so far, the clock, and stores of type `σ`.
* `Act σ α`: a call that gives an `α` or fails.  What it has changed before failing stays changed.
* `Act.holding`: a call whose records are let go when it ends.
* `Act.zoom`: a call on a part of the stores.
-/

namespace EntityCache

/-- Everything a store call may touch. -/
structure World (σ : Type) where
  pool : Pool
  /-- The records that somebody holds, outside the stores themselves. -/
  held : List Handle
  journal : Journal
  now : Time
  store : σ

namespace World

variable {σ τ : Type}

def report (w : World σ) (signals : Journal) : World σ :=
  { w with journal := w.journal ++ signals }

def hold (w : World σ) (h : Handle) : World σ :=
  { w with held := h :: w.held }

def isHeld (w : World σ) (h : Handle) : Bool :=
  w.held.contains h

/-- The same world with other stores. -/
def withStore (w : World σ) (t : τ) : World τ :=
  ⟨w.pool, w.held, w.journal, w.now, t⟩

end World

/-- A store call. -/
def Act (σ α : Type) : Type :=
  World σ → Except StoreError α × World σ

namespace Act

variable {σ τ α β : Type}

instance : Monad (Act σ) where
  pure a := fun w => (.ok a, w)
  bind a f := fun w =>
    match a w with
    | (.ok x, w) => f x w
    | (.error e, w) => (.error e, w)

def fail (e : StoreError) : Act σ α := fun w =>
  (.error e, w)

/-- The failure of an earlier step, or its result. -/
def ofExcept (r : Except StoreError α) : Act σ α := fun w =>
  (r, w)

def world : Act σ (World σ) := fun w =>
  (.ok w, w)

def update (f : World σ → World σ) : Act σ Unit := fun w =>
  (.ok (), f w)

def report (signals : Journal) : Act σ Unit :=
  update (fun w => w.report signals)

/-- The outcome of a call, which itself does not fail. -/
def attempt (a : Act σ α) : Act σ (Except StoreError α) := fun w =>
  let (r, w) := a w
  (.ok r, w)

/-- The outcome of a call, for a caller that never fails. -/
def outcome (a : Act σ α) : StateM (World σ) (Except StoreError α) :=
  a

/-- A new record, held from here on. -/
def allocate (r : Record) : Act σ Handle := fun w =>
  let (h, pool) := w.pool.add r
  (.ok h, { w with pool := pool, held := h :: w.held })

/-- Afterwards exactly those records are held that were held before. -/
def holding (a : Act σ α) : Act σ α := fun w =>
  let (r, w') := a w
  (r, { w' with held := w.held })

/-- A call on a part of the stores. -/
def zoom (view : τ → σ) (put : τ → σ → τ) (a : Act σ α) : Act τ α := fun w =>
  let (r, w') := a (w.withStore (view w.store))
  (r, w'.withStore (put w.store w'.store))

/-- One call for each element, in order. -/
def each (f : β → Act σ Unit) : List β → Act σ Unit
  | [] => pure ()
  | b :: rest => do
      f b
      each f rest

/-! ## Running -/

@[simp] theorem pure_apply (a : α) (w : World σ) : (pure a : Act σ α) w = (.ok a, w) := rfl

theorem bind_apply (a : Act σ α) (f : α → Act σ β) (w : World σ) :
    (a >>= f) w =
      match a w with
      | (.ok x, w) => f x w
      | (.error e, w) => (.error e, w) := rfl

theorem bind_ok {a : Act σ α} {f : α → Act σ β} {w w' : World σ} {x : α}
    (h : a w = (.ok x, w')) : (a >>= f) w = f x w' := by
  rw [bind_apply, h]

theorem bind_error {a : Act σ α} {f : α → Act σ β} {w w' : World σ} {e : StoreError}
    (h : a w = (.error e, w')) : (a >>= f) w = (.error e, w') := by
  rw [bind_apply, h]

/-- A sequence succeeds exactly if both of its steps do. -/
theorem bind_eq_ok_iff {a : Act σ α} {f : α → Act σ β} {w u : World σ} {y : β} :
    (a >>= f) w = (.ok y, u) ↔ ∃ x v, a w = (.ok x, v) ∧ f x v = (.ok y, u) := by
  rw [bind_apply]
  constructor
  · intro h
    cases ha : a w with
    | mk r v =>
        cases r with
        | ok x =>
            rw [ha] at h
            exact ⟨x, v, rfl, h⟩
        | error e =>
            rw [ha] at h
            cases h
  · rintro ⟨x, v, ha, hf⟩
    rw [ha]
    exact hf

end Act
end EntityCache
