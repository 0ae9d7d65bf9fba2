import EntityCache.Store.World

/-!
# Kinds of signals

* `endings`, `damages`: the ends of activities, and the damage, that a journal tells of.
* `Signal.IsAside`, `Signal.IsMild`: what is no end of an activity, and what does not warn of too
  large a store.
* `Tells`: from one world to another only signals of one kind are given.
-/

namespace EntityCache

variable {σ : Type} {P Q : Signal → Prop}

namespace Signal

/-- An activity has ended. -/
def isEnding : Signal → Bool
  | operation _ _ _ => true
  | _ => false

/-- Stored data could not be decoded. -/
def isDamage : Signal → Bool
  | undecodable _ _ => true
  | _ => false

/-- Anything but the warning of too large a store. -/
abbrev IsMild (s : Signal) : Prop :=
  s ≠ .notice .oversize

/-- Neither that warning nor the end of an activity. -/
def IsAside (s : Signal) : Prop :=
  s.isEnding = false ∧ s.IsMild

end Signal

/-- The ends of activities in a journal. -/
def endings (j : Journal) : Journal :=
  j.filter Signal.isEnding

/-- The damage that a journal tells of. -/
def damages (j : Journal) : Journal :=
  j.filter Signal.isDamage

theorem endings_append (first later : Journal) :
    endings (first ++ later) = endings first ++ endings later :=
  List.filter_append _ _

theorem damages_append (first later : Journal) :
    damages (first ++ later) = damages first ++ damages later :=
  List.filter_append _ _

/-- Since the world `w` only signals of one kind have been given. -/
def Tells (P : Signal → Prop) (w w' : World σ) : Prop :=
  ∃ signals, w'.journal = w.journal ++ signals ∧ ∀ s ∈ signals, P s

/-- Nothing was reported. -/
abbrev Silent : World σ → World σ → Prop :=
  Tells fun _ => False

/-- No activity ended. -/
abbrev Unended : World σ → World σ → Prop :=
  Tells fun s => s.isEnding = false

namespace Tells

theorem mono (hPQ : ∀ s, P s → Q s) {w w' : World σ} : Tells P w w' → Tells Q w w' := by
  rintro ⟨signals, hjournal, hP⟩
  exact ⟨signals, hjournal, fun s hs => hPQ s (hP s hs)⟩

theorem journal_eq {w w' : World σ} : Silent w w' → w'.journal = w.journal := by
  rintro ⟨signals, hjournal, hnone⟩
  rw [hjournal, List.eq_nil_iff_forall_not_mem.mpr hnone, List.append_nil]

end Tells
end EntityCache
