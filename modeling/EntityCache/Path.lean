import EntityCache.Data.Dict
import EntityCache.Value.Basic

/-!
# Paths into a result

* `Path`: the fields and list positions that lead from the root of a result to one of its parts.
* `Path.ofValue?`: a path written as a list of names and positions.
* `Path.text`: the form used in messages, such as `$.items[2].owner`.
* paths are ordered: fields before positions, a path before its continuations.
-/

namespace EntityCache

/-- One step into a result. -/
inductive Path.Step where
  | field (name : String)
  | index (i : Nat)
  deriving DecidableEq

/-- The way from the root; the empty path is the root itself. -/
abbrev Path : Type := List Path.Step

namespace Path

/-- Fields by name, before positions by number. -/
def Step.before : Step → Step → Bool
  | .field a, .field b => Key.before a b
  | .field _, .index _ => true
  | .index _, .field _ => false
  | .index i, .index j => Key.before i j

instance : Key Step where
  before := Step.before
  before_irrefl a := by
    cases a <;> simp [Step.before, Key.before_irrefl]
  before_trans {a b c} h₁ h₂ := by
    cases a <;> cases b <;> cases c <;> simp_all [Step.before]
    · exact Key.before_trans h₁ h₂
    · exact Key.before_trans h₁ h₂
  eq_of_incomparable {a b} h₁ h₂ := by
    cases a <;> cases b <;> simp_all [Step.before]
    · exact Key.eq_of_incomparable h₁ h₂
    · exact Key.eq_of_incomparable h₁ h₂

def root : Path :=
  []

def field (p : Path) (name : String) : Path :=
  p ++ [.field name]

def index (p : Path) (i : Nat) : Path :=
  p ++ [.index i]

/-- One step from a name or from a whole number that is not negative. -/
def stepOf? : Value → Option Step
  | .str name => some (.field name)
  | .num (.int (.ofNat i)) => some (.index i)
  | _ => none

/-- A path from a list of steps; `none` if the value is no list or one element is no step. -/
def ofValue? : Value → Option Path
  | .list items => items.mapM stepOf?
  | _ => none

def Step.text : Step → String
  | .field name => "." ++ name
  | .index i => "[" ++ toString i ++ "]"

def text (p : Path) : String :=
  "$" ++ String.join (p.map Step.text)

end Path
end EntityCache
