import EntityCache.Normalize.Pass

/-!
# Assembling results

* `assemble`: the result that a skeleton stands for, given the current fields of each record.  A
  nested object or list of objects hides a record field of the same name.
* `missing`: the objects whose record is not at hand; they show nothing but what is nested in them.
-/

namespace EntityCache
namespace Normalize

/-- The current fields of each record at hand. -/
abbrev FieldView : Type := Guid → Option (List (String × Value))

/-- The fields that the records of a set show. -/
def RecordSet.view (s : RecordSet) : FieldView := fun guid =>
  (s.get? guid).map (fun r => r.fields.bindings)

/-- The fields of an object that are not nested. -/
def ownFields (view : FieldView) (n : Skeleton) : List (String × Value) :=
  match n.guid with
  | some guid => (view guid).getD []
  | none => n.scalars

mutual

/-- The result that a skeleton stands for. -/
def assemble (view : FieldView) : Skeleton → Value
  | ⟨guid, scalars, refs, lists⟩ =>
      let fields := Assoc.ofList (ownFields view ⟨guid, scalars, refs, lists⟩)
      .map (Assoc.union (Assoc.union fields (assembleRefs view refs)) (assembleLists view lists))

def assembleRefs (view : FieldView) : List (String × Skeleton) → List (String × Value)
  | [] => []
  | (k, child) :: rest => (k, assemble view child) :: assembleRefs view rest

def assembleLists (view : FieldView) : List (String × List Skeleton) → List (String × Value)
  | [] => []
  | (k, items) :: rest => (k, .list (assembleItems view items)) :: assembleLists view rest

def assembleItems (view : FieldView) : List Skeleton → List Value
  | [] => []
  | child :: rest => assemble view child :: assembleItems view rest

end

/-- The ids without a record, once for each object. -/
def missing (view : FieldView) (n : Skeleton) : List Guid :=
  n.guidList.filter (fun guid => (view guid).isNone)

/-- What is reported about missing records. -/
def missingNotices (view : FieldView) (n : Skeleton) : Journal :=
  (missing view n).map (fun _ => .notice .recordMissing)

end Normalize
end EntityCache
