import EntityCache.Data.Dict

/-!
# The directory of store files

* `PathState`: what lies at a path.
* `Location`: the names on the way from the directory to a place.
* `Directory`: what lies at each place.
* `Directory.locate?`: where a path leads.
* `Directory.isOpenable`: whether a store file can be opened, or made, at a place.
* `Directory.obstruct`, `Directory.clear`: places taken and freed by hand.
-/

namespace EntityCache

/-- What lies at a path. -/
inductive PathState where
  /-- The store file with this number. -/
  | store (file : Nat)
  | directory
  /-- A file that is no store. -/
  | junk

/-! ## Locations -/

/-- The names on the way from the directory of store files to a place.  Steps upwards come first:
a name is followed by none. -/
abbrev Location := List String

namespace Location

/-- The step upwards. -/
def up : String :=
  ".."

/-- Names that lead nowhere else. -/
def idleNames : List String :=
  ["", "."]

/-- Whether a location is the directory itself or one above it. -/
def isAncestor (l : Location) : Bool :=
  l.all (fun name => name == up)

def parent (l : Location) : Location :=
  if l.isAncestor then l ++ [up] else l.dropLast

/-- The place beside a file whose name is longer by `suffix`. -/
def beside (l : Location) (suffix : String) : Location :=
  l.dropLast ++ (l.getLast?.map (fun name => name ++ suffix)).toList

/-- The bytes of a location in a path: its names, each after a separator. -/
def byteCount (l : Location) : Nat :=
  l.foldl (fun n name => n + name.utf8ByteSize + 1) 0

end Location

/-! ## The directory -/

/-- What lies in the directory of store files and below it. -/
structure Directory where
  /-- There is no directory, since a plain file is in its place. -/
  blocked : Bool
  entries : Dict Location PathState

namespace Directory

def empty (blocked : Bool) : Directory :=
  ⟨blocked, .empty⟩

def put (d : Directory) (l : Location) (p : PathState) : Directory :=
  { d with entries := d.entries.insert l p }

/-- Whether other places can lie at or below a location. -/
def isDirectory (d : Directory) (l : Location) : Bool :=
  if l.isEmpty then !d.blocked
  else if l.isAncestor then true
  else
    match d.entries.get? l with
    | some .directory => true
    | _ => false

/-- Whether a plain file lies at a location. -/
def isFile (d : Directory) (l : Location) : Bool :=
  if l.isEmpty then d.blocked
  else
    match d.entries.get? l with
    | some (.store _) => true
    | some .junk => true
    | _ => false

/-! ## Paths -/

/-- The most bytes of a name. -/
def longestName : Nat :=
  255

/-- The most bytes of a location.  The rest of a path is taken by the place of the directory. -/
def longestLocation : Nat :=
  490

/-- One more name on the way.  What is passed need not exist, but it is no file. -/
def follow? (d : Directory) (l : Location) (name : String) : Option Location :=
  if Location.idleNames.contains name then some l
  else if name = Location.up then some l.parent
  else if longestName < name.utf8ByteSize || d.isFile l then none
  else if longestLocation < (l ++ [name]).byteCount then none
  else some (l ++ [name])

/-- Where a path leads from the directory.  No path starts at a root or holds a NUL. -/
def locate? (d : Directory) (path : String) : Option Location :=
  if path.toList.head? = some '/' || path.toList.contains '\x00' then none
  else ((path.toList.splitOn '/').map String.ofList).foldlM d.follow? []

/-- Whether a file lies at a location or can be made there. -/
def isReachable (d : Directory) (l : Location) : Bool :=
  !l.isAncestor && d.isDirectory l.parent && !d.isDirectory l

/-- What the journal of a store file adds to its name.  It is there only while a change that is not
logged goes on. -/
def journalSuffix : String :=
  "-journal"

/-- What the log of a store file in use adds to its name. -/
def logSuffix : String :=
  "-wal"

/-- What the index of the log adds to the name of the store file. -/
def indexSuffix : String :=
  "-shm"

/-- Whether the files that accompany a store file can be named. -/
def hasCompanions (l : Location) : Bool :=
  l.getLast?.all (fun name => decide ((name ++ journalSuffix).utf8ByteSize ≤ longestName))

/-- Whether a store file can be opened, or made, at a location. -/
def isOpenable (d : Directory) (l : Location) : Bool :=
  d.isReachable l && hasCompanions l &&
    match d.entries.get? l with
    | some .junk => false
    | _ => true

/-- The directory after an attempt at opening a store file.  The file is made before those that
accompany it; if these cannot be named, an empty file stays. -/
def afterAttempt (d : Directory) (l : Location) : Directory :=
  if d.isReachable l && !hasCompanions l && !d.entries.contains l then d.put l .junk else d

/-- The directory without what lies at the places of some files that accompany a store file. -/
def withoutBeside (d : Directory) (l : Location) (suffixes : List String) : Directory :=
  { d with entries := suffixes.foldl (fun e s => e.erase (l.beside s)) d.entries }

/-! ## By hand -/

/-- Puts something that is no store at a location.  The answer is whether it lies there afterwards:
a directory does not replace a file, nor other data a directory. -/
def obstruct (d : Directory) (l : Location) (obstacle : PathState) : Bool × Directory :=
  match d.blocked, obstacle, d.entries.get? l with
  | true, _, _ => (false, d)
  | _, .directory, some .directory => (true, d)
  | _, .directory, some _ => (false, d)
  | _, _, some .directory => (false, d)
  | _, _, _ => (true, d.put l obstacle)

/-- Removes what lies at a location or below it.  The answer is whether something was there. -/
def clear (d : Directory) (l : Location) : Bool × Directory :=
  (d.entries.contains l, { d with entries := d.entries.filter (fun k _ => !l.isPrefixOf k) })

/-- What the name of a store file ends in. -/
def storeExtension : String :=
  ".sqlite"

/-- Whether a name is that of a store file.  The ending alone is no such name. -/
def isStoreName (name : String) : Bool :=
  name.endsWith storeExtension && name != storeExtension

/-- The number of store files in the directory itself, whatever they hold. -/
def countStores (d : Directory) : Nat :=
  (d.entries.keys.filter (fun l =>
    match l with
    | [name] => isStoreName name
    | _ => false)).length

end Directory
end EntityCache
