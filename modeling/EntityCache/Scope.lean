import EntityCache.Hash.Sha256
import EntityCache.Text.Hex
import EntityCache.Value.Text

/-!
# Scopes and query keys

A scope decides which physical cache an operation touches; a query key names one cached result.

* `Backing`: where a cache keeps its data.
* `Scope`: backing, project, user and host.  A signed-out user takes the place of a user.
* `Scope.digest`: the hash of `Scope.preimage`, in which every part is followed by a separator.
  It doubles as the name of the store file.
* `QueryKey.of`: the hash of an operation name and its variables in canonical form.
-/

namespace EntityCache

/-- Where a cache keeps its data. -/
inductive Backing where
  /-- In the process, gone with it. -/
  | memory
  /-- In one store file for each scope. -/
  | persistent
  deriving DecidableEq

namespace Backing

/-- The word for a backing in scopes and configurations. -/
def label : Backing → String
  | .memory => "memory"
  | .persistent => "persistent"

/-- The name of the store in logs and metrics. -/
def storeName : Backing → String
  | .memory => "memory"
  | .persistent => "sqlite"

end Backing

/-- The byte that ends each part of a hashed text. -/
def separator : UInt8 :=
  0x1f

def bytesOf (text : String) : List UInt8 :=
  text.toUTF8.data.toList

/-! ## Scopes -/

/-- What one physical cache belongs to. -/
structure Scope where
  backing : Backing
  project : String
  user : String
  host : String
  deriving DecidableEq

namespace Scope

/-- Stands for the user when nobody is signed in. -/
def signedOut : String :=
  "anon"

def of (backing : Backing) (project : String) (user : Option String) (host : String) : Scope :=
  ⟨backing, project, user.getD signedOut, host⟩

def isSignedOut (s : Scope) : Bool :=
  s.user == signedOut

/-- The bytes that are hashed. -/
def preimage (s : Scope) : List UInt8 :=
  [s.backing.label, s.project, s.user, s.host].flatMap (fun part => bytesOf part ++ [separator])

def digest (s : Scope) : String :=
  Text.Hex.encode (Hash.Sha256.digest s.preimage)

/-- The store file of the scope inside the store directory. -/
def fileName (s : Scope) : String :=
  s.digest ++ ".sqlite"

/-- The form used in messages; it leaves the user out. -/
def text (s : Scope) : String :=
  s.backing.label ++ ":" ++ s.project ++ "@" ++ s.host ++ " (" ++
    String.ofList (s.digest.toList.take 12) ++ ")"

end Scope

/-! ## Query keys -/

namespace QueryKey

/-- The bytes that are hashed: the operation name, a separator, and the variables as text. -/
def preimage (operation : String) (arguments : Value) : List UInt8 :=
  bytesOf operation ++ separator :: bytesOf arguments.text

def of (operation : String) (arguments : Value) : QueryKey :=
  Text.Hex.encode (Hash.Sha256.digest (preimage operation arguments))

end QueryKey
end EntityCache
