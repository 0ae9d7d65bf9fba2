import EntityCache.Json.Lexical

/-!
# Failures of stores

* `BlobError`: stored bytes that cannot be packed or unpacked.
* `Cause`: why a stored form could not be decoded or a store not be used.
* `StoreError`: a failed store call.  Failures of the codec concern one entry only.
* `DeliveryError`: a re-publish callback that failed.
-/

namespace EntityCache

/-- Failure of the compression layer. -/
inductive BlobError where
  | compress (text : String)
  | decompress (text : String)
  deriving DecidableEq

def BlobError.text : BlobError → String
  | .compress text => "compression failed: " ++ text
  | .decompress text => "decompression failed: " ++ text

/-- What is behind a failure. -/
inductive Cause where
  /-- The root of a result is no object. -/
  | rootNotObject
  /-- The compression layer refused the bytes. -/
  | blob (error : BlobError)
  /-- The bytes are not what is stored there. -/
  | undecodable (fault : Json.Fault)
  /-- A table is missing, or the store is closed. -/
  | noTable
  /-- The store file or its directory cannot be opened. -/
  | noFile
  /-- Anything else, in its own words. -/
  | told (text : String)
  deriving DecidableEq

def Cause.text : Cause → String
  | .rootNotObject => "result root is not an object"
  | .blob error => error.text
  | .undecodable fault => "undecodable text: " ++ fault.category
  | .noTable => "no such table"
  | .noFile => "unable to open the store file"
  | .told text => text

/-- A failed store call. -/
inductive StoreError where
  /-- The store as a whole failed. -/
  | backend (cause : Cause)
  /-- The entry under `key` could not be encoded or decoded. -/
  | codec (key : String) (cause : Cause)
  | unavailable (cause : Cause)
  deriving DecidableEq

namespace StoreError

def isCodec : StoreError → Bool
  | .codec _ _ => true
  | _ => false

def cause : StoreError → Cause
  | .backend cause => cause
  | .codec _ cause => cause
  | .unavailable cause => cause

def text : StoreError → String
  | .backend cause => "Storage backend error: " ++ cause.text
  | .codec key cause => "Codec failure for '" ++ key ++ "': " ++ cause.text
  | .unavailable cause => "Cache unavailable: " ++ cause.text

end StoreError

/-- A failed re-publish callback. -/
inductive DeliveryError where
  | noSubscribers (query : String)
  | failed (text : String)
  deriving DecidableEq

def DeliveryError.text : DeliveryError → String
  | .noSubscribers query => "no subscribers for query " ++ query
  | .failed text => "re-publish failed: " ++ text

end EntityCache
