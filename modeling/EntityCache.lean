import EntityCache.Cache.Access
import EntityCache.Cache.Result
import EntityCache.Cache.Scoping
import EntityCache.Config
import EntityCache.Data.Assoc
import EntityCache.Data.Dict
import EntityCache.Data.Key
import EntityCache.Entry
import EntityCache.Hash.Sha256
import EntityCache.IdIndex
import EntityCache.Journal
import EntityCache.Json.Lexical
import EntityCache.Json.Number
import EntityCache.Json.Structure
import EntityCache.Normalize.Assemble
import EntityCache.Normalize.Pass
import EntityCache.Normalize.Split
import EntityCache.Numeric.Binary64
import EntityCache.Numeric.Decimal
import EntityCache.Path
import EntityCache.Record
import EntityCache.Republish
import EntityCache.Retry
import EntityCache.Scope
import EntityCache.Session.Basic
import EntityCache.Session.Caches
import EntityCache.Session.Files
import EntityCache.Session.Records
import EntityCache.Session.Stores
import EntityCache.Skeleton
import EntityCache.Store.Backend
import EntityCache.Store.Blob
import EntityCache.Store.Directory
import EntityCache.Store.Error
import EntityCache.Store.File
import EntityCache.Store.Memory
import EntityCache.Store.Tables
import EntityCache.Store.Vault
import EntityCache.Store.World
import EntityCache.Text.Hex
import EntityCache.Value.Basic
import EntityCache.Value.Text
import EntityCache.Proofs.Data.Bindings
import EntityCache.Proofs.Normalize.Walk
import EntityCache.Proofs.Normalize.Effects
import EntityCache.Proofs.Normalize.Records
import EntityCache.Proofs.Normalize.Passes
import EntityCache.Proofs.Normalize.Merged
import EntityCache.Proofs.Normalize.Overlaid
import EntityCache.Proofs.Normalize.Restored
import EntityCache.Proofs.Normalize.Views
import EntityCache.Proofs.Normalize.RoundTrip
import EntityCache.Proofs.Normalize.Reindex
import EntityCache.Proofs.Json.Strings
import EntityCache.Proofs.Json.Numbers
import EntityCache.Proofs.Json.Containers
import EntityCache.Proofs.Codec.Values
import EntityCache.Proofs.Codec.Skeletons
import EntityCache.Proofs.Codec.Stored
import EntityCache.Proofs.Codec.Integers
import EntityCache.Proofs.Codec.Nesting
import EntityCache.Proofs.Codec.Plain
import EntityCache.Proofs.Normalize.Inherited
import EntityCache.Proofs.Normalize.Levels
import EntityCache.Proofs.Store.Mirror
import EntityCache.Proofs.Store.Calls
import EntityCache.Proofs.Store.Guarded
import EntityCache.Proofs.Store.Catalog
import EntityCache.Proofs.Store.Memory
import EntityCache.Proofs.Store.MemoryCatalog
import EntityCache.Proofs.Store.Contents
import EntityCache.Proofs.Store.File
import EntityCache.Proofs.Store.FileCatalog
import EntityCache.Proofs.Store.Reopening
import EntityCache.Proofs.Cache.Postings
import EntityCache.Proofs.Normalize.Spared
import EntityCache.Proofs.Cache.LastWrite
import EntityCache.Proofs.Cache.Faults
import EntityCache.Proofs.Cache.Outcomes
import EntityCache.Proofs.Cache.Reached
import EntityCache.Proofs.Cache.Notified
import EntityCache.Proofs.Cache.Dropped
import EntityCache.Proofs.Cache.Operations
import EntityCache.Proofs.Store.MemoryLedger
import EntityCache.Proofs.Store.FileLedger
import EntityCache.Proofs.Store.Closed
import EntityCache.Proofs.Store.Within
import EntityCache.Proofs.Store.Through
import EntityCache.Proofs.Store.Handling
import EntityCache.Proofs.Store.Dependents
import EntityCache.Proofs.Store.Reference
import EntityCache.Proofs.Cache.ReadBack
import EntityCache.Proofs.Cache.Shallow
import EntityCache.Proofs.Cache.Agreement
import EntityCache.Proofs.Cache.Recorded
import EntityCache.Proofs.Normalize.Placed
import EntityCache.Proofs.Cache.Newest
import EntityCache.Proofs.Store.Places
import EntityCache.Proofs.Store.Sharing
import EntityCache.Proofs.Store.Alike
import EntityCache.Proofs.Retry.Attempts
import EntityCache.Proofs.Cache.Rescoping
import EntityCache.Proofs.Cache.SharedFile
import EntityCache.Proofs.Cache.Setting
import EntityCache.Proofs.Cache.Isolation
import EntityCache.Proofs.Republish.Bookkeeping
import EntityCache.Proofs.Republish.Delivery
import EntityCache.Proofs.Cache.Instances
import EntityCache.Proofs.Json.Accepted
import EntityCache.Proofs.Codec.Accepted
import EntityCache.Proofs.Codec.Decoding
import EntityCache.Proofs.Data.Distinct
import EntityCache.Proofs.Codec.QueryKeys
import EntityCache.Proofs.Store.Lookup
import EntityCache.Proofs.Cache.LocalReads
import EntityCache.Proofs.Store.Damage
import EntityCache.Proofs.Numeric.Rounding
import EntityCache.Proofs.Codec.Entities
import EntityCache.Proofs.Normalize.Unmarked
import EntityCache.Proofs.Normalize.Named
import EntityCache.Proofs.Codec.Floats
import EntityCache.Proofs.Cache.Worn
import EntityCache.Proofs.Cache.Healing
import EntityCache.Proofs.Cache.Reported
import EntityCache.Proofs.Store.Signals
import EntityCache.Proofs.Cache.Accounted
import EntityCache.Proofs.Normalize.FanOut
import EntityCache.Proofs.Store.Seeded
import EntityCache.Proofs.Cache.Rejected
import EntityCache.Proofs.Store.Created
import EntityCache.Proofs.Normalize.AtHand
import EntityCache.Proofs.Normalize.Successive
import EntityCache.Proofs.Normalize.Nodes
import EntityCache.Proofs.Store.WriteBack
import EntityCache.Proofs.Store.Held
import EntityCache.Proofs.Cache.Staleness
import EntityCache.Proofs.Normalize.Metadata
import EntityCache.Proofs.Store.Aloof
import EntityCache.Proofs.Store.Metered
import EntityCache.Proofs.Cache.Turns
import EntityCache.Proofs.Cache.Limits
import EntityCache.Proofs.Cache.Sampled
import EntityCache.Proofs.Store.Batches
import EntityCache.Proofs.Cache.Projections
