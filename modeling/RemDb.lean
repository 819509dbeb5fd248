import RemDb.Databases.Current
import RemDb.Databases.Manager
import RemDb.Ddl.AlterTable
import RemDb.Ddl.Altered
import RemDb.Ddl.Atomicity
import RemDb.Ddl.Catalog
import RemDb.Ddl.Columns
import RemDb.Ddl.CreateTable
import RemDb.Ddl.Ids
import RemDb.Ddl.Layout
import RemDb.Ddl.Migration
import RemDb.Ddl.Release
import RemDb.Ddl.Rows
import RemDb.Ddl.SchemaLog
import RemDb.Ddl.SystemTables
import RemDb.Ha.Convergence
import RemDb.Ha.Protocol
import RemDb.Ha.Receiver
import RemDb.Ha.Sending
import RemDb.Ha.Snapshot
import RemDb.Ha.WalReplication
import RemDb.Index.BTree
import RemDb.Index.BTreeCoverage
import RemDb.Index.BTreeRange
import RemDb.Index.Chains
import RemDb.Index.Composite
import RemDb.Index.KeyEncoding
import RemDb.Index.Doubling
import RemDb.Index.Items
import RemDb.Index.LongKeys
import RemDb.Index.Lookup
import RemDb.Index.Primary
import RemDb.Index.Promotion
import RemDb.Index.SearchTree
import RemDb.Index.Slots
import RemDb.Index.SortedArray
import RemDb.Index.SortedInsert
import RemDb.Index.SortedLookup
import RemDb.Index.SortedRange
import RemDb.Index.StoredOnce
import RemDb.Index.TTree
import RemDb.Json.Document
import RemDb.Json.Exactness
import RemDb.Json.MergePatch
import RemDb.Json.Path
import RemDb.Json.RoundTrip
import RemDb.Json.Setting
import RemDb.Json.Storage
import RemDb.Json.StoredText
import RemDb.Lib.Actions
import RemDb.Lib.Arrays
import RemDb.Lib.ByteMemory
import RemDb.Lib.Bytes
import RemDb.Lib.Calendar
import RemDb.Lib.FreeList
import RemDb.Lib.Grouping
import RemDb.Lib.Infix
import RemDb.Lib.Keyed
import RemDb.Lib.Linked
import RemDb.Lib.Listing
import RemDb.Lib.Multimap
import RemDb.Lib.NearestFloat
import RemDb.Lib.OrderedEntries
import RemDb.Lib.Overlay
import RemDb.Lib.Parents
import RemDb.Lib.Reader
import RemDb.Lib.Search
import RemDb.Lib.Tiling
import RemDb.Lib.Wildcard
import RemDb.Memory.Allocator
import RemDb.Memory.Coverage
import RemDb.PubSub.Delivery
import RemDb.PubSub.Expiry
import RemDb.PubSub.Decoding
import RemDb.PubSub.Frames
import RemDb.PubSub.Lossless
import RemDb.PubSub.Reliable
import RemDb.PubSub.Reuse
import RemDb.PubSub.RingBuffer
import RemDb.PubSub.Shortest
import RemDb.PubSub.Sequencing
import RemDb.PubSub.Subscriptions
import RemDb.Rbac.Filing
import RemDb.Rbac.Loading
import RemDb.Rbac.Manager
import RemDb.Rbac.Persistence
import RemDb.Rbac.Rows
import RemDb.Rbac.Saving
import RemDb.Rbac.Survival
import RemDb.Recovery.Bounds
import RemDb.Recovery.Replay
import RemDb.Recovery.Schema
import RemDb.Recovery.Unique
import RemDb.Snapshot.Format
import RemDb.Snapshot.Incremental
import RemDb.Snapshot.Invariants
import RemDb.Snapshot.Records
import RemDb.Snapshot.RoundTrip
import RemDb.Snapshot.Store
import RemDb.Snapshot.Tables
import RemDb.Sql.Access
import RemDb.Sql.AggregateMeaning
import RemDb.Sql.AlterMeaning
import RemDb.Sql.Aggregates
import RemDb.Sql.Arithmetic
import RemDb.Sql.Balance
import RemDb.Sql.BinaryOp
import RemDb.Sql.Comparison
import RemDb.Sql.ExactComparison
import RemDb.Sql.Expression
import RemDb.Sql.Grants
import RemDb.Sql.GroupAggregates
import RemDb.Sql.GroupMeaning
import RemDb.Sql.GroupQuery
import RemDb.Sql.Insert
import RemDb.Sql.InsertLiterals
import RemDb.Sql.InsertMeaning
import RemDb.Sql.InsertText
import RemDb.Sql.Lexer
import RemDb.Sql.LikePattern
import RemDb.Sql.Lookups
import RemDb.Sql.Meaning
import RemDb.Sql.Select
import RemDb.Sql.Statements
import RemDb.Sql.StringLiterals
import RemDb.Sql.TimeLiterals
import RemDb.Sql.Update
import RemDb.Table.Accounting
import RemDb.Table.BatchAgreement
import RemDb.Table.Def
import RemDb.Table.OldestRecords
import RemDb.Table.Ops
import RemDb.Table.Unique
import RemDb.TimeSeries.Partition
import RemDb.TimeSeries.Retention
import RemDb.Tx.Logging
import RemDb.Tx.Manager
import RemDb.Tx.Rollback
import RemDb.Types
import RemDb.Wal.Agreement
import RemDb.Wal.AppendOnly
import RemDb.Wal.Crash
import RemDb.Wal.Format
import RemDb.Wal.Layout
import RemDb.Wal.Manager
import RemDb.Wal.Misread
import RemDb.Wal.Scan
import RemDb.Wal.RandomAccess
import RemDb.Wal.Termination
import RemDb.Sql.ConditionSafety
import RemDb.Json.Validity
import RemDb.TimeSeries.Compression
import RemDb.TimeSeries.PreAggregation
import RemDb.TimeSeries.Batches
import RemDb.TimeSeries.Expiry
import RemDb.Lib.Answers
import RemDb.Sql.TimeRange
import RemDb.Sql.Sampling
import RemDb.Sql.SampleMeaning
import RemDb.Sql.Values
import RemDb.Sql.ValueOrder
import RemDb.Lib.Crc
import RemDb.PubSub.Checksum
import RemDb.Wal.Damage
import RemDb.Sql.Keywords
import RemDb.Lib.BlockPool
import RemDb.Memory.Pool
import RemDb.Memory.MultiPool
import RemDb.Json.PoolAccounts
import RemDb.Lib.BestFirst
import RemDb.Vector.Hnsw
import RemDb.Vector.HnswSearch
import RemDb.Vector.Contents
