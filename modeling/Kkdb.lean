import Kkdb.Lib.Bytes
import Kkdb.Error
import Kkdb.Types.Varint
import Kkdb.Types.Row
import Kkdb.Types.Decode
import Kkdb.Types.Prefix
import Kkdb.Superblock
import Kkdb.Wal
import Kkdb.Pager
import Kkdb.Pager.Compression
import Kkdb.Pager.Content
import Kkdb.Pager.Open
import Kkdb.Lib.State
import Kkdb.Lib.Linked
import Kkdb.Lib.Bisect
import Kkdb.Lib.Slotted
import Kkdb.Lib.Assoc
import Kkdb.Lib.Framed
import Kkdb.Lib.Ordered
import Kkdb.Pager.Transaction
import Kkdb.Pager.Savepoint
import Kkdb.Pager.Rollback
import Kkdb.Wal.Recovery
import Kkdb.Wal.Theorems
import Kkdb.Pager.Persist
import Kkdb.Pager.Buffer
import Kkdb.Pager.FreeSpace
import Kkdb.Pager.FreeList
import Kkdb.Pager.Reclaim
import Kkdb.Pager.Held
import Kkdb.Pager.Reopen
import Kkdb.Pager.Session
import Kkdb.Pager.Crash
import Kkdb.Pager.Draft
import Kkdb.Pager.Scope
import Kkdb.Vm.Mvcc
import Kkdb.Vm.Snapshot
import Kkdb.Vm.Purge
import Kkdb.Vm.Delta
import Kkdb.Wal.Codec
import Kkdb.Wal.Log
import Kkdb.Wal.History
import Kkdb.Wal.Checkpoint
import Kkdb.Wal.Snapshots
import Kkdb.Wal.Buffered
import Kkdb.Wal.Detection
import Kkdb.Sql.Ast
import Kkdb.Vm.QueryCache
import Kkdb.Vm.Execute
import Kkdb.Vm.Transparency
import Kkdb.BTree
import Kkdb.BTree.Heap
import Kkdb.BTree.Accounts
import Kkdb.BTree.Page
import Kkdb.BTree.Interior
import Kkdb.Vm.LockManager
import Kkdb.Vm.WaitFor
import Kkdb.Vm.RowLocks
import Kkdb.Lib.Double
import Kkdb.Types.Compare
import Kkdb.Vm.EvalExpr
import Kkdb.Lib.Slice
import Kkdb.Vm.IndexCache
import Kkdb.Vm.IndexLookup
import Kkdb.Vm.DmlIndex
import Kkdb.BTree.Overflow
import Kkdb.BTree.Leaf
import Kkdb.BTree.Chain
import Kkdb.BTree.LeafInsert
import Kkdb.BTree.Index
import Kkdb.BTree.Search
import Kkdb.BTree.Scan
import Kkdb.BTree.Insert
import Kkdb.BTree.Tree
import Kkdb.BTree.Table
import Kkdb.BTree.Order
import Kkdb.BTree.Cursor
import Kkdb.BTree.CursorScan
import Kkdb.BTree.OverflowChain
import Kkdb.BTree.Layout
import Kkdb.BTree.MaxRowid
import Kkdb.BTree.Defrag
import Kkdb.BTree.FragStats
import Kkdb.BTree.FragExact
import Kkdb.BTree.Stored
import Kkdb.BTree.Compressed
import Kkdb.Vm.Schema
import Kkdb.Vm.Check
import Kkdb.Vm.IndexDml
import Kkdb.Vm.Dml
import Kkdb.Vm.DmlEffects
import Kkdb.Vm.StatementRuns
import Kkdb.Vm.NotNull
import Kkdb.Sql.CreateTable
import Kkdb.Vm.Constraints
import Kkdb.Raft.LogStore
import Kkdb.Raft.History
import Kkdb.Lib.Template
import Kkdb.Lib.Codec
import Kkdb.Lib.Join
import Kkdb.Raft.Json
import Kkdb.Raft.Durability
import Kkdb.Raft.Markers
import Kkdb.Raft.StateMachine
import Kkdb.Raft.Convergence
import Kkdb.Raft.Dtx
import Kkdb.Raft.DtxSafety
import Kkdb.Raft.DtxCluster
import Kkdb.Lib.Serial
import Kkdb.Raft.DistTxn
import Kkdb.Raft.DeadlockDetector
import Kkdb.Lib.Explore
import Kkdb.Vector.Hnsw
import Kkdb.Vector.HnswSearch
import Kkdb.Vector.HnswSound
import Kkdb.Vector.HnswFormat
import Kkdb.Vector.HnswLive
import Kkdb.Vector.LayerClosest
import Kkdb.Pager.LoggedSlots
import Kkdb.Pager.LoggedPager
import Kkdb.Vm.TypedKey
import Kkdb.Vm.Join
import Kkdb.Vm.JoinPaths
import Kkdb.Vm.JoinAgreement
import Kkdb.Vm.SubqueryRewrite
import Kkdb.Lib.TopN
import Kkdb.Vm.Select
import Kkdb.Vm.Cte
import Kkdb.Vm.CteFrame
import Kkdb.Vm.Pipeline
import Kkdb.Vm.ClauseOrder
import Kkdb.Vm.FastPaths
import Kkdb.Vm.FastPathAgreement
import Kkdb.Binlog
import Kkdb.Binlog.Record
import Kkdb.Binlog.Scan
import Kkdb.Binlog.Recovery
import Kkdb.Binlog.Base64
import Kkdb.Binlog.Stream
import Kkdb.Binlog.Lengths
import Kkdb.Lib.Mirror
import Kkdb.Catalog
import Kkdb.Catalog.Ddl
import Kkdb.Catalog.Calls
import Kkdb.Catalog.Stored
import Kkdb.Catalog.Triggers
import Kkdb.Catalog.Alter
import Kkdb.Catalog.Altered
import Kkdb.Catalog.Reading
import Kkdb.Catalog.Statements
import Kkdb.Catalog.Roots
import Kkdb.Catalog.Recorded
import Kkdb.Catalog.Rls
import Kkdb.Lib.Casing
import Kkdb.Catalog.Names
import Kkdb.Vm.CheckEval
import Kkdb.Vm.RowidRuns
import Kkdb.Vm.NaturalJoin
import Kkdb.Vm.SetOp
import Kkdb.Vm.SortOrder
import Kkdb.Vm.AggregateReplace
import Kkdb.Vm.WindowFrame
import Kkdb.Vm.WindowOffset
import Kkdb.Vm.AggregateForms
import Kkdb.Vm.AggregateFilter
import Kkdb.Vm.Negation
import Kkdb.Vm.UnnestArray
import Kkdb.Vm.Like
import Kkdb.Vm.CteFixpoint
import Kkdb.Vm.GroupKey
import Kkdb.Vm.JsonReturns
import Kkdb.Vm.QueryCompiler
import Kkdb.Bloom
import Kkdb.Vm.DateExtract
import Kkdb.Server.Mysql
import Kkdb.Vm.JsonBuild
import Kkdb.Vm.Regexp
import Kkdb.Vm.Csv
import Kkdb.Vm.CsvImport
import Kkdb.Vm.CsvRollback
