import Kkdb.Types.Row
import Mathlib.Data.Finset.Insert

namespace Kkdb

-- `to_ascii_lowercase`, as the characters that a comparison looks at.
def toAsciiLowercase (s : String) : List Char := s.toList.map Char.toLower

inductive UndoEntry where
  | Insert (table : String) (rowid : Int64) (txnId : Nat)
  | Update (table : String) (rowid : Int64) (oldRow : Row) (txnId : Nat)
  | Delete (table : String) (rowid : Int64) (oldRow : Row) (txnId : Nat)
  | Savepoint (name : String) (txnId : Nat)

def UndoEntry.txnId : UndoEntry → Nat
  | .Insert _ _ txnId => txnId
  | .Update _ _ _ txnId => txnId
  | .Delete _ _ _ txnId => txnId
  | .Savepoint _ txnId => txnId

-- The byte count of the Rust struct only feeds the statistics.
structure UndoLog where
  entries : List UndoEntry

namespace UndoLog

def new : UndoLog where
  entries := []

def push (log : UndoLog) (entry : UndoEntry) : UndoLog where
  entries := log.entries ++ [entry]

def purge (log : UndoLog) (minActiveTxnId : Nat) : UndoLog where
  entries := log.entries.filter fun e => minActiveTxnId ≤ e.txnId

end UndoLog

structure MvccSnapshot where
  readerTxnId : Nat
  activeTxnIds : List Nat
  maxCommittedTxnId : Nat

def MvccSnapshot.isVisible (snapshot : MvccSnapshot) (creatorTxnId : Nat) : Bool :=
  if creatorTxnId = snapshot.readerTxnId then true
  else if snapshot.maxCommittedTxnId < creatorTxnId then false
  else if creatorTxnId ∈ snapshot.activeTxnIds then false
  else true

-- The ids are 64-bit counters in the source; 2^64 transactions are out of reach.
structure TransactionRegistry where
  activeTxns : List Nat
  nextTxnId : Nat
  maxCommitted : Nat

namespace TransactionRegistry

def new : TransactionRegistry where
  activeTxns := []
  nextTxnId := 1
  maxCommitted := 0

-- The id of the new transaction is the old `nextTxnId`.
def begin (reg : TransactionRegistry) : TransactionRegistry where
  activeTxns := reg.activeTxns ++ [reg.nextTxnId]
  nextTxnId := reg.nextTxnId + 1
  maxCommitted := reg.maxCommitted

def commit (reg : TransactionRegistry) (txnId : Nat) : TransactionRegistry where
  activeTxns := reg.activeTxns.filter fun id => id ≠ txnId
  nextTxnId := reg.nextTxnId
  maxCommitted := if reg.maxCommitted < txnId then txnId else reg.maxCommitted

def abort (reg : TransactionRegistry) (txnId : Nat) : TransactionRegistry where
  activeTxns := reg.activeTxns.filter fun id => id ≠ txnId
  nextTxnId := reg.nextTxnId
  maxCommitted := reg.maxCommitted

def snapshot (reg : TransactionRegistry) (readerTxnId : Nat) : MvccSnapshot where
  readerTxnId := readerTxnId
  activeTxnIds := reg.activeTxns
  maxCommittedTxnId := reg.maxCommitted

def minActiveTxnId (reg : TransactionRegistry) : Nat := reg.activeTxns.min?.getD reg.nextTxnId

def autoPurge (reg : TransactionRegistry) (undoLog : UndoLog) : UndoLog :=
  undoLog.purge reg.minActiveTxnId

end TransactionRegistry

-- One turn of the loop of `compute_visibility_delta`: the rows to hide and the
-- old versions to bring back.
def visibilityStep (snapshot : MvccSnapshot) (tableName : String)
    (delta : Finset Int64 × List (Int64 × Row)) : UndoEntry → Finset Int64 × List (Int64 × Row)
  | .Insert table rowid txnId =>
      if toAsciiLowercase table = toAsciiLowercase tableName ∧ snapshot.isVisible txnId = false then
        (insert rowid delta.1, delta.2)
      else delta
  | .Delete table rowid oldRow txnId =>
      if toAsciiLowercase table = toAsciiLowercase tableName ∧ snapshot.isVisible txnId = false then
        (delta.1, delta.2 ++ [(rowid, oldRow)])
      else delta
  | .Update table rowid oldRow txnId =>
      if toAsciiLowercase table = toAsciiLowercase tableName ∧ snapshot.isVisible txnId = false then
        (insert rowid delta.1, delta.2 ++ [(rowid, oldRow)])
      else delta
  | .Savepoint _ _ => delta

def computeVisibilityDelta (undoLog : UndoLog) (snapshot : MvccSnapshot) (tableName : String) :
    Finset Int64 × List (Int64 × Row) :=
  undoLog.entries.foldl (visibilityStep snapshot tableName) (∅, [])

end Kkdb
