import Kkdb.Lib.Assoc
import Kkdb.Lib.Slice
import Kkdb.Vm.EvalExpr

namespace Kkdb

open Lib

structure IndexSchema where
  name : String
  columns : List String
  unique : Bool
  isFts : Bool

structure IndexCaches where
  eqMap : List (List UInt8 × List Int64)
  rowidMap : List (Int64 × Int64)
  ordered : List (Value × Int64)

structure TableIndex where
  schema : IndexSchema
  entries : List (Int64 × Row)
  caches : Option IndexCaches

abbrev EntryOps := SliceOps (Value × Int64)

-- The letters are `N`, `T`, `B` and `Z`.
def indexEqKey : Value → List UInt8
  | .Integer v => 0x4E :: leBytes 8 (Double.ofInt64 v).toNat
  | .Real bits => 0x4E :: leBytes 8 bits.toNat
  | .Text v => 0x54 :: textBytes v
  | .Blob v => 0x42 :: v
  | .Null => [0x5A]

def valueHasTotalOrder (v : Value) : Bool := (v.partialCmp v).isSome

def cmpValueTotal (left right : Value) : Ordering := (left.partialCmp right).getD .eq

def cmpEntries (l r : Value × Int64) : Ordering :=
  if cmpValueTotal l.1 r.1 = .eq then compare l.2.toInt r.2.toInt else cmpValueTotal l.1 r.1

def cachedPair (idxRow : Row) : Option (Value × Int64) :=
  if idxRow.length < 2 then none
  else match idxRow.getLast? with
    | some (.Integer tableRowid) => some (idxRow.headD .Null, tableRowid)
    | _ => none

def loadEntry (caches : IndexCaches) (entry : Int64 × Row) : IndexCaches :=
  match cachedPair entry.2 with
  | none => caches
  | some (first, tableRowid) =>
      { eqMap := put (indexEqKey first) (lookupD caches.eqMap (indexEqKey first) [] ++ [tableRowid])
          caches.eqMap
        rowidMap := put tableRowid entry.1 caches.rowidMap
        ordered := if valueHasTotalOrder first then caches.ordered ++ [(first, tableRowid)]
          else caches.ordered }

def loadEntries (entries : List (Int64 × Row)) : IndexCaches :=
  entries.foldl loadEntry { eqMap := [], rowidMap := [], ordered := [] }

section Lookups

variable (std : EntryOps)

def ensureIndexCacheLoaded (index : TableIndex) : Res IndexCaches :=
  match index.caches with
  | some caches => .ok caches
  | none =>
      match std.sortUnstableBy cmpEntries (loadEntries index.entries).ordered with
      | some ordered => .ok { loadEntries index.entries with ordered := ordered }
      | none => .error .Panic

def indexRowidsForValue (index : TableIndex) (value : Value) : Res (List Int64) := do
  let caches ← ensureIndexCacheLoaded std index
  return lookupD caches.eqMap (indexEqKey value) []

def lowerBoundIndexEntries (entries : List (Value × Int64)) (value : Value) : Nat :=
  std.partitionPoint entries fun e => cmpValueTotal e.1 value = .lt

def upperBoundIndexEntries (entries : List (Value × Int64)) (value : Value) : Nat :=
  std.partitionPoint entries fun e => cmpValueTotal e.1 value ≠ .gt

def sliceTableRowids (entries : List (Value × Int64)) (start stop : Nat) : Res (List Int64) :=
  if start ≤ stop ∧ stop ≤ entries.length then .ok (((entries.take stop).drop start).map Prod.snd)
  else .error .Panic

def rangeBoundsForComparison (entries : List (Value × Int64)) (op : BinaryOperator) (value : Value) :
    Nat × Nat :=
  match op with
  | .LessThan => (0, lowerBoundIndexEntries std entries value)
  | .LessThanOrEqual => (0, upperBoundIndexEntries std entries value)
  | .GreaterThan => (upperBoundIndexEntries std entries value, entries.length)
  | .GreaterThanOrEqual => (lowerBoundIndexEntries std entries value, entries.length)
  | _ => (0, 0)

def indexRowidsForComparison (index : TableIndex) (op : BinaryOperator) (value : Value) :
    Res (List Int64) :=
  if value = .Null then .ok []
  else if op = .Equal then indexRowidsForValue std index value
  else if !valueHasTotalOrder value then .ok []
  else do
    let caches ← ensureIndexCacheLoaded std index
    let bounds := rangeBoundsForComparison std caches.ordered op value
    sliceTableRowids caches.ordered bounds.1 bounds.2

def indexRowidsForBetween (index : TableIndex) (low high : Value) : Res (List Int64) :=
  if low = .Null ∨ high = .Null then .ok []
  else if !valueHasTotalOrder low ∨ !valueHasTotalOrder high then .ok []
  else if cmpValueTotal low high = .gt then .ok []
  else do
    let caches ← ensureIndexCacheLoaded std index
    sliceTableRowids caches.ordered (lowerBoundIndexEntries std caches.ordered low)
      (upperBoundIndexEntries std caches.ordered high)

end Lookups

def flipComparisonOperator : BinaryOperator → Option BinaryOperator
  | .Equal => some .Equal
  | .LessThan => some .GreaterThan
  | .LessThanOrEqual => some .GreaterThanOrEqual
  | .GreaterThan => some .LessThan
  | .GreaterThanOrEqual => some .LessThanOrEqual
  | _ => none

inductive Lookup where
  | Eq (value : Value)
  | In (values : List Value)
  | Comparison (op : BinaryOperator) (value : Value)
  | Between (low high : Value)

def Lookup.ofComparison (op : BinaryOperator) (value : Value) : Option Lookup :=
  match op with
  | .Equal => some (.Eq value)
  | .LessThan | .LessThanOrEqual | .GreaterThan | .GreaterThanOrEqual => some (.Comparison op value)
  | _ => none

def EvalEnv.lookupOf (env : EvalEnv) : Expr → Option (String × Lookup)
  | .BinaryOp (.ColumnRef _ column) op right => do
      let value ← env.evalConstantExpr right
      let lookup ← Lookup.ofComparison op value
      return (column, lookup)
  | .BinaryOp left op (.ColumnRef _ column) => do
      let op ← flipComparisonOperator op
      let value ← env.evalConstantExpr left
      let lookup ← Lookup.ofComparison op value
      return (column, lookup)
  | .InList (.ColumnRef _ column) list false => do
      let values ← list.mapM env.evalConstantExpr
      return (column, .In (values.filter fun v => v ≠ .Null))
  | .Between (.ColumnRef _ column) low high false => do
      let low ← env.evalConstantExpr low
      let high ← env.evalConstantExpr high
      return (column, .Between low high)
  | _ => none

section Dml

variable (std : EntryOps)

-- The rowids of the items of an `IN` list, each once.
def collectRowids (index : TableIndex) : List Value → List Int64 → Res (List Int64)
  | [], out => .ok out
  | v :: values, out => do
      let rowids ← indexRowidsForValue std index v
      collectRowids index values
        (rowids.foldl (fun out rid => if rid ∈ out then out else out ++ [rid]) out)

def lookupRowids (index : TableIndex) : Lookup → Res (List Int64)
  | .Eq value => if value = .Null then .ok [] else indexRowidsForValue std index value
  | .In values => if values = [] then .ok [] else collectRowids std index values []
  | .Comparison op value => indexRowidsForComparison std index op value
  | .Between low high => indexRowidsForBetween std index low high

def startsWith (column : String) (index : TableIndex) : Bool :=
  match index.schema.columns with
  | first :: _ => toAsciiLowercase first = toAsciiLowercase column
  | [] => false

def tryDmlIndexRowids (env : EvalEnv) (indexes : List TableIndex) (whereExpr : Expr) :
    Res (Option (List Int64)) :=
  match env.lookupOf whereExpr with
  | none => .ok none
  | some (column, lookup) =>
      match indexes.find? (startsWith column) with
      | none => .ok none
      | some index => do
          let rowids ← lookupRowids std index lookup
          return some rowids

def BULK_SCAN_THRESHOLD : Nat := 96

-- Each wanted row is taken out of the map at its first rowid.
def takeRows : List Int64 → List (Int64 × Row) → List (Int64 × Row)
  | [], _ => []
  | rid :: rowids, byId =>
      match byId.lookup rid with
      | some row => (rid, row) :: takeRows rowids (remove rid byId)
      | none => takeRows rowids byId

-- The rows of the table as a scan returns them; a search by rowid finds the same rows.
def fetchRowsByRowids (rows : List (Int64 × Row)) (rowids : List Int64) : List (Int64 × Row) :=
  if BULK_SCAN_THRESHOLD ≤ rowids.length then takeRows rowids (rows.filter fun r => r.1 ∈ rowids)
  else rowids.filterMap fun rid => (rows.lookup rid).map fun row => (rid, row)

def scanTargets (env : EvalEnv) (colMap : ColMap) (whereExpr : Expr) :
    List (Int64 × Row) → Res (List (Int64 × Row))
  | [] => .ok []
  | r :: rows => do
      let v ← env.evalExpr whereExpr r.2 colMap
      let targets ← scanTargets env colMap whereExpr rows
      return if v.isTruthy then r :: targets else targets

-- The rows that `exec_update` goes on to change.
def updateTargets (env : EvalEnv) (columns : List String) (rows : List (Int64 × Row))
    (indexes : List TableIndex) (whereExpr : Expr) : Res (List (Int64 × Row)) := do
  match ← tryDmlIndexRowids std env indexes whereExpr with
  | some rowids => return fetchRowsByRowids rows rowids
  | none => scanTargets env (buildColMap columns) whereExpr rows

-- The rowids that `exec_delete` goes on to delete.
def deleteTargets (env : EvalEnv) (columns : List String) (rows : List (Int64 × Row))
    (indexes : List TableIndex) (whereExpr : Expr) : Res (List Int64) := do
  match ← tryDmlIndexRowids std env indexes whereExpr with
  | some rowids => return rowids
  | none =>
      let targets ← scanTargets env (buildColMap columns) whereExpr rows
      return targets.map Prod.fst

end Dml

end Kkdb
