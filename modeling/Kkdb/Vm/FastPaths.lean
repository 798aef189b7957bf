import Kkdb.BTree.Order
import Kkdb.Vm.ClauseOrder
import Kkdb.Vm.Cte

namespace Kkdb

open Lib

variable [Lz4Flex]

-- What the name of a FROM clause can stand for: a CTE, a view, or a table with the versions that a snapshot
-- sees of it.
structure Names where
  schema : Schema
  cteCache : Cte.CteCache
  viewSelect : String → Option SelectStmt
  rlsEnabled : String → Bool
  -- the USING expressions of the policies for the user
  usingExprs : String → List Expr
  tree : String → BTree.Table
  snapshot : Option (UndoLog × MvccSnapshot)
  execSelect : SelectStmt → EvalM Source
  -- `eval_window_functions_for_groups` with all rows in one group
  groupWindows : List Expr → List Row → ColMap → List NamedWindowDefinition → EvalM (List (List Value))
  -- `str::to_lowercase`
  toLowercase : String → String

namespace Names

variable (names : Names)

-- A read of the tree behind a name. What it leaves in the page cache is left out.
def ask {α : Type} (name : String) (read : Nat → PagerM α) : EvalM α := fun ctx =>
  match read (names.tree name).root (names.tree name).pager with
  | .ok a _ => .ok a ctx
  | .error fault _ => .error fault ctx

def getTable (name : String) : EvalM TableSchema :=
  match names.schema.getTable name with
  | some table => return table
  | none => throw (.Err (.TableNotFound name))

def visibleRows (name : String) : EvalM (List Row) :=
  match names.snapshot with
  | none => names.ask name BTree.scanRows
  | some (undoLog, snapshot) => do
      let all ← names.ask name BTree.scanAll
      let delta := computeVisibilityDelta undoLog snapshot name
      return (all.filter fun e => e.1 ∉ delta.1).map (·.2) ++ delta.2.map (·.2)

-- `eval_from` for a name.
def evalTable (name : String) : EvalM Source :=
  match names.cteCache (Cte.key name) with
  | some source => return source
  | none =>
      match names.viewSelect name with
      | some q => names.execSelect q
      | none => do
          let table ← names.getTable name
          let rows ← names.visibleRows name
          return { rows := rows, cols := table.colNames }

def colMap (fromClause : FromClause) (cols : List String) : ColMap :=
  (injectQualifiedNames names.schema cols fromClause { colMap := buildColMap cols, offset := 0 }).colMap

-- WHERE, and with AND every policy.
def injectPolicies (whereClause : Option Expr) (policies : List Expr) : Option Expr :=
  policies.foldl (fun acc usingExpr =>
    match acc with
    | none => some usingExpr
    | some existing => some (.BinaryOp existing .And usingExpr)) whereClause

def withPolicies (q : SelectStmt) (name : String) : SelectStmt :=
  { q with whereClause := injectPolicies q.whereClause (if names.rlsEnabled name then names.usingExprs name else []) }

def rowIds (name : String) (rows : List Row) : List Int64 :=
  if rows = [] then []
  else if (names.cteCache (Cte.key name)).isSome ∨ (names.schema.getTable name).isNone ∨
      (names.tree name).root = 0 then rows.map fun _ => 0
  else
    match BTree.scanAll (names.tree name).root (names.tree name).pager with
    | .ok entries _ => entries.map (·.1)
    | .error _ _ => []

section Count

variable (ev : Evaluator)

-- The shortcut of `SELECT COUNT(*)`.
def countShortcut (name : String) : EvalM Source := do
  let _ ← names.getTable name
  let count ← names.ask name BTree.countRows
  return { rows := [[.Integer (Int64.ofNat count)]], cols := ["COUNT(*)"] }

def countLabel (columns : List SelectColumn) : String :=
  match columns with
  | [.Expr e aliasName] => aliasName.getD (displayName ev.realText e)
  | _ => ""

def outputColMap (cols : List String) : ColMap :=
  (cols.zipIdx.map fun (name, i) => ((names.toLowercase name).toList, i)).reverse

-- A key of ORDER BY for a row of the result: a position, a column of the result or an expression.
def outputKey (cols : List String) (row : Row) (item : OrderByItem) : EvalM Value :=
  match item.expr with
  | .IntegerLiteral n => return if n < 0 then .Null else row.getD (n.toInt.toNat - 1) .Null
  | .ColumnRef _ column =>
      match (names.outputColMap cols).lookup (toAsciiLowercase column) with
      | some i => return row.getD i .Null
      | none => return .Null
  | e => ev.evalOrNull e row (names.outputColMap cols)

def outputKeys (cols : List String) (row : Row) : List OrderByItem → EvalM (List Value)
  | [] => return []
  | item :: items => do
      let v ← names.outputKey ev cols row item
      let vs ← outputKeys cols row items
      return v :: vs

def postSort (q : SelectStmt) (cols : List String) (row : Row) : EvalM (List Row) :=
  if q.orderBy = [] then return [row]
  else do
    let keys ← names.outputKeys ev cols row q.orderBy
    let count ← ev.topNLimit q.limit q.offset
    match topN ev.sort (Evaluator.compareKeyed q.orderBy) count [(keys, row)] with
    | some sorted => return sorted.map (·.2)
    | none => throw .Panic

def aggregateWindows (q : SelectStmt) (windowFuncs : List Expr) (colMap : ColMap) (rows : List Row) :
    EvalM (List (List Value)) :=
  if windowFuncs = [] then return [[]]
  else names.groupWindows windowFuncs rows colMap q.windowDefs

-- The pipeline without the shortcut, from `eval_from` over `apply_implicit_aggregate` to LIMIT.
def countPipeline (q : SelectStmt) (windowFuncs : List Expr) (fromClause : FromClause) (name : String) :
    EvalM Source := do
  let source ← names.evalTable name
  let colMap := names.colMap fromClause source.cols
  let kept ← ev.whereRows colMap (names.withPolicies q name).whereClause
    (Evaluator.withIds (names.rowIds name source.rows) source.rows)
  let windows ← names.aggregateWindows q windowFuncs colMap (kept.map (·.2))
  modify fun ctx => { ctx with windowResults := some windows, currentWindowRowIdx := 0 }
  let cols := [countLabel ev q.columns]
  let output ← names.postSort ev q cols [.Integer (Int64.ofNat kept.length)]
  let output ← ev.applyOffset q.offset output
  let output ← ev.applyLimit q.limit output
  return { rows := output, cols := cols }

-- A statement for which `is_count_star` holds, from a name.
def execCountStar (q : SelectStmt) (fromClause : FromClause) (name : String) : EvalM Source :=
  if names.rlsEnabled name then names.countPipeline ev q.extractWindows.1 q.extractWindows.2 fromClause name
  else names.countShortcut name

end Count

section Limit

variable (ev : Evaluator)

def needed (limit : Option Nat) (skipped : Nat) : Nat :=
  min (limit.getD SelectStmt.usizeMax + skipped) SelectStmt.usizeMax

def limitShortcut (q : SelectStmt) (name : String) : EvalM Source := do
  let limit ← ev.rowLimit q.limit
  let skipped ← ev.skippedRows q.offset
  let table ← names.getTable name
  let rows ← names.ask name fun root => BTree.scanRowsLimit root (needed limit skipped)
  return { rows := rows, cols := table.colNames }

def finishRows (q : SelectStmt) (windowFuncs : List Expr) (fromClause : FromClause) (name : String)
    (source : Source) : EvalM Source :=
  ev.selectRows (names.withPolicies q name) windowFuncs (names.colMap fromClause source.cols)
    (names.rowIds name source.rows) source

def limitPipeline (q : SelectStmt) (windowFuncs : List Expr) (fromClause : FromClause) (name : String) :
    EvalM Source := do
  let source ← names.evalTable name
  names.finishRows ev q windowFuncs fromClause name source

-- A statement for which `limit_pushdown` holds, from a name.
def execLimit (q : SelectStmt) (fromClause : FromClause) (name : String) : EvalM Source :=
  if names.rlsEnabled name then names.limitPipeline ev q.extractWindows.1 q.extractWindows.2 fromClause name
  else do
    let source ← names.limitShortcut ev q.extractWindows.1 name
    names.finishRows ev q.extractWindows.1 q.extractWindows.2 fromClause name source

end Limit

end Names

end Kkdb
