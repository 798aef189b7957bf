import Kkdb.Lib.TopN
import Kkdb.Vm.Select

namespace Kkdb

open Lib

-- What the evaluation of an expression sees of the VM and may change: the row id that VEC_SEARCH looks at,
-- and the values of window functions with the row that `__win` takes them from.
structure EvalCtx where
  currentRowid : Int64
  windowResults : Option (List (List Value))
  currentWindowRowIdx : Nat

abbrev EvalM := EStateM Fault EvalCtx

-- The evaluator of the VM, which may run statements inside an expression, and the libraries it calls.
structure Evaluator where
  evalExpr : Expr → Row → ColMap → EvalM Value
  evalWindowFunctions : List Expr → List Row → ColMap → List NamedWindowDefinition → EvalM (List (List Value))
  realText : UInt64 → String
  keyText : RealText
  sort : SortOps (List Value × Row)

namespace Evaluator

variable (ev : Evaluator)

def setRowid (id : Int64) : EvalM Unit := modify fun ctx => { ctx with currentRowid := id }

-- `eval_expr(..).unwrap_or(Value::Null)`.
def evalOrNull (e : Expr) (row : Row) (colMap : ColMap) : EvalM Value := fun ctx =>
  match ev.evalExpr e row colMap ctx with
  | .error (.Err _) ctx' => .ok .Null ctx'
  | r => r

def evalConst (e : Expr) : EvalM Value := ev.evalExpr e [] []

section Rows

variable (colMap : ColMap)

def withIds (ids : List Int64) (rows : List Row) : List (Int64 × Row) :=
  if ids.length = rows.length then ids.zip rows else rows.map fun row => (0, row)

def filterRows (e : Expr) : List (Int64 × Row) → EvalM (List (Int64 × Row))
  | [] => return []
  | (id, row) :: rows => do
      setRowid id
      let v ← ev.evalExpr e row colMap
      let kept ← filterRows e rows
      return if v.isTruthy then (id, row) :: kept else kept

def whereRows (whereClause : Option Expr) (rows : List (Int64 × Row)) : EvalM (List (Int64 × Row)) :=
  match whereClause with
  | some e => ev.filterRows colMap e rows
  | none => return rows

def sortKeys (row : Row) : List OrderByItem → EvalM (List Value)
  | [] => return []
  | item :: items => do
      let v ← ev.evalOrNull item.expr row colMap
      let vs ← sortKeys row items
      return v :: vs

def keyedRows (orderBy : List OrderByItem) (ids : List Int64) : Nat → List Row → EvalM (List (List Value × Row))
  | _, [] => return []
  | i, row :: rows => do
      setRowid (ids.getD i 0)
      let keys ← ev.sortKeys colMap row orderBy
      let keyed ← keyedRows orderBy ids (i + 1) rows
      return (keys, row) :: keyed

def skippedRows (offset : Option Expr) : EvalM Nat :=
  match offset with
  | some e => do
      let v ← ev.evalConst e
      return SelectStmt.offsetCount v
  | none => return 0

def rowLimit (limit : Option Expr) : EvalM (Option Nat) :=
  match limit with
  | some e => do
      let v ← ev.evalConst e
      return SelectStmt.limitOf v
  | none => return none

def topNLimit (limit offset : Option Expr) : EvalM (Option Nat) := do
  let count ← ev.rowLimit limit
  match count with
  | none => return none
  | some count => do
      let skipped ← ev.skippedRows offset
      return some (min (count + skipped) SelectStmt.usizeMax)

def compareKeyed (orderBy : List OrderByItem) (a b : List Value × Row) : Ordering := compareKeys orderBy a.1 b.1

-- The sort of the source rows, which stops at as many rows as the result can take.
def preSort (q : SelectStmt) (ids : List Int64) (rows : List Row) : EvalM (List Row) := do
  if q.orderBy = [] then return rows
  else do
    let count ← ev.topNLimit q.limit q.offset
    let keyed ← ev.keyedRows colMap q.orderBy ids 0 rows
    match topN ev.sort (compareKeyed q.orderBy) count keyed with
    | some sorted => return sorted.map (·.2)
    | none => throw .Panic

-- `eval_window_functions_for_groups`, each row being a group. Its loops are over the functions and the rows.
def windowTable (windowFuncs : List Expr) (windowDefs : List NamedWindowDefinition) (rows : List Row) :
    EvalM (List (List Value)) :=
  if windowFuncs = [] then return rows.map fun _ => []
  else if rows = [] then return []
  else ev.evalWindowFunctions windowFuncs rows colMap windowDefs

def evalProj (row : Row) : Proj → EvalM Value
  | .Index i => return row.getD i .Null
  | .Expr e => ev.evalExpr e row colMap

def projectRow (row : Row) : List Proj → EvalM Row
  | [] => return []
  | p :: ps => do
      let v ← ev.evalProj colMap row p
      let vs ← projectRow row ps
      return v :: vs

def projectRows (plan : List Proj) : Nat → List Row → EvalM (List Row)
  | _, [] => return []
  | i, row :: rows => do
      modify fun ctx => { ctx with currentWindowRowIdx := i }
      let out ← ev.projectRow colMap row plan
      let outs ← projectRows plan (i + 1) rows
      return out :: outs

def projectColumns (windowFuncs : List Expr) (windowDefs : List NamedWindowDefinition) (colNames : List String)
    (plan : List Proj) (rows : List Row) : EvalM (List Row) := do
  if isIdentity colNames plan ∧ windowFuncs = [] then return rows
  else do
    let windows ← ev.windowTable colMap windowFuncs windowDefs rows
    modify fun ctx => { ctx with windowResults := some windows }
    ev.projectRows colMap plan 0 rows

end Rows

def rowKey (row : Row) : List UInt8 := row.flatMap fun v => typedKey ev.keyText v ++ [0]

-- `retain` with the keys seen so far.
def retainNew : List (List UInt8) → List Row → List Row
  | _, [] => []
  | seen, row :: rows =>
      if ev.rowKey row ∈ seen then retainNew seen rows
      else row :: retainNew (ev.rowKey row :: seen) rows

theorem retainNew_cons (seen : List (List UInt8)) (row : Row) (rows : List Row) :
    ev.retainNew seen (row :: rows) = if ev.rowKey row ∈ seen then ev.retainNew seen rows
      else row :: ev.retainNew (ev.rowKey row :: seen) rows := rfl

def applyDistinct (distinct : Bool) (rows : List Row) : List Row :=
  if distinct then ev.retainNew [] rows else rows

def applyOffset (offset : Option Expr) (rows : List Row) : EvalM (List Row) := do
  let skipped ← ev.skippedRows offset
  return rows.drop skipped

def applyLimit (limit : Option Expr) (rows : List Row) : EvalM (List Row) := do
  let count ← ev.rowLimit limit
  match count with
  | some count => return rows.take count
  | none => return rows

def selectKept (q : SelectStmt) (windowFuncs : List Expr) (colMap : ColMap) (ids : List Int64)
    (colNames : List String) (kept : List Row) : EvalM Source := do
  let plan := projectionPlan ev.realText colNames colMap q.columns
  let sorted ← ev.preSort colMap q ids kept
  let output ← ev.projectColumns colMap windowFuncs q.windowDefs colNames (plan.map (·.2)) sorted
  let output ← ev.applyOffset q.offset (ev.applyDistinct q.distinct output)
  let output ← ev.applyLimit q.limit output
  return { rows := output, cols := plan.map (·.1) }

-- `exec_select` without grouping and aggregates, from the source rows on. The window functions are out of the
-- statement, and the policies are in its WHERE.
def selectRows (q : SelectStmt) (windowFuncs : List Expr) (colMap : ColMap) (ids : List Int64)
    (source : Source) : EvalM Source := do
  let kept ← ev.whereRows colMap q.whereClause (withIds ids source.rows)
  ev.selectKept q windowFuncs colMap ids source.cols (kept.map (·.2))

def execPlain (q : SelectStmt) (colMap : ColMap) (ids : List Int64) (source : Source) : EvalM Source :=
  ev.selectRows q.extractWindows.1 q.extractWindows.2 colMap ids source

end Evaluator

end Kkdb
