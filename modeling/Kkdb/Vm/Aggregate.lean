import Kkdb.Vm.GroupKey
import Kkdb.Vm.Scalar

namespace Kkdb

open Lib

-- The arithmetic of `f64` that the aggregates use, how a text is read as a number, and how a number is shown.
structure SumOps where
  add : UInt64 → UInt64 → UInt64
  div : UInt64 → UInt64 → UInt64
  ofText : String → Option UInt64
  shown : RealText

def Value.toF64 (ops : SumOps) : Value → Option UInt64
  | .Integer v => some (Double.ofInt64 v)
  | .Real bits => some bits
  | .Text s => ops.ofText s
  | _ => none

def checkedAdd (a b : Int64) : Option Int64 :=
  if Int64.minValue.toInt ≤ a.toInt + b.toInt ∧ a.toInt + b.toInt ≤ Int64.maxValue.toInt then some
    (a + b) else none

structure Summing where
  intSum : Int64
  realSum : UInt64
  isInt : Bool
  hasValue : Bool

namespace Summing

def start : Summing := ⟨0, 0, true, false⟩

variable (ops : SumOps) (s : Summing)

def addReal (bits : UInt64) : Summing where
  intSum := s.intSum
  realSum := ops.add (if s.isInt then Double.ofInt64 s.intSum else s.realSum) bits
  isInt := false
  hasValue := true

-- A sum that leaves the range goes on as a real number.
def addInteger (v : Int64) : Summing :=
  if s.isInt then
    match checkedAdd s.intSum v with
    | some sum => { s with intSum := sum, hasValue := true }
    | none => s.addReal ops (Double.ofInt64 v)
  else s.addReal ops (Double.ofInt64 v)

def addValue : Value → Summing
  | .Integer v => s.addInteger ops v
  | .Real bits => s.addReal ops bits
  | .Null => s
  | v =>
      match v.toF64 ops with
      | some bits => s.addReal ops bits
      | none => s

def result : Value := if !s.hasValue then .Null else if s.isInt then .Integer s.intSum else .Real s.realSum

end Summing

-- The loops of MIN and MAX, which keep the first of equal values.
def keepBetter (wanted : Ordering) (best : Option Value) (v : Value) : Option Value :=
  if v = .Null then best
  else
    match best with
    | none => some v
    | some current => if v.partialCmp current = some wanted then some v else some current

def avgValue (ops : SumOps) (values : List Value) : Value :=
  let numbers := values.filterMap (Value.toF64 ops)
  if numbers = [] then .Null
  else .Real (ops.div (numbers.foldl ops.add 0) (Double.ofInt64 (Int64.ofNat numbers.length)))

def valueToExpr : Value → Expr
  | .Integer v => .IntegerLiteral v
  | .Real bits => .RealLiteral bits
  | .Text s => .StringLiteral s
  | .Null => .Null
  | .Blob b => .BlobLiteral b

-- `args.is_empty() || matches!(args[0], Expr::IntegerLiteral(1))`
def countsRows : List Expr → Bool
  | [] => true
  | .IntegerLiteral v :: _ => v = 1
  | _ => false

namespace ScalarEnv

variable (env : ScalarEnv) (ops : SumOps)

def argValues (arg : Expr) (groupRows : List Row) (colMap : ColMap) : Res (List Value) :=
  groupRows.mapM fun row => env.evalExpr arg row colMap

def evalAggregate (name : String) (args : List Expr) (distinct : Bool) (groupRows : List Row)
    (colMap : ColMap) :
    Res Value :=
  if eqIgnoreCase name "COUNT" then
    if countsRows args then .ok (.Integer (Int64.ofNat groupRows.length))
    else do
      let values ← env.argValues (args.headD .Null) groupRows colMap
      return .Integer (Int64.ofNat
        (if distinct then countDistinct ops.shown values else (values.filter fun v => v ≠ .Null).length))
  else if eqIgnoreCase name "SUM" then
    match args with
    | [] => .ok .Null
    | arg :: _ => do
        let values ← env.argValues arg groupRows colMap
        return (values.foldl (Summing.addValue ops) Summing.start).result
  else if eqIgnoreCase name "AVG" then
    match args with
    | [] => .ok .Null
    | arg :: _ => do
        let values ← env.argValues arg groupRows colMap
        return avgValue ops values
  else if eqIgnoreCase name "MIN" then
    match args with
    | [] => .ok .Null
    | arg :: _ => do
        let values ← env.argValues arg groupRows colMap
        return (values.foldl (keepBetter .lt) none).getD .Null
  else if eqIgnoreCase name "MAX" then
    match args with
    | [] => .ok .Null
    | arg :: _ => do
        let values ← env.argValues arg groupRows colMap
        return (values.foldl (keepBetter .gt) none).getD .Null
  else .error (.Err (.RuntimeError ("unknown aggregate function: " ++ name)))

open EvalEnv

variable (groupRows : List Row)

mutual

def evalExprWithAggregates (expr : Expr) (row : Row) (colMap : ColMap) : Res Value :=
  match expr with
  | .Function name args distinct =>
      if name = "__win" then env.windowValue args
      else if isAggregateName name then env.evalAggregate ops name args distinct groupRows colMap
      else do
        let values ← evalArgsWithAggregates args row colMap
        env.evalExpr (.Function name (values.map valueToExpr) distinct) row colMap
  | .BinaryOp left .And right => do
      let l ← evalExprWithAggregates left row colMap
      if l ≠ .Null ∧ !l.isTruthy then return .Integer 0
      let r ← evalExprWithAggregates right row colMap
      if r ≠ .Null ∧ !r.isTruthy then return .Integer 0
      if l = .Null ∨ r = .Null then return .Null
      return .Integer 1
  | .BinaryOp left .Or right => do
      let l ← evalExprWithAggregates left row colMap
      if l ≠ .Null ∧ l.isTruthy then return .Integer 1
      let r ← evalExprWithAggregates right row colMap
      if r ≠ .Null ∧ r.isTruthy then return .Integer 1
      if l = .Null ∨ r = .Null then return .Null
      return .Integer 0
  | .BinaryOp left op right => do
      let l ← evalExprWithAggregates left row colMap
      let r ← evalExprWithAggregates right row colMap
      env.base.applyBinaryOp op l r
  | .UnaryOp op e => do
      let v ← evalExprWithAggregates e row colMap
      match op with
      | .Minus => negate v
      | .Not => return if v = .Null then .Null else ofBool (!v.isTruthy)
  | .Nested e => evalExprWithAggregates e row colMap
  | .IsNull e negated => do
      let v ← evalExprWithAggregates e row colMap
      return ofBool (decide (v = .Null) != negated)
  | .InList e list negated => do
      let v ← evalExprWithAggregates e row colMap
      if v = .Null then return .Null
      evalInListWithAggregates v list negated false row colMap
  | .Between e low high negated => do
      let v ← evalExprWithAggregates e row colMap
      let lo ← evalExprWithAggregates low row colMap
      let hi ← evalExprWithAggregates high row colMap
      if v = .Null ∨ lo = .Null ∨ hi = .Null then return .Null
      let inRange := (v.partialCmp lo).any (· ≠ .lt) && (v.partialCmp hi).any (· ≠ .gt)
      return ofBool (inRange != negated)
  | .Like e pattern escapeChar caseInsensitive negated => do
      let v ← evalExprWithAggregates e row colMap
      let p ← evalExprWithAggregates pattern row colMap
      return likeValue v p escapeChar caseInsensitive negated
  | .Collate e _ => evalExprWithAggregates e row colMap
  | .Interval value leadingField => do
      let v ← evalExprWithAggregates value row colMap
      return env.intervalValue leadingField v
  | e => env.evalExpr e row colMap

def evalInListWithAggregates (v : Value) (list : List Expr) (negated hasNull : Bool) (row : Row)
    (colMap : ColMap) : Res Value :=
  match list with
  | [] => .ok (if hasNull then .Null else ofBool negated)
  | item :: list => do
      let itemVal ← evalExprWithAggregates item row colMap
      if itemVal = .Null then evalInListWithAggregates v list negated true row colMap
      else if v.eq itemVal then return ofBool (!negated)
      else evalInListWithAggregates v list negated hasNull row colMap

def evalArgsWithAggregates (args : List Expr) (row : Row) (colMap : ColMap) : Res (List Value) :=
  match args with
  | [] => .ok []
  | arg :: args => do
      let v ← evalExprWithAggregates arg row colMap
      let values ← evalArgsWithAggregates args row colMap
      return v :: values

end

end ScalarEnv

def wholeOps : SumOps where
  add a _ := a
  div a _ := a
  ofText _ := none
  shown := oneText

end Kkdb
