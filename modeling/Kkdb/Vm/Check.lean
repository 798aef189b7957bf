import Kkdb.Vm.Schema

namespace Kkdb

open Lib

-- The arithmetic on doubles that the evaluator of `CHECK` expressions uses.
structure FloatOps where
  add : UInt64 → UInt64 → UInt64
  subtract : UInt64 → UInt64 → UInt64
  multiply : UInt64 → UInt64 → UInt64

-- An integer that does not fit makes the operation panic.
def checkedInt (v : Int) : Res Value :=
  if Int64.minValue.toInt ≤ v ∧ v ≤ Int64.maxValue.toInt then .ok (.Integer (Int64.ofInt v)) else .error .Panic

def doubleSign (a b : UInt64) : Int :=
  if Double.partialCmp a b = some .lt then -1 else if Double.partialCmp a b = some .gt then 1 else 0

def orderingSign : Ordering → Int
  | .lt => -1
  | .eq => 0
  | .gt => 1

def chkCmp : Value → Value → Int
  | .Integer a, .Integer b => orderingSign (compare a.toInt b.toInt)
  | .Real a, .Real b => doubleSign a b
  | .Integer a, .Real b => doubleSign (Double.ofInt64 a) b
  | .Real a, .Integer b => doubleSign a (Double.ofInt64 b)
  | .Text a, .Text b => orderingSign (compare (textBytes a) (textBytes b))
  | _, _ => 0

def chkArith (l r : Value) (intOp : Int → Int → Int) (floatOp : UInt64 → UInt64 → UInt64) : Res Value :=
  match l, r with
  | .Integer a, .Integer b => checkedInt (intOp a.toInt b.toInt)
  | .Real a, .Real b => .ok (.Real (floatOp a b))
  | .Integer a, .Real b => .ok (.Real (floatOp (Double.ofInt64 a) b))
  | .Real a, .Integer b => .ok (.Real (floatOp a (Double.ofInt64 b)))
  | _, _ => .ok .Null

def chkTruthy (v : Value) : Bool := v ≠ .Integer 0 && v ≠ .Null

def isComparison : BinaryOperator → Bool
  | .Equal | .NotEqual | .LessThan | .LessThanOrEqual | .GreaterThan | .GreaterThanOrEqual => true
  | _ => false

def chkBinary (ops : FloatOps) (op : BinaryOperator) (l r : Value) : Res Value :=
  if isComparison op ∧ (l = .Null ∨ r = .Null) then .ok .Null
  else
    match op with
    | .Equal => .ok (EvalEnv.ofBool (l.eq r))
    | .NotEqual => .ok (EvalEnv.ofBool (!l.eq r))
    | .LessThan => .ok (EvalEnv.ofBool (chkCmp l r < 0))
    | .LessThanOrEqual => .ok (EvalEnv.ofBool (chkCmp l r ≤ 0))
    | .GreaterThan => .ok (EvalEnv.ofBool (chkCmp l r > 0))
    | .GreaterThanOrEqual => .ok (EvalEnv.ofBool (chkCmp l r ≥ 0))
    | .Add => chkArith l r (· + ·) ops.add
    | .Subtract => chkArith l r (· - ·) ops.subtract
    | .Multiply => chkArith l r (· * ·) ops.multiply
    | .Divide =>
        match l, r with
        | .Integer a, .Integer b => if b ≠ 0 then checkedInt (Int.tdiv a.toInt b.toInt) else .ok .Null
        | _, _ => .ok .Null
    | .And => .ok (EvalEnv.ofBool (chkTruthy l && chkTruthy r))
    | .Or => .ok (EvalEnv.ofBool (chkTruthy l || chkTruthy r))
    | _ => .ok .Null

-- The other kinds of expressions evaluate to NULL, which passes the check.
-- `same` compares the names of columns.
def evalCheckExprBy (same : String → String → Bool) (ops : FloatOps) (row : Row) (colNames : List String) :
    Expr → Res Value
  | .IntegerLiteral v => .ok (.Integer v)
  | .RealLiteral bits => .ok (.Real bits)
  | .StringLiteral v => .ok (.Text v)
  | .Null => .ok .Null
  | .ColumnRef _ column =>
      match colNames.findIdx? fun n => same n column with
      | some i => .ok (row.getD i .Null)
      | none => .ok .Null
  | .BinaryOp left op right => do
      let l ← evalCheckExprBy same ops row colNames left
      let r ← evalCheckExprBy same ops row colNames right
      chkBinary ops op l r
  | .IsNull inner negated => do
      let v ← evalCheckExprBy same ops row colNames inner
      return EvalEnv.ofBool (decide (v = .Null) != negated)
  | .UnaryOp .Not inner => do
      let v ← evalCheckExprBy same ops row colNames inner
      return EvalEnv.ofBool (!chkTruthy v)
  | .UnaryOp .Minus inner => do
      let v ← evalCheckExprBy same ops row colNames inner
      match v with
      | .Integer i => checkedInt (-i.toInt)
      | .Real bits => return .Real (Double.neg bits)
      | _ => return .Null
  | _ => .ok .Null

-- With names of ASCII letters.
def evalCheckExprSimple (ops : FloatOps) (row : Row) (colNames : List String) : Expr → Res Value :=
  evalCheckExprBy sameName ops row colNames

def checkFailed (name : Option String) (tableName : String) : Fault :=
  .Err (.ConstraintViolation
    ("CHECK constraint " ++ name.getD "CHECK" ++ " failed for table " ++ tableName))

-- Only an integer zero violates a check.
def runChecksBy (same : String → String → Bool) (ops : FloatOps) (tableName : String) (colNames : List String)
    (row : Row) : List (Option String × Expr) → Res Unit
  | [] => .ok ()
  | (name, expr) :: checks => do
      let v ← evalCheckExprBy same ops row colNames expr
      if v = .Integer 0 then throw (checkFailed name tableName)
      runChecksBy same ops tableName colNames row checks

def runChecks (ops : FloatOps) (tableName : String) (colNames : List String) (row : Row) :
    List (Option String × Expr) → Res Unit :=
  runChecksBy sameName ops tableName colNames row

end Kkdb
