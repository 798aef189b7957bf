import Kkdb.Sql.Ast
import Kkdb.Types.Compare
import Kkdb.Vm.Mvcc

namespace Kkdb

open Lib

abbrev ColMap := List (List Char × Nat)

-- The loops that lower a name byte by byte and push each byte as a character.
def lowerBytes (s : String) : List Char :=
  (textBytes s).map fun b => (Char.ofNat b.toNat).toLower

-- The map that the statements build from the columns of a table. A later column of one name wins.
def buildColMap (columns : List String) : ColMap :=
  (columns.zipIdx.map fun c =>
    (if c.1.toList.any Char.isUpper then lowerBytes c.1 else c.1.toList, c.2)).reverse

-- What an expression can refer to besides the row, and the parts of the evaluator that the
-- predicates on one column do not use: the operators that are neither comparisons nor
-- connectives, on values that are not null, and the other kinds of expressions.
structure EvalEnv where
  params : List Value
  outerRows : List (Row × ColMap)
  operator : BinaryOperator → Value → Value → Res Value
  other : Expr → Row → ColMap → Res Value

namespace EvalEnv

variable (env : EvalEnv)

def parameterOutOfRange (index count : Nat) : Fault :=
  .Err (.RuntimeError ("parameter index " ++ toString index ++ " out of range (" ++ toString count ++
    " parameter" ++ (if count = 1 then "" else "s") ++ " supplied)"))

def findOuter (names : List (List Char)) : List (Row × ColMap) → Option Value
  | [] => none
  | (row, colMap) :: outer =>
      match names.findSome? fun name => colMap.lookup name with
      | some index => some (row.getD index .Null)
      | none => findOuter names outer

def columnRef (table : Option String) (column : String) (row : Row) (colMap : ColMap) : Res Value :=
  let qualified := table.map fun t => lowerBytes t ++ '.' :: lowerBytes column
  match qualified.bind fun name => colMap.lookup name with
  | some index => .ok (row.getD index .Null)
  | none =>
      match qualified.bind fun name => findOuter [name] env.outerRows.reverse with
      | some v => .ok v
      | none =>
          match [column.toList, toAsciiLowercase column].findSome? fun name => colMap.lookup name with
          | some index => .ok (row.getD index .Null)
          | none =>
              match findOuter [column.toList, toAsciiLowercase column] env.outerRows.reverse with
              | some v => .ok v
              | none => .error (.Err (.ColumnNotFound column))

def ofBool (b : Bool) : Value := .Integer (if b then 1 else 0)

def applyBinaryOp (op : BinaryOperator) (left right : Value) : Res Value :=
  if left = .Null ∨ right = .Null then
    match op with
    | .And =>
        if (left ≠ .Null ∧ !left.isTruthy) ∨ (right ≠ .Null ∧ !right.isTruthy) then .ok (.Integer 0)
        else .ok .Null
    | .Or => if left.isTruthy ∨ right.isTruthy then .ok (.Integer 1) else .ok .Null
    | _ => .ok .Null
  else
    match op with
    | .Equal => .ok (ofBool (left.eq right))
    | .NotEqual => .ok (ofBool (!left.eq right))
    | .LessThan => .ok (ofBool (left.partialCmp right = some .lt))
    | .LessThanOrEqual => .ok (ofBool ((left.partialCmp right).any (· ≠ .gt)))
    | .GreaterThan => .ok (ofBool (left.partialCmp right = some .gt))
    | .GreaterThanOrEqual => .ok (ofBool ((left.partialCmp right).any (· ≠ .lt)))
    | .And => .ok (ofBool (left.isTruthy && right.isTruthy))
    | .Or => .ok (ofBool (left.isTruthy || right.isTruthy))
    | _ => env.operator op left right

def negate : Value → Res Value
  | .Integer v => .ok (.Integer (-v))
  | .Real bits => .ok (.Real (Double.neg bits))
  | .Null => .ok .Null
  | _ => .error (.Err (.TypeError "cannot negate non-numeric value"))

mutual

def evalExpr (expr : Expr) (row : Row) (colMap : ColMap) : Res Value :=
  match expr with
  | .IntegerLiteral v => .ok (.Integer v)
  | .RealLiteral bits => .ok (.Real bits)
  | .StringLiteral v => .ok (.Text v)
  | .BlobLiteral v => .ok (.Blob v)
  | .Null => .ok .Null
  | .Placeholder index =>
      match env.params[index]? with
      | some v => .ok v
      | none => .error (parameterOutOfRange index env.params.length)
  | .ColumnRef table column => env.columnRef table column row colMap
  | .BinaryOp left .And right => do
      let l ← evalExpr left row colMap
      if l ≠ .Null ∧ !l.isTruthy then return .Integer 0
      let r ← evalExpr right row colMap
      if r ≠ .Null ∧ !r.isTruthy then return .Integer 0
      if l = .Null ∨ r = .Null then return .Null
      return .Integer 1
  | .BinaryOp left .Or right => do
      let l ← evalExpr left row colMap
      if l ≠ .Null ∧ l.isTruthy then return .Integer 1
      let r ← evalExpr right row colMap
      if r ≠ .Null ∧ r.isTruthy then return .Integer 1
      if l = .Null ∨ r = .Null then return .Null
      return .Integer 0
  | .BinaryOp left .FtsMatch right => env.other (.BinaryOp left .FtsMatch right) row colMap
  | .BinaryOp left op right => do
      let l ← evalExpr left row colMap
      let r ← evalExpr right row colMap
      env.applyBinaryOp op l r
  | .UnaryOp op e => do
      let v ← evalExpr e row colMap
      match op with
      | .Minus => negate v
      | .Not => return if v = .Null then .Null else ofBool (!v.isTruthy)
  | .IsNull e negated => do
      let v ← evalExpr e row colMap
      return ofBool (decide (v = .Null) != negated)
  | .InList e list negated => do
      let v ← evalExpr e row colMap
      if v = .Null then return .Null
      evalInList v list negated false row colMap
  | .Between e low high negated => do
      let v ← evalExpr e row colMap
      let lo ← evalExpr low row colMap
      let hi ← evalExpr high row colMap
      if v = .Null ∨ lo = .Null ∨ hi = .Null then return .Null
      let inRange := (v.partialCmp lo).any (· ≠ .lt) && (v.partialCmp hi).any (· ≠ .gt)
      return ofBool (inRange != negated)
  | .Nested e => evalExpr e row colMap
  | e => env.other e row colMap

-- The loop over the items of an `IN` list, which stops at the first equal one.
def evalInList (v : Value) (list : List Expr) (negated hasNull : Bool) (row : Row) (colMap : ColMap) :
    Res Value :=
  match list with
  | [] => .ok (if hasNull then .Null else ofBool negated)
  | item :: list => do
      let itemVal ← evalExpr item row colMap
      if itemVal = .Null then evalInList v list negated true row colMap
      else if v.eq itemVal then return ofBool (!negated)
      else evalInList v list negated hasNull row colMap

end

def evalConstantExpr (expr : Expr) : Option Value := (env.evalExpr expr [] []).toOption

end EvalEnv

def columnsEnv : EvalEnv where
  params := []
  outerRows := []
  operator _ _ _ := .ok .Null
  other _ _ _ := .ok .Null

end Kkdb
