import Kkdb.Vm.EvalExpr
import Kkdb.Vm.Like

namespace Kkdb

open Lib

-- What an expression can refer to besides the row, and the parts of the evaluator that are left open: the
-- operators that are neither comparisons nor connectives, the scalar functions, given what each argument
-- evaluates to, the casts, the queries, the full-text operators and how an interval is shown.
structure ScalarEnv where
  params : List Value
  outerRows : List (Row × ColMap)
  windowRow : Option (List Value)
  operator : BinaryOperator → Value → Value → Res Value
  function : String → List (Res Value) → Res Value
  cast : CastTargetType → Bool → Value → Res Value
  query : SelectStmt → Row → ColMap → Res (List Row)
  fullText : Expr → Row → ColMap → Res Value
  interval : String → Value → Value

def eqIgnoreCase (a b : String) : Bool := toAsciiLowercase a == toAsciiLowercase b

def isAggregateName (name : String) : Bool := ["COUNT", "SUM", "AVG", "MIN", "MAX"].any (eqIgnoreCase name)

namespace ScalarEnv

open EvalEnv

variable (env : ScalarEnv)

-- The part of the evaluator for columns and operators.
def base : EvalEnv where
  params := env.params
  outerRows := env.outerRows
  operator := env.operator
  other _ _ _ := .ok .Null

def likeValue (v pattern : Value) (escapeChar : Option Char) (caseInsensitive negated : Bool) : Value :=
  if v = .Null ∨ pattern = .Null then .Null
  else
    match v, pattern with
    | .Text s, .Text p => ofBool (likeMatch s p escapeChar caseInsensitive != negated)
    | _, _ => .Integer 0

def windowValue (args : List Expr) : Res Value :=
  match env.windowRow with
  | none => .ok .Null
  | some values =>
      let index := match args with
        | .IntegerLiteral i :: _ => i.toUInt64.toNat
        | _ => 0
      match values[index]? with
      | some v => .ok v
      | none => .error .Panic

-- The loop of `IN` over the rows of a query.
def inValues (v : Value) (negated : Bool) : Bool → List Value → Value
  | hasNull, [] => if hasNull then .Null else ofBool negated
  | hasNull, x :: xs =>
      if x = .Null then inValues v negated true xs
      else if v.eq x then ofBool (!negated)
      else inValues v negated hasNull xs

def anyValue (op : BinaryOperator) (v : Value) : Bool → List Value → Res Value
  | hasNull, [] => .ok (if hasNull then .Null else .Integer 0)
  | hasNull, x :: xs =>
      if x = .Null then anyValue op v true xs
      else do
        let c ← env.base.applyBinaryOp op v x
        if c.isTruthy then return .Integer 1 else anyValue op v hasNull xs

def allValues (op : BinaryOperator) (v : Value) : Bool → List Value → Res Value
  | hasNull, [] => .ok (if hasNull then .Null else .Integer 1)
  | hasNull, x :: xs =>
      if x = .Null then allValues op v true xs
      else do
        let c ← env.base.applyBinaryOp op v x
        if c.isTruthy then allValues op v hasNull xs else return .Integer 0

-- Whether a WHEN is chosen, by the operand of a simple CASE or as a condition.
def whenHolds : Option Value → Value → Bool
  | some operand, v => operand ≠ .Null ∧ v ≠ .Null ∧ operand.eq v
  | none, v => v.isTruthy

def intervalValue (leadingField : Option String) (v : Value) : Value :=
  match leadingField with
  | some field => env.interval field v
  | none => v

mutual

def evalExpr (expr : Expr) (row : Row) (colMap : ColMap) : Res Value :=
  match expr with
  | .IntegerLiteral v => .ok (.Integer v)
  | .RealLiteral bits => .ok (.Real bits)
  | .StringLiteral v => .ok (.Text v)
  | .BlobLiteral v => .ok (.Blob v)
  | .Null => .ok .Null
  | .Placeholder index =>
      match env.params[index]? with
      | some v => .ok v
      | none => .error (parameterOutOfRange index env.params.length)
  | .ColumnRef table column => env.base.columnRef table column row colMap
  | .BinaryOp left .And right => do
      let l ← evalExpr left row colMap
      if l ≠ .Null ∧ !l.isTruthy then return .Integer 0
      let r ← evalExpr right row colMap
      if r ≠ .Null ∧ !r.isTruthy then return .Integer 0
      if l = .Null ∨ r = .Null then return .Null
      return .Integer 1
  | .BinaryOp left .Or right => do
      let l ← evalExpr left row colMap
      if l ≠ .Null ∧ l.isTruthy then return .Integer 1
      let r ← evalExpr right row colMap
      if r ≠ .Null ∧ r.isTruthy then return .Integer 1
      if l = .Null ∨ r = .Null then return .Null
      return .Integer 0
  | .BinaryOp left .FtsMatch right => env.fullText (.BinaryOp left .FtsMatch right) row colMap
  | .BinaryOp left op right => do
      let l ← evalExpr left row colMap
      let r ← evalExpr right row colMap
      env.base.applyBinaryOp op l r
  | .UnaryOp op e => do
      let v ← evalExpr e row colMap
      match op with
      | .Minus => negate v
      | .Not => return if v = .Null then .Null else ofBool (!v.isTruthy)
  | .IsNull e negated => do
      let v ← evalExpr e row colMap
      return ofBool (decide (v = .Null) != negated)
  | .InList e list negated => do
      let v ← evalExpr e row colMap
      if v = .Null then return .Null
      evalInList v list negated false row colMap
  | .Like e pattern escapeChar caseInsensitive negated => do
      let v ← evalExpr e row colMap
      let p ← evalExpr pattern row colMap
      return likeValue v p escapeChar caseInsensitive negated
  | .Between e low high negated => do
      let v ← evalExpr e row colMap
      let lo ← evalExpr low row colMap
      let hi ← evalExpr high row colMap
      if v = .Null ∨ lo = .Null ∨ hi = .Null then return .Null
      let inRange := (v.partialCmp lo).any (· ≠ .lt) && (v.partialCmp hi).any (· ≠ .gt)
      return ofBool (inRange != negated)
  | .Function name args _ =>
      if isAggregateName name then
        match args with
        | [] => .ok (.Integer 1)
        | arg :: _ => evalExpr arg row colMap
      else if name = "__win" then env.windowValue args
      else env.function name (evalArgs args row colMap)
  | .Nested e => evalExpr e row colMap
  | .Subquery query => do
      let rows ← env.query query row colMap
      return (rows.head?.bind fun first => first.head?).getD .Null
  | .InSubquery e query negated => do
      let v ← evalExpr e row colMap
      if v = .Null then return .Null
      let rows ← env.query query row colMap
      return inValues v negated false (rows.filterMap fun subRow => subRow.head?)
  | .AnyOp e op query => do
      let v ← evalExpr e row colMap
      if v = .Null then return .Null
      let rows ← env.query query row colMap
      env.anyValue op v false (rows.filterMap fun subRow => subRow.head?)
  | .AllOp e op query => do
      let v ← evalExpr e row colMap
      if v = .Null then return .Null
      let rows ← env.query query row colMap
      env.allValues op v false (rows.filterMap fun subRow => subRow.head?)
  | .Exists query => do
      let rows ← env.query query row colMap
      return ofBool (!rows.isEmpty)
  | .Case operand whenClauses elseClause => do
      let v ← evalOption operand row colMap
      match ← evalWhens v whenClauses row colMap with
      | some result => return result
      | none => return (← evalOption elseClause row colMap).getD .Null
  | .Cast e toType tryCast => do
      let v ← evalExpr e row colMap
      env.cast toType tryCast v
  | .Collate e _ => evalExpr e row colMap
  | .Interval value leadingField => do
      let v ← evalExpr value row colMap
      return env.intervalValue leadingField v
  | .WindowFunction _ _ _ _ =>
      .error (.Err (.RuntimeError "window function cannot be evaluated in scalar context"))
  | .MatchAgainst columns query => env.fullText (.MatchAgainst columns query) row colMap

-- The loop over the items of an `IN` list, which stops at the first equal one.
def evalInList (v : Value) (list : List Expr) (negated hasNull : Bool) (row : Row) (colMap : ColMap) :
    Res Value :=
  match list with
  | [] => .ok (if hasNull then .Null else ofBool negated)
  | item :: list => do
      let itemVal ← evalExpr item row colMap
      if itemVal = .Null then evalInList v list negated true row colMap
      else if v.eq itemVal then return ofBool (!negated)
      else evalInList v list negated hasNull row colMap

def evalArgs (args : List Expr) (row : Row) (colMap : ColMap) : List (Res Value) :=
  match args with
  | [] => []
  | arg :: args => evalExpr arg row colMap :: evalArgs args row colMap

def evalOption (expr : Option Expr) (row : Row) (colMap : ColMap) : Res (Option Value) :=
  match expr with
  | none => .ok none
  | some e => do return some (← evalExpr e row colMap)

def evalWhens (operand : Option Value) (clauses : List (Expr × Expr)) (row : Row) (colMap : ColMap) :
    Res (Option Value) :=
  match clauses with
  | [] => .ok none
  | clause :: clauses => do
      match ← evalWhen operand clause row colMap with
      | some result => return some result
      | none => evalWhens operand clauses row colMap

def evalWhen (operand : Option Value) (clause : Expr × Expr) (row : Row) (colMap : ColMap) :
    Res (Option Value) :=
  match clause with
  | (cond, result) => do
      let v ← evalExpr cond row colMap
      if whenHolds operand v then return some (← evalExpr result row colMap) else return none

end

def evalConstantExpr (expr : Expr) : Option Value := (env.evalExpr expr [] []).toOption

-- The evaluator of the constraints and the index lookups, with the other kinds of expressions filled in.
def toEvalEnv : EvalEnv where
  params := env.params
  outerRows := env.outerRows
  operator := env.operator
  other := env.evalExpr

section

variable {env}

theorem evalExpr_function {name : String} (h : ¬isAggregateName name = true) (args : List Expr)
    (distinct : Bool)
    (row : Row) (colMap : ColMap) : env.evalExpr (.Function name args distinct) row colMap =
      if name = "__win" then env.windowValue args else env.function name (env.evalArgs args row colMap) := by
  cases args with
  | nil => rw [evalExpr, if_neg h]
  | cons arg args => rw [evalExpr, if_neg h]

mutual

theorem evalExpr_toEvalEnv (expr : Expr) (row : Row) (colMap : ColMap) :
    env.toEvalEnv.evalExpr expr row colMap = env.evalExpr expr row colMap := by
  cases expr with
  | BinaryOp left op right =>
      have hleft := evalExpr_toEvalEnv left row colMap
      have hright := evalExpr_toEvalEnv right row colMap
      cases op with
      | FtsMatch => rfl
      | And | Or => simp only [EvalEnv.evalExpr, ScalarEnv.evalExpr, hleft, hright]
      | _ =>
          simp only [EvalEnv.evalExpr, ScalarEnv.evalExpr, hleft, hright]
          rfl
  | UnaryOp op e =>
      cases op with
      | Minus => simp only [EvalEnv.evalExpr, ScalarEnv.evalExpr, evalExpr_toEvalEnv e]
      | Not => simp only [EvalEnv.evalExpr, ScalarEnv.evalExpr, evalExpr_toEvalEnv e]
  | IsNull e negated => simp only [EvalEnv.evalExpr, ScalarEnv.evalExpr, evalExpr_toEvalEnv e]
  | InList e list negated =>
      simp only [EvalEnv.evalExpr, ScalarEnv.evalExpr, evalExpr_toEvalEnv e, evalInList_toEvalEnv _ list]
  | Between e low high negated =>
      simp only [EvalEnv.evalExpr, ScalarEnv.evalExpr, evalExpr_toEvalEnv e, evalExpr_toEvalEnv low,
        evalExpr_toEvalEnv high]
  | Nested e => simp only [EvalEnv.evalExpr, ScalarEnv.evalExpr, evalExpr_toEvalEnv e]
  | _ => rfl

theorem evalInList_toEvalEnv (v : Value) (list : List Expr) (negated hasNull : Bool) (row : Row)
    (colMap : ColMap) : env.toEvalEnv.evalInList v list negated hasNull row colMap =
      env.evalInList v list negated hasNull row colMap := by
  cases list with
  | nil => rfl
  | cons item list =>
      simp only [EvalEnv.evalInList, ScalarEnv.evalInList, evalExpr_toEvalEnv item, evalInList_toEvalEnv v list]

end

end

end ScalarEnv

def literalEnv : ScalarEnv where
  params := []
  outerRows := []
  windowRow := none
  operator _ _ _ := .ok .Null
  function _ _ := .ok .Null
  cast _ _ v := .ok v
  query _ _ _ := .ok []
  fullText _ _ _ := .ok .Null
  interval _ v := v

end Kkdb
