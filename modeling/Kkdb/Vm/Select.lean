import Kkdb.Vm.Join

namespace Kkdb

open Lib

def aggregateNames : List String := ["COUNT", "SUM", "AVG", "MIN", "MAX"]

mutual

-- `expr_has_aggregate`. Window functions are no aggregates, and a subquery has its own.
def exprHasAggregate : Expr → Bool
  | .Function name args _ => aggregateNames.any (sameName name) || anyHasAggregate args
  | .BinaryOp left _ right => exprHasAggregate left || exprHasAggregate right
  | .UnaryOp _ e => exprHasAggregate e
  | .Nested e => exprHasAggregate e
  | .IsNull e _ => exprHasAggregate e
  | .InList e list _ => exprHasAggregate e || anyHasAggregate list
  | .Between e low high _ => exprHasAggregate e || exprHasAggregate low || exprHasAggregate high
  | .Like e pattern _ _ _ => exprHasAggregate e || exprHasAggregate pattern
  | .InSubquery e _ _ => exprHasAggregate e
  | _ => false

def anyHasAggregate : List Expr → Bool
  | [] => false
  | e :: es => exprHasAggregate e || anyHasAggregate es

end

def hasAggregate (columns : List SelectColumn) : Bool :=
  columns.any fun column =>
    match column with
    | .Expr e _ => exprHasAggregate e
    | _ => false

mutual

-- `extract_window_funcs`. The state is the list of the window functions found so far.
def extractWindowFuncs : Expr → StateM (List Expr) Expr
  | .WindowFunction func partitionBy orderBy frame => do
      let found ← get
      set (found ++ [.WindowFunction func partitionBy orderBy frame])
      return .Function "__win" [.IntegerLiteral (Int64.ofNat found.length)] false
  | .BinaryOp left op right => do
      let l ← extractWindowFuncs left
      let r ← extractWindowFuncs right
      return .BinaryOp l op r
  | .UnaryOp op e => return .UnaryOp op (← extractWindowFuncs e)
  | .Nested e => return .Nested (← extractWindowFuncs e)
  | .Cast e toType tryCast => return .Cast (← extractWindowFuncs e) toType tryCast
  | .Collate e collation => return .Collate (← extractWindowFuncs e) collation
  | .Interval value leadingField => return .Interval (← extractWindowFuncs value) leadingField
  | .IsNull e negated => return .IsNull (← extractWindowFuncs e) negated
  | .Function name args distinct => return .Function name (← extractAll args) distinct
  | .InList e list negated => do
      let e ← extractWindowFuncs e
      return .InList e (← extractAll list) negated
  | .Between e low high negated => do
      let e ← extractWindowFuncs e
      let low ← extractWindowFuncs low
      return .Between e low (← extractWindowFuncs high) negated
  | .Like e pattern escapeChar caseInsensitive negated => do
      let e ← extractWindowFuncs e
      return .Like e (← extractWindowFuncs pattern) escapeChar caseInsensitive negated
  | .Case operand whenClauses elseClause => do
      let operand ← extractOption operand
      let whenClauses ← extractWhens whenClauses
      return .Case operand whenClauses (← extractOption elseClause)
  | e => return e

def extractAll : List Expr → StateM (List Expr) (List Expr)
  | [] => return []
  | e :: es => do
      let e ← extractWindowFuncs e
      return e :: (← extractAll es)

def extractWhens : List (Expr × Expr) → StateM (List Expr) (List (Expr × Expr))
  | [] => return []
  | (cond, res) :: whens => do
      let cond ← extractWindowFuncs cond
      let res ← extractWindowFuncs res
      return (cond, res) :: (← extractWhens whens)

def extractOption : Option Expr → StateM (List Expr) (Option Expr)
  | some e => return some (← extractWindowFuncs e)
  | none => return none

end

-- `compare_value_pair`. A NaN equals everything.
def compareValuePair (a b : Value) (nullsFirst : Option Bool) (ascending : Bool) : Ordering :=
  if a = .Null ∨ b = .Null then
    if a = .Null ∧ b = .Null then .eq
    else if (nullsFirst.getD !ascending) = decide (a = .Null) then .lt else .gt
  else
    match a.partialCmp b with
    | some .lt => if ascending then .lt else .gt
    | some .gt => if ascending then .gt else .lt
    | _ => .eq

def compareKeys : List OrderByItem → List Value → List Value → Ordering
  | item :: items, a :: as, b :: bs =>
      (compareValuePair a b item.nullsFirst item.ascending).then (compareKeys items as bs)
  | _, _, _ => .eq

def tableColumnIndices (table : String) (colNames : List String) (colMap : ColMap) : Option (List Nat) :=
  let indices := (colNames.zipIdx.filter fun (name, i) =>
    decide (colMap.lookup (NameMap.qualify table name) = some i)).map (·.2)
  if indices = [] then none else some indices

-- A column of the result is copied from the row or evaluated.
inductive Proj where
  | Index (i : Nat)
  | Expr (e : Expr)

def displayName (realText : UInt64 → String) : Expr → String
  | .ColumnRef _ column => column
  | .Function name _ _ => name
  | .IntegerLiteral v => toString v
  | .RealLiteral bits => realText bits
  | .StringLiteral v => "'" ++ v ++ "'"
  | _ => "?"

def projectionPlan (realText : UInt64 → String) (colNames : List String) (colMap : ColMap)
    (columns : List SelectColumn) : List (String × Proj) :=
  let whole := colNames.zipIdx.map fun (name, i) => (name, Proj.Index i)
  columns.flatMap fun column =>
    match column with
    | .AllColumns => whole
    | .TableAllColumns table =>
        match tableColumnIndices table colNames colMap with
        | some indices => indices.map fun i => (colNames.getD i "", Proj.Index i)
        | none => whole
    | .Expr e aliasName => [(aliasName.getD (displayName realText e), Proj.Expr e)]

-- The plan copies the rows as they are.
def isIdentity (colNames : List String) (plan : List Proj) : Bool :=
  plan.length = colNames.length &&
    plan.zipIdx.all fun (p, i) =>
      match p with
      | .Index j => j = i
      | .Expr _ => false

namespace SelectStmt

variable (q : SelectStmt)

-- `is_count_star`. Taking the window functions out of the columns changes neither this nor the next.
def isCountStar : Bool :=
  q.whereClause.isNone && q.groupBy.isEmpty && !q.distinct && q.having.isNone &&
    match q.columns with
    | [.Expr (.Function name args _) _] =>
        sameName name "count" &&
          match args with
          | [] => true
          | .IntegerLiteral 1 :: _ => true
          | _ => false
    | _ => false

def extractColumns : List SelectColumn → StateM (List Expr) (List SelectColumn)
  | [] => return []
  | .Expr e aliasName :: columns => do
      let e ← extractWindowFuncs e
      return .Expr e aliasName :: (← extractColumns columns)
  | column :: columns => return column :: (← extractColumns columns)

def extractOrderBy : List OrderByItem → StateM (List Expr) (List OrderByItem)
  | [] => return []
  | item :: items => do
      let e ← extractWindowFuncs item.expr
      return { item with expr := e } :: (← extractOrderBy items)

-- The statement with `__win` for its window functions, and the functions.
def extractWindows : SelectStmt × List Expr :=
  let columns := (extractColumns q.columns).run []
  let orderBy := (extractOrderBy q.orderBy).run columns.2
  ({ q with columns := columns.1, orderBy := orderBy.1 }, orderBy.2)

def limitPushdown : Bool :=
  q.whereClause.isNone && q.orderBy.isEmpty && q.groupBy.isEmpty && !q.distinct && q.having.isNone &&
    q.limit.isSome && !hasAggregate q.columns

def usizeMax : Nat := 2 ^ 64 - 1

-- What LIMIT and OFFSET make of their values. A LIMIT that is no count does not limit.
def limitOf : Value → Option Nat
  | .Integer v => if v < 0 then none else some v.toInt.toNat
  | _ => none

def offsetCount : Value → Nat
  | .Integer v => v.toInt.toNat
  | _ => 0

end SelectStmt

end Kkdb
