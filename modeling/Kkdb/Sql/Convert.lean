import Kkdb.Vm.Scalar

namespace Kkdb

inductive FunctionArg where
  | Expr (e : Expr)
  | Wildcard

structure WindowSpec where
  partitionBy : List Expr
  orderBy : List OrderByItem
  frame : Option WindowFrame

structure FunctionCall where
  name : String
  args : List FunctionArg
  distinct : Bool
  filter : Option Expr
  overSpec : Option WindowSpec

def FunctionArg.expr? : FunctionArg → Option Kkdb.Expr
  | Expr e => some e
  | Wildcard => none

def FunctionCall.argExprs (call : FunctionCall) : List Kkdb.Expr :=
  call.args.map fun arg => (arg.expr?).getD (.IntegerLiteral 1)

-- `convert_function_arg`. Only COUNT takes a wildcard.
def convertFunctionArg (functionName : String) : FunctionArg → Option Expr
  | .Expr e => some e
  | .Wildcard => if eqIgnoreCase functionName "COUNT" then some (.IntegerLiteral 1) else none

def windowFuncOf (name : String) (args : List Expr) (distinct : Bool) : WindowFunc :=
  if eqIgnoreCase name "ROW_NUMBER" then .RowNumber
  else if eqIgnoreCase name "RANK" then .Rank
  else if eqIgnoreCase name "DENSE_RANK" then .DenseRank
  else if eqIgnoreCase name "NTILE" then .Ntile (args.headD .Null)
  else if eqIgnoreCase name "LAG" then .Lag (args.headD .Null) args[1]? args[2]?
  else if eqIgnoreCase name "LEAD" then .Lead (args.headD .Null) args[1]? args[2]?
  else if eqIgnoreCase name "FIRST_VALUE" then .FirstValue (args.headD .Null)
  else if eqIgnoreCase name "LAST_VALUE" then .LastValue (args.headD .Null)
  else if eqIgnoreCase name "NTH_VALUE" then .NthValue (args.headD .Null) (args.getD 1 .Null)
  else .Aggregate name args distinct

-- `CASE WHEN cond THEN arg ELSE NULL END`
def filterArg (cond arg : Expr) : Expr := .Case none [(cond, arg)] (some .Null)

def filterArgs (functionName : String) (cond : Expr) (args : List Expr) : List Expr :=
  if args.isEmpty && eqIgnoreCase functionName "COUNT" then [filterArg cond (.IntegerLiteral 1)]
  else args.map (filterArg cond)

-- `convert_function`, with no result for a wildcard that is not supported. An OVER clause comes first.
def convertFunction (call : FunctionCall) : Option Expr :=
  match call.overSpec with
  | some spec =>
      some (.WindowFunction (windowFuncOf call.name (call.args.filterMap FunctionArg.expr?) call.distinct)
        spec.partitionBy spec.orderBy spec.frame)
  | none => do
      let args ← call.args.mapM (convertFunctionArg call.name)
      let args := match call.filter with
        | some cond => filterArgs call.name cond args
        | none => args
      return .Function call.name args call.distinct

inductive EscapeValue where
  | SingleQuotedString (s : String)
  | DoubleQuotedString (s : String)
  | Other

-- The predicates of the grammar that have a NOT form, over the expressions and the queries of the parser.
inductive Predicate (α β : Type) where
  | IsNull (expr : α)
  | IsTrue (expr : α)
  | IsFalse (expr : α)
  | IsUnknown (expr : α)
  | IsDistinctFrom (left right : α)
  | InList (expr : α) (list : List α)
  | InSubquery (expr : α) (subquery : β)
  | InUnnest (expr arrayExpr : α)
  | Between (expr low high : α)
  | Like (expr pattern : α) (escapeChar : Option EscapeValue)
  | ILike (expr pattern : α) (escapeChar : Option EscapeValue)
  | SimilarTo (expr pattern : α)
  | RLike (expr pattern : α)
  | PGRegexMatch (left right : α)
  | PGRegexIMatch (left right : α)
  | Exists (subquery : β)

section Predicates

variable {α β : Type}

def Predicate.operands : Predicate α β → List α
  | IsNull e | IsTrue e | IsFalse e | IsUnknown e | InSubquery e _ => [e]
  | IsDistinctFrom l r | InUnnest l r | PGRegexMatch l r | PGRegexIMatch l r => [l, r]
  | InList e list => e :: list
  | Between e low high => [e, low, high]
  | Like e pattern _ | ILike e pattern _ | SimilarTo e pattern | RLike e pattern => [e, pattern]
  | Exists _ => []

def Predicate.queries : Predicate α β → List β
  | InSubquery _ query | Exists query => [query]
  | _ => []

def escapeCharOf : Option EscapeValue → Option Char
  | some (.SingleQuotedString s) | some (.DoubleQuotedString s) => s.toList.head?
  | _ => none

def predicateCall (name : String) (args : List Expr) (negated : Bool) : Expr :=
  if negated then .Function "NOT" [.Function name args false] false else .Function name args false

-- The arms of `convert_expr` for predicates and their NOT forms. The two parameters convert the operands.
def convertPredicate (convertExpr : α → Res Expr) (convertQuery : β → Res SelectStmt) (p : Predicate α β)
    (negated : Bool) : Res Expr :=
  match p with
  | .IsNull e => do return .IsNull (← convertExpr e) negated
  | .IsTrue e => do
      return .BinaryOp (← convertExpr e) (if negated then .NotEqual else .Equal) (.IntegerLiteral 1)
  | .IsFalse e => do
      return .BinaryOp (← convertExpr e) (if negated then .NotEqual else .Equal) (.IntegerLiteral 0)
  | .IsUnknown e => do return .IsNull (← convertExpr e) negated
  | .IsDistinctFrom left right => do
      let l ← convertExpr left
      let r ← convertExpr right
      return .Function (if negated then "__IS_NOT_DISTINCT_FROM__" else "__IS_DISTINCT_FROM__") [l, r] false
  | .InList e list => do
      let out ← list.mapM convertExpr
      return .InList (← convertExpr e) out negated
  | .InSubquery e subquery => do
      let expr ← convertExpr e
      return .InSubquery expr (← convertQuery subquery) negated
  | .InUnnest e arrayExpr => do
      let expr ← convertExpr e
      return predicateCall "JSON_MEMBER_OF" [expr, ← convertExpr arrayExpr] negated
  | .Between e low high => do
      let expr ← convertExpr e
      let lo ← convertExpr low
      return .Between expr lo (← convertExpr high) negated
  | .Like e pattern escapeChar => do
      let expr ← convertExpr e
      return .Like expr (← convertExpr pattern) (escapeCharOf escapeChar) false negated
  | .ILike e pattern escapeChar => do
      let expr ← convertExpr e
      return .Like expr (← convertExpr pattern) (escapeCharOf escapeChar) true negated
  | .SimilarTo e pattern | .RLike e pattern | .PGRegexMatch e pattern | .PGRegexIMatch e pattern => do
      let expr ← convertExpr e
      return predicateCall "REGEXP_LIKE" [expr, ← convertExpr pattern] negated
  | .Exists subquery => do
      let exists' := Expr.Exists (← convertQuery subquery)
      return if negated then .UnaryOp .Not exists' else exists'

end Predicates

end Kkdb
