import Kkdb.Types.Row

namespace Kkdb

inductive BinaryOperator where
  | Add
  | Subtract
  | Multiply
  | Divide
  | Modulo
  | Equal
  | NotEqual
  | LessThan
  | LessThanOrEqual
  | GreaterThan
  | GreaterThanOrEqual
  | And
  | Or
  | Concat
  | Xor
  | BitwiseOr
  | BitwiseAnd
  | BitwiseXor
  | ShiftLeft
  | ShiftRight
  | FtsMatch
  deriving DecidableEq

inductive UnaryOperator where
  | Minus
  | Not
  deriving DecidableEq

inductive CastTargetType where
  | Integer
  | Real
  | Text
  | Blob
  | Numeric
  | Date
  | Time
  | Timestamp
  | Json
  deriving DecidableEq

inductive JoinType where
  | Inner
  | Left
  | Right
  | Cross
  | LeftSemi
  | RightSemi
  | Full
  | Natural
  deriving DecidableEq

inductive SetOpKind where
  | UnionAll
  | UnionDistinct
  | IntersectAll
  | IntersectDistinct
  | ExceptAll
  | ExceptDistinct
  deriving DecidableEq

inductive WindowFrameUnit where
  | Rows
  | Range
  | Groups
  deriving DecidableEq

-- The boxes of the source are gone: a Lean inductive is boxed anyway.
mutual

inductive Expr where
  | IntegerLiteral (v : Int64)
  | RealLiteral (bits : UInt64)
  | StringLiteral (v : String)
  | BlobLiteral (v : List UInt8)
  | Null
  | ColumnRef (table : Option String) (column : String)
  | Interval (value : Expr) (leadingField : Option String)
  | Collate (expr : Expr) (collation : String)
  | BinaryOp (left : Expr) (op : BinaryOperator) (right : Expr)
  | UnaryOp (op : UnaryOperator) (expr : Expr)
  | IsNull (expr : Expr) (negated : Bool)
  | InList (expr : Expr) (list : List Expr) (negated : Bool)
  | Like (expr pattern : Expr) (escapeChar : Option Char) (caseInsensitive negated : Bool)
  | Between (expr low high : Expr) (negated : Bool)
  | Function (name : String) (args : List Expr) (distinct : Bool)
  | WindowFunction (func : WindowFunc) (partitionBy : List Expr) (orderBy : List OrderByItem)
      (frame : Option WindowFrame)
  | Subquery (query : SelectStmt)
  | InSubquery (expr : Expr) (subquery : SelectStmt) (negated : Bool)
  | Exists (query : SelectStmt)
  | AnyOp (expr : Expr) (op : BinaryOperator) (subquery : SelectStmt)
  | AllOp (expr : Expr) (op : BinaryOperator) (subquery : SelectStmt)
  | Nested (expr : Expr)
  | Case (operand : Option Expr) (whenClauses : List (Expr × Expr)) (elseClause : Option Expr)
  | Cast (expr : Expr) (toType : CastTargetType) (tryCast : Bool)
  | MatchAgainst (columns : List String) (query : String)
  | Placeholder (index : Nat)

inductive WindowFunc where
  | RowNumber
  | Rank
  | DenseRank
  | PercentRank
  | CumeDist
  | Ntile (expr : Expr)
  | Lag (expr : Expr) (offset default : Option Expr)
  | Lead (expr : Expr) (offset default : Option Expr)
  | FirstValue (expr : Expr)
  | LastValue (expr : Expr)
  | NthValue (expr n : Expr)
  | Aggregate (name : String) (args : List Expr) (distinct : Bool)

structure WindowFrame where
  unit : WindowFrameUnit
  start : WindowBound
  stop : Option WindowBound

inductive WindowBound where
  | UnboundedPreceding
  | Preceding (expr : Expr)
  | CurrentRow
  | Following (expr : Expr)
  | UnboundedFollowing

structure OrderByItem where
  expr : Expr
  ascending : Bool
  nullsFirst : Option Bool

inductive SelectColumn where
  | AllColumns
  | TableAllColumns (table : String)
  | Expr (expr : Expr) (aliasName : Option String)

inductive FromClause where
  | Table (name : String) (aliasName : Option String)
  | Join (left : FromClause) (joinType : JoinType) (right : FromClause) (onExpr : Option Expr)
  | Subquery (query : SelectStmt) (aliasName : String)
  | SetOp (stmt : SetOpStmt) (aliasName : String)
  | TableFunction (name : String) (args : List Expr) (aliasName column : Option String)

structure SetOpStmt where
  kind : SetOpKind
  left : SelectStmt
  right : SelectStmt
  orderBy : List OrderByItem
  limit : Option Expr
  offset : Option Expr

structure CteDefinition where
  name : String
  columns : List String
  query : SelectStmt
  isRecursive : Bool

structure NamedWindowDefinition where
  name : String
  partitionBy : List Expr
  orderBy : List OrderByItem
  frame : Option WindowFrame

structure SelectStmt where
  distinct : Bool
  columns : List SelectColumn
  fromClause : Option FromClause
  whereClause : Option Expr
  groupBy : List Expr
  having : Option Expr
  orderBy : List OrderByItem
  limit : Option Expr
  offset : Option Expr
  ctes : List CteDefinition
  windowDefs : List NamedWindowDefinition
  forUpdate : Bool

end

inductive ConflictPolicy where
  | Error
  | Replace
  | Ignore
  | Update (assignments : List (String × Expr))

inductive InsertSource where
  | Values (rows : List (List Expr))
  | Select (query : SelectStmt)

structure InsertStmt where
  tableName : String
  columns : Option (List String)
  source : InsertSource
  conflict : ConflictPolicy
  returning : Option (List Expr)

structure UpdateStmt where
  tableName : String
  assignments : List (String × Expr)
  whereClause : Option Expr
  returning : Option (List Expr)

structure DeleteStmt where
  tableName : String
  whereClause : Option Expr
  returning : Option (List Expr)

inductive TriggerTiming where
  | Before
  | After
  deriving DecidableEq

inductive TriggerEvent where
  | Insert
  | Update
  | Delete
  deriving DecidableEq

inductive FkAction where
  | Restrict
  | Cascade
  | SetNull
  deriving DecidableEq

end Kkdb
