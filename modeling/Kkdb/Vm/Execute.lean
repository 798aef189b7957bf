import Kkdb.Sql.Ast
import Kkdb.Vm.QueryCache
import Kkdb.Lib.State

namespace Kkdb

inductive ExecResult where
  | Ok (message : String)
  | RowsAffected (count : Nat) (message : String)
  | QueryResult (columns : List String) (rows : List Row)
  | Explain (plan : String)
  deriving DecidableEq

abbrev Outcome := Except KkdbError ExecResult

-- The fields of a statement that `execute_statement` itself reads; what runs the
-- statement is given its text as well.
inductive Statement where
  | CreateTable
  | DropTable (tableName : String)
  | DropIndex
  | Insert (tableName : String)
  | Select (select : SelectStmt)
  | Update (tableName : String)
  | Delete (tableName : String)
  | CreateIndex
  | CreateFulltextIndex
  | CreateVectorIndex
  | DropVectorIndex
  | AlterTable (tableName : String)
  | Begin
  | Commit
  | Rollback
  | Savepoint
  | ReleaseSavepoint
  | RollbackToSavepoint
  | SetOp
  | ShowTables
  | ShowEngineStatus
  | Vacuum
  | CreateView
  | Explain
  | ExplainAnalyze
  | ExplainFormatTree
  | ExplainFormatJson
  | AnalyzeTable
  | CreateTrigger
  | DropTrigger
  | CreateUser
  | AlterUser
  | DropUser
  | Grant
  | Revoke
  | CreatePolicy
  | DropPolicy
  | SetSessionVar (key value : String)
  | Prepare
  | Execute
  | Deallocate

-- The table whose cache entries `execute_statement` drops once the statement has succeeded.
def Statement.invalidated : Statement → Option String
  | .DropTable tableName => some tableName
  | .Insert tableName => some tableName
  | .Update tableName => some tableName
  | .Delete tableName => some tableName
  | .AlterTable tableName => some tableName
  | .CreateUser => some "kkdb_users"
  | .AlterUser => some "kkdb_users"
  | .DropUser => some "kkdb_users"
  | .Grant => some "kkdb_users"
  | .Revoke => some "kkdb_users"
  | _ => none

-- `SET query_cache_enabled` and `SET query_cache`; every other statement leaves the cache on or off.
def Statement.switchCache (stmt : Statement) (cache : QueryCache) : QueryCache :=
  match stmt with
  | .SetSessionVar key value =>
      let keyLower := toAsciiLowercase key
      let valueLower := toAsciiLowercase value
      if keyLower = "query_cache_enabled".toList ∨ keyLower = "query_cache".toList then
        cache.setEnabled
          (valueLower = "1".toList ∨ valueLower = "true".toList ∨ valueLower = "on".toList)
      else cache
  | _ => cache

-- The tables a cached result is filed under. `GROUP BY`, `ORDER BY`, `LIMIT`, the `WITH` list,
-- a join's `ON` and a set operation in `FROM` are not looked at.
mutual

def extractTableNamesFromSelect : SelectStmt → List (List Char)
  | .mk _ columns fromClause whereClause _ having _ _ _ _ _ _ =>
      collectFrom fromClause ++ collectOption whereClause ++ collectOption having ++
        collectColumns columns

def collectFrom : Option FromClause → List (List Char)
  | none => []
  | some fromClause => collectFromTables fromClause

def collectOption : Option Expr → List (List Char)
  | none => []
  | some expr => collectTablesFromExpr expr

def collectColumns : List SelectColumn → List (List Char)
  | [] => []
  | col :: cols => collectColumn col ++ collectColumns cols

def collectColumn : SelectColumn → List (List Char)
  | .Expr expr _ => collectTablesFromExpr expr
  | .AllColumns => []
  | .TableAllColumns _ => []

def collectFromTables : FromClause → List (List Char)
  | .Table name _ => [toAsciiLowercase name]
  | .Join left _ right _ => collectFromTables left ++ collectFromTables right
  | .Subquery query _ => extractTableNamesFromSelect query
  | .SetOp _ _ => []
  | .TableFunction _ _ _ _ => []

def collectTablesFromExpr : Expr → List (List Char)
  | .Exists subquery | .Subquery subquery => extractTableNamesFromSelect subquery
  | .InSubquery expr subquery _ => collectTablesFromExpr expr ++ extractTableNamesFromSelect subquery
  | .AnyOp expr _ subquery | .AllOp expr _ subquery =>
      collectTablesFromExpr expr ++ extractTableNamesFromSelect subquery
  | .BinaryOp left _ right => collectTablesFromExpr left ++ collectTablesFromExpr right
  | .UnaryOp _ expr | .IsNull expr _ | .Nested expr | .Collate expr _ => collectTablesFromExpr expr
  | .Between expr low high _ =>
      collectTablesFromExpr expr ++ collectTablesFromExpr low ++ collectTablesFromExpr high
  | .InList expr list _ => collectTablesFromExpr expr ++ collectExprs list
  | .Case operand whenClauses elseClause =>
      collectOption operand ++ collectWhens whenClauses ++ collectOption elseClause
  | .Function _ args _ => collectExprs args
  | .Like expr pattern _ _ _ => collectTablesFromExpr expr ++ collectTablesFromExpr pattern
  | _ => []

def collectExprs : List Expr → List (List Char)
  | [] => []
  | expr :: exprs => collectTablesFromExpr expr ++ collectExprs exprs

def collectWhens : List (Expr × Expr) → List (List Char)
  | [] => []
  | clause :: clauses => collectWhen clause ++ collectWhens clauses

def collectWhen : Expr × Expr → List (List Char)
  | (cond, result) => collectTablesFromExpr cond ++ collectTablesFromExpr result

end

-- What the rest of the VM does while it runs a statement: it reads and changes its own
-- state and may hand SQL back to `execute_sql`, as triggers and foreign keys do.
inductive Prog (σ : Type) where
  | ret (result : Outcome)
  | act (change : σ → σ) (next : σ → Prog σ)
  | executeSql (sql : String) (next : Outcome → Prog σ)

-- The VM without its query cache.
structure Engine (σ : Type) where
  parseSql : String → Except KkdbError Statement
  mvccSnapshot : σ → Option MvccSnapshot
  currentParams : σ → List Value
  bindParams : List Value → σ → σ
  refreshSnapshot : σ → σ
  execSelect : SelectStmt → σ → Outcome × σ
  drainPendingAutoIndexes : String → Prog σ
  execShowAuditLog : Prog σ
  execPragmaWalCheckpoint : Prog σ
  execReindex : String → Prog σ
  execShutdown : Prog σ
  execOther : Statement → String → Prog σ
  finishStatement : String → Outcome → Prog σ

section Select

variable {σ : Type} (E : Engine σ)

def cacheEligible (s : σ) (cache : QueryCache) : Bool :=
  (E.mvccSnapshot s).isNone && (E.currentParams s).isEmpty && cache.enabled

def storeResult (cache : QueryCache) (select : SelectStmt) (originalSql : String) :
    Outcome → QueryCache
  | .ok (.QueryResult columns rows) =>
      let tables := extractTableNamesFromSelect select
      if tables.isEmpty then cache else cache.put originalSql tables columns rows
  | _ => cache

-- The `Statement::Select` arm of `execute_statement`.
def executeSelect (select : SelectStmt) (originalSql : String) (s : σ) (cache : QueryCache) :
    Outcome × σ × QueryCache :=
  if cacheEligible E s cache then
    match cache.get originalSql with
    | (some (columns, rows), cache) => (.ok (.QueryResult columns rows), s, cache)
    | (none, cache) =>
        let (result, s) := E.execSelect select s
        (result, s, storeResult cache select originalSql result)
  else
    let (result, s) := E.execSelect select s
    (result, s, cache)

end Select

-- The texts `execute_sql` handles before it parses.
inductive Command where
  | ShowAuditLog
  | WalCheckpoint
  | Reindex
  | Shutdown
  | Sql
  deriving DecidableEq

def command (sql : String) : Command :=
  let upper := (trim sql).toList.map Char.toUpper
  if "SHOW AUDIT LOG".toList.isPrefixOf upper || "SHOW AUDIT_LOG".toList.isPrefixOf upper then
    .ShowAuditLog
  else if upper = "PRAGMA WAL_CHECKPOINT".toList ∨ upper = "PRAGMA WAL_CHECKPOINT;".toList then
    .WalCheckpoint
  else if "REINDEX ".toList.isPrefixOf upper then .Reindex
  else if upper = "SHUTDOWN".toList ∨ upper = "SHUTDOWN;".toList then .Shutdown
  else .Sql

-- What is left to do when the running part of the VM returns.
inductive Frame (σ : Type) where
  | caller (next : Outcome → Prog σ)
  | entry (sql : String)
  | dispatch (stmt : Statement) (sql : String)
  | arm (tableName : Option String)
  | shutdown
  | finish (sql : String)
  | result (result : Outcome)

-- `origin` is not in the source: it remembers for each key the SELECT whose result was last
-- stored under it and the state that SELECT ran in.
structure Vm (σ : Type) where
  engine : σ
  queryCache : QueryCache
  prog : Prog σ
  stack : List (Frame σ)
  origin : CacheKey → Option (SelectStmt × σ)

inductive Request where
  | executeSql (sql : String)
  | executeParams (sql : String) (params : List Value)

section Machine

variable {σ : Type} (E : Engine σ)

def Request.prog : Request → Prog σ
  | .executeSql sql => .executeSql sql .ret
  | .executeParams sql params =>
      .act (E.bindParams params) fun _ =>
        .executeSql sql fun result => .act (E.bindParams []) fun _ => .ret result

namespace Vm

def new (s : σ) (maxEntries : Nat) : Vm σ where
  engine := s
  queryCache := .new maxEntries
  prog := .ret (.ok (.Ok ""))
  stack := []
  origin := fun _ => none

-- `execute_sql` from the first look at the text to the call of `execute_statement`.
def enter (vm : Vm σ) (sql : String) (stack : List (Frame σ)) : Vm σ :=
  match command sql with
  | .ShowAuditLog => { vm with prog := E.execShowAuditLog, stack := stack }
  | .WalCheckpoint => { vm with prog := E.execPragmaWalCheckpoint, stack := stack }
  | .Reindex => { vm with prog := E.execReindex sql, stack := stack }
  | .Shutdown => { vm with prog := E.execShutdown, stack := .shutdown :: stack }
  | .Sql =>
      match E.parseSql sql with
      | .error e => { vm with prog := .ret (.error e), stack := stack }
      | .ok stmt =>
          { vm with
            prog := .act E.refreshSnapshot fun _ => .ret (.ok (.Ok ""))
            stack := .dispatch stmt sql :: .finish sql :: stack }

def select (vm : Vm σ) (select : SelectStmt) (sql : String) (stack : List (Frame σ)) : Vm σ where
  engine := (executeSelect E select sql vm.engine vm.queryCache).2.1
  queryCache := (executeSelect E select sql vm.engine vm.queryCache).2.2
  prog := .ret (executeSelect E select sql vm.engine vm.queryCache).1
  stack := stack
  origin :=
    if cacheEligible E vm.engine vm.queryCache ∧ (vm.queryCache.get sql).1.isNone then
      Function.update vm.origin (QueryCache.normalizeKey sql) (some (select, vm.engine))
    else vm.origin

-- `execute_statement`, once the snapshot is refreshed.
def dispatch (vm : Vm σ) (stmt : Statement) (sql : String) (stack : List (Frame σ)) : Vm σ :=
  match stmt with
  | .Select sel => vm.select E sel sql stack
  | _ =>
      { vm with
        queryCache := stmt.switchCache vm.queryCache
        prog := E.execOther stmt sql
        stack := .arm stmt.invalidated :: stack }

def resume (vm : Vm σ) (result : Outcome) : Vm σ :=
  match vm.stack with
  | [] => vm
  | .caller next :: stack => { vm with prog := next result, stack := stack }
  | .entry sql :: stack => vm.enter E sql stack
  | .dispatch stmt sql :: stack => vm.dispatch E stmt sql stack
  | .arm tableName :: stack =>
      { vm with
        queryCache :=
          match result, tableName with
          | .ok _, some tableName => vm.queryCache.invalidateTable tableName
          | _, _ => vm.queryCache
        stack := stack }
  | .shutdown :: stack =>
      { vm with
        queryCache := if result.isOk then vm.queryCache.clear else vm.queryCache
        stack := stack }
  | .finish sql :: stack =>
      { vm with prog := E.finishStatement sql result, stack := .result result :: stack }
  | .result result :: stack => { vm with prog := .ret result, stack := stack }

-- A client's request when the VM is idle, or one step of the VM's own.
def step (move : Option Request) (vm : Vm σ) : Vm σ :=
  match move, vm.prog with
  | some request, .ret _ => if vm.stack.isEmpty then { vm with prog := request.prog E } else vm
  | some _, _ => vm
  | none, .ret result => vm.resume E result
  | none, .act change next =>
      { vm with engine := change vm.engine, prog := next vm.engine }
  | none, .executeSql sql next =>
      { vm with
        prog := E.drainPendingAutoIndexes sql
        stack := .entry sql :: .caller next :: vm.stack }

end Vm

end Machine

end Kkdb
