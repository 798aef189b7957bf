import Kkdb.Catalog.Alter
import Kkdb.Catalog.Calls
import Kkdb.Vm.FastPaths

namespace Kkdb.Catalog.Rls

open Lib

section Select

variable [Lowercase]

-- The database, and the files of the tables by their keys: the rows of the tree at a root page.
structure World where
  db : Db
  files : List Char → UInt32 → Res (List Row)

def usingExprs (schema : Schema) (user name : String) : List Expr :=
  match schema.tables.lookup (toAsciiLowercase name) with
  | some tbl =>
      if tbl.rlsEnabled then
        (tbl.policies.filter fun p => p.role = none ∨ p.role = some user).filterMap PolicySchema.usingExpr
      else []
  | none => []

-- The tables of a FROM clause are crossed, and the rows keep apart what they take from each.
def sourceRows (w : World) : List String → Res (List (List (String × Row)))
  | [] => .ok [[]]
  | name :: rest => do
      match w.db.schema.getTable name with
      | none => throw (.Err (.TableNotFound name))
      | some table =>
          let rows ← w.files (toAsciiLowercase name) table.rootPage
          let others ← sourceRows w rest
          return rows.flatMap fun row => others.map fun other => (name, row) :: other

def colMap (schema : Schema) (names : List String) : ColMap :=
  let tables := names.filterMap fun name => (schema.getTable name).map fun table => (name, table)
  let cols := tables.flatMap fun t => t.2.colNames
  let names : NameMap := { colMap := buildColMap cols, offset := 0 }
  (tables.foldl (fun m t => m.columns cols t.2.columns.length (NameMap.addTable t.1 none)) names).colMap

def isKept (env : EvalEnv) (map : ColMap) (expr : Expr) (combined : List (String × Row)) : Res Bool := do
  let v ← env.evalExpr expr (combined.flatMap Prod.snd) map
  return v.isTruthy

def filterRows (expr : Expr) (env : EvalEnv) (map : ColMap) :
    List (List (String × Row)) → Res (List (List (String × Row)))
  | [] => return []
  | combined :: rows => do
      let keep ← isKept env map expr combined
      let kept ← filterRows expr env map rows
      return if keep then combined :: kept else kept

-- SELECT * with the condition of the statement and the policies of every table.
def execSelect (env : EvalEnv) (w : World) (user : String) (names : List String) (whereClause : Option Expr) :
    Res (List (List (String × Row))) := do
  let rows ← sourceRows w names
  match names.foldl (fun e name => Names.injectPolicies e (usingExprs w.db.schema user name)) whereClause with
  | none => return rows
  | some expr => filterRows expr env (colMap w.db.schema names) rows

end Select

section Restart

variable [Lowercase] [Parser]

def userColumn (name : String) (primaryKey : Bool) : ColumnDef :=
  { ColumnDef.bare name .Text with primaryKey := primaryKey }

def initSystemTables (usersRoot privilegesRoot : UInt32) : DbM Unit := do
  createTable "kkdb_users" [userColumn "username" true, userColumn "password_hash" false] true
    "CREATE TABLE IF NOT EXISTS kkdb_users (username TEXT PRIMARY KEY, password_hash TEXT);" [] false usersRoot
  createTable "kkdb_privileges" [userColumn "username" false, userColumn "obj_name" false,
    userColumn "priv_type" false]
    true "CREATE TABLE IF NOT EXISTS kkdb_privileges (username TEXT, obj_name TEXT, priv_type TEXT);" [] false
    privilegesRoot

-- `VM::open`. The root pages are those that the system tables get where they are not there yet.
def openVm (usersRoot privilegesRoot : UInt32) (calls : List CatalogCall) (files : List Char → UInt32 → Res (List Row)) :
    World where
  db := left (initSystemTables usersRoot privilegesRoot)
    { schema := Schema.loadFromPager (rowsOf calls) Schema.new, calls := calls }
  files := files

inductive Step where
  | CreateTable (name : String) (columnDefs : List ColumnDef) (ifNotExists : Bool) (originalSql : String)
      (extraChecks : List (Option String × Expr)) (isFts : Bool) (rootPage : UInt32)
  | CreatePolicy (stmt : CreatePolicyStmt)
  | DropPolicy (stmt : DropPolicyStmt)
  | EnableRowLevelSecurity (tableName : String)
  | RenameTable (oldName newName : String)
  | InsertDone (files : List Char → UInt32 → Res (List Row)) (tableName : String)
        (originalRoot rootPage : UInt32)
  | UpdateDone (files : List Char → UInt32 → Res (List Row)) (tableName : String)
        (originalRoot rootPage : UInt32)

def Step.call : Step → DbM Unit
  | CreateTable name columnDefs ifNotExists originalSql extraChecks isFts rootPage =>
      createTable name columnDefs ifNotExists originalSql extraChecks isFts rootPage
  | CreatePolicy stmt => execCreatePolicy stmt
  | DropPolicy stmt => execDropPolicy stmt
  | EnableRowLevelSecurity tableName => enableRowLevelSecurity tableName
  | RenameTable oldName newName => alterRenameTable oldName newName
  | InsertDone _ tableName originalRoot rootPage => finishInsert tableName originalRoot rootPage
  | UpdateDone _ tableName originalRoot rootPage => finishUpdate tableName originalRoot rootPage

-- Statements that change data may leave anything in the files.
def Step.written : Step → (List Char → UInt32 → Res (List Row)) → List Char → UInt32 → Res (List Row)
  | InsertDone files _ _ _, _ => files
  | UpdateDone files _ _ _, _ => files
  | _, files => files

def step (s : Step) (w : World) : World where
  db := left s.call w.db
  files := s.written w.files

def Hidden (env : String → EvalEnv) (schema : Schema) (user name : String) (row : Row) : Prop :=
  ∃ expr, Names.injectPolicies none (usingExprs schema user name) = some expr ∧
    isKept (env user) (colMap schema [name]) expr [(name, row)] ≠ .ok true

-- After closing and opening again, no statement of any user returns a row that was hidden from that user.
def Survives (env : String → EvalEnv) (usersRoot privilegesRoot : UInt32) (w : World) : Prop :=
  ∀ user names whereClause rows,
    execSelect (env user) (openVm usersRoot privilegesRoot w.db.calls w.files) user names whereClause =
      .ok rows →
      ∀ combined ∈ rows, ∀ item ∈ combined, ¬Hidden env w.db.schema user item.1 item.2

-- Of the rows that the files hold for the tables of the catalog, none is hidden from anyone.
def Open (env : String → EvalEnv) (usersRoot privilegesRoot : UInt32) (w : World) : Prop :=
  ∀ name table rows,
    (openVm usersRoot privilegesRoot w.db.calls w.files).db.schema.getTable name = some table →
      w.files (toAsciiLowercase name) table.rootPage = .ok rows →
        ∀ row ∈ rows, ∀ user, ¬Hidden env w.db.schema user name row

end Restart

section Policies

theorem mem_of_filterRows {expr : Expr} {env : EvalEnv} {map : ColMap} {rows kept : List (List (String × Row))}
    (h : filterRows expr env map rows = .ok kept) {combined : List (String × Row)} (hmem : combined ∈ kept) :
    combined ∈ rows := by
  induction rows generalizing kept with
  | nil =>
      cases h
      exact hmem
  | cons row rows ih =>
      obtain ⟨keep, -, h⟩ := ok_of_bind h
      obtain ⟨rest, hrest, h⟩ := ok_of_bind h
      cases h
      split_ifs at hmem
      · rcases List.mem_cons.mp hmem with rfl | hin
        · exact List.mem_cons_self
        · exact List.mem_cons_of_mem _ (ih hrest hin)
      · exact List.mem_cons_of_mem _ (ih hrest hmem)

def NoPolicies (schema : Schema) : Prop := ∀ key table, schema.tables.lookup key = some table →
    table.policies = []

theorem NoPolicies.put {schema : Schema} (h : NoPolicies schema) {key : List Char} {table : TableSchema}
    (htable : table.policies = []) : NoPolicies { schema with tables := put key table schema.tables } := by
  intro x table' hx
  dsimp only at hx
  rw [lookup_put] at hx
  split_ifs at hx with hkey
  · cases hx
    exact htable
  · exact h x table' hx

theorem NoPolicies.usingExprs {schema : Schema} (h : NoPolicies schema) (user name : String) :
    usingExprs schema user name = [] := by
  unfold Rls.usingExprs
  cases hlook : schema.tables.lookup (toAsciiLowercase name) with
  | none => rfl
  | some tbl =>
      dsimp only
      rw [h _ _ hlook]
      split_ifs <;> rfl

variable [Lowercase]

theorem NoPolicies.createTable {db : Db} (h : NoPolicies db.schema) (name : String)
    (columnDefs : List ColumnDef)
    (ifNotExists : Bool) (originalSql : String) (extraChecks : List (Option String × Expr)) (isFts : Bool)
    (rootPage : UInt32) : NoPolicies (left
    (createTable name columnDefs ifNotExists originalSql extraChecks isFts
      rootPage) db).schema := by
  rcases createTable_cases name columnDefs ifNotExists originalSql extraChecks isFts rootPage db with
    hsame | ⟨-, -, hcall⟩
  · rw [hsame]
    exact h
  · rw [left_ok hcall]
    exact h.put rfl

variable [Parser]

theorem NoPolicies.loadRow {schema : Schema} (h : NoPolicies schema) (row : Row) :
    NoPolicies (schema.loadRow row) := by
  unfold Schema.loadRow
  cases readRow row with
  | none => exact h
  | some fields =>
      dsimp only
      unfold Schema.loadCatalogRow
      dsimp only
      split_ifs
      · refine h.put ?_
        unfold loadTable
        cases parseSql fields.sql <;> rfl
      · cases fields.tblName <;> exact h
      · cases fields.tblName.bind fun tblName =>
          loadTrigger fields.name tblName fields.rootPage fields.sql <;> exact h
      · cases hlook : schema.tables.lookup (toLowercase fields.name) with
        | none => exact h
        | some table => exact h.put (h _ table hlook)
      · exact h

theorem noPolicies_load (catalog : Rows) (schema : Schema) :
    NoPolicies (Schema.loadFromPager catalog schema) := by
  have hfold : ∀ (rows : Rows) (schema : Schema), NoPolicies schema →
      NoPolicies (rows.foldl (fun schema r => schema.loadRow r.2) schema) := by
    intro rows
    induction rows with
    | nil => exact fun _ h => h
    | cons r rows ih => exact fun schema h => ih _ (h.loadRow r.2)
  exact hfold catalog _ fun _ _ hlook => nomatch hlook

theorem noPolicies_open (usersRoot privilegesRoot : UInt32) (calls : List CatalogCall)
    (files : List Char → UInt32 → Res (List Row)) :
    NoPolicies (openVm usersRoot privilegesRoot calls files).db.schema := by
  unfold openVm initSystemTables
  refine left_bind_inv (fun db : Db => NoPolicies db.schema) ?_ fun _ db h =>
    NoPolicies.createTable h _ _ _ _ _ _ _
  have hload : NoPolicies (Db.mk (Schema.loadFromPager (rowsOf calls) Schema.new) calls).schema :=
    noPolicies_load (rowsOf calls) Schema.new
  exact NoPolicies.createTable hload _ _ _ _ _ _ _

end Policies

section Theorems

variable [Lowercase]

theorem mem_sourceRows {w : World} {names : List String} {rows : List (List (String × Row))}
    (h : sourceRows w names = .ok rows) {combined : List (String × Row)} (hmem : combined ∈ rows)
    {item : String × Row} (hitem : item ∈ combined) :
    ∃ table stored, w.db.schema.getTable item.1 = some table ∧
      w.files (toAsciiLowercase item.1) table.rootPage = .ok stored ∧ item.2 ∈ stored := by
  induction names generalizing rows combined with
  | nil =>
      cases h
      rw [List.mem_singleton.mp hmem] at hitem
      cases hitem
  | cons name rest ih =>
      unfold sourceRows at h
      cases htable : w.db.schema.getTable name with
      | none =>
          rw [htable] at h
          cases h
      | some table =>
          rw [htable] at h
          obtain ⟨stored, hstored, h⟩ := ok_of_bind h
          obtain ⟨others, hothers, h⟩ := ok_of_bind h
          cases h
          obtain ⟨row, hrow, hcombined⟩ := List.mem_flatMap.mp hmem
          obtain ⟨other, hother, rfl⟩ := List.mem_map.mp hcombined
          rcases List.mem_cons.mp hitem with rfl | hin
          · exact ⟨table, stored, htable, hstored, hrow⟩
          · exact ih hothers hother hin

-- A session that knows no policies returns what the files hold.
theorem execSelect_noPolicies {w : World} (h : NoPolicies w.db.schema) (env : EvalEnv) (user : String)
    (names : List String) (whereClause : Option Expr) :
    execSelect env w user names whereClause = sourceRows w names >>= fun rows =>
      match whereClause with
      | none => return rows
      | some expr => filterRows expr env (colMap w.db.schema names) rows := by
  have hinject : ∀ e : Option Expr, (names.foldl
      (fun e name => Names.injectPolicies e (usingExprs w.db.schema user name)) e) = e := by
    induction names with
    | nil => exact fun e => rfl
    | cons name rest ih =>
        intro e
        rw [List.foldl_cons, h.usingExprs]
        exact ih e
  rw [execSelect, hinject]

variable [Parser]

-- The rows survive hidden exactly when there is none to hide.
theorem survives_iff (env : String → EvalEnv) (usersRoot privilegesRoot : UInt32) (steps : List Step)
    (files : List Char → UInt32 → Res (List Row)) :
    Survives env usersRoot privilegesRoot (run step steps (openVm usersRoot privilegesRoot [] files)) ↔
      Open env usersRoot privilegesRoot (run step steps (openVm usersRoot privilegesRoot [] files)) := by
  generalize run step steps (openVm usersRoot privilegesRoot [] files) = w
  have hnone := noPolicies_open usersRoot privilegesRoot w.db.calls w.files
  constructor
  · intro h name table rows htable hrows row hrow user
    have hsource : sourceRows (openVm usersRoot privilegesRoot w.db.calls w.files) [name] =
        .ok (rows.flatMap fun row => [[(name, row)]]) := by
      have hfiles : (openVm usersRoot privilegesRoot w.db.calls w.files).files (toAsciiLowercase name)
          table.rootPage = .ok rows := hrows
      unfold sourceRows
      simp only [htable, hfiles]
      rfl
    have hselect : execSelect (env user) (openVm usersRoot privilegesRoot w.db.calls w.files) user
        [name] none =
        .ok (rows.flatMap fun row => [[(name, row)]]) := by
      rw [execSelect_noPolicies hnone, hsource]
      rfl
    exact h user [name] none _ hselect [(name, row)] (List.mem_flatMap.mpr ⟨row, hrow, by simp⟩) (name, row)
      (by simp)
  · intro h user names whereClause rows hselect combined hcombined item hitem
    rw [execSelect_noPolicies hnone] at hselect
    obtain ⟨all, hall, hselect⟩ := ok_of_bind hselect
    have hin : combined ∈ all := by
      cases whereClause with
      | none =>
          cases hselect
          exact hcombined
      | some expr => exact mem_of_filterRows hselect hcombined
    obtain ⟨table, stored, htable, hstored, hrow⟩ := mem_sourceRows hall hin hitem
    exact h item.1 table stored htable hstored item.2 hrow user

end Theorems

section Policy

attribute [local instance] Lowercase.ascii Parser.none

def noRows (tableName : String) : CreatePolicyStmt where
  name := "no_rows"
  tableName := tableName
  role := none
  usingExpr := some (.IntegerLiteral 0)
  checkExpr := none

def lockedTable : List Step :=
  [.CreateTable "t" [.bare "a" .Integer] false "CREATE TABLE t (a INTEGER)" [] false 2,
    .InsertDone (fun _ _ => .ok [[.Integer 7]]) "t" 2 2,
    .CreatePolicy (noRows "t"), .EnableRowLevelSecurity "t"]

theorem not_survives_locked :
    ¬Survives (fun _ => columnsEnv) 3 4 (run step lockedTable (openVm 3 4 [] fun _ _ => .ok [])) := by
  intro h
  refine h "anyone" ["t"] none [[("t", [.Integer 7])]] rfl _ (List.mem_singleton.mpr rfl) _
    (List.mem_singleton.mpr rfl) ⟨.IntegerLiteral 0, rfl, ?_⟩
  intro hkept
  cases hkept

end Policy

end Kkdb.Catalog.Rls
