import Kkdb.Catalog.Statements

namespace Kkdb.Catalog

open Lib

section Dml

variable [Lowercase]

-- An entry is added to an index or taken from it, and its root page moves. Adding passes over a catalog that
-- cannot be written.
def moveIndex (indexName : String) (newRoot : UInt32) (written : Bool) : DbM Unit := do
  let idxLower := toLowercase indexName
  setSchema fun schema =>
    { schema with
      indexes := match schema.indexes.lookup idxLower with
        | some idx => put idxLower { idx with rootPage := newRoot } schema.indexes
        | none => schema.indexes }
  if written then updateSchemaObjectRootPage indexName newRoot

end Dml

section Recorded

variable [Lowercase]

-- The root page that the schema uses. A view has none.
def tableRoot (schema : Schema) (key : List Char) : Option Int64 :=
  (schema.tables.lookup key).bind fun tbl => if tbl.viewSelect.isNone then some (pageInt tbl.rootPage) else none

def indexRoot (schema : Schema) (key : List Char) : Option Int64 :=
  (schema.indexes.lookup key).map fun idx => pageInt idx.rootPage

-- Every table and every index has one row, with the root page that the schema uses, and every row is of one.
def Recorded (db : Db) : Prop :=
  Mirrors (fun r : Int64 × Row => tableEntry r.2) db.catalog (tableRoot db.schema) ∧
    Mirrors (fun r : Int64 × Row => indexEntry r.2) db.catalog (indexRoot db.schema)

end Recorded

namespace Roots

section Runs

variable [Lowercase]

-- The statements, where those that change data are taken apart into the moves of root pages.
inductive Step where
  | CreateTable (name : String) (columnDefs : List ColumnDef) (ifNotExists : Bool) (originalSql : String)
      (extraChecks : List (Option String × Expr)) (isFts : Bool) (rootPage : UInt32)
  | CreateIndex (stmt : CreateIndexStmt) (built : Res UInt32)
  | CreateFulltextIndex (stmt : CreateFulltextIndexStmt) (ftsRoot finalRoot : Res UInt32)
  | CreateView (create : CreateViewStmt)
  | CreateTrigger (trig : CreateTriggerStmt)
  | DropTrigger (name : String) (ifExists : Bool)
  | DropTable (name : String) (ifExists : Bool)
  | DropIndex (name : String) (ifExists : Bool)
  | AddColumn (rewritten : UInt32 → (Row → Row) → Res Unit) (tableName : String) (col : ColumnDef)
  | DropColumn (rewritten : UInt32 → (Row → Row) → Res Unit) (tableName colName : String)
  | RenameTable (oldName newName : String)
  | RenameColumn (tableName oldCol newCol : String)
  | EnableRowLevelSecurity (tableName : String)
  | InsertDone (tableName : String) (originalRoot rootPage : UInt32)
  | UpdateDone (tableName : String) (originalRoot rootPage : UInt32)
  | IndexMoved (indexName : String) (newRoot : UInt32) (written : Bool)
  | FtsMoved (oldRoot newRoot : UInt32)

def Step.call : Step → DbM Unit
  | CreateTable name columnDefs ifNotExists originalSql extraChecks isFts rootPage =>
      createTable name columnDefs ifNotExists originalSql extraChecks isFts rootPage
  | CreateIndex stmt built => execCreateIndex stmt built
  | CreateFulltextIndex stmt ftsRoot finalRoot => execCreateFulltextIndex stmt ftsRoot finalRoot
  | CreateView create => execCreateView create
  | CreateTrigger trig => execCreateTrigger trig
  | DropTrigger name ifExists => dropTriggerByName name ifExists
  | DropTable name ifExists => do execDropTable (← get).schema.tables.length name ifExists
  | DropIndex name ifExists => dropIndex name ifExists
  | AddColumn rewritten tableName col => alterAddColumn rewritten tableName col
  | DropColumn rewritten tableName colName => alterDropColumn rewritten tableName colName
  | RenameTable oldName newName => alterRenameTable oldName newName
  | RenameColumn tableName oldCol newCol => alterRenameColumn tableName oldCol newCol
  | EnableRowLevelSecurity tableName => enableRowLevelSecurity tableName
  | InsertDone tableName originalRoot rootPage => finishInsert tableName originalRoot rootPage
  | UpdateDone tableName originalRoot rootPage => finishUpdate tableName originalRoot rootPage
  | IndexMoved indexName newRoot written => moveIndex indexName newRoot written
  | FtsMoved oldRoot newRoot => setSchema (moveFtsRoot oldRoot newRoot)

def step (s : Step) (db : Db) : Db := left s.call db

def start : Db := { schema := Schema.new, calls := [] }

end Runs

section Guards

variable [Lowercase]

-- The row that goes with a trigger is not that of a table or an index.
def DropsTrigger (name : String) (db : Db) : Prop :=
  ∀ tbl i t, findTrigger name db.schema.triggers = some (tbl, i, t) → Picks (fun r => r.1 = t.rowid) []
    [] db.catalog

-- No other object takes the row that a statement looks for by a name, the root pages of full-text indexes stay
-- where they are, a nested statement does not move the root page of the table that an INSERT fills, and the
-- catalog can be written.
def Guarded : Step → Db → Prop
  | .CreateFulltextIndex _ ftsRoot finalRoot, _ => finalRoot = ftsRoot
  | .CreateView create, db =>
      ((db.schema.getTable create.name).isNone → db.schema.tables.lookup (toLowercase create.name) = none) ∧
        (create.orReplace → (db.schema.tables.lookup (toLowercase create.name)).isSome →
          PicksTable create.name db)
  | .CreateTrigger trig, db => trig.orReplace → DropsTrigger trig.name db
  | .DropTrigger name _, db => DropsTrigger name db
  | .DropTable name _, db => DropsTable db.schema.tables.length name db
  | .DropIndex name _, db =>
      (db.schema.indexes.lookup (toLowercase name)).isSome → FirstIs indexEntry (toLowercase name)
      (named name) db.catalog
  | .DropColumn _ tableName colName, db => DropsIndexes (indexesOn db.schema tableName colName) db
  | .RenameTable oldName _, db =>
      (tableRoot db.schema (toLowercase oldName) = none ∧ ∀ r ∈ db.catalog, isTableRow oldName r.2 = false) ∨
        FirstIs tableEntry (toLowercase oldName) (isTableRow oldName) db.catalog
  | .InsertDone tableName originalRoot rootPage, db =>
      if rootPage = originalRoot then ∀ tbl, db.schema.getTable tableName = some tbl → tbl.rootPage = rootPage
      else FirstIs tableEntry (Schema.lowercaseKey tableName) (named tableName) db.catalog
  | .UpdateDone tableName originalRoot rootPage, db =>
      rootPage ≠ originalRoot → FirstIs tableEntry (Schema.lowercaseKey tableName) (named tableName) db.catalog
  | .IndexMoved indexName _ written, db =>
      written = true ∧ FirstIs indexEntry (toLowercase indexName) (named indexName) db.catalog
  | .FtsMoved oldRoot newRoot, db =>
      newRoot = oldRoot ∨ ∀ e ∈ db.schema.indexes, e.2.isFts = true → e.2.rootPage ≠ oldRoot
  | _, _ => True

end Guards

end Roots

end Kkdb.Catalog
