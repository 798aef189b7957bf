import Kkdb.Catalog.Ddl
import Kkdb.Vm.EvalExpr

namespace Kkdb.Catalog

open Lib

structure CreateFulltextIndexStmt where
  indexName : String
  tableName : String
  columns : List String
  ifNotExists : Bool

structure CreateViewStmt where
  name : String
  columns : List String
  query : SelectStmt
  orReplace : Bool
  ifNotExists : Bool

structure CreatePolicyStmt where
  name : String
  tableName : String
  role : Option String
  usingExpr : Option Expr
  checkExpr : Option Expr

structure DropPolicyStmt where
  name : String
  tableName : String
  ifExists : Bool

section Sql

def evalDefaultExpr : Expr → Res Value
  | .Null => .ok .Null
  | .IntegerLiteral v => .ok (.Integer v)
  | .RealLiteral bits => .ok (.Real bits)
  | .StringLiteral v => .ok (.Text v)
  | .BlobLiteral v => .ok (.Blob v)
  | .Nested inner => evalDefaultExpr inner
  | .UnaryOp .Minus inner => do
      match ← evalDefaultExpr inner with
      | .Integer v => return .Integer (-v)
      | .Real bits => return .Real (Double.neg bits)
      | _ => throw (.Err (.ConstraintViolation "ALTER TABLE ADD COLUMN DEFAULT supports only numeric unary minus"))
  | _ => .error (.Err (.ConstraintViolation "ALTER TABLE ADD COLUMN DEFAULT supports only constant expressions"))

def addedValue (col : ColumnDef) : Res Value :=
  match col.default with
  | some expr => evalDefaultExpr expr
  | none => .ok .Null

def typeName : DataType → String
  | .Null => "BLOB"
  | .Integer => "INTEGER"
  | .Real => "REAL"
  | .Text => "TEXT"
  | .Blob => "BLOB"
  | .Timestamp => "TIMESTAMP"

def columnSql (col : ColumnInfo) : String :=
  col.name ++ " " ++ typeName col.dataType ++ (if col.primaryKey then " PRIMARY KEY" else "") ++
    (if col.autoincrement then " AUTOINCREMENT" else "") ++
    (if col.notNull ∧ ¬col.primaryKey then " NOT NULL" else "") ++
    (if col.unique ∧ ¬col.primaryKey then " UNIQUE" else "")

-- Defaults, references and checks are not in it.
def rebuildCreateSql (table : TableSchema) : String :=
  s!"CREATE TABLE {table.name} (" ++ ", ".intercalate (table.columns.map columnSql) ++ ")"

-- `replacen(pat, repl, 1)`
def replaceFirst (pat repl : List Char) : List Char → List Char
  | [] => if pat = [] then repl else []
  | c :: s => if pat <+: c :: s then repl ++ (c :: s).drop pat.length else c :: replaceFirst pat repl s

-- The name is replaced once behind each of the keywords, and behind no other spelling of TABLE.
def renamedSql (sql oldName newName : String) : String :=
  String.ofList <| ["TABLE ", "table ", "Table "].foldl
    (fun s kw => replaceFirst (kw.toList ++ oldName.toList) (kw.toList ++ newName.toList) s) sql.toList

end Sql

section Alter

variable [Lowercase]

def modifyTable (key : List Char) (f : TableSchema → TableSchema) : DbM Unit :=
  setSchema fun schema =>
    { schema with
      tables := match schema.tables.lookup key with
        | some table => put key (f table) schema.tables
        | none => schema.tables }

-- The first row with five columns or more that passes is rewritten.
def updateFirst (p : Row → Bool) (f : Row → Row) : DbM Unit := do
  match (← get).catalog.find? fun r => 5 ≤ r.2.length && p r.2 with
  | some (rowid, row) => updateRow rowid (f row)
  | none => return

-- Only rows of the type "table" are looked at, not those of full-text tables.
def isTableRow (name : String) : Row → Bool
  | .Text typ :: .Text n :: _ => typ = "table" && sameName n name
  | _ => false

def updateSchemaSql (tableName : String) : DbM Unit := do
  match (← get).schema.getTable tableName with
  | none => throw (.Err (.TableNotFound tableName))
  | some table => updateFirst (isTableRow tableName) fun row => row.set 4 (.Text (rebuildCreateSql table))

-- Objects are told apart by their names only.
def updateSchemaObjectRootPage (objectName : String) (newRoot : UInt32) : DbM Unit :=
  updateFirst (named objectName) fun row => row.set 3 (pageValue newRoot)

def addColumnTo (col : ColumnDef) (colIndex : Nat) (tbl : TableSchema) : TableSchema :=
  { tbl with
    columns := tbl.columns ++
      [{ name := col.name, dataType := col.dataType, primaryKey := false, autoincrement := false,
         notNull := col.notNull, unique := col.unique, colIndex := colIndex }]
    colNames := tbl.colNames ++ [col.name] }

-- The trees are outside: each row of the tree at the root is rewritten, which can fail.
def alterAddColumn (rewritten : UInt32 → (Row → Row) → Res Unit) (tableName : String) (col : ColumnDef) :
    DbM Unit := do
  match (← get).schema.getTable tableName with
  | none => throw (.Err (.TableNotFound tableName))
  | some table =>
      if table.columns.any fun c => sameName c.name col.name then
        throw (.Err (.Internal s!"column '{col.name}' already exists in table '{tableName}'"))
      if col.notNull ∧ col.default.isNone then
        throw (.Err (.ConstraintViolation s!"cannot add NOT NULL column '{col.name}' without DEFAULT"))
      match addedValue col with
      | .error fault => throw fault
      | .ok defaultValue =>
          match rewritten table.rootPage fun row => row ++ [defaultValue] with
          | .error fault => throw fault
          | .ok _ =>
              modifyTable (Schema.lowercaseKey tableName) (addColumnTo col table.columns.length)
              updateSchemaSql tableName

def reindex (columns : List ColumnInfo) : List ColumnInfo :=
  columns.zipIdx.map fun (c, i) => { c with colIndex := i }

-- The foreign keys keep their positions.
def dropColumnFrom (colName : String) (tbl : TableSchema) : TableSchema :=
  let columns := reindex (tbl.columns.filter fun c => !sameName c.name colName)
  { tbl with columns := columns, colNames := columns.map ColumnInfo.name }

def indexesOn (schema : Schema) (tableName colName : String) : List String :=
  (schema.indexes.filter fun e =>
    sameName e.2.tableName tableName && e.2.columns.any fun c => sameName c colName).map fun e => e.2.name

def dropIndexes : List String → DbM Unit
  | [] => return
  | idxName :: rest => do
      deleteFirstNamed idxName
      setSchema fun schema => { schema with indexes := remove (toLowercase idxName) schema.indexes }
      dropIndexes rest

def keptNames (tableName : String) (idxToDrop : List String) (schema : Schema) : List (List Char × List (List Char)) :=
  match schema.indexesByTable.lookup (toLowercase tableName) with
  | some names =>
      put (toLowercase tableName) (names.filter fun n => !idxToDrop.any fun i => sameName (String.ofList n) i)
        schema.indexesByTable
  | none => schema.indexesByTable

def alterDropColumn (rewritten : UInt32 → (Row → Row) → Res Unit) (tableName colName : String) : DbM Unit := do
  let schema := (← get).schema
  match schema.getTable tableName with
  | none => throw (.Err (.TableNotFound tableName))
  | some table =>
      match table.columns.find? fun c => sameName c.name colName with
      | none => throw (.Err (.ColumnNotFound s!"{tableName}.{colName}"))
      | some col =>
          match table.columns[col.colIndex]? with
          | none => throw .Panic
          | some found =>
              if found.primaryKey then
                throw (.Err (.Internal s!"cannot drop PRIMARY KEY column '{colName}'"))
              if table.columns.length ≤ 1 then
                throw (.Err (.Internal "cannot drop the only column in a table"))
              match rewritten table.rootPage fun row => row.eraseIdx col.colIndex with
              | .error fault => throw fault
              | .ok _ =>
                  let idxToDrop := indexesOn schema tableName colName
                  dropIndexes idxToDrop
                  modifyTable (Schema.lowercaseKey tableName) (dropColumnFrom colName)
                  setSchema fun schema => { schema with indexesByTable := keptNames tableName idxToDrop schema }
                  updateSchemaSql tableName

def renameRow (oldName newName : String) : Row → Row
  | typ :: _ :: _ :: root :: .Text sql :: rest =>
      typ :: .Text newName :: .Text newName :: root :: .Text (renamedSql sql oldName newName) :: rest
  | typ :: _ :: _ :: rest => typ :: .Text newName :: .Text newName :: rest
  | row => row

def renameTableIn (oldName newName : String) (idx : IndexSchema) : IndexSchema :=
  if sameName idx.tableName oldName then { idx with tableName := newName } else idx

def movedNames (oldName newName : String) (schema : Schema) : List (List Char × List (List Char)) :=
  match schema.indexesByTable.lookup (toLowercase oldName) with
  | some names => put (toLowercase newName) names (remove (toLowercase oldName) schema.indexesByTable)
  | none => schema.indexesByTable

def alterRenameTable (oldName newName : String) : DbM Unit := do
  let oldLower := toLowercase oldName
  let newLower := toLowercase newName
  let schema := (← get).schema
  match schema.tables.lookup oldLower with
  | none => throw (.Err (.TableNotFound oldName))
  | some table =>
      if (schema.tables.lookup newLower).isSome then throw (.Err (.TableAlreadyExists newName))
      setSchema fun schema =>
        { schema with
          tables := put newLower { table with name := newName } (remove oldLower schema.tables)
          indexes := schema.indexes.map fun e => (e.1, renameTableIn oldName newName e.2)
          indexesByTable := movedNames oldName newName schema }
      updateFirst (isTableRow oldName) (renameRow oldName newName)

def renameFirst (oldCol newCol : String) : List ColumnInfo → List ColumnInfo
  | [] => []
  | c :: columns =>
      if sameName c.name oldCol then { c with name := newCol } :: columns else c :: renameFirst oldCol newCol columns

def renameColumnIn (oldCol newCol : String) (tbl : TableSchema) : TableSchema :=
  let columns := renameFirst oldCol newCol tbl.columns
  { tbl with columns := columns, colNames := columns.map ColumnInfo.name }

def renameIndexColumn (tableName oldCol newCol : String) (idx : IndexSchema) : IndexSchema :=
  if sameName idx.tableName tableName then
    { idx with columns := idx.columns.map fun c => if sameName c oldCol then newCol else c }
  else idx

def alterRenameColumn (tableName oldCol newCol : String) : DbM Unit := do
  match (← get).schema.getTable tableName with
  | none => throw (.Err (.TableNotFound tableName))
  | some table =>
      if ¬table.columns.any fun c => sameName c.name oldCol then
        throw (.Err (.ColumnNotFound s!"{tableName}.{oldCol}"))
      if table.columns.any fun c => sameName c.name newCol then
        throw (.Err (.Internal s!"column '{newCol}' already exists in table '{tableName}'"))
      modifyTable (Schema.lowercaseKey tableName) (renameColumnIn oldCol newCol)
      setSchema fun schema =>
        { schema with
          indexes := schema.indexes.map fun e => (e.1, renameIndexColumn tableName oldCol newCol e.2) }
      updateSchemaSql tableName

end Alter

section Objects

variable [Lowercase]

-- The first full-text index with that root, which the catalog is not told of.
def moveFtsRoot (oldRoot newRoot : UInt32) (schema : Schema) : Schema :=
  match schema.indexes.findIdx? fun e => e.2.isFts && e.2.rootPage = oldRoot with
  | some i => { schema with indexes := schema.indexes.modify i fun e => (e.1, { e.2 with rootPage := newRoot }) }
  | none => schema

-- The tree is made with the first root page, and the postings of the rows leave it at the last one.
def execCreateFulltextIndex (stmt : CreateFulltextIndexStmt) (ftsRoot : Res UInt32) (finalRoot : Res UInt32) :
    DbM Unit := do
  let schema := (← get).schema
  match schema.getTable stmt.tableName with
  | none => throw (.Err (.TableNotFound stmt.tableName))
  | some tbl =>
      match missingColumn tbl stmt.columns with
      | some colName => throw (.Err (.ColumnNotFound s!"{stmt.tableName}.{colName}"))
      | none =>
          if (schema.indexes.lookup (toLowercase stmt.indexName)).isSome then
            if stmt.ifNotExists then return
            throw (.Err (.Internal s!"FULLTEXT INDEX '{stmt.indexName}' already exists"))
          match ftsRoot with
          | .error fault => throw fault
          | .ok root =>
              let colsStr := ", ".intercalate stmt.columns
              let _ ← insertNext [.Text "fulltext_index", .Text stmt.indexName, .Text stmt.tableName, pageValue root,
                .Text s!"CREATE FULLTEXT INDEX {stmt.indexName} ON {stmt.tableName} ({colsStr})"]
              setSchema (Schema.pushIndex
                { name := stmt.indexName, tableName := stmt.tableName, columns := stmt.columns, rootPage := root,
                  unique := false, isFts := true })
              match finalRoot with
              | .error fault => throw fault
              | .ok newRoot => if newRoot ≠ root then setSchema (moveFtsRoot root newRoot)

def viewSchema (create : CreateViewStmt) : TableSchema where
  name := create.name
  columns := []
  colNames := create.columns
  rootPage := 0
  viewSelect := some create.query
  foreignKeys := []
  checkConstraints := []
  isFts := false
  rlsEnabled := false
  policies := []

def execCreateView (create : CreateViewStmt) : DbM Unit := do
  if ((← get).schema.getTable create.name).isSome then
    if create.orReplace then dropTable create.name true
    else
      if create.ifNotExists then return
      throw (.Err (.RuntimeError s!"view '{create.name}' already exists"))
  setSchema fun schema => { schema with tables := put (toLowercase create.name) (viewSchema create) schema.tables }
  let _ ← insertNext [.Text "view", .Text create.name, .Text create.name, .Integer 0,
    .Text s!"CREATE VIEW {create.name} AS (view query)"]

def enableRowLevelSecurity (tableName : String) : DbM Unit := do
  let tblKey := toAsciiLowercase tableName
  if ((← get).schema.tables.lookup tblKey).isNone then
    throw (.Err (.RuntimeError s!"table '{tableName}' not found"))
  modifyTable tblKey fun tbl => { tbl with rlsEnabled := true }
  let key := String.ofList tblKey
  let _ ← insertNext [.Text "rls_enabled", .Text key, .Text key, .Integer 0,
    .Text "ALTER TABLE ... ENABLE ROW LEVEL SECURITY"]

-- The policies are in memory only.
def execCreatePolicy (stmt : CreatePolicyStmt) : DbM Unit := do
  let tblKey := toAsciiLowercase stmt.tableName
  if ((← get).schema.tables.lookup tblKey).isNone then
    throw (.Err (.RuntimeError s!"table '{stmt.tableName}' not found"))
  modifyTable tblKey fun tbl =>
    { tbl with
      policies := (tbl.policies.filter fun p => p.name ≠ stmt.name) ++
        [{ name := stmt.name, role := stmt.role, usingExpr := stmt.usingExpr, checkExpr := stmt.checkExpr }] }

def execDropPolicy (stmt : DropPolicyStmt) : DbM Unit := do
  let tblKey := toAsciiLowercase stmt.tableName
  match (← get).schema.tables.lookup tblKey with
  | none => throw (.Err (.RuntimeError s!"table '{stmt.tableName}' not found"))
  | some tbl =>
      let kept := tbl.policies.filter fun p => p.name ≠ stmt.name
      modifyTable tblKey fun tbl => { tbl with policies := kept }
      if kept.length = tbl.policies.length ∧ ¬stmt.ifExists then
        throw (.Err (.RuntimeError s!"policy '{stmt.name}' not found on '{stmt.tableName}'"))

end Objects

section Dml

variable [Lowercase]

def finishInsert (tableName : String) (originalRoot rootPage : UInt32) : DbM Unit := do
  if ((← get).schema.getTable tableName).isNone then throw (.Err (.TableNotFound tableName))
  modifyTable (Schema.lowercaseKey tableName) fun tbl => { tbl with rootPage := rootPage }
  if rootPage ≠ originalRoot then updateSchemaObjectRootPage tableName rootPage

def finishUpdate (tableName : String) (originalRoot rootPage : UInt32) : DbM Unit := do
  if rootPage ≠ originalRoot then
    if ((← get).schema.getTable tableName).isNone then throw (.Err (.TableNotFound tableName))
    modifyTable (Schema.lowercaseKey tableName) fun tbl => { tbl with rootPage := rootPage }
    updateSchemaObjectRootPage tableName rootPage

end Dml

end Kkdb.Catalog
