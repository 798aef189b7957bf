import Kkdb.Lib.State
import Kkdb.Vm.QueryCache
import Kkdb.Vm.Schema

namespace Kkdb.Catalog

open Lib

-- `to_lowercase` of the standard library, which knows more letters than `to_ascii_lowercase`.
class Lowercase where
  toLowercase : String → List Char

export Lowercase (toLowercase)

@[reducible] def Lowercase.ascii : Lowercase := ⟨toAsciiLowercase⟩

structure ForeignKeyRef where
  table : String
  column : Option String
  onDelete : FkAction
  onUpdate : FkAction

structure ColumnDef where
  name : String
  dataType : DataType
  primaryKey : Bool
  autoincrement : Bool
  notNull : Bool
  unique : Bool
  default : Option Expr
  references : Option ForeignKeyRef
  checkExpr : Option Expr

def ColumnDef.bare (name : String) (dataType : DataType) : ColumnDef where
  name := name
  dataType := dataType
  primaryKey := false
  autoincrement := false
  notNull := false
  unique := false
  default := none
  references := none
  checkExpr := none

structure CreateTableStmt where
  tableName : String
  columns : List ColumnDef
  ifNotExists : Bool
  isFts : Bool
  checks : List (Option String × Expr)

structure CreateIndexStmt where
  indexName : String
  tableName : String
  columns : List String
  unique : Bool
  ifNotExists : Bool

-- What the loader asks of the parser.
inductive Parsed where
  | CreateTable (create : CreateTableStmt)
  | CreateIndex (ci : CreateIndexStmt)
  | Other

class Parser where
  parseSql : String → Parsed

export Parser (parseSql)

-- It knows no statement.
@[reducible] def Parser.none : Parser := ⟨fun _ => .Other⟩

structure ColumnInfo where
  name : String
  dataType : DataType
  primaryKey : Bool
  autoincrement : Bool
  notNull : Bool
  unique : Bool
  colIndex : Nat
  deriving DecidableEq

structure PolicySchema where
  name : String
  role : Option String
  usingExpr : Option Expr
  checkExpr : Option Expr

structure TableSchema where
  name : String
  columns : List ColumnInfo
  colNames : List String
  rootPage : UInt32
  viewSelect : Option SelectStmt
  foreignKeys : List ForeignKey
  checkConstraints : List (Option String × Expr)
  isFts : Bool
  rlsEnabled : Bool
  policies : List PolicySchema

structure IndexSchema where
  name : String
  tableName : String
  columns : List String
  rootPage : UInt32
  unique : Bool
  isFts : Bool
  deriving DecidableEq

structure TriggerSchema where
  name : String
  timing : TriggerTiming
  event : TriggerEvent
  tableName : String
  bodySql : String
  rowid : Int64
  deriving DecidableEq

-- The hash maps are the lists of their entries.
structure Schema where
  tables : List (List Char × TableSchema)
  indexes : List (List Char × IndexSchema)
  indexesByTable : List (List Char × List (List Char))
  triggers : List (List Char × List TriggerSchema)

-- The rows of the tree below the schema root page, by ascending rowid.
abbrev Rows := List (Int64 × Row)

def maxRowid (rows : Rows) : Int64 := (rows.getLast?.map Prod.fst).getD 0

-- The calls of the statements on that tree. A row goes in after the last one.
inductive CatalogCall where
  | Append (row : Row)
  | Update (rowid : Int64) (row : Row)
  | Delete (rowid : Int64)

def CatalogCall.apply (rows : Rows) : CatalogCall → Rows
  | Append row => if maxRowid rows = Int64.maxValue then rows else rows ++ [(maxRowid rows + 1, row)]
  | Update rowid row => rows.map fun r => if r.1 = rowid then (rowid, row) else r
  | Delete rowid => rows.filter fun r => r.1 ≠ rowid

def rowsOf (calls : List CatalogCall) : Rows := calls.foldl CatalogCall.apply []

-- The tree is given by the calls that were made on it so far.
structure Db where
  schema : Schema
  calls : List CatalogCall

def Db.catalog (db : Db) : Rows := rowsOf db.calls

abbrev DbM := EStateM Fault Db

section Tree

def callTree (c : CatalogCall) : DbM Unit := modify fun db => { db with calls := db.calls ++ [c] }

-- The rowid after the last one. It panics when there is none.
def insertNext (row : Row) : DbM Int64 := do
  let rowid := maxRowid (← get).catalog
  if rowid = Int64.maxValue then throw .Panic
  callTree (.Append row)
  return rowid + 1

def deleteByRowid (rowid : Int64) : DbM Unit := callTree (.Delete rowid)

def updateRow (rowid : Int64) (row : Row) : DbM Unit := callTree (.Update rowid row)

def pageValue (page : UInt32) : Value := .Integer page.toUInt64.toInt64

def valuePage (v : Int64) : UInt32 := v.toUInt64.toUInt32

def textOf : Value → Option String
  | .Text s => some s
  | _ => none

-- The five columns of a row. Rows that are shorter or of other types are passed over.
structure CatalogRow where
  objType : String
  name : String
  tblName : Option String
  rootPage : Int64
  sql : String

def readRow : Row → Option CatalogRow
  | .Text objType :: .Text name :: tbl :: .Integer rootPage :: .Text sql :: _ =>
      some { objType := objType, name := name, tblName := textOf tbl, rootPage := rootPage, sql := sql }
  | _ => none

def rowName : Row → Option String
  | _ :: .Text name :: _ => some name
  | _ => none

end Tree

section Load

variable [Lowercase] [Parser]

def loadColumns (defs : List ColumnDef) : List ColumnInfo :=
  defs.zipIdx.map fun (colDef, i) =>
    { name := colDef.name, dataType := colDef.dataType, primaryKey := colDef.primaryKey,
      autoincrement := colDef.autoincrement, notNull := colDef.notNull, unique := colDef.unique, colIndex := i }

def loadForeignKeys (defs : List ColumnDef) : List ForeignKey :=
  defs.zipIdx.filterMap fun (colDef, i) => colDef.references.map fun fkref =>
    { colName := colDef.name, colIndex := i, refTable := String.ofList (toAsciiLowercase fkref.table),
      refCol := fkref.column, onDelete := fkref.onDelete, onUpdate := fkref.onUpdate }

def loadChecks (defs : List ColumnDef) (checks : List (Option String × Expr)) : List (Option String × Expr) :=
  (defs.filterMap fun colDef => colDef.checkExpr.map fun check => (none, check)) ++ checks

def tableOf (name : String) (rootPage : UInt32) (defs : List ColumnDef) (checks : List (Option String × Expr))
    (isFts : Bool) : TableSchema where
  name := name
  columns := loadColumns defs
  colNames := (loadColumns defs).map ColumnInfo.name
  rootPage := rootPage
  viewSelect := none
  foreignKeys := loadForeignKeys defs
  checkConstraints := loadChecks defs checks
  isFts := isFts
  rlsEnabled := false
  policies := []

def loadTable (name : String) (rootPage : UInt32) (isFts : Bool) (sql : String) : TableSchema :=
  match parseSql sql with
  | .CreateTable create => tableOf name rootPage create.columns create.checks isFts
  | _ => tableOf name rootPage [] [] isFts

def cut (c : Char) (s : List Char) : Option (List Char × List Char) :=
  if c ∈ s then some (s.takeWhile (· ≠ c), (s.dropWhile (· ≠ c)).tail) else none

def fromOn : List Char → Option (List Char)
  | [] => none
  | c :: s => if (c :: s).map Char.toUpper |>.take 2 |> (· = ['O', 'N']) then some (c :: s) else fromOn s

def trimBackticks (s : String) : String :=
  String.ofList ((s.toList.dropWhile (· = '`')).reverse.dropWhile (· = '`')).reverse

def fulltextColumns (sql : String) : List String :=
  let rest := (fromOn sql.toList).getD sql.toList
  match cut '(' rest with
  | none => []
  | some (_, inner) =>
      match cut ')' inner.reverse with
      | none => []
      | some (_, inner) =>
          ((inner.reverse.splitOn ',').map fun s => trimBackticks (trim (String.ofList s))).filter fun s => s ≠ ""

def loadIndex (name tblName : String) (rootPage : UInt32) (isFts : Bool) (sql : String) : IndexSchema where
  name := name
  tableName := tblName
  columns :=
    if isFts then fulltextColumns sql
    else match parseSql sql with
      | .CreateIndex ci => ci.columns
      | _ => []
  rootPage := rootPage
  unique :=
    if isFts then false
    else match parseSql sql with
      | .CreateIndex ci => ci.unique
      | _ => false
  isFts := isFts

-- The timing, the event and the body of a trigger, as `splitn(3, '|')` finds them.
def loadTrigger (name tblName : String) (rowid : Int64) (sql : String) : Option TriggerSchema := do
  let (timing, rest) ← cut '|' sql.toList
  let (event, body) ← cut '|' rest
  return {
    name := name
    timing := if timing = "BEFORE".toList then .Before else .After
    event := if event = "INSERT".toList then .Insert else if event = "UPDATE".toList then .Update else .Delete
    tableName := tblName
    bodySql := String.ofList body
    rowid := rowid }

namespace Schema

def new : Schema where
  tables := []
  indexes := []
  indexesByTable := []
  triggers := []

def pushIndex (index : IndexSchema) (schema : Schema) : Schema :=
  { schema with
    indexesByTable := put (toLowercase index.tableName)
      (lookupD schema.indexesByTable (toLowercase index.tableName) [] ++ [toLowercase index.name])
      schema.indexesByTable
    indexes := put (toLowercase index.name) index schema.indexes }

def pushTrigger (trigger : TriggerSchema) (schema : Schema) : Schema :=
  { schema with
    triggers := put (toLowercase trigger.tableName)
      (lookupD schema.triggers (toLowercase trigger.tableName) [] ++ [trigger]) schema.triggers }

-- One row of the catalog. Rows of other kinds, such as those of the views, add nothing. The vector indexes are
-- left out.
def loadCatalogRow (schema : Schema) (row : CatalogRow) : Schema :=
  let name := row.name
  if row.objType = "table" ∨ row.objType = "fts_table" then
    let table := loadTable name (valuePage row.rootPage) (row.objType = "fts_table") row.sql
    { schema with tables := put (toLowercase name) table schema.tables }
  else if row.objType = "index" ∨ row.objType = "fulltext_index" then
    match row.tblName with
    | some tblName =>
        schema.pushIndex (loadIndex name tblName (valuePage row.rootPage) (row.objType = "fulltext_index") row.sql)
    | none => schema
  else if row.objType = "trigger" then
    match row.tblName.bind fun tblName => loadTrigger name tblName row.rootPage row.sql with
    | some trigger => schema.pushTrigger trigger
    | none => schema
  else if row.objType = "rls_enabled" then
    match schema.tables.lookup (toLowercase name) with
    | some table => { schema with tables := put (toLowercase name) { table with rlsEnabled := true } schema.tables }
    | none => schema
  else schema

def loadRow (schema : Schema) (row : Row) : Schema :=
  match readRow row with
  | some row => schema.loadCatalogRow row
  | none => schema

-- The triggers are not cleared.
def loadFromPager (catalog : Rows) (schema : Schema) : Schema :=
  catalog.foldl (fun schema r => schema.loadRow r.2) { schema with tables := [], indexes := [], indexesByTable := [] }

-- The key of `get_table`: names of up to 128 bytes are lower-cased as ASCII.
def lowercaseKey (name : String) : List Char :=
  if ¬name.toList.any Char.isUpper then name.toList
  else if name.utf8ByteSize ≤ 128 then toAsciiLowercase name
  else toLowercase name

def getTable (schema : Schema) (name : String) : Option TableSchema := schema.tables.lookup (lowercaseKey name)

def getTriggers (schema : Schema) (tableName : String) (timing : TriggerTiming) (event : TriggerEvent) :
    List TriggerSchema :=
  (lookupD schema.triggers (toLowercase tableName) []).filter fun t => t.timing = timing ∧ t.event = event

end Schema

end Load

end Kkdb.Catalog
