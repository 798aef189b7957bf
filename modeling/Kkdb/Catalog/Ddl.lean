import Kkdb.Catalog

namespace Kkdb.Catalog

open Lib

structure CreateTriggerStmt where
  name : String
  timing : TriggerTiming
  event : TriggerEvent
  tableName : String
  bodySql : String
  orReplace : Bool

section Ddl

variable [Lowercase] [Parser]

def setSchema (f : Schema → Schema) : DbM Unit := modify fun db => { db with schema := f db.schema }

-- Names are compared with `eq_ignore_ascii_case`.
def named (name : String) (row : Row) : Bool :=
  match rowName row with
  | some n => sameName n name
  | none => false

-- The rows that pass are deleted one by one.
def deletions (p : Int64 × Row → Bool) (rows : Rows) : List CatalogCall :=
  (rows.filter p).map fun r => .Delete r.1

-- The data tree is made before, in the pager of the table.
def createTable (name : String) (columnDefs : List ColumnDef) (ifNotExists : Bool) (originalSql : String)
    (extraChecks : List (Option String × Expr)) (isFts : Bool) (rootPage : UInt32) : DbM Unit := do
  let nameLower := toLowercase name
  if ((← get).schema.tables.lookup nameLower).isSome then
    if ifNotExists then return
    throw (.Err (.TableAlreadyExists name))
  let typeVal := if isFts then "fts_table" else "table"
  let _ ← insertNext [.Text typeVal, .Text name, .Text name, pageValue rootPage, .Text originalSql]
  setSchema fun schema =>
    { schema with tables := put nameLower (tableOf name rootPage columnDefs extraChecks isFts) schema.tables }

def dropTable (name : String) (ifExists : Bool) : DbM Unit := do
  let nameLower := toLowercase name
  let schema := (← get).schema
  if (schema.tables.lookup nameLower).isNone then
    if ifExists then return
    throw (.Err (.TableNotFound name))
  let idxNames := (schema.indexes.filter fun idx => sameName idx.2.tableName name).map fun idx => idx.2.name
  modify fun db =>
    { db with calls := db.calls ++ deletions (fun r => named name r.2 || idxNames.any fun i => named i r.2) db.catalog }
  setSchema fun schema =>
    { schema with
      indexes := idxNames.foldl (fun m i => remove (toLowercase i) m) schema.indexes
      indexesByTable := remove nameLower schema.indexesByTable
      tables := remove nameLower schema.tables }

-- The internal table of a full-text table goes with it. Every turn that goes on has taken a table away.
def execDropTable : Nat → String → Bool → DbM Unit
  | 0, _, _ => return
  | fuel + 1, tableName, ifExists => do
      let isFts := (((← get).schema.tables.lookup (toLowercase tableName)).map TableSchema.isFts).getD false
      dropTable tableName ifExists
      if isFts then execDropTable fuel (tableName ++ "_fts_idx") true

def missingColumn (table : TableSchema) (columns : List String) : Option String :=
  columns.find? fun colName => !table.columns.any fun col => sameName col.name colName

-- Building the tree of the index, which checks a UNIQUE index, ends with its root page.
def createIndex (indexName tableName : String) (columns : List String) (unique ifNotExists : Bool)
    (originalSql : String) (built : Res UInt32) : DbM Unit := do
  let idxLower := toLowercase indexName
  let schema := (← get).schema
  if (schema.indexes.lookup idxLower).isSome then
    if ifNotExists then return
    throw (.Err (.Internal s!"index '{indexName}' already exists"))
  match schema.getTable tableName with
  | none => throw (.Err (.TableNotFound tableName))
  | some table =>
      match missingColumn table columns with
      | some colName => throw (.Err (.ColumnNotFound s!"{tableName}.{colName}"))
      | none =>
          match built with
          | .error fault => throw fault
          | .ok rootPage =>
              let _ ← insertNext [.Text "index", .Text indexName, .Text tableName, pageValue rootPage,
                  .Text originalSql]
              setSchema (Schema.pushIndex
                { name := indexName, tableName := tableName, columns := columns, rootPage := rootPage,
                  unique := unique, isFts := false })

def indexSql (stmt : CreateIndexStmt) : String :=
  let uniqueStr := if stmt.unique then "UNIQUE " else ""
  let colsStr := ", ".intercalate stmt.columns
  s!"CREATE {uniqueStr}INDEX {stmt.indexName} ON {stmt.tableName} ({colsStr})"

def execCreateIndex (stmt : CreateIndexStmt) (built : Res UInt32) : DbM Unit :=
  createIndex stmt.indexName stmt.tableName stmt.columns stmt.unique stmt.ifNotExists (indexSql stmt) built

def deleteFirstNamed (name : String) : DbM Unit := do
  match (← get).catalog.find? fun r => named name r.2 with
  | some (rowid, _) => deleteByRowid rowid
  | none => return

def dropIndex (name : String) (ifExists : Bool) : DbM Unit := do
  let idxLower := toLowercase name
  match (← get).schema.indexes.lookup idxLower with
  | none =>
      if ifExists then return
      throw (.Err (.Internal s!"index '{name}' not found"))
  | some idx =>
      deleteFirstNamed name
      let tblLower := toLowercase idx.tableName
      setSchema fun schema =>
        { schema with
          indexesByTable := match schema.indexesByTable.lookup tblLower with
            | some names =>
                put tblLower (names.filter fun n => !sameName (String.ofList n) name) schema.indexesByTable
            | none => schema.indexesByTable
          indexes := remove idxLower schema.indexes }

end Ddl

section Triggers

variable [Lowercase] [Parser]

def timingStr : TriggerTiming → String
  | .Before => "BEFORE"
  | .After => "AFTER"

def eventStr : TriggerEvent → String
  | .Insert => "INSERT"
  | .Update => "UPDATE"
  | .Delete => "DELETE"

def triggerRow (trigger : TriggerSchema) : Row :=
  [.Text "trigger", .Text trigger.name, .Text trigger.tableName, .Integer 0,
    .Text s!"{timingStr trigger.timing}|{eventStr trigger.event}|{trigger.bodySql}"]

def saveTrigger (trigger : TriggerSchema) : DbM Unit := do
  let nextRowid ← insertNext (triggerRow trigger)
  setSchema (Schema.pushTrigger { trigger with rowid := nextRowid })

def findTrigger (name : String) (triggers : List (List Char × List TriggerSchema)) :
    Option (List Char × Nat × TriggerSchema) :=
  triggers.findSome? fun (tbl, list) =>
    match list.findIdx? fun t => sameName t.name name with
    | some i => list[i]?.map fun t => (tbl, i, t)
    | none => none

def dropTriggerByName (name : String) (ifExists : Bool) : DbM Unit := do
  match findTrigger name (← get).schema.triggers with
  | some (tbl, i, t) =>
      deleteByRowid t.rowid
      setSchema fun schema =>
        { schema with triggers := put tbl ((lookupD schema.triggers tbl []).eraseIdx i) schema.triggers }
  | none =>
      if ifExists then return
      throw (.Err (.RuntimeError s!"trigger '{name}' does not exist"))

def execCreateTrigger (trig : CreateTriggerStmt) : DbM Unit := do
  let trigNameLower := toLowercase trig.name
  if (← get).schema.triggers.any fun e => e.2.any fun t => toLowercase t.name = trigNameLower then
    if trig.orReplace then dropTriggerByName trig.name true
    else throw (.Err (.RuntimeError s!"trigger '{trig.name}' already exists"))
  match (← get).schema.getTable trig.tableName with
  | none => throw (.Err (.TableNotFound trig.tableName))
  | some _ =>
      saveTrigger
        { name := trig.name, timing := trig.timing, event := trig.event, tableName := trig.tableName,
          bodySql := trig.bodySql, rowid := 0 }

end Triggers

end Kkdb.Catalog
