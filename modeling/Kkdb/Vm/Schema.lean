import Kkdb.Vm.IndexCache

namespace Kkdb

open Lib

inductive DataType where
  | Null
  | Integer
  | Real
  | Text
  | Blob
  | Timestamp
  deriving DecidableEq

structure ColumnInfo where
  name : String
  dataType : DataType
  primaryKey : Bool
  notNull : Bool
  colIndex : Nat

structure ForeignKey where
  colName : String
  colIndex : Nat
  refTable : String
  refCol : Option String
  onDelete : FkAction
  onUpdate : FkAction

structure TableSchema where
  name : String
  columns : List ColumnInfo
  colNames : List String
  nextRowid : Int64
  foreignKeys : List ForeignKey
  checkConstraints : List (Option String × Expr)

structure TriggerSchema where
  timing : TriggerTiming
  event : TriggerEvent
  bodySql : String

-- The keys are the lower-cased names of the tables. Names are lower-cased as ASCII.
structure Schema where
  tables : List (List Char × TableSchema)
  indexes : List (List Char × List IndexSchema)
  triggers : List (List Char × List TriggerSchema)

def sameName (a b : String) : Bool := toAsciiLowercase a = toAsciiLowercase b

namespace TableSchema

def findColumn (table : TableSchema) (name : String) : Option ColumnInfo :=
  table.columns.find? fun c => sameName c.name name

def primaryKey (table : TableSchema) : Option ColumnInfo := table.columns.find? ColumnInfo.primaryKey

def pkColIdx (table : TableSchema) : Option Nat := table.primaryKey.map ColumnInfo.colIndex

def position (table : TableSchema) (name : String) : Option Nat :=
  table.columns.findIdx? fun c => sameName c.name name

def notNullCols (table : TableSchema) : List (Nat × String) :=
  (table.columns.filter fun c => c.notNull && !c.primaryKey).map fun c => (c.colIndex, c.name)

def columnNames (table : TableSchema) : List String := table.columns.map ColumnInfo.name

def colMap (table : TableSchema) : ColMap :=
  (table.columns.map fun c => (toAsciiLowercase c.name, c.colIndex)).reverse

-- The values of the columns of an index in a row; a column the table does not have is left out.
def indexRow (table : TableSchema) (index : IndexSchema) (row : Row) : Row :=
  index.columns.filterMap fun name => (table.findColumn name).map fun c => row.getD c.colIndex .Null

end TableSchema

namespace Schema

def getTable (schema : Schema) (name : String) : Option TableSchema :=
  schema.tables.lookup (toAsciiLowercase name)

def indexesForTable (schema : Schema) (name : String) : List IndexSchema :=
  lookupD schema.indexes (toAsciiLowercase name) []

def getTriggers (schema : Schema) (name : String) (timing : TriggerTiming) (event : TriggerEvent) :
    List TriggerSchema :=
  (lookupD schema.triggers (toAsciiLowercase name) []).filter fun t => t.timing = timing && t.event = event

def setNextRowid (schema : Schema) (name : String) (nextRowid : Int64) : Schema :=
  { schema with tables := schema.tables.map fun t =>
      if t.1 = toAsciiLowercase name then (t.1, { t.2 with nextRowid := nextRowid }) else t }

end Schema

end Kkdb
