import Kkdb.BTree.Table
import Kkdb.Vm.Check
import Kkdb.Vm.Execute

namespace Kkdb

open Lib

namespace Dml

-- The root page of a table or an index stands for its tree, which is modelled by the map it holds, as the
-- list of its rows by ascending rowid. Names are lower-cased.
inductive Root where
  | Table (name : List Char)
  | Index (name : List Char)
  deriving DecidableEq

def tableRoot (tableName : String) : Root := .Table (toAsciiLowercase tableName)

def indexRoot (index : IndexSchema) : Root := .Index (toAsciiLowercase index.name)

abbrev Trees := List (Root × List (Int64 × Row))

-- What the statements do to the rows. An insert remembers the row as it was given, an update and an upsert
-- the rows to rewrite with their new versions. This is not in the source.
inductive Change where
  | Inserted (table : String) (given : Row) (rowid : Int64)
  | Rewriting (table : String) (targets : List (Int64 × Row × Row))

-- `catalogTxn` and `tableTxn` are what the trees held when the transactions of the catalog pager and of
-- the pagers of the tables began. In directory mode the tables are in pagers of their own. `side` is the
-- state of the FULLTEXT and the vector indexes.
structure VM (τ : Type) where
  schema : Schema
  schemaSnapshot : Option Schema
  trees : Trees
  directory : Bool
  catalogTxn : Option Trees
  tableTxn : Option Trees
  caches : List (List Char × IndexCaches)
  side : τ
  history : List Change

abbrev VmM (τ : Type) := EStateM Fault (VM τ)

namespace VM

variable {τ : Type}

def tree (vm : VM τ) (root : Root) : List (Int64 × Row) := lookupD vm.trees root []

def setTree (vm : VM τ) (root : Root) (rows : List (Int64 × Row)) : VM τ :=
  { vm with trees := put root rows vm.trees }

def record (vm : VM τ) (change : Change) : VM τ := { vm with history := vm.history ++ [change] }

def tableIndex (vm : VM τ) (index : IndexSchema) : TableIndex where
  schema := index
  entries := vm.tree (indexRoot index)
  caches := vm.caches.lookup (toAsciiLowercase index.name)

def clearIndexCaches (vm : VM τ) : VM τ := { vm with caches := [] }

-- `begin_transaction` of the catalog pager. In directory mode it holds none of the trees.
def beginCatalog (vm : VM τ) : VM τ := { vm with catalogTxn := some vm.trees }

def commitCatalog (vm : VM τ) : VM τ := { vm with catalogTxn := none }

def rollbackCatalog (vm : VM τ) : VM τ :=
  { vm with
    trees := if vm.directory then vm.trees else vm.catalogTxn.getD vm.trees
    catalogTxn := none }

def rollbackTables (vm : VM τ) : VM τ :=
  { vm with trees := vm.tableTxn.getD vm.trees, tableTxn := none }

def restoreSchema (vm : VM τ) : VM τ :=
  { vm with schema := vm.schemaSnapshot.getD vm.schema, schemaSnapshot := none }

end VM

-- The statements that change rows or end transactions, and the others.
inductive Stmt where
  | Insert (stmt : InsertStmt)
  | Update (stmt : UpdateStmt)
  | Delete (stmt : DeleteStmt)
  | Begin
  | Commit
  | Rollback
  | Other

-- What the statements use of the rest of the engine: the sorting and searching of the standard library,
-- the arithmetic and the formatting of doubles, what an expression can refer to, `exec_select`, the
-- parser, the FULLTEXT and vector indexes, and the other statements.
structure Engine (τ : Type) where
  std : EntryOps
  floats : FloatOps
  formatReal : UInt64 → String
  env : VM τ → EvalEnv
  execSelect : SelectStmt → VM τ → Res ExecResult
  parseSql : String → Except KkdbError Stmt
  ftsInsert : String → Int64 → Row → τ → Res τ
  ftsDelete : String → Int64 → τ → Res τ
  vecInsert : String → Int64 → Row → τ → τ
  vecDelete : String → Int64 → τ → τ
  execOther : String → VmM τ ExecResult

def putRow (rowid : Int64) (row : Row) : List (Int64 × Row) → List (Int64 × Row)
  | [] => [(rowid, row)]
  | r :: rows =>
      if rowid.toInt < r.1.toInt then (rowid, row) :: r :: rows
      else if rowid = r.1 then (rowid, row) :: rows
      else r :: putRow rowid row rows

section Calls

variable {τ α : Type}

def ofRes : Res α → VmM τ α
  | .ok a => pure a
  | .error e => throw e

def attempt (x : VmM τ α) : VmM τ (Except KkdbError α) := fun vm =>
  match x vm with
  | .ok a vm => .ok (.ok a) vm
  | .error (.Err e) vm => .ok (.error e) vm
  | .error f vm => .error f vm

def getTable (name : String) : VmM τ TableSchema := do
  match (← get).schema.getTable name with
  | some table => return table
  | none => throw (.Err (.TableNotFound name))

def scanAll (root : Root) : VmM τ (List (Int64 × Row)) := do
  return (← get).tree root

def findByRowid (root : Root) (rowid : Int64) : VmM τ (Option Row) := do
  return ((← get).tree root).lookup rowid

def maxRowid (root : Root) : VmM τ Int64 := do
  return (((← get).tree root).getLast?.map Prod.fst).getD 0

def setRows (root : Root) (rows : List (Int64 × Row)) : VmM τ Unit :=
  modify fun vm => vm.setTree root rows

def insertWithBuf (root : Root) (rowid : Int64) (row : Row) : VmM τ Unit := do
  let rows ← scanAll root
  if (rows.lookup rowid).isSome then throw (BTree.duplicateRowid rowid)
  setRows root (putRow rowid row rows)

def deleteByRowid (root : Root) (rowid : Int64) : VmM τ Unit := do
  let rows ← scanAll root
  setRows root (remove rowid rows)

-- The row is deleted and inserted again.
def updateRow (root : Root) (rowid : Int64) (row : Row) : VmM τ Unit := do
  let rows ← scanAll root
  setRows root (putRow rowid row (remove rowid rows))

-- A rowid that does not fit panics.
def nextRowidAfter (rowid : Int64) : VmM τ Int64 :=
  if rowid = Int64.maxValue then throw .Panic else pure (rowid + 1)

end Calls

end Dml

end Kkdb

namespace Kkdb

open Lib

namespace Dml

def insertAt {α : Type} (i : Nat) (a : α) (xs : List α) : List α := xs.take i ++ a :: xs.drop i

-- Where the pair belongs among the ordered entries of an index.
def entryPosition (std : EntryOps) (ordered : List (Value × Int64)) (first : Value) (rowid : Int64) : Nat :=
  std.partitionPoint ordered fun e =>
    cmpValueTotal e.1 first = .lt ∨ (cmpValueTotal e.1 first = .eq ∧ e.2.toInt < rowid.toInt)

def indexCacheInsert (std : EntryOps) (first : Value) (rowid entryRowid : Int64) (caches : IndexCaches) :
    IndexCaches where
  eqMap := put (indexEqKey first) (lookupD caches.eqMap (indexEqKey first) [] ++ [rowid]) caches.eqMap
  rowidMap := put rowid entryRowid caches.rowidMap
  ordered :=
    if valueHasTotalOrder first then
      insertAt (entryPosition std caches.ordered first rowid) (first, rowid) caches.ordered
    else caches.ordered

def indexCacheDelete (std : EntryOps) (first : Value) (rowid : Int64) (caches : IndexCaches) : IndexCaches where
  eqMap :=
    match caches.eqMap.lookup (indexEqKey first) with
    | none => caches.eqMap
    | some rowids =>
        if (rowids.filter fun r => r ≠ rowid) = [] then remove (indexEqKey first) caches.eqMap
        else put (indexEqKey first) (rowids.filter fun r => r ≠ rowid) caches.eqMap
  rowidMap := remove rowid caches.rowidMap
  ordered :=
    match caches.ordered[entryPosition std caches.ordered first rowid]? with
    | some e =>
        if e.1.eq first ∧ e.2 = rowid then
          caches.ordered.eraseIdx (entryPosition std caches.ordered first rowid)
        else caches.ordered
    | none => caches.ordered

section Indexes

variable {τ : Type} (E : Engine τ)

def loadIndexCaches (index : IndexSchema) : VmM τ IndexCaches := do
  let vm ← get
  let caches ← ofRes (ensureIndexCacheLoaded E.std (vm.tableIndex index))
  modify fun vm => { vm with caches := put (toAsciiLowercase index.name) caches vm.caches }
  return caches

def updateIndexCaches (index : IndexSchema) (f : IndexCaches → IndexCaches) : VmM τ Unit :=
  modify fun vm =>
    match vm.caches.lookup (toAsciiLowercase index.name) with
    | some caches => { vm with caches := put (toAsciiLowercase index.name) (f caches) vm.caches }
    | none => vm

-- The entry has the key, and it is not that of the row to leave out.
def conflicts (keyValues : Row) (ignore : Option Int64) (idxRow : Row) : Bool :=
  keyValues.length + 1 ≤ idxRow.length &&
    (keyValues.zip idxRow).all (fun p => p.2.eq p.1) &&
    match idxRow.getLast? with
    | some (.Integer existing) => some existing ≠ ignore
    | _ => true

def uniqueIndexConflictExists (index : IndexSchema) (keyValues : Row) (ignore : Option Int64) : VmM τ Bool :=
  match keyValues with
  | [] => return false
  | first :: _ => do
      let caches ← loadIndexCaches E index
      let entries ← scanAll (indexRoot index)
      let candidates := (lookupD caches.eqMap (indexEqKey first) []).filter fun rid => some rid ≠ ignore
      let entryRowids := candidates.filterMap fun rid => caches.rowidMap.lookup rid
      return (entryRowids.filterMap fun rid => entries.lookup rid).any (conflicts keyValues ignore)

def uniqueFailed (tableName : String) (index : IndexSchema) : Fault :=
  .Err (.ConstraintViolation
    ("UNIQUE constraint failed: " ++ tableName ++ "." ++ String.intercalate ", " index.columns))

def keyValues (table : TableSchema) (tableName : String) (index : IndexSchema) (row : Row) : Res Row :=
  index.columns.mapM fun name =>
    match table.findColumn name with
    | some c => .ok (row.getD c.colIndex .Null)
    | none => .error (.Err (.ColumnNotFound (tableName ++ "." ++ name)))

def validateUniqueIndex (table : TableSchema) (tableName : String) (ignore : Int64) (row : Row)
    (index : IndexSchema) : VmM τ Unit := do
  if index.unique then
    let key ← ofRes (keyValues table tableName index row)
    if .Null ∉ key then
      if ← uniqueIndexConflictExists E index key (some ignore) then
        throw (uniqueFailed tableName index)

-- The callers leave out the row under its own rowid.
def validateUniqueIndexesForRow (tableName : String) (rowid : Int64) (row : Row) : VmM τ Unit := do
  let indexes := (← get).schema.indexesForTable tableName
  if !indexes.isEmpty then
    let table ← getTable tableName
    indexes.forM (validateUniqueIndex E table tableName rowid row)

def insertIndexEntry (table : TableSchema) (tableName : String) (rowid : Int64) (row : Row)
    (index : IndexSchema) : VmM τ Unit := do
  let indexRow := table.indexRow index row
  if index.unique ∧ .Null ∉ indexRow then
    if ← uniqueIndexConflictExists E index indexRow (some rowid) then
      throw (uniqueFailed tableName index)
  let idxNext ← nextRowidAfter (← maxRowid (indexRoot index))
  insertWithBuf (indexRoot index) idxNext (indexRow ++ [.Integer rowid])
  match indexRow.head? with
  | some first => updateIndexCaches index (indexCacheInsert E.std first rowid idxNext)
  | none => pure ()

def insertIndexEntries (tableName : String) (rowid : Int64) (row : Row) : VmM τ Unit := do
  let indexes := (← get).schema.indexesForTable tableName
  if !indexes.isEmpty then
    let table ← getTable tableName
    indexes.forM (insertIndexEntry E table tableName rowid row)

-- The entry of the row is found through the cache.
def deleteIndexEntry (rowid : Int64) (index : IndexSchema) : VmM τ Unit := do
  let caches ← loadIndexCaches E index
  match caches.rowidMap.lookup rowid with
  | none => pure ()
  | some entryRowid =>
      let entry ← findByRowid (indexRoot index) entryRowid
      deleteByRowid (indexRoot index) entryRowid
      match entry.bind List.head? with
      | some first => updateIndexCaches index (indexCacheDelete E.std first rowid)
      | none => pure ()

def deleteIndexEntries (tableName : String) (rowid : Int64) : VmM τ Unit := do
  ((← get).schema.indexesForTable tableName).forM (deleteIndexEntry E rowid)

end Indexes

end Dml

end Kkdb
