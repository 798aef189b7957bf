import Kkdb.Vm.IndexDml

namespace Kkdb

open Lib

namespace Dml

def alignRow (colCount : Nat) (colIndices : List Nat) (valueRow : Row) : Row :=
  (colIndices.zip valueRow).foldl (fun row p => row.set p.1 p.2) (List.replicate colCount .Null)

def resolveColumns (table : TableSchema) : Option (List String) → Res (List Nat)
  | none => .ok (List.range table.columns.length)
  | some cols => cols.mapM fun c =>
      match table.position c with
      | some i => .ok i
      | none => .error (.Err (.ColumnNotFound c))

def resolveAssignments (table : TableSchema) (assignments : List (String × Expr)) : Res (List (Nat × Expr)) :=
  assignments.mapM fun a =>
    match (buildColMap table.columnNames).lookup (toAsciiLowercase a.1) with
    | some i => .ok (i, a.2)
    | none => .error (.Err (.ColumnNotFound a.1))

-- The row with the values of the assigned expressions, which are all evaluated on the old row.
def assignRow (env : EvalEnv) (colMap : ColMap) (row : Row) : List (Nat × Expr) → Row → Res Row
  | [], new => .ok new
  | (i, expr) :: assignments, new => do
      let v ← env.evalExpr expr row colMap
      if new.length ≤ i then throw .Panic
      assignRow env colMap row assignments (new.set i v)

def bodyStatements (bodySql : String) : List String :=
  let inner := trim bodySql
  let upper := inner.toList.map Char.toUpper
  if upper = "BEGIN".toList ∨ upper = "END".toList then []
  else
    let body :=
      if "BEGIN".toList.isPrefixOf upper && "END".toList.isSuffixOf upper then
        (inner.toList.drop 5).take (inner.toList.length - 8)
      else inner.toList
    ((body.splitOn ';').map fun piece => trim (String.ofList piece)).filter fun piece => piece ≠ ""

def notNullFailed (tableName colName : String) : Fault :=
  .Err (.ConstraintViolation ("NOT NULL constraint failed: " ++ tableName ++ "." ++ colName))

def quoted (text : String) : String :=
  "'" ++ String.ofList (text.toList.flatMap fun c => if c = '\'' then ['\'', '\''] else [c]) ++ "'"

def returningValues (env : EvalEnv) (colMap : ColMap) (row : Row) : List Expr → Res Row
  | [] => .ok []
  | .ColumnRef _ "*" :: exprs => do
      let rest ← returningValues env colMap row exprs
      return row ++ rest
  | expr :: exprs => do
      let v ← env.evalExpr expr row colMap
      let rest ← returningValues env colMap row exprs
      return v :: rest

def returningNames (exprs : List Expr) : List String :=
  exprs.zipIdx.map fun e =>
    match e.1 with
    | .ColumnRef _ column => column
    | _ => "col" ++ toString e.2

section Statements

variable {τ : Type} (E : Engine τ)

def literal : Value → Option String
  | .Integer v => some (toString v.toInt)
  | .Real bits => some (E.formatReal bits)
  | .Text v => some (quoted v)
  | _ => none

def maintainFtsInsert (tableName : String) (rowid : Int64) (row : Row) : VmM τ Unit := do
  let side ← ofRes (E.ftsInsert tableName rowid row (← get).side)
  modify fun vm => { vm with side := side }

def maintainFtsDelete (tableName : String) (rowid : Int64) : VmM τ Unit := do
  let side ← ofRes (E.ftsDelete tableName rowid (← get).side)
  modify fun vm => { vm with side := side }

def maintainVecInsert (tableName : String) (rowid : Int64) (row : Row) : VmM τ Unit :=
  modify fun vm => { vm with side := E.vecInsert tableName rowid row vm.side }

def maintainVecDelete (tableName : String) (rowid : Int64) : VmM τ Unit :=
  modify fun vm => { vm with side := E.vecDelete tableName rowid vm.side }

def checkConstraintsForRow (tableName : String) (row : Row) : VmM τ Unit := do
  let table ← getTable tableName
  ofRes (runChecks E.floats tableName table.colNames row table.checkConstraints)

def fkValueExistsInParent (tableName : String) (colName : Option String) (value : Value) : VmM τ Bool := do
  let table ← getTable tableName
  let column := match colName with
    | some name => table.findColumn name
    | none => table.primaryKey
  let colIdx := (column.map ColumnInfo.colIndex).getD 0
  let rows ← scanAll (tableRoot tableName)
  return rows.any fun r => (r.2[colIdx]?).any fun v => v.eq value

def checkFk (tableName : String) (row : Row) (fk : ForeignKey) : VmM τ Unit := do
  let value := row.getD fk.colIndex .Null
  if value ≠ .Null then
    if !(← fkValueExistsInParent fk.refTable fk.refCol value) then
      throw (.Err (.ConstraintViolation
        ("FOREIGN KEY constraint failed: " ++ tableName ++ "." ++ fk.colName ++ " references " ++ fk.refTable)))

def checkFkOnInsert (tableName : String) (row : Row) : VmM τ Unit := do
  let table ← getTable tableName
  table.foreignKeys.forM (checkFk tableName row)

-- `executeSql` runs the statements of the triggers and of the foreign keys' actions.
variable (executeSql : String → VmM τ ExecResult)

-- The errors of a trigger's statements are dropped.
def fireTriggers (tableName : String) (timing : TriggerTiming) (event : TriggerEvent) : VmM τ Unit := do
  let triggers := (← get).schema.getTriggers tableName timing event
  triggers.forM fun t => (bodyStatements t.bodySql).forM fun sql => do
    let _ ← attempt (executeSql sql)

def referencedValue (parent : TableSchema) (fk : ForeignKey) (row : Row) : Option Value :=
  let column := match fk.refCol with
    | some name => parent.findColumn name
    | none => parent.primaryKey
  column.bind fun c => row[c.colIndex]?

def enforceFkDelete (parentTable childTable : String) (deletedRow : Row) (fk : ForeignKey) : VmM τ Unit := do
  if sameName fk.refTable parentTable then
    let parent ← getTable parentTable
    match referencedValue parent fk deletedRow with
    | none | some .Null => pure ()
    | some refVal =>
        match fk.onDelete, literal E refVal with
        | .Cascade, some lit =>
            let _ ← executeSql ("DELETE FROM " ++ childTable ++ " WHERE " ++ fk.colName ++ " = " ++ lit)
        | .SetNull, some lit =>
            let _ ← executeSql
              ("UPDATE " ++ childTable ++ " SET " ++ fk.colName ++ " = NULL WHERE " ++ fk.colName ++
                " = " ++ lit)
        | .Restrict, _ =>
            if ← fkValueExistsInParent childTable (some fk.colName) refVal then
              throw (.Err (.ConstraintViolation
                ("FOREIGN KEY constraint failed: deleting from " ++ parentTable ++ " has dependent rows in " ++
                  childTable)))
        | _, none => pure ()

-- Each foreign key of each table is looked at. The tables are visited in some order of their names.
def forEachForeignKey (action : String → ForeignKey → VmM τ Unit) : VmM τ Unit := do
  let names := (← get).schema.tables.map Prod.fst
  names.forM fun name => do
    match (← get).schema.tables.lookup name with
    | none => pure ()
    | some child => child.foreignKeys.forM (action (String.ofList name))

def enforceFkParentDelete (parentTable : String) (deletedRow : Row) : VmM τ Unit :=
  forEachForeignKey fun child fk => enforceFkDelete E executeSql parentTable child deletedRow fk

def enforceFkUpdate (parentTable childTable : String) (oldRow newRow : Row) (fk : ForeignKey) : VmM τ Unit := do
  if sameName fk.refTable parentTable then
    let parent ← getTable parentTable
    let column := match fk.refCol with
      | some name => parent.findColumn name
      | none => parent.primaryKey
    let colIdx := (column.map ColumnInfo.colIndex).getD 0
    let oldVal := oldRow.getD colIdx .Null
    let newVal := newRow.getD colIdx .Null
    if !oldVal.eq newVal ∧ oldVal ≠ .Null then
      match literal E oldVal, if newVal = .Null then some "NULL" else literal E newVal with
      | some oldLit, some newLit =>
          match fk.onUpdate with
          | .Cascade =>
              let _ ← executeSql ("UPDATE " ++ childTable ++ " SET " ++ fk.colName ++ " = " ++ newLit ++
                " WHERE " ++ fk.colName ++ " = " ++ oldLit)
          | .SetNull =>
              let _ ← executeSql ("UPDATE " ++ childTable ++ " SET " ++ fk.colName ++ " = NULL WHERE " ++
                fk.colName ++ " = " ++ oldLit)
          | .Restrict =>
              if ← fkValueExistsInParent childTable (some fk.colName) oldVal then
                throw (.Err (.ConstraintViolation
                  ("FOREIGN KEY constraint failed: updating " ++ parentTable ++
                    " changes referenced value in " ++
                    childTable ++ "." ++ fk.colName)))
      | _, _ => pure ()

def enforceFkParentUpdate (parentTable : String) (oldRow newRow : Row) : VmM τ Unit :=
  forEachForeignKey fun child fk => enforceFkUpdate E executeSql parentTable child oldRow newRow fk

def returningResult (tableName : String) (rows : List Row) (exprs : List Expr) : VmM τ ExecResult := do
  let table ← getTable tableName
  let env := E.env (← get)
  let values ← ofRes (rows.mapM fun row => returningValues env table.colMap row exprs)
  return .QueryResult (returningNames exprs) values

end Statements

section Insert

variable {τ : Type} (E : Engine τ) (executeSql : String → VmM τ ExecResult)

structure InsertPlan where
  stmt : InsertStmt
  table : TableSchema
  colIndices : List Nat

structure InsertLoop where
  nextRowid : Int64
  rowsInserted : Nat
  returning : List Row

-- The rowid of the row, the row with an omitted key filled in, and the next free rowid.
def chooseRowid (pkColIdx : Option Nat) (nextRowid : Int64) (row : Row) : VmM τ (Int64 × Row × Int64) :=
  match pkColIdx with
  | none => do
      let next ← nextRowidAfter nextRowid
      return (nextRowid, row, next)
  | some pk =>
      match row.getD pk .Null with
      | .Integer rid => do
          let next ← if nextRowid.toInt ≤ rid.toInt then nextRowidAfter rid else pure nextRowid
          return (rid, row, next)
      | .Null => do
          let next ← nextRowidAfter nextRowid
          return (nextRowid, row.set pk (.Integer nextRowid), next)
      | _ => do
          let next ← nextRowidAfter nextRowid
          return (nextRowid, row, next)

def checkNotNull (plan : InsertPlan) (row : Row) : VmM τ Unit :=
  plan.table.notNullCols.forM fun c => do
    if row.getD c.1 .Null = .Null then throw (notNullFailed plan.table.name c.2)

-- The row goes into the tree of the table. `given` is the row before its key was filled in.
def storeRow (plan : InsertPlan) (given : Row) (rowid : Int64) (row : Row) : VmM τ Unit := do
  insertWithBuf (tableRoot plan.stmt.tableName) rowid row
  modify fun vm => vm.record (.Inserted plan.stmt.tableName given rowid)

def insertOrError (plan : InsertPlan) (given : Row) (rowid : Int64) (row : Row) (loop : InsertLoop) :
    VmM τ InsertLoop := do
  let tableName := plan.stmt.tableName
  validateUniqueIndexesForRow E tableName rowid row
  storeRow plan given rowid row
  insertIndexEntries E tableName rowid row
  maintainFtsInsert E tableName rowid row
  maintainVecInsert E tableName rowid row
  fireTriggers executeSql tableName .After .Insert
  return { loop with rowsInserted := loop.rowsInserted + 1, returning := loop.returning ++ [row] }

def isConstraintViolation : Except KkdbError Unit → Bool
  | .error (.ConstraintViolation _) => true
  | _ => false

def insertOrIgnore (plan : InsertPlan) (given : Row) (rowid : Int64) (row : Row) (loop : InsertLoop) :
    VmM τ InsertLoop := do
  let tableName := plan.stmt.tableName
  let conflict ← attempt (validateUniqueIndexesForRow E tableName rowid row)
  let existing ← findByRowid (tableRoot plan.stmt.tableName) rowid
  if isConstraintViolation conflict ∨ (plan.table.pkColIdx.isSome ∧ existing.isSome) then return loop
  else
    storeRow plan given rowid row
    insertIndexEntries E tableName rowid row
    fireTriggers executeSql tableName .After .Insert
    return { loop with rowsInserted := loop.rowsInserted + 1 }

-- The row whose key column equals that of the new row. An integer key is taken for the rowid itself.
def existingRowidForPk (plan : InsertPlan) (row : Row) : VmM τ (Option Int64) := do
  match plan.table.pkColIdx with
  | none => return none
  | some pk =>
      match row.getD pk .Null with
      | .Integer pkInt =>
          let existing ← findByRowid (tableRoot plan.stmt.tableName) pkInt
          return existing.map fun _ => pkInt
      | pkVal =>
          let rows ← scanAll (tableRoot plan.stmt.tableName)
          return (rows.find? fun r => (r.2[pk]?).any fun v => v.eq pkVal).map Prod.fst

-- `index_key`: the serialized values, each after its length.
def indexKey (values : Row) : List UInt8 :=
  values.flatMap fun v => leBytes 4 (v.serialize.length % 2 ^ 32) ++ v.serialize

-- The rows other than `rowid` whose entry in the index has the key of the row.
def conflictRowids (plan : InsertPlan) (rowid : Int64) (row : Row) (index : IndexSchema) :
    VmM τ (List Int64) := do
  if !index.unique then return []
  let table ← getTable plan.stmt.tableName
  let key := table.indexRow index row
  if .Null ∈ key then return []
  let entries ← scanAll (indexRoot index)
  return entries.filterMap fun e =>
    match e.2.getLast? with
    | some (.Integer rid) =>
        if rid ≠ rowid ∧ indexKey e.2.dropLast = indexKey key then some rid else none
    | _ => none

def eraseRow (plan : InsertPlan) (rowid : Int64) : VmM τ Unit := do
  maintainFtsDelete E plan.stmt.tableName rowid
  deleteIndexEntries E plan.stmt.tableName rowid
  deleteByRowid (tableRoot plan.stmt.tableName) rowid

def insertOrReplace (plan : InsertPlan) (given : Row) (rowid : Int64) (row : Row) (loop : InsertLoop) :
    VmM τ InsertLoop := do
  let tableName := plan.stmt.tableName
  (← existingRowidForPk plan row).toList.forM (eraseRow E plan)
  let indexes := (← get).schema.indexesForTable tableName
  let conflicting ← indexes.mapM (conflictRowids plan rowid row)
  conflicting.flatten.forM (eraseRow E plan)
  storeRow plan given rowid row
  insertIndexEntries E tableName rowid row
  maintainFtsInsert E tableName rowid row
  maintainVecInsert E tableName rowid row
  fireTriggers executeSql tableName .After .Insert
  return { loop with rowsInserted := loop.rowsInserted + 1 }

-- The assignments of an upsert. A column that the table does not have is left out.
def upsertRow (env : EvalEnv) (table : TableSchema) (colMap : ColMap) (oldRow : Row) :
    List (String × Expr) → Row → Res Row
  | [], new => .ok new
  | (name, expr) :: assignments, new =>
      match table.findColumn name with
      | none => upsertRow env table colMap oldRow assignments new
      | some c => do
          let v ← env.evalExpr expr oldRow colMap
          upsertRow env table colMap oldRow assignments (new.set c.colIndex v)

def upsertTarget (plan : InsertPlan) (assignments : List (String × Expr)) (rowid : Int64) : VmM τ Row := do
  let tableName := plan.stmt.tableName
  let oldRow := (← findByRowid (tableRoot tableName) rowid).getD []
  let table ← getTable tableName
  let colMap := (table.colNames.zipIdx.map fun c => (toAsciiLowercase c.1, c.2)).reverse
  let newRow ← ofRes (upsertRow (E.env (← get)) table colMap oldRow assignments oldRow)
  modify fun vm => vm.record (.Rewriting tableName [(rowid, oldRow, newRow)])
  return newRow

def rewriteRow (tableName : String) (rowid : Int64) (newRow : Row) : VmM τ Unit := do
  checkConstraintsForRow E tableName newRow
  checkFkOnInsert tableName newRow
  maintainFtsDelete E tableName rowid
  deleteIndexEntries E tableName rowid
  validateUniqueIndexesForRow E tableName rowid newRow
  updateRow (tableRoot tableName) rowid newRow
  insertIndexEntries E tableName rowid newRow
  maintainFtsInsert E tableName rowid newRow
  maintainVecDelete E tableName rowid
  maintainVecInsert E tableName rowid newRow

def rewriteConflicting (plan : InsertPlan) (assignments : List (String × Expr)) (rowid : Int64)
    (loop : InsertLoop) : VmM τ InsertLoop := do
  let newRow ← upsertTarget E plan assignments rowid
  rewriteRow E plan.stmt.tableName rowid newRow
  return { loop with rowsInserted := loop.rowsInserted + 1 }

-- The errors of the indexes are dropped.
def insertUpsert (plan : InsertPlan) (given : Row) (rowid : Int64) (row : Row) (loop : InsertLoop) :
    VmM τ InsertLoop := do
  let tableName := plan.stmt.tableName
  storeRow plan given rowid row
  let _ ← attempt (insertIndexEntries E tableName rowid row)
  maintainFtsInsert E tableName rowid row
  maintainVecInsert E tableName rowid row
  fireTriggers executeSql tableName .After .Insert
  return { loop with rowsInserted := loop.rowsInserted + 1 }

-- A table without a key is searched by its first column.
def conflictingRow (pkColIdx : Option Nat) (row : Row) (rows : List (Int64 × Row)) : Option (Int64 × Row) :=
  rows.find? fun r => (r.2[pkColIdx.getD 0]?).any fun v => v.eq (row.getD (pkColIdx.getD 0) .Null)

def insertOrUpdate (plan : InsertPlan) (assignments : List (String × Expr)) (given : Row) (rowid : Int64)
    (row : Row) (loop : InsertLoop) : VmM τ InsertLoop := do
  let rows ← scanAll (tableRoot plan.stmt.tableName)
  match conflictingRow plan.table.pkColIdx row rows with
  | some existing => rewriteConflicting E plan assignments existing.1 loop
  | none => insertUpsert E executeSql plan given rowid row loop

def resolveConflict (plan : InsertPlan) (given : Row) (rowid : Int64) (row : Row) (loop : InsertLoop) :
    VmM τ InsertLoop :=
  match plan.stmt.conflict with
  | .Error => insertOrError E executeSql plan given rowid row loop
  | .Ignore => insertOrIgnore E executeSql plan given rowid row loop
  | .Replace => insertOrReplace E executeSql plan given rowid row loop
  | .Update assignments => insertOrUpdate E executeSql plan assignments given rowid row loop

-- One turn of the loop of `insert_value_rows`.
def insertValueRow (plan : InsertPlan) (valueRow : Row) (loop : InsertLoop) : VmM τ InsertLoop := do
  if valueRow.length ≠ plan.colIndices.length then
    throw (.Err (.ColumnCountMismatch plan.colIndices.length valueRow.length))
  let given := alignRow plan.table.columns.length plan.colIndices valueRow
  let (rowid, row, nextRowid) ← chooseRowid plan.table.pkColIdx loop.nextRowid given
  fireTriggers executeSql plan.stmt.tableName .Before .Insert
  checkNotNull plan row
  checkFkOnInsert plan.stmt.tableName row
  checkConstraintsForRow E plan.stmt.tableName row
  resolveConflict E executeSql plan given rowid row { loop with nextRowid := nextRowid }

def insertLoop (plan : InsertPlan) : List Row → InsertLoop → VmM τ InsertLoop
  | [], loop => return loop
  | valueRow :: valueRows, loop => do
      let loop ← insertValueRow E executeSql plan valueRow loop
      insertLoop plan valueRows loop

def insertValueRows (insert : InsertStmt) (valueRows : List Row) : VmM τ ExecResult := do
  let table ← getTable insert.tableName
  let colIndices ← ofRes (resolveColumns table insert.columns)
  let loop ← insertLoop E executeSql ⟨insert, table, colIndices⟩ valueRows ⟨table.nextRowid, 0, []⟩
  let _ ← getTable insert.tableName
  modify fun vm => { vm with schema := vm.schema.setNextRowid insert.tableName loop.nextRowid }
  match insert.returning with
  | some exprs => returningResult E insert.tableName loop.returning exprs
  | none => return .RowsAffected loop.rowsInserted (toString loop.rowsInserted ++ " row(s) inserted")

def sourceRows (source : InsertSource) (vm : VM τ) : Res (List Row) :=
  match source with
  | .Values exprRows => exprRows.mapM fun exprs => exprs.mapM fun expr => (E.env vm).evalExpr expr [] []
  | .Select query => do
      match ← E.execSelect query vm with
      | .QueryResult _ rows => return rows
      | _ => throw (.Err (.Internal "INSERT SELECT: exec_select did not return rows"))

-- Outside a transaction the rows are inserted in one of their own, which only the catalog pager takes
-- part in.
def execInsert (insert : InsertStmt) : VmM τ ExecResult := do
  let valueRows ← ofRes (sourceRows E insert.source (← get))
  if (← get).catalogTxn.isSome then insertValueRows E executeSql insert valueRows
  else
    modify fun vm => { vm.beginCatalog with schemaSnapshot := some vm.schema }
    match ← attempt (insertValueRows E executeSql insert valueRows) with
    | .ok r =>
        modify fun vm => { vm.commitCatalog with schemaSnapshot := none }
        return r
    | .error e =>
        modify fun vm => vm.rollbackCatalog.restoreSchema.clearIndexCaches
        throw (.Err e)

end Insert

section UpdateDelete

variable {τ : Type} (E : Engine τ) (executeSql : String → VmM τ ExecResult)

-- The lookups that need the caches of the index.
def readsCaches : Lookup → Bool
  | .Eq value => value ≠ .Null
  | .In values => values ≠ []
  | .Comparison op value => value ≠ .Null && (op = .Equal || valueHasTotalOrder value)
  | .Between low high =>
      low ≠ .Null && high ≠ .Null && valueHasTotalOrder low && valueHasTotalOrder high &&
        cmpValueTotal low high ≠ .gt

-- The index lookup of a predicate leaves the caches that it used loaded.
def loadUsedCaches (indexes : List TableIndex) : Option (String × Lookup) → VmM τ Unit
  | none => return ()
  | some (column, lookup) =>
      match indexes.find? (startsWith column) with
      | none => return ()
      | some index => do
          if readsCaches lookup then
            let _ ← loadIndexCaches E index.schema

def dmlIndexRowids (tableName : String) (whereExpr : Expr) : VmM τ (Option (List Int64)) := do
  let vm ← get
  let indexes := (vm.schema.indexesForTable tableName).map vm.tableIndex
  let rowids ← ofRes (tryDmlIndexRowids E.std (E.env vm) indexes whereExpr)
  loadUsedCaches E indexes ((E.env vm).lookupOf whereExpr)
  return rowids

def planUpdates (env : EvalEnv) (colMap : ColMap) (assignments : List (Nat × Expr)) :
    List (Int64 × Row) → Res (List (Int64 × Row × Row))
  | [] => .ok []
  | r :: rows => do
      let new ← assignRow env colMap r.2 assignments r.2
      let rest ← planUpdates env colMap assignments rows
      return (r.1, r.2, new) :: rest

def selects (env : EvalEnv) (colMap : ColMap) (whereClause : Option Expr) (row : Row) : Res Bool :=
  match whereClause with
  | none => .ok true
  | some whereExpr => (env.evalExpr whereExpr row colMap).map Value.isTruthy

def planScan (env : EvalEnv) (colMap : ColMap) (whereClause : Option Expr) (assignments : List (Nat × Expr)) :
    List (Int64 × Row) → Res (List (Int64 × Row × Row))
  | [] => .ok []
  | r :: rows => do
      if ← selects env colMap whereClause r.2 then
        let new ← assignRow env colMap r.2 assignments r.2
        let rest ← planScan env colMap whereClause assignments rows
        return (r.1, r.2, new) :: rest
      else planScan env colMap whereClause assignments rows

def indexRowids (tableName : String) (whereClause : Option Expr) : VmM τ (Option (List Int64)) :=
  match whereClause with
  | some whereExpr => dmlIndexRowids E tableName whereExpr
  | none => return none

def rowsToUpdate (update : UpdateStmt) : VmM τ (List (Int64 × Row × Row)) := do
  let table ← getTable update.tableName
  let colMap := buildColMap table.columnNames
  let assignments ← ofRes (resolveAssignments table update.assignments)
  let rowids ← indexRowids E update.tableName update.whereClause
  let rows ← scanAll (tableRoot update.tableName)
  let env := E.env (← get)
  match rowids with
  | some rowids => ofRes (planUpdates env colMap assignments (fetchRowsByRowids rows rowids))
  | none => ofRes (planScan env colMap update.whereClause assignments rows)

-- One turn of the loop of `exec_update`.
def updateOne (tableName : String) (target : Int64 × Row × Row) : VmM τ Unit := do
  let (rowid, oldRow, newRow) := target
  fireTriggers executeSql tableName .Before .Update
  checkConstraintsForRow E tableName newRow
  maintainFtsDelete E tableName rowid
  maintainVecDelete E tableName rowid
  deleteIndexEntries E tableName rowid
  validateUniqueIndexesForRow E tableName rowid newRow
  updateRow (tableRoot tableName) rowid newRow
  insertIndexEntries E tableName rowid newRow
  maintainFtsInsert E tableName rowid newRow
  maintainVecInsert E tableName rowid newRow
  enforceFkParentUpdate E executeSql tableName oldRow newRow
  fireTriggers executeSql tableName .After .Update

def execUpdate (update : UpdateStmt) : VmM τ ExecResult := do
  let targets ← rowsToUpdate E update
  modify fun vm => vm.record (.Rewriting update.tableName targets)
  targets.forM (updateOne E executeSql update.tableName)
  match update.returning with
  | some exprs => returningResult E update.tableName (targets.map fun t => t.2.2) exprs
  | none => return .RowsAffected targets.length (toString targets.length ++ " row(s) updated")

def rowidsToDelete (delete : DeleteStmt) : VmM τ (List Int64) := do
  let table ← getTable delete.tableName
  match ← indexRowids E delete.tableName delete.whereClause with
  | some rowids => return rowids
  | none =>
      let rows ← scanAll (tableRoot delete.tableName)
      let targets ← ofRes
        (planScan (E.env (← get)) (buildColMap table.columnNames) delete.whereClause [] rows)
      return targets.map Prod.fst

-- One turn of the loop of `exec_delete`, with the row for RETURNING.
def deleteOne (tableName : String) (rowid : Int64) : VmM τ (Option Row) := do
  fireTriggers executeSql tableName .Before .Delete
  match ← findByRowid (tableRoot tableName) rowid with
  | some parentRow => enforceFkParentDelete E executeSql tableName parentRow
  | none => pure ()
  maintainFtsDelete E tableName rowid
  maintainVecDelete E tableName rowid
  deleteIndexEntries E tableName rowid
  let oldRow ← findByRowid (tableRoot tableName) rowid
  deleteByRowid (tableRoot tableName) rowid
  fireTriggers executeSql tableName .After .Delete
  return oldRow

def execDelete (delete : DeleteStmt) : VmM τ ExecResult := do
  let rowids ← rowidsToDelete E delete
  let deleted ← rowids.mapM (deleteOne E executeSql delete.tableName)
  match delete.returning with
  | some exprs => returningResult E delete.tableName (deleted.filterMap id) exprs
  | none => return .RowsAffected rowids.length (toString rowids.length ++ " row(s) deleted")

def execBegin : VmM τ ExecResult := do
  if (← get).catalogTxn.isSome then throw (.Err (.RuntimeError "transaction already active"))
  modify fun vm =>
    { vm.beginCatalog.clearIndexCaches with
      tableTxn := if vm.directory ∧ vm.tableTxn.isNone then some vm.trees else vm.tableTxn
      schemaSnapshot := some vm.schema }
  return .Ok "Transaction started"

def execCommit : VmM τ ExecResult := do
  modify fun vm => { vm.commitCatalog.clearIndexCaches with tableTxn := none, schemaSnapshot := none }
  return .Ok "Committed"

def execRollback : VmM τ ExecResult := do
  modify fun vm => vm.rollbackCatalog.rollbackTables.restoreSchema.clearIndexCaches
  return .Ok "Rolled back"

def executeStatement (stmt : Stmt) (sql : String) : VmM τ ExecResult :=
  match stmt with
  | .Insert insert => execInsert E executeSql insert
  | .Update update => execUpdate E executeSql update
  | .Delete delete => execDelete E executeSql delete
  | .Begin => execBegin
  | .Commit => execCommit
  | .Rollback => execRollback
  | .Other => E.execOther sql

end UpdateDelete

-- Statements that run each other without end overflow the stack, which aborts the process.
def executeSql {τ : Type} (E : Engine τ) : Nat → String → VmM τ ExecResult
  | 0, _ => throw .Abort
  | depth + 1, sql =>
      match E.parseSql sql with
      | .ok stmt => executeStatement E (executeSql E depth) stmt sql
      | .error e => throw (.Err e)

end Dml

end Kkdb
