import Kkdb.Catalog.Calls
import Kkdb.Sql.CreateTable
import Kkdb.Vm.DmlEffects

namespace Kkdb.Dml

open Lib Catalog.Lowercase

def ofCatalog (table : Catalog.TableSchema) (nextRowid : Int64) : TableSchema where
  name := table.name
  columns := table.columns.map fun c =>
    { name := c.name, dataType := c.dataType, primaryKey := c.primaryKey, notNull := c.notNull,
      colIndex := c.colIndex }
  colNames := table.colNames
  nextRowid := nextRowid
  foreignKeys := table.foreignKeys
  checkConstraints := table.checkConstraints

section Meaning

variable {τ : Type} [Sa.SqlParser]

def others (vm : VM τ) (tableName : String) (rowid : Int64) : List Row :=
  ((vm.tree (tableRoot tableName)).filter fun r => r.1 ≠ rowid).map Prod.snd

def keyOf (table : TableSchema) (columns : List String) (row : Row) : Row :=
  columns.map fun name => ((table.findColumn name).map fun c => row.getD c.colIndex .Null).getD .Null

abbrev SameKey : Row → Row → Prop := List.Forall₂ fun a b => a = b ∨ a.eq b = true

-- Another row has the key. Keys with a NULL are all different.
def Duplicated (vm : VM τ) (tableName : String) (table : TableSchema) (columns : List String)
    (rowid : Int64) (row : Row) : Prop :=
  .Null ∉ keyOf table columns row ∧
    ∃ other ∈ others vm tableName rowid, SameKey (keyOf table columns other) (keyOf table columns row)

def primaryColumns (create : Sa.CreateTable) : List String :=
  (create.constraints.findSome? fun
    | .PrimaryKey columns => some columns
    | _ => none).getD []

-- The columns that a foreign key of a table to itself refers to.
def ownColumns (create : Sa.CreateTable) (fk : Sa.ForeignKeyConstraint) : List String :=
  if fk.referredColumns = [] then primaryColumns create else fk.referredColumns

def parentColumns (parent : TableSchema) (fk : Sa.ForeignKeyConstraint) : List String :=
  if fk.referredColumns = [] then (parent.columns.filter ColumnInfo.primaryKey).map ColumnInfo.name
  else fk.referredColumns

-- The keys that a foreign key can refer to. A row can refer to itself.
def referredKeys (create : Sa.CreateTable) (vm : VM τ) (tableName : String) (table : TableSchema)
    (rowid : Int64) (row : Row) (fk : Sa.ForeignKeyConstraint) : List Row :=
  if sameName fk.tableName tableName then
    (row :: others vm tableName rowid).map (keyOf table (ownColumns create fk))
  else
    match vm.schema.getTable fk.tableName with
    | none => []
    | some parent => (vm.tree (tableRoot fk.tableName)).map fun r => keyOf parent (parentColumns parent fk) r.2

-- What the constraints of a statement mean, where `falseOn` tells the rows on which the
-- expression of a check is false: storing the row breaks the constraint.
def Breaks (falseOn : Sa.SqlParser.Expr → List String → Row → Prop) (create : Sa.CreateTable) (vm : VM τ)
    (tableName : String) (table : TableSchema) (rowid : Int64) (row : Row) : Sa.TableConstraint → Prop
  | .PrimaryKey columns => Duplicated vm tableName table columns rowid row
  | .Unique columns => Duplicated vm tableName table columns rowid row
  | .ForeignKey fk => .Null ∉ keyOf table fk.columns row ∧
      ∀ key ∈ referredKeys create vm tableName table rowid row fk, ¬SameKey key (keyOf table fk.columns row)
  | .Check _ expr => falseOn expr table.colNames row
  | .Index _ => False

end Meaning

section Enforcement

variable {τ : Type} [Sa.SqlParser] [Catalog.Lowercase]

def Created (create : Sa.CreateTable) (table : TableSchema) : Prop :=
  ∃ (stmt : Sa.CreateTableStmt) (sql : String) (queried : List (String × DataType)) (rootPage : UInt32)
    (db db' : Catalog.Db) (made : Catalog.TableSchema) (nextRowid : Int64),
    Sa.convertCreateTable create = .ok stmt ∧
    db.schema.tables.lookup (toLowercase stmt.tableName) = none ∧
    Sa.execCreateTable stmt sql queried rootPage db = .ok () db' ∧
    db'.schema.tables.lookup (toLowercase stmt.tableName) = some made ∧ table = ofCatalog made nextRowid

variable (E : Engine τ) (executeSql : String → VmM τ ExecResult)

def Accepted {α : Type} (x : VmM τ α) (vm : VM τ) : Prop := ∃ a vm', x vm = .ok a vm'

def VM.inserting (vm : VM τ) : VM τ :=
  if vm.catalogTxn.isSome then vm else { vm.beginCatalog with schemaSnapshot := some vm.schema }

-- A plain INSERT of one row comes to the checks, behind its BEFORE triggers, with the row
-- that it is about to store.
def InsertsRow (insert : InsertStmt) (vm : VM τ) (rowid : Int64) (row : Row) (vm' : VM τ) : Prop :=
  insert.conflict = .Error ∧
    ∃ (valueRow : Row) (table : TableSchema) (colIndices : List Nat) (next : Int64),
      sourceRows E insert.source vm = .ok [valueRow] ∧
      vm.schema.getTable insert.tableName = some table ∧
      resolveColumns table insert.columns = .ok colIndices ∧
      valueRow.length = colIndices.length ∧
      (chooseRowid table.pkColIdx table.nextRowid (alignRow table.columns.length colIndices valueRow) : VmM τ _)
        vm.inserting = .ok (rowid, row, next) vm.inserting ∧
      fireTriggers executeSql insert.tableName .Before .Insert vm.inserting = .ok () vm'

def UpdatesRow (update : UpdateStmt) (vm : VM τ) (rowid : Int64) (row : Row) (vm' : VM τ) : Prop :=
  ∃ (oldRow : Row) (vm₀ : VM τ), rowsToUpdate E update vm = .ok [(rowid, oldRow, row)] vm₀ ∧
    fireTriggers executeSql update.tableName .Before .Update
      (vm₀.record (.Rewriting update.tableName [(rowid, oldRow, row)])) = .ok () vm'

-- No row that breaks a constraint of the statement gets into its table.
def Enforced (falseOn : Sa.SqlParser.Expr → List String → Row → Prop) (create : Sa.CreateTable) : Prop :=
  ∀ (vm vm' : VM τ) (tableName : String) (table : TableSchema) (rowid : Int64) (row : Row),
    Created create table → sameName tableName create.name = true →
    vm'.schema.getTable tableName = some table → row.length = table.columns.length →
    (∃ constraint ∈ create.constraints, Breaks falseOn create vm' tableName table rowid row constraint) →
    (∀ insert, insert.tableName = tableName → InsertsRow E executeSql insert vm rowid row vm' →
      ¬Accepted (execInsert E executeSql insert) vm) ∧
    ∀ update, update.tableName = tableName → UpdatesRow E executeSql update vm rowid row vm' →
      ¬Accepted (execUpdate E executeSql update) vm

-- What `CreateTableStmt` has a place for: keys of one column, the actions of `FkAction`, and the checks that
-- `convert_expr` knows.
def Representable : Sa.TableConstraint → Prop
  | .PrimaryKey columns => columns.length = 1
  | .Unique columns => columns.length = 1
  | .ForeignKey fk => fk.columns.length = 1 ∧ fk.referredColumns.length ≤ 1 ∧
      fk.onDelete ≠ some .SetDefault ∧ fk.onUpdate ≠ some .SetDefault
  | .Check _ expr => ∃ check, Sa.convertExpr expr = .ok check
  | .Index _ => True

-- The statement is converted and returns in some state.
def Succeeds (create : Sa.CreateTable) : Prop :=
  ∃ (stmt : Sa.CreateTableStmt) (sql : String) (queried : List (String × DataType)) (rootPage : UInt32)
    (db db' : Catalog.Db),
    Sa.convertCreateTable create = .ok stmt ∧ Sa.execCreateTable stmt sql queried rootPage db = .ok () db'

structure NoneLost (falseOn : Sa.SqlParser.Expr → List String → Row → Prop) (create : Sa.CreateTable) : Prop where
  enforced : Enforced E executeSql falseOn create
  refused : ∀ constraint ∈ create.constraints, ¬Representable constraint → ¬Succeeds create

-- The row passes the checks that the table has.
def Passes (ops : FloatOps) (table : TableSchema) (row : Row) : Prop :=
  ∀ check ∈ table.checkConstraints, ∃ v, evalCheckExprSimple ops row table.colNames check.2 = .ok v ∧ v ≠
    .Integer 0

-- No rows of the table besides it can make the row break the constraint.
def Harmless (falseOn : Sa.SqlParser.Expr → List String → Row → Prop) (create : Sa.CreateTable)
    (table : TableSchema) (row : Row) : Sa.TableConstraint → Prop
  | .PrimaryKey columns => .Null ∈ keyOf table columns row
  | .Unique columns => .Null ∈ keyOf table columns row
  | .ForeignKey fk => .Null ∈ keyOf table fk.columns row ∨ (sameName fk.tableName create.name = true ∧
      SameKey (keyOf table (ownColumns create fk) row) (keyOf table fk.columns row))
  | .Check _ expr => ¬falseOn expr table.colNames row
  | .Index _ => True

-- The checks that the table has stand for all the constraints of its statement.
def Covered (ops : FloatOps) (falseOn : Sa.SqlParser.Expr → List String → Row → Prop)
    (create : Sa.CreateTable) :
    Prop :=
  ∀ (table : TableSchema) (row : Row), Created create table → row.length = table.columns.length →
    Passes ops table row → ∀ constraint ∈ create.constraints, Harmless falseOn create table row constraint

end Enforcement

section Made

variable {table : TableSchema} {defs : List Catalog.ColumnDef} {checks : List (Option String × Expr)}

-- The columns of a table come from their definitions, and its checks from those of the statement.
structure Layout (table : TableSchema) (defs : List Catalog.ColumnDef) (checks : List (Option String × Expr)) :
    Prop where
  columns : table.columns = defs.zipIdx.map fun d =>
    { name := d.1.name, dataType := d.1.dataType, primaryKey := d.1.primaryKey, notNull := d.1.notNull,
      colIndex := d.2 }
  foreignKeys : table.foreignKeys = Catalog.loadForeignKeys defs
  checks : table.checkConstraints = Catalog.loadChecks defs checks

theorem layout_tableOf (name : String) (rootPage : UInt32) (defs : List Catalog.ColumnDef)
    (checks : List (Option String × Expr)) (isFts : Bool) (nextRowid : Int64) :
    Layout (ofCatalog (Catalog.tableOf name rootPage defs checks isFts) nextRowid) defs checks where
  columns := by
    simp only [ofCatalog, Catalog.tableOf, Catalog.loadColumns, List.map_map]
    rfl
  foreignKeys := rfl
  checks := rfl

theorem mem_of_mem_zipIdx {α : Type} {xs : List α} {p : α × Nat} (h : p ∈ xs.zipIdx) : p.1 ∈ xs := by
  have hfst := List.mem_map_of_mem (f := Prod.fst) h
  rwa [List.zipIdx_map_fst] at hfst

theorem Layout.mem_columns (h : Layout table defs checks) {c : ColumnInfo} (hc : c ∈ table.columns) :
    ∃ d ∈ defs, c.primaryKey = d.primaryKey ∧ c.notNull = d.notNull := by
  rw [h.columns] at hc
  obtain ⟨d, hd, rfl⟩ := List.mem_map.mp hc
  exact ⟨d.1, mem_of_mem_zipIdx hd, rfl, rfl⟩

theorem Layout.pkColIdx (h : Layout table defs checks) (hplain : ∀ d ∈ defs, Sa.Plain d) :
    table.pkColIdx = none := by
  have hnone : table.primaryKey = none := by
    rw [TableSchema.primaryKey, List.find?_eq_none]
    intro c hc hkey
    obtain ⟨d, hd, hpk, -⟩ := h.mem_columns hc
    rw [hpk, (hplain d hd).primaryKey] at hkey
    cases hkey
  rw [TableSchema.pkColIdx, hnone]
  rfl

theorem Layout.notNullCols (h : Layout table defs checks) (hplain : ∀ d ∈ defs, Sa.Plain d) :
    table.notNullCols = [] := by
  rw [TableSchema.notNullCols, List.map_eq_nil_iff, List.filter_eq_nil_iff]
  intro c hc hnull
  obtain ⟨d, hd, -, hnot⟩ := h.mem_columns hc
  rw [hnot, (hplain d hd).notNull] at hnull
  cases hnull

theorem Layout.foreignKeys_nil (h : Layout table defs checks) (hplain : ∀ d ∈ defs, Sa.Plain d) :
    table.foreignKeys = [] := by
  rw [h.foreignKeys, Catalog.loadForeignKeys, List.filterMap_eq_nil_iff]
  intro d hd
  dsimp only
  rw [(hplain d.1 (mem_of_mem_zipIdx hd)).references]
  rfl

end Made

section Created

variable [Sa.SqlParser] [Catalog.Lowercase] {create : Sa.CreateTable} {table : TableSchema}

theorem Created.layout (h : Created create table) (hlevel : create.TableLevel) :
    ∃ defs checks, Layout table defs checks ∧ ∀ d ∈ defs, Sa.Plain d := by
  obtain ⟨stmt, sql, queried, rootPage, db, db', made, nextRowid, hconvert, hfresh, hrun, hmade, rfl⟩ := h
  rw [Sa.execCreateTable] at hrun
  cases hsource : stmt.source with
  | some select =>
      rw [hsource] at hrun
      obtain rfl := Catalog.createTable_made hfresh hrun hmade
      exact ⟨_, _, layout_tableOf _ _ _ _ _ _, Sa.plain_selectedColumns queried⟩
  | none =>
      rw [hsource] at hrun
      obtain rfl := Catalog.createTable_made hfresh hrun hmade
      refine ⟨_, _, layout_tableOf _ _ _ _ _ _, fun d hd => ?_⟩
      obtain ⟨col, hcol, hconv⟩ := Sa.converted_column hconvert hsource hd
      exact Sa.plain_convertColumnDef (hlevel col hcol) hconv

theorem Created.setNextRowid (h : Created create table) (nextRowid : Int64) :
    Created create { table with nextRowid := nextRowid } := by
  obtain ⟨stmt, sql, queried, rootPage, db, db', made, _, hconvert, hfresh, hrun, hmade, rfl⟩ := h
  exact ⟨stmt, sql, queried, rootPage, db, db', made, nextRowid, hconvert, hfresh, hrun, hmade, rfl⟩

end Created

section Refused

variable {τ : Type} {E : Engine τ} {executeSql : String → VmM τ ExecResult} {table : TableSchema} {row : Row}
  {vm vm' : VM τ} {tableName : String}

theorem Accepted.bind {α β : Type} {x : VmM τ α} {f : α → VmM τ β} (h : Accepted (x >>= f) vm) :
    ∃ a vm', x vm = .ok a vm' ∧ Accepted (f a) vm' := by
  obtain ⟨b, vm'', hrun⟩ := h
  obtain ⟨a, vm', hx, hf⟩ := ok_of_bind_state hrun
  exact ⟨a, vm', hx, b, vm'', hf⟩

theorem Accepted.cons {α β : Type} {x : VmM τ α} {f : α → VmM τ β} {a : α} (hx : x vm = .ok a vm')
    (h : Accepted (f a) vm') : Accepted (x >>= f) vm := by
  obtain ⟨b, vm'', hf⟩ := h
  exact ⟨b, vm'', (bind_ok hx).trans hf⟩

theorem Accepted.bind_reads {α β : Type} {x : VmM τ α} {f : α → VmM τ β} (hreads : Reads x)
    (h : Accepted (x >>= f) vm) : ∃ a, x vm = .ok a vm ∧ Accepted (f a) vm := by
  obtain ⟨a, vm', hx, hf⟩ := h.bind
  have hsame := hreads vm
  rw [left_ok hx] at hsame
  subst hsame
  exact ⟨a, hx, hf⟩

theorem runChecksBy_ok_iff (same : String → String → Bool) (ops : FloatOps) (tableName : String)
    (colNames : List String) (row : Row) (checks : List (Option String × Expr)) :
    runChecksBy same ops tableName colNames row checks = .ok () ↔
      ∀ check ∈ checks, ∃ v, evalCheckExprBy same ops row colNames check.2 = .ok v ∧ v ≠ .Integer 0 := by
  induction checks with
  | nil => exact iff_of_true rfl fun _ h => (nomatch h)
  | cons check checks ih =>
      rw [List.forall_mem_cons, ← ih]
      obtain ⟨name, expr⟩ := check
      rw [runChecksBy]
      cases evalCheckExprBy same ops row colNames expr with
      | error e => exact iff_of_false nofun fun ⟨⟨_, h, _⟩, _⟩ => (nomatch h)
      | ok v =>
          by_cases hzero : v = .Integer 0
          · subst hzero
            exact iff_of_false nofun fun ⟨⟨_, h, hne⟩, _⟩ => hne (Except.ok.inj h).symm
          · have hpass : (if v = .Integer 0 then throw (checkFailed name tableName) else
                runChecksBy same ops tableName colNames row checks) =
                runChecksBy same ops tableName colNames row checks := if_neg hzero
            constructor
            · exact fun h => ⟨⟨v, rfl, hzero⟩, hpass.symm.trans h⟩
            · exact fun h => hpass.trans h.2

theorem runChecks_ok_iff (ops : FloatOps) (tableName : String) (colNames : List String) (row : Row)
    (checks : List (Option String × Expr)) :
    runChecks ops tableName colNames row checks = .ok () ↔
      ∀ check ∈ checks, ∃ v, evalCheckExprSimple ops row colNames check.2 = .ok v ∧ v ≠ .Integer 0 :=
  runChecksBy_ok_iff sameName ops tableName colNames row checks

theorem passes_of_checked (htable : vm.schema.getTable tableName = some table)
    (h : checkConstraintsForRow E tableName row vm = .ok () vm) : Passes E.floats table row := by
  rw [checkConstraintsForRow] at h
  obtain ⟨t, vm₁, hget, hrest⟩ := ok_of_bind_state h
  rw [getTable, get_bind, htable] at hget
  obtain ⟨rfl, rfl⟩ := EStateM.Result.ok.inj hget
  exact (runChecks_ok_iff ..).mp (ofRes_ok hrest).2

theorem Harmless.not_breaks [Sa.SqlParser] {falseOn : Sa.SqlParser.Expr → List String → Row → Prop}
    {create : Sa.CreateTable} {rowid : Int64} {constraint : Sa.TableConstraint}
    (hname : sameName tableName create.name = true) (h : Harmless falseOn create table row constraint) :
    ¬Breaks falseOn create vm tableName table rowid row constraint := by
  cases constraint with
  | PrimaryKey columns => exact fun hbreaks => hbreaks.1 h
  | Unique columns => exact fun hbreaks => hbreaks.1 h
  | Check name expr => exact h
  | Index columns => exact id
  | ForeignKey fk =>
      rintro ⟨hnull, hfresh⟩
      rcases h with hmem | ⟨hself, hkey⟩
      · exact hnull hmem
      · refine hfresh _ ?_ hkey
        have hsame : sameName fk.tableName tableName = true := by
          simp only [sameName, decide_eq_true_eq] at hself hname ⊢
          exact hself.trans hname.symm
        rw [referredKeys, if_pos hsame]
        exact List.mem_cons_self

section Insert

variable {insert : InsertStmt} {rowid : Int64}

theorem inserting_schema (vm : VM τ) : vm.inserting.schema = vm.schema := by
  unfold VM.inserting
  split_ifs <;> rfl

theorem attempt_ok {α : Type} {x : VmM τ α} {a : α} (h : attempt x vm = .ok (.ok a) vm') :
    x vm = .ok a vm' := by
  unfold attempt at h
  split at h <;> cases h
  assumption

theorem Accepted.execInsert (h : Accepted (execInsert E executeSql insert) vm) {valueRows : List Row}
    (hrows : sourceRows E insert.source vm = .ok valueRows) :
    Accepted (insertValueRows E executeSql insert valueRows) vm.inserting := by
  rw [Accepted, Dml.execInsert] at h
  simp only [get_bind, hrows] at h
  change Accepted _ _ at h
  obtain ⟨rows, hok, h⟩ := h.bind_reads (.ofRes _)
  obtain rfl := Except.ok.inj (ofRes_ok hok).2
  obtain ⟨vm₁, hget, h⟩ := h.bind_reads .get
  cases hget
  by_cases hact : vm.catalogTxn.isSome = true
  · rw [if_pos hact] at h
    rw [VM.inserting, if_pos hact]
    exact h
  · rw [if_neg hact] at h
    rw [VM.inserting, if_neg hact]
    obtain ⟨_, vm₂, hbegin, h⟩ := h.bind
    cases hbegin
    obtain ⟨result, vm₃, hrun, h⟩ := h.bind
    cases result with
    | ok r => exact ⟨r, vm₃, attempt_ok hrun⟩
    | error e =>
        obtain ⟨_, _, hthrow⟩ := h
        cases hthrow

theorem getTable_accepted {α : Type} {f : TableSchema → VmM τ α}
    (htable : vm.schema.getTable tableName = some table)
    (h : Accepted (getTable tableName >>= f) vm) : Accepted (f table) vm := by
  obtain ⟨t, hget, h⟩ := h.bind_reads .getTable
  rw [getTable, get_bind, htable] at hget
  cases hget
  exact h

theorem InsertsRow.passes (h : InsertsRow E executeSql insert vm rowid row vm')
    (htable : vm'.schema.getTable insert.tableName = some table)
    (hacc : Accepted (execInsert E executeSql insert) vm) : Passes E.floats table row := by
  obtain ⟨-, valueRow, planned, colIndices, next, hrows, hplanned, hcols, hlen, hrowid, htriggers⟩ := h
  have hacc := hacc.execInsert hrows
  rw [insertValueRows] at hacc
  have hacc := getTable_accepted (by rw [inserting_schema]; exact hplanned) hacc
  obtain ⟨cols, hok, hacc⟩ := hacc.bind_reads (.ofRes _)
  obtain rfl := Except.ok.inj (hcols.symm.trans (ofRes_ok hok).2)
  obtain ⟨loop, vm₁, hloop, -⟩ := hacc.bind
  rw [insertLoop] at hloop
  obtain ⟨loop', vm₂, hrow, -⟩ := ok_of_bind_state hloop
  have hacc : Accepted _ _ := ⟨loop', vm₂, hrow⟩
  rw [insertValueRow, if_neg (by simpa using hlen)] at hacc
  obtain ⟨chosen, vm₃, hchosen, hacc⟩ := hacc.bind
  cases hrowid.symm.trans hchosen
  obtain ⟨_, vm₄, hfired, hacc⟩ := hacc.bind
  cases htriggers.symm.trans hfired
  obtain ⟨_, -, hacc⟩ := hacc.bind_reads (.checkNotNull _ _)
  obtain ⟨_, -, hacc⟩ := hacc.bind_reads (.checkFkOnInsert _ _)
  obtain ⟨_, hchecked, -⟩ := hacc.bind_reads (.checkConstraintsForRow _ _ _)
  exact passes_of_checked htable hchecked

end Insert

theorem UpdatesRow.passes {update : UpdateStmt} {rowid : Int64}
    (h : UpdatesRow E executeSql update vm rowid row vm')
    (htable : vm'.schema.getTable update.tableName = some table)
    (hacc : Accepted (execUpdate E executeSql update) vm) : Passes E.floats table row := by
  obtain ⟨oldRow, vm₀, hrows, htriggers⟩ := h
  rw [execUpdate] at hacc
  obtain ⟨targets, vm₁, hfound, hacc⟩ := hacc.bind
  cases hrows.symm.trans hfound
  obtain ⟨_, vm₂, hrecord, hacc⟩ := hacc.bind
  cases hrecord
  obtain ⟨_, vm₃, hloop, -⟩ := hacc.bind
  rw [List.forM_eq_forM, List.forM_cons] at hloop
  obtain ⟨_, vm₄, hone, -⟩ := ok_of_bind_state hloop
  have hacc : Accepted _ _ := ⟨_, vm₄, hone⟩
  rw [updateOne] at hacc
  obtain ⟨_, vm₅, hfired, hacc⟩ := hacc.bind
  cases htriggers.symm.trans hfired
  obtain ⟨_, hchecked, -⟩ := hacc.bind_reads (.checkConstraintsForRow _ _ _)
  exact passes_of_checked htable hchecked

theorem enforced_of_covered [Sa.SqlParser] [Catalog.Lowercase]
    {falseOn : Sa.SqlParser.Expr → List String → Row → Prop} {create : Sa.CreateTable}
    (h : Covered E.floats falseOn create) : Enforced E executeSql falseOn create := by
  rintro vm vm' tableName table rowid row hcreated hname htable hlen ⟨constraint, hmem, hbreaks⟩
  have hstop : ¬Passes E.floats table row := fun hpasses =>
    (h table row hcreated hlen hpasses constraint hmem).not_breaks hname hbreaks
  constructor
  · rintro insert rfl hinsert hacc
    exact hstop (hinsert.passes htable hacc)
  · rintro update rfl hupdate hacc
    exact hstop (hupdate.passes htable hacc)

end Refused

section Accepting

variable {τ : Type} {E : Engine τ} (executeSql : String → VmM τ ExecResult) {table : TableSchema} {row : Row}
  {vm : VM τ} {tableName : String} {side : τ}

-- `Expr::from_value`.
def fromValue : Value → Expr
  | .Null => .Null
  | .Integer v => .IntegerLiteral v
  | .Real bits => .RealLiteral bits
  | .Text v => .StringLiteral v
  | .Blob v => .BlobLiteral v

theorem evalExpr_fromValue (env : EvalEnv) (v : Value) (row : Row) (colMap : ColMap) :
    env.evalExpr (fromValue v) row colMap = .ok v := by
  cases v <;> simp only [fromValue, EvalEnv.evalExpr]

def plainInsert (tableName : String) (row : Row) : InsertStmt :=
  ⟨tableName, none, .Values [row.map fromValue], .Error, none⟩

def oneTable (tableName : String) (table : TableSchema) (rows : List (Int64 × Row)) (side : τ) : VM τ where
  schema := { tables := [(toAsciiLowercase tableName, table)], indexes := [], triggers := [] }
  schemaSnapshot := none
  trees := [(tableRoot tableName, rows)]
  directory := false
  catalogTxn := some []
  tableTxn := none
  caches := []
  side := side
  history := []

theorem alignRow_range (row : Row) : alignRow row.length (List.range row.length) row = row := by
  have hfold : ∀ (rest filled : Row),
      ((List.range' filled.length rest.length).zip rest).foldl (fun row p => row.set p.1 p.2)
        (filled ++ List.replicate rest.length .Null) = filled ++ rest := by
    intro rest
    induction rest with
    | nil => exact fun filled => rfl
    | cons v rest ih =>
        intro filled
        have hnext := ih (filled ++ [v])
        rw [List.length_append, List.length_singleton, List.append_assoc, List.append_assoc] at hnext
        rw [List.length_cons, List.range'_succ, List.zip_cons_cons, List.foldl_cons, List.replicate_succ,
          List.set_append_right _ _ (Nat.le_refl _), Nat.sub_self, List.set_cons_zero]
        exact hnext
  have hrow := hfold row []
  rwa [List.length_nil, List.nil_append, List.nil_append, ← List.range_eq_range'] at hrow

theorem fireTriggers_none (name : String) (timing : TriggerTiming)
    (event : TriggerEvent) (h : vm.schema.triggers = []) :
    fireTriggers executeSql name timing event vm = .ok () vm := by
  rw [fireTriggers, get_bind, Schema.getTriggers, h]
  rfl

theorem indexesForTable_none (name : String) (h : vm.schema.indexes = []) : vm.schema.indexesForTable name =
    [] := by
  rw [Schema.indexesForTable, h]
  rfl

theorem oneTable_getTable (rows : List (Int64 × Row)) :
    (oneTable tableName table rows side).schema.getTable tableName = some table := by
  simp [oneTable, Schema.getTable]

theorem oneTable_tree (rows : List (Int64 × Row)) :
    (oneTable tableName table rows side).tree (tableRoot tableName) = rows := by
  simp [oneTable, VM.tree, lookupD]

-- A database in which nothing stands in the way of a row but the checks of its table.
structure Bare (E : Engine τ) (tableName : String) (table : TableSchema) (vm : VM τ) : Prop where
  found : vm.schema.getTable tableName = some table
  triggers : vm.schema.triggers = []
  indexes : vm.schema.indexes = []
  foreignKeys : table.foreignKeys = []
  notNullCols : table.notNullCols = []
  pkColIdx : table.pkColIdx = none
  nextRowid : table.nextRowid = 2
  free : (vm.tree (tableRoot tableName)).lookup 2 = none
  side : ∀ rowid row, E.ftsInsert tableName rowid row vm.side = .ok vm.side

theorem Bare.fireTriggers (h : Bare E tableName table vm) (timing : TriggerTiming) (event : TriggerEvent) :
    fireTriggers executeSql tableName timing event vm = .ok () vm :=
  fireTriggers_none executeSql tableName timing event h.triggers

theorem Bare.getTable_eq (h : Bare E tableName table vm) : getTable tableName vm = .ok table vm := by
  rw [getTable, get_bind, h.found]
  rfl

theorem Bare.checked (h : Bare E tableName table vm) (hpasses : Passes E.floats table row) :
    checkConstraintsForRow E tableName row vm = .ok () vm := by
  have hok := (runChecks_ok_iff E.floats tableName table.colNames row table.checkConstraints).mpr hpasses
  rw [checkConstraintsForRow, bind_ok h.getTable_eq, hok]
  rfl

theorem Bare.checkFkOnInsert (h : Bare E tableName table vm) : checkFkOnInsert tableName row vm =
    .ok () vm := by
  rw [Dml.checkFkOnInsert, bind_ok h.getTable_eq, h.foreignKeys]
  rfl

theorem Bare.insertOrError (h : Bare E tableName table vm) (given : Row) (colIndices : List Nat)
    (loop : InsertLoop) :
    Yields (insertOrError E executeSql ⟨plainInsert tableName row, table, colIndices⟩ given 2 row loop) vm
      fun _ vm' => vm'.schema = vm.schema := by
  have hvalid : validateUniqueIndexesForRow E tableName 2 row vm = .ok () vm := by
    rw [validateUniqueIndexesForRow, get_bind, indexesForTable_none tableName h.indexes]
    rfl
  have hstore : storeRow ⟨plainInsert tableName row, table, colIndices⟩ given 2 row vm =
      .ok () ((vm.setTree (tableRoot tableName) (putRow 2 row (vm.tree (tableRoot tableName)))).record
        (.Inserted tableName given 2)) := by
    rcases insertWithBuf_cases (tableRoot tableName) 2 row vm with ⟨-, hput⟩ | hdup
    · exact (bind_ok hput).trans rfl
    · rw [insertWithBuf, scanAll_bind] at hdup
      simp [h.free] at hdup
      cases hdup
  let vm₁ := (vm.setTree (tableRoot tableName) (putRow 2 row (vm.tree (tableRoot tableName)))).record
    (.Inserted tableName given 2)
  have hentries : insertIndexEntries E tableName 2 row vm₁ = .ok () vm₁ := by
    have hnone : vm₁.schema.indexesForTable tableName = [] := indexesForTable_none tableName h.indexes
    rw [insertIndexEntries, get_bind, hnone]
    rfl
  have hfts : maintainFtsInsert E tableName 2 row vm₁ = .ok () vm₁ := by
    have hside : E.ftsInsert tableName 2 row vm₁.side = .ok vm₁.side := h.side 2 row
    rw [maintainFtsInsert, get_bind, hside]
    rfl
  let vm₂ := { vm₁ with side := E.vecInsert tableName 2 row vm₁.side }
  have hvec : maintainVecInsert E tableName 2 row vm₁ = .ok () vm₂ := rfl
  have hafter : Dml.fireTriggers executeSql tableName .After .Insert vm₂ = .ok () vm₂ :=
    fireTriggers_none executeSql tableName .After .Insert h.triggers
  rw [Dml.insertOrError]
  refine ⟨{ loop with rowsInserted := loop.rowsInserted + 1, returning := loop.returning ++ [row] }, vm₂,
    ?_, rfl⟩
  refine (bind_ok hvalid).trans ((bind_ok hstore).trans ?_)
  refine (bind_ok hentries).trans ((bind_ok hfts).trans ((bind_ok hvec).trans ?_))
  exact (bind_ok hafter).trans rfl

theorem Bare.insertValueRow (h : Bare E tableName table vm) (hlen : row.length = table.columns.length)
    (hpasses : Passes E.floats table row) :
    Yields (insertValueRow E executeSql ⟨plainInsert tableName row, table, List.range table.columns.length⟩ row
      ⟨2, 0, []⟩) vm fun _ vm' => vm'.schema = vm.schema := by
  have halign : alignRow table.columns.length (List.range table.columns.length) row = row := by
    rw [← hlen]
    exact alignRow_range row
  have hrowid : (chooseRowid table.pkColIdx 2 row : VmM τ _) vm = .ok (2, row, 3) vm := by
    rw [h.pkColIdx]
    rfl
  have hnull : checkNotNull ⟨plainInsert tableName row, table, List.range table.columns.length⟩ row vm =
      .ok () vm := by
    rw [checkNotNull, h.notNullCols]
    rfl
  have hmiss : ¬row.length ≠ (List.range table.columns.length).length := by simpa using hlen
  obtain ⟨loop, vm', hrun, hschema⟩ := h.insertOrError executeSql row (List.range table.columns.length)
      ⟨3, 0, []⟩
  refine ⟨loop, vm', ?_, hschema⟩
  rw [Dml.insertValueRow, if_neg hmiss]
  dsimp only
  rw [halign]
  refine (bind_ok hrowid).trans ((bind_ok (h.fireTriggers executeSql .Before .Insert)).trans ?_)
  refine (bind_ok hnull).trans ((bind_ok h.checkFkOnInsert).trans ((bind_ok (h.checked hpasses)).trans ?_))
  exact hrun

theorem sourceRows_plainInsert (E : Engine τ) (tableName : String) (row : Row) (vm : VM τ) :
    sourceRows E (plainInsert tableName row).source vm = .ok [row] := by
  have hvalues := mapM_ok (g := id) (f := fun v => (E.env vm).evalExpr (fromValue v) [] [])
    fun v (_ : v ∈ row) => evalExpr_fromValue (E.env vm) v [] []
  have hrow : (row.map fromValue).mapM (fun expr => (E.env vm).evalExpr expr [] []) = .ok row := by
    rw [List.mapM_map]
    exact hvalues.trans (congrArg Except.ok (List.map_id row))
  show [row.map fromValue].mapM _ = _
  rw [List.mapM_cons, hrow]
  rfl

theorem Bare.insertsRow (h : Bare E tableName table vm) (hact : vm.catalogTxn.isSome = true)
    (hlen : row.length = table.columns.length) :
    InsertsRow E executeSql (plainInsert tableName row) vm 2 row vm := by
  have hinserting : vm.inserting = vm := if_pos hact
  refine ⟨rfl, row, table, List.range table.columns.length, 3, sourceRows_plainInsert E tableName row vm,
    h.found,
    rfl, by simpa using hlen, ?_, ?_⟩
  · have halign : alignRow table.columns.length (List.range table.columns.length) row = row := by
      rw [← hlen]
      exact alignRow_range row
    rw [hinserting, halign, h.pkColIdx, h.nextRowid]
    rfl
  · rw [hinserting]
    exact h.fireTriggers executeSql .Before .Insert

theorem Bare.accepted (h : Bare E tableName table vm) (hact : vm.catalogTxn.isSome = true)
    (hlen : row.length = table.columns.length) (hpasses : Passes E.floats table row) :
    Accepted (execInsert E executeSql (plainInsert tableName row)) vm := by
  obtain ⟨loop, vm', hrun, hschema⟩ := h.insertValueRow executeSql hlen hpasses
  have hloop : insertLoop E executeSql ⟨plainInsert tableName row, table, List.range table.columns.length⟩ [row]
      ⟨table.nextRowid, 0, []⟩ vm = .ok loop vm' := by
    rw [h.nextRowid]
    exact (bind_ok hrun).trans rfl
  have hagain : getTable tableName vm' = .ok table vm' := by
    rw [getTable, get_bind, hschema, h.found]
    rfl
  have hrows : Accepted (insertValueRows E executeSql (plainInsert tableName row) [row]) vm := by
    rw [insertValueRows]
    refine .cons h.getTable_eq (.cons (rfl : ofRes (.ok (List.range table.columns.length)) vm = .ok _ vm) ?_)
    refine .cons hloop (.cons hagain ?_)
    exact ⟨_, _, rfl⟩
  rw [execInsert]
  refine .cons (rfl : (get : VmM τ _) vm = .ok vm vm) ?_
  rw [sourceRows_plainInsert]
  refine .cons (rfl : ofRes (.ok [row]) vm = .ok _ vm) (.cons (rfl : (get : VmM τ _) vm = .ok vm vm) ?_)
  rw [if_pos hact]
  exact hrows

theorem sameKey_refl (key : Row) : SameKey key key := List.forall₂_same.mpr fun _ _ => .inl rfl

theorem others_oneTable (tableName : String) (table : TableSchema) (rows : List (Int64 × Row)) (side : τ)
    (rowid : Int64) : others (oneTable tableName table rows side) tableName rowid =
      (rows.filter fun r => r.1 ≠ rowid).map Prod.snd := by
  rw [others, oneTable_tree]

-- A row is broken by a row of the same key, or by the table being empty.
theorem duplicated_oneTable {columns : List String} (h : .Null ∉ keyOf table columns row) (tableName : String)
    (side : τ) : Duplicated (oneTable tableName table [(1, row)] side) tableName table columns 2 row := by
  refine ⟨h, row, ?_, sameKey_refl _⟩
  rw [others_oneTable]
  exact List.mem_singleton.mpr rfl

end Accepting

section Exact

variable {τ : Type} [Sa.SqlParser] {E : Engine τ} {executeSql : String → VmM τ ExecResult}
  {create : Sa.CreateTable}
  {table : TableSchema} {row : Row} {side : τ} {falseOn : Sa.SqlParser.Expr → List String → Row → Prop}

theorem foreignKey_oneTable {fk : Sa.ForeignKeyConstraint} (hnull : .Null ∉ keyOf table fk.columns row)
    (hself : sameName fk.tableName create.name = true →
      ¬SameKey (keyOf table (ownColumns create fk) row) (keyOf table fk.columns row)) (side : τ) :
    Breaks falseOn create (oneTable create.name table [] side) create.name table 2 row (.ForeignKey fk) := by
  refine ⟨hnull, fun key hkey => ?_⟩
  rw [referredKeys] at hkey
  split_ifs at hkey with hsame
  · rw [others_oneTable] at hkey
    obtain rfl := List.mem_singleton.mp hkey
    exact hself hsame
  · have hnone : (oneTable create.name table [] side).schema.getTable fk.tableName = none := by
      have hne : toAsciiLowercase fk.tableName ≠ toAsciiLowercase create.name := by simpa [sameName] using hsame
      simp [oneTable, Schema.getTable, lookup_cons_eq, hne]
    rw [hnone] at hkey
    cases hkey

theorem breaks_of_not_harmless {constraint : Sa.TableConstraint} (side : τ)
    (h : ¬Harmless falseOn create table row constraint) :
    ∃ rows : List (Int64 × Row), rows.lookup 2 = none ∧
      Breaks falseOn create (oneTable create.name table rows side) create.name table 2 row constraint := by
  cases constraint with
  | PrimaryKey columns => exact ⟨[(1, row)], rfl, duplicated_oneTable h create.name side⟩
  | Unique columns => exact ⟨[(1, row)], rfl, duplicated_oneTable h create.name side⟩
  | ForeignKey fk =>
      obtain ⟨hnull, hself⟩ := not_or.mp h
      exact ⟨[], rfl, foreignKey_oneTable hnull (fun hname hkey => hself ⟨hname, hkey⟩) side⟩
  | Check name expr => exact ⟨[], rfl, not_not.mp h⟩
  | Index columns => exact absurd trivial h

variable [Catalog.Lowercase]

theorem covered_of_enforced (hlevel : create.TableLevel)
    (hside : ∃ side, ∀ rowid row, E.ftsInsert create.name rowid row side = .ok side)
    (h : Enforced E executeSql falseOn create) : Covered E.floats falseOn create := by
  intro table row hcreated hlen hpasses constraint hmem
  by_contra hharm
  obtain ⟨side, hside⟩ := hside
  obtain ⟨defs, checks, hlayout, hplain⟩ := hcreated.layout hlevel
  have hharm : ¬Harmless falseOn create { table with nextRowid := 2 } row constraint := hharm
  obtain ⟨rows, hfree, hbreaks⟩ := breaks_of_not_harmless side hharm
  have hbare : Bare E create.name { table with nextRowid := 2 }
      (oneTable create.name { table with nextRowid := 2 } rows side) := {
    found := oneTable_getTable rows
    triggers := rfl
    indexes := rfl
    foreignKeys := hlayout.foreignKeys_nil hplain
    notNullCols := hlayout.notNullCols hplain
    pkColIdx := hlayout.pkColIdx hplain
    nextRowid := rfl
    free := by rw [oneTable_tree]; exact hfree
    side := hside }
  have hname : sameName create.name create.name = true := decide_eq_true rfl
  exact (h _ _ create.name _ 2 row (hcreated.setNextRowid 2) hname hbare.found hlen
    ⟨constraint, hmem, hbreaks⟩).1
    (plainInsert create.name row) rfl (hbare.insertsRow executeSql rfl hlen)
    (hbare.accepted executeSql rfl hlen hpasses)

theorem Created.check_mem (h : Created create table) (hquery : create.query = none) {name : Option String}
    {expr : Sa.SqlParser.Expr} {check : Expr} (hmem : .Check name expr ∈ create.constraints)
    (hconvert : Sa.convertExpr expr = .ok check) : (name, check) ∈ table.checkConstraints := by
  obtain ⟨stmt, sql, queried, rootPage, db, db', made, nextRowid, hstmt, hfresh, hrun, hmade, rfl⟩ := h
  unfold Sa.convertCreateTable at hstmt
  split_ifs at hstmt
  rw [hquery] at hstmt
  obtain ⟨columns, -, hstmt⟩ := ok_of_bind hstmt
  obtain rfl := Except.ok.inj hstmt
  obtain rfl := Catalog.createTable_made hfresh hrun hmade
  refine List.mem_append_right _ (List.mem_filterMap.mpr ⟨_, hmem, ?_⟩)
  rw [Sa.tableCheck, hconvert]
  rfl

-- Checks that are converted, and that are zero for the evaluator where they are false, cover themselves.
theorem covered_of_checks {ops : FloatOps} (hquery : create.query = none)
    (h : ∀ constraint ∈ create.constraints, ∃ name expr check, constraint = .Check name expr ∧
      Sa.convertExpr expr = .ok check ∧ ∀ colNames row, falseOn expr colNames row →
        evalCheckExprSimple ops row colNames check = .ok (.Integer 0)) : Covered ops falseOn create := by
  intro table row hcreated hlen hpasses constraint hmem
  obtain ⟨name, expr, check, rfl, hconvert, hzero⟩ := h constraint hmem
  intro hfalse
  obtain ⟨v, hv, hne⟩ := hpasses _ (hcreated.check_mem hquery hmem hconvert)
  exact hne (Except.ok.inj (hv.symm.trans (hzero _ _ hfalse)))

theorem succeeds_iff (create : Sa.CreateTable) : Succeeds create ↔ create.Convertible := by
  rw [← Sa.convertCreateTable_ok_iff]
  constructor
  · rintro ⟨stmt, sql, queried, rootPage, db, db', hconvert, -⟩
    exact ⟨stmt, hconvert⟩
  · rintro ⟨stmt, hconvert⟩
    refine ⟨stmt, "", [], 3, { schema := Catalog.Schema.new, calls := [] }, ?_⟩
    rw [Sa.execCreateTable]
    cases stmt.source with
    | some select => exact ⟨_, hconvert, rfl⟩
    | none => exact ⟨_, hconvert, rfl⟩

-- The constraints of a statement are enforced exactly when the checks that its table has cover all of them, and
-- those without a place are refused exactly when there are none or the statement is refused for its columns.
theorem enforced_iff (E : Engine τ) (executeSql : String → VmM τ ExecResult)
    (falseOn : Sa.SqlParser.Expr → List String → Row → Prop) (create : Sa.CreateTable)
    (hlevel : create.TableLevel)
    (hside : ∃ side, ∀ rowid row, E.ftsInsert create.name rowid row side = .ok side) :
    NoneLost E executeSql falseOn create ↔ Covered E.floats falseOn create ∧
      (create.Convertible → ∀ constraint ∈ create.constraints, Representable constraint) := by
  constructor
  · rintro ⟨henforced, hrefused⟩
    refine ⟨covered_of_enforced hlevel hside henforced, fun hconvertible constraint hmem => ?_⟩
    by_contra hplace
    exact hrefused constraint hmem hplace ((succeeds_iff create).mpr hconvertible)
  · rintro ⟨hcovered, hplaces⟩
    refine ⟨enforced_of_covered hcovered, fun constraint hmem hplace hsucceeds => ?_⟩
    exact hplace (hplaces ((succeeds_iff create).mp hsucceeds) constraint hmem)

end Exact

section Example

-- Expressions, queries and types that are those of the engine.
@[reducible] def plainParser : Sa.SqlParser where
  Expr := Expr
  Query := SelectStmt
  DataType := DataType
  convertExpr := .ok
  convertQueryToSelect := .ok
  convertDataType := id

attribute [local instance] plainParser Catalog.Lowercase.ascii

def noStatements : Engine Unit := plainEngine fun _ => .error (.Internal "")

def evaluatesToZero (expr : Expr) (colNames : List String) (row : Row) : Prop :=
  evalCheckExprSimple noStatements.floats row colNames expr = .ok (.Integer 0)

def tableWith (constraint : Sa.TableConstraint) : Sa.CreateTable where
  name := "t"
  columns := [{ name := "a", dataType := DataType.Integer, options := [] }]
  constraints := [constraint]
  query := none
  ifNotExists := false

theorem tableWith_tableLevel (constraint : Sa.TableConstraint) : (tableWith constraint).TableLevel := by
  intro col hcol option hoption
  obtain rfl := List.mem_singleton.mp hcol
  cases hoption

-- `CREATE TABLE t (a INTEGER, CHECK (a > 0))`.
theorem enforced_positive : NoneLost noStatements (executeSql noStatements 1) evaluatesToZero
    (tableWith (.Check none (.BinaryOp (.ColumnRef none "a") .GreaterThan (.IntegerLiteral 0)))) := by
  refine (enforced_iff noStatements (executeSql noStatements 1) evaluatesToZero _ (tableWith_tableLevel _)
    ⟨(), fun _ _ => rfl⟩).mpr ⟨covered_of_checks rfl fun constraint hmem => ?_, fun _ constraint hmem => ?_⟩
  · exact ⟨_, _, _, List.mem_singleton.mp hmem, rfl, fun _ _ hzero => hzero⟩
  · rw [List.mem_singleton.mp hmem]
    exact ⟨_, rfl⟩

-- `CREATE TABLE t (a INTEGER, UNIQUE (a))` takes the same value twice.
theorem unique_not_enforced :
    ¬NoneLost noStatements (executeSql noStatements 1) evaluatesToZero (tableWith (.Unique ["a"])) := by
  intro h
  have hcreated : Created (tableWith (.Unique ["a"]))
      ⟨"t", [⟨"a", .Integer, false, false, 0⟩], ["a"], 2, [], []⟩ :=
    ⟨_, "", [], 3, { schema := Catalog.Schema.new, calls := [] }, _, _, 2, rfl, rfl, rfl, rfl, rfl⟩
  have hcovered := covered_of_enforced (tableWith_tableLevel _) ⟨(), fun _ _ => rfl⟩ h.enforced
  have hnull : Value.Null ∈ [Value.Integer 1] :=
    hcovered _ [.Integer 1] hcreated rfl (fun _ hcheck => (nomatch hcheck)) _ (List.mem_singleton.mpr rfl)
  cases List.mem_singleton.mp hnull

end Example

end Kkdb.Dml
