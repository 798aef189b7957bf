import Kkdb.Catalog.Ddl

namespace Kkdb.Sa

open Catalog

-- What the statements use of the `sqlparser` crate, and of the converters of its
-- expressions, queries and types.
class SqlParser where
  Expr : Type
  Query : Type
  DataType : Type
  convertExpr : Expr → Res Kkdb.Expr
  convertQueryToSelect : Query → Res SelectStmt
  convertDataType : DataType → Kkdb.DataType

export SqlParser (convertExpr convertQueryToSelect convertDataType)

inductive ReferentialAction where
  | Restrict
  | Cascade
  | SetNull
  | NoAction
  | SetDefault

-- The name of the foreign table is the list of its parts.
structure ForeignKeyConstraint where
  columns : List String
  foreignTable : List String
  referredColumns : List String
  onDelete : Option ReferentialAction
  onUpdate : Option ReferentialAction

def ForeignKeyConstraint.tableName (fk : ForeignKeyConstraint) : String := ".".intercalate fk.foreignTable

section Ast

variable [SqlParser]

inductive ColumnOption where
  | Null
  | NotNull
  | PrimaryKey
  | Unique
  | Default (expr : SqlParser.Expr)
  | ForeignKey (fk : ForeignKeyConstraint)
  | Check (expr : SqlParser.Expr)
  | DialectSpecific (tokens : List String)
  | IdentityAutoincrement
  | Other

structure ColumnDef where
  name : String
  dataType : SqlParser.DataType
  options : List ColumnOption

-- `Index` stands for the definitions of plain, full-text and spatial indexes.
inductive TableConstraint where
  | PrimaryKey (columns : List String)
  | Unique (columns : List String)
  | ForeignKey (fk : ForeignKeyConstraint)
  | Check (name : Option String) (expr : SqlParser.Expr)
  | Index (columns : List String)

structure CreateTable where
  name : String
  columns : List ColumnDef
  constraints : List TableConstraint
  query : Option SqlParser.Query
  ifNotExists : Bool

end Ast

def convertFkAction (action : Option ReferentialAction) : FkAction :=
  match action with
  | some .Cascade => .Cascade
  | some .SetNull => .SetNull
  | _ => .Restrict

-- The statement with the query of `CREATE TABLE AS`.
structure CreateTableStmt extends Catalog.CreateTableStmt where
  source : Option SelectStmt

section Convert

variable [SqlParser]

def emptyColumn (name : String) (dataType : DataType) : Catalog.ColumnDef where
  name := name
  dataType := dataType
  primaryKey := false
  autoincrement := false
  notNull := false
  unique := false
  default := none
  references := none
  checkExpr := none

-- A check that cannot be converted is left out.
def applyOption (out : Catalog.ColumnDef) (option : ColumnOption) : Res Catalog.ColumnDef :=
  match option with
  | .NotNull => .ok { out with notNull := true }
  | .PrimaryKey => .ok { out with primaryKey := true }
  | .Unique => .ok { out with unique := true }
  | .Default expr => do
      let value ← convertExpr expr
      return { out with default := some value }
  | .ForeignKey fk => .ok { out with
      references := some {
        table := fk.tableName
        column := fk.referredColumns.head?
        onDelete := convertFkAction fk.onDelete
        onUpdate := convertFkAction fk.onUpdate } }
  | .Check expr =>
      match convertExpr expr with
      | .ok check => .ok { out with checkExpr := some check }
      | .error _ => .ok out
  | .DialectSpecific tokens =>
      if tokens.any fun tok => sameName tok "AUTOINCREMENT" then .ok { out with autoincrement :=
        true } else .ok out
  | .IdentityAutoincrement => .ok { out with autoincrement := true }
  | .Null => .ok out
  | .Other => .ok out

def convertColumnDef (col : ColumnDef) : Res Catalog.ColumnDef :=
  col.options.foldlM applyOption (emptyColumn col.name (convertDataType col.dataType))

-- Of the constraints of the table only the checks are looked at.
def tableCheck (constraint : TableConstraint) : Option (Option String × Kkdb.Expr) :=
  match constraint with
  | .Check name expr => (convertExpr expr).toOption.map fun check => (name, check)
  | _ => none

def convertCreateTable (create : CreateTable) : Res CreateTableStmt :=
  if create.columns.isEmpty ∧ create.query.isNone then
    .error (.Err (.ParseError "CREATE TABLE requires at least one column"))
  else match create.query with
    | some query => do
        let select ← convertQueryToSelect query
        return {
          tableName := create.name
          columns := []
          ifNotExists := create.ifNotExists
          isFts := false
          checks := []
          source := some select }
    | none => do
        let columns ← create.columns.mapM convertColumnDef
        return {
          tableName := create.name
          columns := columns
          ifNotExists := create.ifNotExists
          isFts := false
          checks := create.constraints.filterMap tableCheck
          source := none }

end Convert

section Accepted

variable [SqlParser]

-- The statements that are converted: what is written as a constraint does not matter.
def CreateTable.Convertible (create : CreateTable) : Prop :=
  match create.query with
  | some query => ∃ select, convertQueryToSelect query = .ok select
  | none => create.columns ≠ [] ∧
      ∀ col ∈ create.columns, ∀ expr, .Default expr ∈ col.options → ∃ value, convertExpr expr = .ok value

theorem applyOption_ok_iff (out : Catalog.ColumnDef) (option : ColumnOption) :
    (∃ out', applyOption out option = .ok out') ↔
      ∀ expr, option = .Default expr → ∃ value, convertExpr expr = .ok value := by
  cases option with
  | Default expr =>
      constructor
      · rintro ⟨out', h⟩ _ ⟨⟩
        obtain ⟨value, hvalue, -⟩ := Lib.ok_of_bind h
        exact ⟨value, hvalue⟩
      · intro h
        obtain ⟨value, hvalue⟩ := h expr rfl
        rw [applyOption, hvalue]
        exact ⟨_, rfl⟩
  | Check expr =>
      refine iff_of_true ?_ (by rintro _ ⟨⟩)
      rw [applyOption]
      cases convertExpr expr with
      | ok check => exact ⟨_, rfl⟩
      | error e => exact ⟨_, rfl⟩
  | DialectSpecific tokens =>
      refine iff_of_true ?_ (by rintro _ ⟨⟩)
      rw [applyOption]
      split_ifs <;> exact ⟨_, rfl⟩
  | _ => exact iff_of_true ⟨_, rfl⟩ (by rintro _ ⟨⟩)

theorem convertColumnDef_ok_iff (col : ColumnDef) : (∃ out, convertColumnDef col = .ok out) ↔
    ∀ expr, .Default expr ∈ col.options → ∃ value, convertExpr expr = .ok value := by
  rw [convertColumnDef]
  generalize emptyColumn col.name (convertDataType col.dataType) = start
  induction col.options generalizing start with
  | nil => exact iff_of_true ⟨start, rfl⟩ fun expr h => absurd h List.not_mem_nil
  | cons option options ih =>
      rw [List.foldlM_cons]
      constructor
      · rintro ⟨out, h⟩ expr hmem
        obtain ⟨next, hnext, hrest⟩ := Lib.ok_of_bind h
        rcases List.mem_cons.mp hmem with heq | hmem
        · exact (applyOption_ok_iff start option).mp ⟨next, hnext⟩ expr heq.symm
        · exact (ih next).mp ⟨out, hrest⟩ expr hmem
      · intro h
        obtain ⟨next, hnext⟩ := (applyOption_ok_iff start option).mpr fun expr heq =>
          h expr (List.mem_cons.mpr (.inl heq.symm))
        rw [hnext]
        exact (ih next).mpr fun expr hmem => h expr (List.mem_cons_of_mem _ hmem)

theorem convertCreateTable_ok_iff (create : CreateTable) :
    (∃ stmt, convertCreateTable create = .ok stmt) ↔ create.Convertible := by
  rw [convertCreateTable, CreateTable.Convertible]
  cases create.query with
  | some query =>
      rw [if_neg (by rintro ⟨-, ⟨⟩⟩)]
      constructor
      · rintro ⟨stmt, h⟩
        obtain ⟨select, hselect, -⟩ := Lib.ok_of_bind h
        exact ⟨select, hselect⟩
      · rintro ⟨select, hselect⟩
        dsimp only
        rw [hselect]
        exact ⟨_, rfl⟩
  | none =>
      constructor
      · rintro ⟨stmt, h⟩
        split_ifs at h with hempty
        obtain ⟨columns, hcolumns, -⟩ := Lib.ok_of_bind h
        refine ⟨fun hnil => hempty ⟨List.isEmpty_iff.mpr hnil, rfl⟩, fun col hcol => ?_⟩
        obtain ⟨out, hout⟩ := Lib.ok_of_mapM hcolumns hcol
        exact (convertColumnDef_ok_iff col).mp ⟨out, hout⟩
      · rintro ⟨hne, hdefaults⟩
        rw [if_neg fun h => hne (List.isEmpty_iff.mp h.1)]
        have hcolumns : ∀ col ∈ create.columns, convertColumnDef col =
            .ok ((convertColumnDef col).toOption.getD (emptyColumn col.name (convertDataType col.dataType))) := by
          intro col hcol
          obtain ⟨out, hout⟩ := (convertColumnDef_ok_iff col).mpr (hdefaults col hcol)
          rw [hout]
          rfl
        dsimp only
        rw [Lib.mapM_ok hcolumns]
        exact ⟨_, rfl⟩

end Accepted

section Execute

variable [Lowercase]

-- The column of `CREATE TABLE AS` for a column of its query.
def selectedColumn (column : String × DataType) (i : Nat) : Catalog.ColumnDef :=
  emptyColumn (if column.1 = "" ∨ column.1 = "?" then "col_" ++ toString (i + 1)
    else String.ofList (toAsciiLowercase column.1)) column.2

def selectedColumns (queried : List (String × DataType)) : List Catalog.ColumnDef :=
  queried.zipIdx.map fun c => selectedColumn c.1 c.2

-- `queried` are the names and the types of the columns of the query.
def execCreateTable (create : CreateTableStmt) (originalSql : String) (queried : List (String × DataType))
    (rootPage : UInt32) : DbM Unit :=
  match create.source with
  | some _ =>
      createTable create.tableName (selectedColumns queried) create.ifNotExists originalSql
        [] create.isFts rootPage
  | none =>
      createTable create.tableName create.columns create.ifNotExists originalSql create.checks create.isFts rootPage

end Execute

structure Plain (col : Catalog.ColumnDef) : Prop where
  primaryKey : col.primaryKey = false
  notNull : col.notNull = false
  references : col.references = none
  checkExpr : col.checkExpr = none

theorem plain_emptyColumn (name : String) (dataType : DataType) : Plain (emptyColumn name dataType) :=
  ⟨rfl, rfl, rfl, rfl⟩

theorem plain_selectedColumns (queried : List (String × DataType)) (col : Catalog.ColumnDef)
    (h : col ∈ selectedColumns queried) : Plain col := by
  obtain ⟨c, -, rfl⟩ := List.mem_map.mp h
  exact plain_emptyColumn _ _

section TableLevel

variable [SqlParser]

def ColumnOption.isRule : ColumnOption → Bool
  | .NotNull | .PrimaryKey | .Unique | .ForeignKey _ | .Check _ => true
  | _ => false

-- The constraints of the statement are written at table level.
def CreateTable.TableLevel (create : CreateTable) : Prop :=
  ∀ col ∈ create.columns, ∀ option ∈ col.options, option.isRule = false

theorem Plain.applyOption {out out' : Catalog.ColumnDef} {option : ColumnOption} (h : Plain out)
    (hrule : option.isRule = false) (hrun : Sa.applyOption out option = .ok out') : Plain out' := by
  cases option with
  | Null => exact Except.ok.inj hrun ▸ h
  | NotNull => cases hrule
  | PrimaryKey => cases hrule
  | Unique => cases hrule
  | Default expr =>
      obtain ⟨value, -, hrest⟩ := Lib.ok_of_bind hrun
      exact Except.ok.inj hrest ▸ ⟨h.primaryKey, h.notNull, h.references, h.checkExpr⟩
  | ForeignKey fk => cases hrule
  | Check expr => cases hrule
  | DialectSpecific tokens =>
      rw [Sa.applyOption] at hrun
      split_ifs at hrun
      · exact Except.ok.inj hrun ▸ ⟨h.primaryKey, h.notNull, h.references, h.checkExpr⟩
      · exact Except.ok.inj hrun ▸ h
  | IdentityAutoincrement => exact Except.ok.inj hrun ▸ ⟨h.primaryKey, h.notNull, h.references, h.checkExpr⟩
  | Other => exact Except.ok.inj hrun ▸ h

theorem plain_convertColumnDef {col : ColumnDef} {out : Catalog.ColumnDef}
    (hrules : ∀ option ∈ col.options, option.isRule = false) (hrun : convertColumnDef col = .ok out) :
      Plain out := by
  rw [convertColumnDef] at hrun
  have hstart := plain_emptyColumn col.name (convertDataType col.dataType)
  generalize emptyColumn col.name (convertDataType col.dataType) = start at hstart hrun
  generalize col.options = options at hrules hrun
  induction options generalizing start with
  | nil => exact Except.ok.inj hrun ▸ hstart
  | cons option options ih =>
      rw [List.foldlM_cons] at hrun
      obtain ⟨next, hnext, hrest⟩ := Lib.ok_of_bind hrun
      have hplain := hstart.applyOption (hrules option List.mem_cons_self) hnext
      exact ih next hplain (fun o ho => hrules o (List.mem_cons_of_mem _ ho)) hrest

theorem converted_column {create : CreateTable} {stmt : CreateTableStmt}
    (h : convertCreateTable create = .ok stmt)
    (hsource : stmt.source = none) {out : Catalog.ColumnDef} (hout : out ∈ stmt.columns) :
    ∃ col ∈ create.columns, convertColumnDef col = .ok out := by
  unfold convertCreateTable at h
  split_ifs at h
  cases hquery : create.query with
  | some query =>
      rw [hquery] at h
      obtain ⟨select, -, hrest⟩ := Lib.ok_of_bind h
      obtain rfl := Except.ok.inj hrest
      cases hsource
  | none =>
      rw [hquery] at h
      obtain ⟨columns, hcolumns, hrest⟩ := Lib.ok_of_bind h
      obtain rfl := Except.ok.inj hrest
      exact Lib.exists_of_mem_mapM hcolumns hout

end TableLevel

end Kkdb.Sa
