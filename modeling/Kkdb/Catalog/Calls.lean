import Kkdb.Catalog
import Kkdb.Catalog.Ddl
import Mathlib.Data.List.Nodup

namespace Kkdb.Catalog

open Lib

def Ascending (rows : Rows) : Prop := rows.Pairwise fun a b => a.1.toInt < b.1.toInt

theorem insertNext_eq (row : Row) (db : Db) :
    insertNext row db =
      if maxRowid db.catalog = Int64.maxValue then .error .Panic db
      else .ok (maxRowid db.catalog + 1) { db with calls := db.calls ++ [.Append row] } := by
  unfold insertNext
  simp only [get_bind]
  split_ifs <;> rfl

theorem succ_toInt {v : Int64} (h : v ≠ Int64.maxValue) : (v + 1).toInt = v.toInt + 1 := by
  have hlo := v.le_toInt
  have hhi : v.toInt < 2 ^ 63 - 1 := by
    have hle := v.toInt_le
    have hne : v.toInt ≠ Int64.maxValue.toInt := fun heq => h (Int64.toInt.inj heq)
    rw [Int64.toInt_maxValue] at hle hne
    omega
  have hone : (1 : Int64).toInt = 1 := by decide
  rw [Int64.toInt_add, hone]
  exact Int.bmod_eq_of_le (by omega) (by omega)

theorem Ascending.lt_last {rows : Rows} (h : Ascending rows) {r : Int64 × Row} (hr : r ∈ rows) :
    r.1.toInt ≤ (maxRowid rows).toInt := by
  rcases List.eq_nil_or_concat' rows with rfl | ⟨front, last, rfl⟩
  · cases hr
  · have hmax : maxRowid (front ++ [last]) = last.1 := by simp [maxRowid]
    rw [hmax]
    rcases List.mem_append.mp hr with hfront | hlast
    · have hlt := (List.pairwise_append.mp h).2.2 r hfront last (by simp)
      omega
    · rw [List.mem_singleton.mp hlast]

theorem Ascending.insert {rows : Rows} (h : Ascending rows) (hmax : maxRowid rows ≠ Int64.maxValue)
    (row : Row) :
    Ascending (rows ++ [(maxRowid rows + 1, row)]) := by
  refine List.pairwise_append.mpr ⟨h, List.pairwise_singleton _ _, fun a ha b hb => ?_⟩
  have hle := h.lt_last ha
  rw [List.mem_singleton.mp hb, succ_toInt hmax]
  omega

theorem Ascending.apply {rows : Rows} (h : Ascending rows) (c : CatalogCall) : Ascending (c.apply rows) := by
  cases c with
  | Append row =>
      rw [CatalogCall.apply]
      split_ifs with hmax
      · exact h
      · exact h.insert hmax row
  | Update rowid row =>
      have hsame : ∀ r : Int64 × Row, (if r.1 = rowid then (rowid, row) else r).1 = r.1 := by
        intro r
        split_ifs with heq
        · exact heq.symm
        · rfl
      rw [CatalogCall.apply, Ascending, List.pairwise_map]
      exact h.imp fun hlt => by rwa [hsame, hsame]
  | Delete rowid => exact h.filter _

theorem ascending_rowsOf (calls : List CatalogCall) : Ascending (rowsOf calls) := by
  have hfold : ∀ rows : Rows, Ascending rows → Ascending (calls.foldl CatalogCall.apply rows) := by
    induction calls with
    | nil => exact fun _ h => h
    | cons c calls ih => exact fun rows h => ih _ (h.apply c)
  exact hfold [] List.Pairwise.nil

theorem ascending_catalog (db : Db) : Ascending db.catalog := ascending_rowsOf db.calls

theorem maxRowid_filter {rows : Rows} (h : Ascending rows) (hmax : maxRowid rows ≠ Int64.maxValue)
    (keep : Int64 × Row → Bool) : maxRowid (rows.filter keep) ≠ Int64.maxValue := by
  intro heq
  rcases List.eq_nil_or_concat' (rows.filter keep) with hnil | ⟨front, last, hlast⟩
  · rw [hnil] at heq
    exact absurd heq (by decide)
  · have hmem : last ∈ rows := List.mem_of_mem_filter (p := keep) (by rw [hlast]; simp)
    rw [hlast, maxRowid] at heq
    simp only [List.getLast?_append, List.getLast?_singleton, Option.some_or, Option.map_some,
      Option.getD_some] at heq
    have hle := h.lt_last hmem
    have hge := (maxRowid rows).toInt_le
    rw [heq] at hle
    exact hmax (Int64.toInt.inj (by omega))

theorem Ascending.row_unique {rows : Rows} (h : Ascending rows) {r r' : Int64 × Row} (hr : r ∈ rows)
    (hr' : r' ∈ rows) (heq : r.1 = r'.1) : r = r' := by
  by_contra hne
  have hnodup : (rows.map Prod.fst).Nodup := by
    rw [List.Nodup, List.pairwise_map]
    exact h.imp fun hlt heq => by
      rw [heq] at hlt
      omega
  exact hne (List.inj_on_of_nodup_map hnodup hr hr' heq)

theorem rowsOf_append (calls more : List CatalogCall) :
    rowsOf (calls ++ more) = more.foldl CatalogCall.apply (rowsOf calls) := List.foldl_append

theorem catalog_append {db : Db} (hmax : maxRowid db.catalog ≠ Int64.maxValue) (schema : Schema) (row : Row) :
    Db.catalog { schema := schema, calls := db.calls ++ [.Append row] } =
      db.catalog ++ [(maxRowid db.catalog + 1, row)] :=
  (rowsOf_append _ _).trans (if_neg hmax)

theorem catalog_delete (db : Db) (schema : Schema) (rowid : Int64) :
    Db.catalog { schema := schema, calls := db.calls ++ [.Delete rowid] } =
      db.catalog.filter fun r => r.1 ≠ rowid :=
  rowsOf_append _ _

theorem foldl_deletions (rowids : List Int64) (rows : Rows) :
    (rowids.map CatalogCall.Delete).foldl CatalogCall.apply rows = rows.filter fun r => r.1 ∉ rowids := by
  induction rowids generalizing rows with
  | nil => simp
  | cons rowid rowids ih =>
      rw [List.map_cons, List.foldl_cons, ih, CatalogCall.apply, List.filter_filter]
      refine List.filter_congr fun r _ => ?_
      simp [Bool.and_comm]

theorem catalog_deletions (db : Db) (schema : Schema) (p : Int64 × Row → Bool) :
    Db.catalog { schema := schema, calls := db.calls ++ deletions p db.catalog } =
      db.catalog.filter fun r => !p r := by
  have hmap : deletions p db.catalog = ((db.catalog.filter p).map Prod.fst).map CatalogCall.Delete := by
    rw [deletions, List.map_map]
    rfl
  rw [Db.catalog, hmap, rowsOf_append, foldl_deletions]
  refine List.filter_congr fun r hr => ?_
  have hmem : r.1 ∈ (db.catalog.filter p).map Prod.fst ↔ p r = true := by
    rw [List.mem_map]
    constructor
    · rintro ⟨r', hr', heq⟩
      obtain ⟨hin, hp⟩ := List.mem_filter.mp hr'
      rwa [← (ascending_catalog db).row_unique hin hr heq]
    · exact fun hp => ⟨r, List.mem_filter.mpr ⟨hr, hp⟩, rfl⟩
  cases hp : p r with
  | false => simpa [hp] using mt hmem.mp (by simp [hp])
  | true => simpa [hp] using hmem.mpr hp

theorem rowName_of_readRow {row : Row} {fields : CatalogRow} (h : readRow row = some fields) :
    rowName row = some fields.name := by
  unfold readRow at h
  split at h
  · cases h
    rfl
  · cases h

theorem loadTrigger_name {name tblName sql : String} {rowid : Int64} {t : TriggerSchema}
    (h : loadTrigger name tblName rowid sql = some t) : t.name = name := by
  unfold loadTrigger at h
  obtain ⟨⟨timing, rest⟩, -, h⟩ := Option.bind_eq_some_iff.mp h
  obtain ⟨⟨event, body⟩, -, h⟩ := Option.bind_eq_some_iff.mp h
  cases h
  rfl

end Kkdb.Catalog

namespace Kkdb.Catalog

open Lib

variable [Lowercase]

theorem createTable_fresh {name : String} {columnDefs : List ColumnDef} {ifNotExists isFts : Bool}
    {originalSql : String} {extraChecks : List (Option String × Expr)} {rootPage : UInt32} {db : Db}
    (hfresh : db.schema.tables.lookup (toLowercase name) = none) (hmax : maxRowid db.catalog ≠ Int64.maxValue) :
    createTable name columnDefs ifNotExists originalSql extraChecks isFts rootPage db = .ok ⟨⟩
      { schema := { db.schema with
          tables := put (toLowercase name) (tableOf name rootPage columnDefs extraChecks isFts) db.schema.tables }
        calls := db.calls ++ [.Append [.Text (if isFts then "fts_table" else "table"), .Text name, .Text name,
          pageValue rootPage, .Text originalSql]] } := by
  have hinsert := insertNext_eq
    [.Text (if isFts then "fts_table" else "table"), .Text name, .Text name, pageValue rootPage,
      .Text originalSql] db
  rw [if_neg hmax] at hinsert
  rw [createTable, get_bind, if_neg (by rw [hfresh]; exact Bool.false_ne_true)]
  exact (bind_ok hinsert).trans rfl

theorem createTable_full {name : String} {columnDefs : List ColumnDef} {ifNotExists isFts : Bool}
    {originalSql : String} {extraChecks : List (Option String × Expr)} {rootPage : UInt32} {db : Db}
    (hfresh : db.schema.tables.lookup (toLowercase name) = none) (hmax : maxRowid db.catalog = Int64.maxValue) :
    createTable name columnDefs ifNotExists originalSql extraChecks isFts rootPage db = .error .Panic db := by
  have hinsert := insertNext_eq
    [.Text (if isFts then "fts_table" else "table"), .Text name, .Text name, pageValue rootPage,
      .Text originalSql] db
  rw [if_pos hmax] at hinsert
  rw [createTable, get_bind, if_neg (by rw [hfresh]; exact Bool.false_ne_true)]
  exact bind_error hinsert

theorem createTable_cases (name : String) (columnDefs : List ColumnDef) (ifNotExists : Bool)
    (originalSql : String)
    (extraChecks : List (Option String × Expr)) (isFts : Bool) (rootPage : UInt32) (db : Db) :
    left (createTable name columnDefs ifNotExists originalSql extraChecks isFts rootPage) db = db ∨
      db.schema.tables.lookup (toLowercase name) = none ∧ maxRowid db.catalog ≠ Int64.maxValue ∧
      createTable name columnDefs ifNotExists originalSql extraChecks isFts rootPage db = .ok ⟨⟩
        { schema := { db.schema with
            tables := put (toLowercase name) (tableOf name rootPage columnDefs extraChecks isFts) db.schema.tables }
          calls := db.calls ++ [.Append [.Text (if isFts then "fts_table" else "table"), .Text name, .Text name,
            pageValue rootPage, .Text originalSql]] } := by
  by_cases hexists : (db.schema.tables.lookup (toLowercase name)).isSome
  · left
    rw [left, createTable, get_bind]
    simp only [hexists, if_true]
    cases ifNotExists <;> rfl
  · have hfresh := Option.not_isSome_iff_eq_none.mp hexists
    by_cases hmax : maxRowid db.catalog = Int64.maxValue
    · exact .inl (left_error (createTable_full hfresh hmax))
    · exact .inr ⟨hfresh, hmax, createTable_fresh hfresh hmax⟩

theorem createTable_made {name : String} {defs : List ColumnDef} {ifNotExists isFts : Bool} {sql : String}
    {checks : List (Option String × Expr)} {rootPage : UInt32} {db db' : Db} {made : TableSchema}
    (hfresh : db.schema.tables.lookup (toLowercase name) = none)
    (hrun : createTable name defs ifNotExists sql checks isFts rootPage db = .ok () db')
    (hmade : db'.schema.tables.lookup (toLowercase name) = some made) :
    made = tableOf name rootPage defs checks isFts := by
  rcases createTable_cases name defs ifNotExists sql checks isFts rootPage db with hsame | ⟨-, -, hput⟩
  · rw [left_ok hrun] at hsame
    rw [hsame, hfresh] at hmade
    cases hmade
  · rw [hput] at hrun
    cases hrun
    rw [lookup_put, if_pos rfl] at hmade
    exact (Option.some.inj hmade).symm

theorem createIndex_cases (indexName tableName : String) (columns : List String) (unique ifNotExists : Bool)
    (originalSql : String) (built : Res UInt32) (db : Db) :
    left (createIndex indexName tableName columns unique ifNotExists originalSql built) db = db ∨
      db.schema.indexes.lookup (toLowercase indexName) = none ∧ ∃ rootPage, maxRowid db.catalog ≠
        Int64.maxValue ∧
        createIndex indexName tableName columns unique ifNotExists originalSql built db = .ok ⟨⟩
          { schema := db.schema.pushIndex
              { name := indexName, tableName := tableName, columns := columns, rootPage := rootPage,
                unique := unique, isFts := false }
            calls := db.calls ++ [.Append [.Text "index", .Text indexName, .Text tableName, pageValue rootPage,
              .Text originalSql]] } := by
  by_cases hexists : (db.schema.indexes.lookup (toLowercase indexName)).isSome
  · left
    rw [left]
    unfold createIndex
    rw [get_bind]
    simp only [hexists, if_true]
    cases ifNotExists <;> rfl
  · cases htable : db.schema.getTable tableName with
    | none =>
        left
        rw [left]
        unfold createIndex
        rw [get_bind, if_neg hexists]
        simp only [htable]
        rfl
    | some table =>
        cases hmissing : missingColumn table columns with
        | some colName =>
            left
            rw [left]
            unfold createIndex
            rw [get_bind, if_neg hexists]
            simp only [htable, hmissing]
            rfl
        | none =>
            cases built with
            | error fault =>
                left
                rw [left]
                unfold createIndex
                rw [get_bind, if_neg hexists]
                simp only [htable, hmissing]
                rfl
            | ok rootPage =>
                have hinsert := insertNext_eq
                  [.Text "index", .Text indexName, .Text tableName, pageValue rootPage, .Text originalSql] db
                by_cases hmax : maxRowid db.catalog = Int64.maxValue
                · left
                  rw [if_pos hmax] at hinsert
                  apply left_error
                  unfold createIndex
                  rw [get_bind, if_neg hexists]
                  simp only [htable, hmissing]
                  exact bind_error hinsert
                · right
                  rw [if_neg hmax] at hinsert
                  refine ⟨Option.not_isSome_iff_eq_none.mp hexists, rootPage, hmax, ?_⟩
                  unfold createIndex
                  rw [get_bind, if_neg hexists]
                  simp only [htable, hmissing]
                  exact (bind_ok hinsert).trans rfl

def indexNames (schema : Schema) (name : String) : List String :=
  (schema.indexes.filter fun idx => sameName idx.2.tableName name).map fun idx => idx.2.name

theorem dropTable_cases (name : String) (ifExists : Bool) (db : Db) :
    left (dropTable name ifExists) db = db ∧ (db.schema.tables.lookup (toLowercase name)).isNone ∨
      (db.schema.tables.lookup (toLowercase name)).isSome ∧ dropTable name ifExists db = .ok ⟨⟩
        { schema := { db.schema with
            indexes := (indexNames db.schema name).foldl (fun m i => remove (toLowercase i) m) db.schema.indexes
            indexesByTable := remove (toLowercase name) db.schema.indexesByTable
            tables := remove (toLowercase name) db.schema.tables }
          calls := db.calls ++ deletions
            (fun r => named name r.2 || (indexNames db.schema name).any fun i => named i r.2) db.catalog } := by
  cases hlook : db.schema.tables.lookup (toLowercase name) with
  | none =>
      left
      refine ⟨?_, rfl⟩
      rw [left, dropTable, get_bind]
      simp only [hlook, Option.isNone_none, if_true]
      cases ifExists <;> rfl
  | some table =>
      right
      refine ⟨rfl, ?_⟩
      rw [dropTable, get_bind]
      simp only [hlook, Option.isNone_some, Bool.false_eq_true, if_false]
      rfl

theorem left_dropTable {name : String} {db : Db} (hexists : (db.schema.tables.lookup (toLowercase name)).isSome)
    (ifExists ifExists' : Bool) : left (dropTable name ifExists) db = left (dropTable name ifExists') db := by
  have hmissing : ¬(db.schema.tables.lookup (toLowercase name)).isNone := by
    rw [Option.isNone_iff_eq_none]
    exact Option.isSome_iff_ne_none.mp hexists
  rcases dropTable_cases name ifExists db with ⟨-, hnone⟩ | ⟨-, hcall⟩
  · exact absurd hnone hmissing
  · rcases dropTable_cases name ifExists' db with ⟨-, hnone⟩ | ⟨-, hcall'⟩
    · exact absurd hnone hmissing
    · rw [left_ok hcall, left_ok hcall']

theorem left_execDropTable_none {name : String} {db : Db} (hlook : db.schema.tables.lookup (toLowercase name) = none)
    (fuel : Nat) (ifExists : Bool) : left (execDropTable (fuel + 1) name ifExists) db = db := by
  have hsame : left (dropTable name ifExists) db = db := by
    rcases dropTable_cases name ifExists db with ⟨hsame, -⟩ | ⟨hexists, -⟩
    · exact hsame
    · rw [hlook] at hexists
      cases hexists
  rw [execDropTable, left_get_bind, hlook]
  exact left_bind_inv (fun db' => db' = db) hsame fun _ db' h' => h'

theorem left_execDropTable_some {name : String} {db : Db} {table : TableSchema}
    (hlook : db.schema.tables.lookup (toLowercase name) = some table) (fuel : Nat) (ifExists : Bool) :
    left (execDropTable (fuel + 1) name ifExists) db =
      if table.isFts then left (execDropTable fuel (name ++ "_fts_idx") true) (left (dropTable name true) db)
      else left (dropTable name true) db := by
  rcases dropTable_cases name ifExists db with ⟨-, hmissing⟩ | ⟨hexists, hcall⟩
  · rw [hlook] at hmissing
    cases hmissing
  · rw [execDropTable, left_get_bind, left_bind_ok hcall, left_dropTable hexists true ifExists, left_ok hcall, hlook]
    simp only [Option.map_some, Option.getD_some]
    split_ifs <;> rfl

end Kkdb.Catalog
