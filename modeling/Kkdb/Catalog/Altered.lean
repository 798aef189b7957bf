import Kkdb.Catalog.Alter
import Kkdb.Catalog.Calls

namespace Kkdb.Catalog

open Lib

-- What the statements that change a table leave behind.

section Rewriting

-- The first row that passes is rewritten.
def rewriteCalls (p : Row → Bool) (f : Row → Row) (rows : Rows) : List CatalogCall :=
  match rows.find? fun r => p r.2 with
  | some r => [.Update r.1 (f r.2)]
  | none => []

def rewriteFirst (p : Row → Bool) (f : Row → Row) (rows : Rows) : Rows :=
  match rows.find? fun r => p r.2 with
  | some r => rows.map fun x => if x.1 = r.1 then (r.1, f r.2) else x
  | none => rows

theorem catalog_rewrite (db : Db) (schema : Schema) (p : Row → Bool) (f : Row → Row) :
    Db.catalog { schema := schema, calls := db.calls ++ rewriteCalls p f db.catalog } =
      rewriteFirst p f db.catalog := by
  rw [rewriteCalls, rewriteFirst]
  cases db.catalog.find? fun r => p r.2 with
  | some r => exact rowsOf_append _ _
  | none => exact congrArg rowsOf (List.append_nil _)

theorem length_of_shaped {row : Row} (h : (readRow row).isSome) : 5 ≤ row.length := by
  obtain ⟨fields, hfields⟩ := Option.isSome_iff_exists.mp h
  unfold readRow at hfields
  split at hfields
  · simp
  · cases hfields

theorem find?_shaped {rows : Rows} (h : ∀ r ∈ rows, (readRow r.2).isSome) (p : Row → Bool) :
    (rows.find? fun r => 5 ≤ r.2.length && p r.2) = rows.find? fun r => p r.2 := by
  induction rows with
  | nil => rfl
  | cons r rows ih =>
      have hlen := length_of_shaped (h r List.mem_cons_self)
      rw [List.find?_cons, List.find?_cons, ih fun r' hr' => h r' (List.mem_cons_of_mem _ hr'),
        decide_eq_true hlen,
        Bool.true_and]

theorem updateFirst_ok {calls : List CatalogCall} (h : ∀ r ∈ rowsOf calls, (readRow r.2).isSome)
    (schema : Schema) (p : Row → Bool) (f : Row → Row) :
    updateFirst p f { schema := schema, calls := calls } =
      .ok ⟨⟩ { schema := schema, calls := calls ++ rewriteCalls p f (rowsOf calls) } := by
  unfold updateFirst
  rw [get_bind, Db.catalog, find?_shaped h, rewriteCalls]
  cases (rowsOf calls).find? fun r => p r.2 with
  | some r => rfl
  | none => rw [List.append_nil]; rfl

theorem rewriteFirst_some {rows : Rows} (h : Ascending rows) {p : Row → Bool} {r : Int64 × Row}
    (hfind : (rows.find? fun r => p r.2) = some r) (f : Row → Row) :
    ∃ g : Int64 × Row → Int64 × Row, rewriteFirst p f rows = rows.map g ∧ (∀ x, (g x).1 = x.1) ∧ g r =
      (r.1, f r.2) ∧
      ∀ x ∈ rows, x ≠ r → g x = x := by
  refine ⟨fun x => if x.1 = r.1 then (r.1, f r.2) else x, by rw [rewriteFirst, hfind], fun x => ?_,
    if_pos rfl, ?_⟩
  · dsimp only
    split_ifs with heq
    · exact heq.symm
    · rfl
  · intro x hx hne
    exact if_neg fun heq => hne (h.row_unique hx (List.mem_of_find?_eq_some hfind) heq)

theorem rewriteFirst_shaped {rows : Rows} (hasc : Ascending rows) (h : ∀ r ∈ rows, (readRow r.2).isSome)
    (p : Row → Bool) {f : Row → Row} (hf : ∀ row, (readRow row).isSome → (readRow (f row)).isSome) :
    ∀ r ∈ rewriteFirst p f rows, (readRow r.2).isSome := by
  cases hfind : rows.find? fun r => p r.2 with
  | none =>
      rw [rewriteFirst, hfind]
      exact h
  | some r =>
      obtain ⟨g, hg, -, hfound, hrest⟩ := rewriteFirst_some hasc hfind f
      rw [hg]
      intro x hx
      obtain ⟨y, hy, rfl⟩ := List.mem_map.mp hx
      by_cases hsame : y = r
      · rw [hsame, hfound]
        exact hf _ (h r (List.mem_of_find?_eq_some hfind))
      · rw [hrest y hy hsame]
        exact h y hy

theorem row_of_shaped {row : Row} (h : (readRow row).isSome) :
    ∃ objType name tbl root sql rest,
      row = .Text objType :: .Text name :: tbl :: .Integer root :: .Text sql :: rest := by
  obtain ⟨fields, hfields⟩ := Option.isSome_iff_exists.mp h
  unfold readRow at hfields
  split at hfields
  · exact ⟨_, _, _, _, _, _, rfl⟩
  · cases hfields

end Rewriting

section Calls

theorem left_insertNext_bind {β : Type} (row : Row) (f : Int64 → DbM β) (db : Db) :
    left (insertNext row >>= f) db =
      if maxRowid db.catalog = Int64.maxValue then db
      else left (f (maxRowid db.catalog + 1))
        { db with calls := db.calls ++ [.Append row] } := by
  have hinsert := insertNext_eq row db
  split_ifs at hinsert ⊢ with hmax
  · rw [left_bind_error hinsert]
  · rw [left_bind_ok hinsert]

def removeCalls (name : String) (rows : Rows) : List CatalogCall :=
  match rows.find? fun r => named name r.2 with
  | some r => [.Delete r.1]
  | none => []

def removeFirst (name : String) (rows : Rows) : Rows :=
  match rows.find? fun r => named name r.2 with
  | some r => rows.filter fun x => x.1 ≠ r.1
  | none => rows

theorem catalog_remove (db : Db) (schema : Schema) (name : String) :
    Db.catalog { schema := schema, calls := db.calls ++ removeCalls name db.catalog } =
      removeFirst name db.catalog := by
  rw [removeCalls, removeFirst]
  cases db.catalog.find? fun r => named name r.2 with
  | some r => exact rowsOf_append _ _
  | none => exact congrArg rowsOf (List.append_nil _)

theorem deleteFirstNamed_ok (name : String) (db : Db) :
    deleteFirstNamed name db = .ok ⟨⟩ { db with calls := db.calls ++ removeCalls name db.catalog } := by
  unfold deleteFirstNamed
  rw [get_bind, removeCalls]
  cases db.catalog.find? fun r => named name r.2 with
  | some r => rfl
  | none => rw [List.append_nil]; rfl

theorem mem_of_mem_removeFirst {name : String} {rows : Rows} {r : Int64 × Row} (h : r ∈ removeFirst name rows) :
    r ∈ rows := by
  unfold removeFirst at h
  cases hfind : rows.find? fun r => named name r.2 with
  | none =>
      rw [hfind] at h
      exact h
  | some r' =>
      rw [hfind] at h
      exact (List.mem_filter.mp h).1

-- The calls of several removals, each on what the ones before have left.
def removeAll (names : List String) (calls : List CatalogCall) : List CatalogCall :=
  names.foldl (fun calls name => calls ++ removeCalls name (rowsOf calls)) calls

theorem removeAll_shaped {calls : List CatalogCall} (h : ∀ r ∈ rowsOf calls, (readRow r.2).isSome)
    (names : List String) : ∀ r ∈ rowsOf (removeAll names calls), (readRow r.2).isSome := by
  induction names generalizing calls with
  | nil => exact h
  | cons name names ih =>
      refine ih fun r (hr : r ∈ rowsOf (calls ++ removeCalls name (rowsOf calls))) => ?_
      have hcatalog : rowsOf (calls ++ removeCalls name (rowsOf calls)) = removeFirst name (rowsOf calls) :=
        catalog_remove ⟨Schema.new, calls⟩ Schema.new name
      rw [hcatalog] at hr
      exact h r (mem_of_mem_removeFirst hr)

theorem modifyTable_run (schema : Schema) (key : List Char) (f : TableSchema → TableSchema)
    (calls : List CatalogCall) :
    modifyTable key f { schema := schema, calls := calls } = .ok ⟨⟩
      { schema := { schema with
          tables := match schema.tables.lookup key with
            | some table => put key (f table) schema.tables
            | none => schema.tables }
        calls := calls } :=
  rfl

variable [Lowercase]

theorem dropIndexes_ok (names : List String) (db : Db) :
    dropIndexes names db = .ok ⟨⟩
      { schema := { db.schema with
          indexes := names.foldl (fun m name => remove (toLowercase name) m) db.schema.indexes }
        calls := removeAll names db.calls } := by
  induction names generalizing db with
  | nil => rfl
  | cons name names ih =>
      rw [dropIndexes, bind_ok (deleteFirstNamed_ok name db), setSchema, modify_bind, ih]
      rfl

theorem left_dropIndexes_cons (name : String) (rest : List String) (db : Db) :
    left (dropIndexes (name :: rest)) db = left (dropIndexes rest) (left (dropIndexes [name]) db) := by
  simp only [left_ok (dropIndexes_ok _ _), removeAll, List.foldl_cons, List.foldl_nil]

theorem dropIndex_cases (name : String) (ifExists : Bool) (db : Db) :
    left (dropIndex name ifExists) db = db ∨
      (db.schema.indexes.lookup (toLowercase name)).isSome ∧ ∃ indexesByTable,
        left (dropIndex name ifExists) db =
          { schema := { db.schema with
              indexesByTable := indexesByTable
              indexes := remove (toLowercase name) db.schema.indexes }
            calls := db.calls ++ removeCalls name db.catalog } := by
  rw [dropIndex, left_get_bind]
  dsimp only
  cases db.schema.indexes.lookup (toLowercase name) with
  | none =>
      left
      dsimp only
      split_ifs <;> rfl
  | some idx =>
      right
      dsimp only
      rw [left_bind_ok (deleteFirstNamed_ok name db)]
      exact ⟨rfl, _, rfl⟩

-- The text of a table is rebuilt in its row.
def textCalls (tableName : String) (table : TableSchema) (rows : Rows) : List CatalogCall :=
  rewriteCalls (isTableRow tableName) (fun row => row.set 4 (.Text (rebuildCreateSql table))) rows

theorem updateSchemaSql_ok {schema : Schema} {tableName : String} {table : TableSchema}
    {calls : List CatalogCall} (h : ∀ r ∈ rowsOf calls, (readRow r.2).isSome)
    (htable : schema.getTable tableName = some table) :
    left (updateSchemaSql tableName) { schema := schema, calls := calls } =
      { schema := schema, calls := calls ++ textCalls tableName table (rowsOf calls) } := by
  rw [updateSchemaSql, left_get_bind]
  dsimp only
  rw [htable]
  exact left_ok (updateFirst_ok h _ _ _)

theorem getTable_put (schema : Schema) (tableName : String) (table : TableSchema)
    (indexes : List (List Char × IndexSchema)) (indexesByTable : List (List Char × List (List Char))) :
    Schema.getTable
      { schema with
        tables := put (Schema.lowercaseKey tableName) table schema.tables
        indexes := indexes
        indexesByTable := indexesByTable } tableName = some table := by
  rw [Schema.getTable, lookup_put, if_pos rfl]

theorem modifyTable_ok {schema : Schema} {tableName : String} {table : TableSchema}
    (htable : schema.getTable tableName = some table) (f : TableSchema → TableSchema) (calls : List CatalogCall) :
    modifyTable (Schema.lowercaseKey tableName) f { schema := schema, calls := calls } = .ok ⟨⟩
      { schema := { schema with tables := put (Schema.lowercaseKey tableName) (f table) schema.tables }
        calls := calls } := by
  rw [Schema.getTable] at htable
  rw [modifyTable_run, htable]

theorem alterAddColumn_cases (rewritten : UInt32 → (Row → Row) → Res Unit) (tableName : String)
    (col : ColumnDef)
    {db : Db} (h : ∀ r ∈ db.catalog, (readRow r.2).isSome) :
    left (alterAddColumn rewritten tableName col) db = db ∨
      ∃ table, db.schema.getTable tableName = some table ∧
        left (alterAddColumn rewritten tableName col) db =
          { schema := { db.schema with
              tables := put (Schema.lowercaseKey tableName) (addColumnTo col table.columns.length table)
                db.schema.tables }
            calls := db.calls ++
              textCalls tableName (addColumnTo col table.columns.length table) db.catalog } := by
  rw [alterAddColumn, left_get_bind]
  dsimp only
  cases htable : db.schema.getTable tableName with
  | none => exact .inl rfl
  | some table =>
      dsimp only
      split_ifs
      · exact .inl rfl
      · exact .inl rfl
      · exact .inl rfl
      · cases addedValue col with
        | error fault => exact .inl rfl
        | ok defaultValue =>
            dsimp only
            cases rewritten table.rootPage fun row => row ++ [defaultValue] with
            | error fault => exact .inl rfl
            | ok _ =>
                refine .inr ⟨table, rfl, ?_⟩
                dsimp only
                rw [left_bind_ok (modifyTable_ok htable _ _)]
                exact updateSchemaSql_ok h (getTable_put ..)

theorem alterRenameColumn_cases (tableName oldCol newCol : String) {db : Db}
    (h : ∀ r ∈ db.catalog, (readRow r.2).isSome) :
    left (alterRenameColumn tableName oldCol newCol) db = db ∨
      ∃ table, db.schema.getTable tableName = some table ∧
        left (alterRenameColumn tableName oldCol newCol) db =
          { schema := { db.schema with
              tables := put (Schema.lowercaseKey tableName)
                (renameColumnIn oldCol newCol table) db.schema.tables
              indexes := db.schema.indexes.map fun e => (e.1, renameIndexColumn tableName oldCol newCol e.2) }
            calls := db.calls ++ textCalls tableName (renameColumnIn oldCol newCol table) db.catalog } := by
  rw [alterRenameColumn, left_get_bind]
  dsimp only
  cases htable : db.schema.getTable tableName with
  | none => exact .inl rfl
  | some table =>
      dsimp only
      split_ifs
      · exact .inl rfl
      · refine .inr ⟨table, rfl, ?_⟩
        rw [left_bind_ok (modifyTable_ok htable _ _), setSchema, left_modify_bind]
        exact updateSchemaSql_ok h (getTable_put ..)
      · exact .inl rfl
      · exact .inl rfl

-- The indexes go first.
theorem alterDropColumn_cases (rewritten : UInt32 → (Row → Row) → Res Unit) (tableName colName : String)
    {db : Db}
    (h : ∀ r ∈ db.catalog, (readRow r.2).isSome) :
    left (alterDropColumn rewritten tableName colName) db = db ∨
      ∃ table, db.schema.getTable tableName = some table ∧ ∃ indexesByTable,
        left (alterDropColumn rewritten tableName colName) db =
          { schema := { db.schema with
              tables := put (Schema.lowercaseKey tableName) (dropColumnFrom colName table) db.schema.tables
              indexes := (indexesOn db.schema tableName colName).foldl
                (fun m name => remove (toLowercase name) m)
                db.schema.indexes
              indexesByTable := indexesByTable }
            calls := (left (dropIndexes (indexesOn db.schema tableName colName)) db).calls ++
              textCalls tableName (dropColumnFrom colName table)
                (left (dropIndexes (indexesOn db.schema tableName colName)) db).catalog } := by
  rw [alterDropColumn, left_get_bind]
  dsimp only
  cases htable : db.schema.getTable tableName with
  | none => exact .inl rfl
  | some table =>
      dsimp only
      cases table.columns.find? fun c => sameName c.name colName with
      | none => exact .inl rfl
      | some col =>
          dsimp only
          cases table.columns[col.colIndex]? with
          | none => exact .inl rfl
          | some found =>
              dsimp only
              split_ifs
              · exact .inl rfl
              · exact .inl rfl
              · exact .inl rfl
              · cases rewritten table.rootPage fun row => row.eraseIdx col.colIndex with
                | error fault => exact .inl rfl
                | ok _ =>
                    have hdrop := dropIndexes_ok (indexesOn db.schema tableName colName) db
                    refine .inr ⟨table, rfl,
                      keptNames tableName (indexesOn db.schema tableName colName) db.schema, ?_⟩
                    dsimp only
                    have hkept : Schema.getTable { db.schema with
                        indexes := (indexesOn db.schema tableName colName).foldl
                          (fun m name => remove (toLowercase name) m) db.schema.indexes } tableName =
                            some table := htable
                    rw [left_bind_ok hdrop, left_bind_ok (modifyTable_ok hkept _ _), setSchema,
                      left_modify_bind,
                      left_ok hdrop]
                    exact updateSchemaSql_ok (removeAll_shaped h _) (getTable_put ..)

theorem alterRenameTable_cases (oldName newName : String) {db : Db}
    (h : ∀ r ∈ db.catalog, (readRow r.2).isSome) :
    left (alterRenameTable oldName newName) db = db ∨
      ∃ table, db.schema.tables.lookup (toLowercase oldName) = some table ∧
        db.schema.tables.lookup (toLowercase newName) = none ∧ ∃ indexesByTable,
          left (alterRenameTable oldName newName) db =
            { schema := { db.schema with
                tables := put (toLowercase newName) { table with name := newName }
                  (remove (toLowercase oldName) db.schema.tables)
                indexes := db.schema.indexes.map fun e => (e.1, renameTableIn oldName newName e.2)
                indexesByTable := indexesByTable }
              calls := db.calls ++
                rewriteCalls (isTableRow oldName) (renameRow oldName newName) db.catalog } := by
  rw [alterRenameTable, left_get_bind]
  dsimp only
  cases hold : db.schema.tables.lookup (toLowercase oldName) with
  | none => exact .inl rfl
  | some table =>
      dsimp only
      split_ifs with hnew
      · exact .inl rfl
      · refine .inr ⟨table, rfl, Option.not_isSome_iff_eq_none.mp hnew,
          movedNames oldName newName db.schema, ?_⟩
        rw [setSchema, left_modify_bind]
        exact left_ok (updateFirst_ok h _ _ _)

end Calls

end Kkdb.Catalog
