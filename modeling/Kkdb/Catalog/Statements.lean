import Kkdb.Catalog.Reading

namespace Kkdb.Catalog

open Lib

namespace Reading

section Schema

variable [Lowercase] {β γ : Type} (R : Reading β γ)

theorem tables_modify (schema : Schema) (key : List Char) {f : TableSchema → TableSchema}
    (hf : ∀ tbl, schema.tables.lookup key = some tbl → R.table (f tbl) = R.table tbl) (x : List Char) :
    R.tables
      { schema with
        tables := match schema.tables.lookup key with
          | some table => put key (f table) schema.tables
          | none => schema.tables } x = R.tables schema x := by
  cases hlook : schema.tables.lookup key with
  | none => rfl
  | some table =>
      simp only [Reading.tables, lookup_put]
      split_ifs with hx
      · rw [hx, hlook]
        exact hf table hlook
      · rfl

theorem indexes_remove (schema : Schema) (key x : List Char) :
    R.indexes { schema with indexes := remove key schema.indexes } x =
      if x = key then none else R.indexes schema x := by
  simp only [Reading.indexes, lookup_remove]
  split_ifs <;> rfl

theorem indexes_map (schema : Schema) (f : IndexSchema → IndexSchema)
    (hf : ∀ key idx, schema.indexes.lookup key = some idx → R.index (f idx) = R.index idx) (x : List Char) :
    R.indexes { schema with indexes := schema.indexes.map fun e => (e.1, f e.2) } x = R.indexes schema x := by
  simp only [Reading.indexes, lookup_map, Option.map_map]
  cases hlook : schema.indexes.lookup x with
  | none => rfl
  | some idx => exact congrArg some (hf x idx hlook)

end Schema

section Statements

variable [Lowercase] {β γ : Type} {R : Reading β γ}

theorem Matches.createTable {db : Db} (h : R.Matches db) (name : String) (columnDefs : List ColumnDef)
    (ifNotExists : Bool) (originalSql : String) (extraChecks : List (Option String × Expr)) (isFts : Bool)
    (rootPage : UInt32)
    (hread : ∃ v, R.tableRow [.Text (if isFts then "fts_table" else "table"), .Text name, .Text name,
        pageValue rootPage, .Text originalSql] = some (toLowercase name, v) ∧
      R.table (tableOf name rootPage columnDefs extraChecks isFts) = some v) :
    R.Matches (left (Catalog.createTable name columnDefs ifNotExists originalSql extraChecks isFts rootPage) db) := by
  rcases createTable_cases name columnDefs ifNotExists originalSql extraChecks isFts rootPage db with
    hsame | ⟨hfresh, hmax, hcall⟩
  · rw [hsame]
    exact h
  · obtain ⟨v, hrow, hv⟩ := hread
    rw [left_ok hcall]
    exact h.addTable hmax rfl hrow hv hfresh

theorem Matches.createIndex {db : Db} (h : R.Matches db) (indexName tableName : String) (columns : List String)
    (unique ifNotExists : Bool) (originalSql : String) (built : Res UInt32)
    (hread : ∀ rootPage, R.indexRow [.Text "index", .Text indexName, .Text tableName, pageValue rootPage,
        .Text originalSql] = some (toLowercase indexName, R.index
          { name := indexName, tableName := tableName, columns := columns, rootPage := rootPage,
            unique := unique, isFts := false })) :
    R.Matches (left (Catalog.createIndex indexName tableName columns unique ifNotExists originalSql built) db) := by
  rcases createIndex_cases indexName tableName columns unique ifNotExists originalSql built db with
    hsame | ⟨hfresh, rootPage, hmax, hcall⟩
  · rw [hsame]
    exact h
  · rw [left_ok hcall]
    exact h.addIndex hmax rfl (hread rootPage) hfresh

theorem Matches.dropTable {db : Db} (h : R.Matches db) {name : String}
    (hpicks : (db.schema.tables.lookup (toLowercase name)).isSome → PicksTable name db) (ifExists : Bool) :
    R.Matches (left (Catalog.dropTable name ifExists) db) := by
  rcases dropTable_cases name ifExists db with ⟨hsame, -⟩ | ⟨hexists, hcall⟩
  · rw [hsame]
    exact h
  · have hfold : (indexNames db.schema name).foldl (fun m i => Lib.remove (toLowercase i) m) db.schema.indexes =
        ((indexNames db.schema name).map toLowercase).foldl
        (fun m key => Lib.remove key m) db.schema.indexes := by
      rw [List.foldl_map]
    rw [left_ok hcall]
    refine h.remove (hpicks hexists) (catalog_deletions ..) (fun key => ?_) fun key => ?_
    · simp only [Reading.tables, lookup_remove, List.mem_singleton]
      split_ifs <;> rfl
    · simp only [Reading.indexes]
      rw [hfold, lookup_foldl_remove]
      split_ifs <;> rfl

theorem Matches.execDropTable {db : Db} (h : R.Matches db) {fuel : Nat} {name : String}
    (hdrops : DropsTable fuel name db) (ifExists : Bool) :
    R.Matches (left (Catalog.execDropTable fuel name ifExists) db) := by
  induction fuel generalizing db name ifExists with
  | zero => exact h
  | succ fuel ih =>
      cases hlook : db.schema.tables.lookup (toLowercase name) with
      | none =>
          rw [left_execDropTable_none hlook]
          exact h
      | some table =>
          rw [DropsTable, hlook] at hdrops
          obtain ⟨hpicks, hinternal⟩ := hdrops
          have hdropped := h.dropTable (fun _ => hpicks) true
          rw [left_execDropTable_some hlook]
          split_ifs with hfts
          · exact ih hdropped (hinternal hfts) true
          · exact hdropped

theorem Matches.dropIndexes {names : List String} {db : Db} (h : R.Matches db)
    (hdrops : DropsIndexes names db) :
    R.Matches (left (Catalog.dropIndexes names) db) := by
  induction names generalizing db with
  | nil => exact h
  | cons name rest ih =>
      obtain ⟨hfirst, hrest⟩ := hdrops
      rw [left_dropIndexes_cons]
      refine ih ?_ hrest
      rw [left_ok (dropIndexes_ok [name] db)]
      exact h.removeFirst hfirst (fun _ => rfl) (R.indexes_remove db.schema (toLowercase name))

theorem Matches.dropIndex {db : Db} (h : R.Matches db) {name : String}
    (hguard : (db.schema.indexes.lookup (toLowercase name)).isSome →
      FirstIs indexEntry (toLowercase name) (named name) db.catalog) (ifExists : Bool) :
    R.Matches (left (Catalog.dropIndex name ifExists) db) := by
  rcases dropIndex_cases name ifExists db with hsame | ⟨hexists, indexesByTable, hleft⟩
  · rw [hsame]
    exact h
  · rw [hleft]
    exact h.removeFirst (hguard hexists) (fun _ => rfl) (R.indexes_remove db.schema (toLowercase name))

theorem Matches.alterRenameTable {db : Db} (h : R.Matches db) {oldName : String} (newName : String)
    (hfirst : FirstIs tableEntry (toLowercase oldName) (isTableRow oldName) db.catalog) (change : β → β)
    (htable : ∀ tbl v, db.schema.tables.lookup (toLowercase oldName) = some tbl → R.table tbl = some v →
      R.table { tbl with name := newName } = some (change v))
    (hrow : ∀ r v, (db.catalog.find? fun r => isTableRow oldName r.2) = some r →
      R.tableRow r.2 = some (toLowercase oldName, v) →
        R.tableRow (renameRow oldName newName r.2) = some (toLowercase newName, change v))
    (hindex : ∀ key idx, db.schema.indexes.lookup key = some idx →
      R.index (renameTableIn oldName newName idx) = R.index idx) :
    R.Matches (left (Catalog.alterRenameTable oldName newName) db) := by
  rcases alterRenameTable_cases oldName newName h.shaped with hsame | ⟨table, hold, hnew, indexesByTable, hleft⟩
  · rw [hsame]
    exact h
  · have hne : toLowercase newName ≠ toLowercase oldName := by
      intro heq
      rw [heq, hold] at hnew
      cases hnew
    rw [hleft]
    refine h.rewriteTable hfirst (toLowercase newName) change
      (fun row hshape => (entry_renameRow hshape oldName newName).1) hrow (.inr ?_) (fun v hv => ?_)
      (fun _ => ?_) (fun x hx hx' => ?_) (R.indexes_map db.schema (renameTableIn oldName newName) hindex)
    · rw [Reading.tables, hnew]
      rfl
    · rw [Reading.tables, hold] at hv
      simp only [Reading.tables, lookup_put, if_pos]
      exact htable table v hold hv
    · simp only [Reading.tables, lookup_put, lookup_remove, if_neg (Ne.symm hne), if_pos]
      rfl
    · simp only [Reading.tables, lookup_put, lookup_remove, if_neg hx', if_neg hx]

end Statements

end Reading

end Kkdb.Catalog
