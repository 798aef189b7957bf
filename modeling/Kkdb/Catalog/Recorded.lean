import Kkdb.Catalog.Roots
import Kkdb.Catalog.Stored

namespace Kkdb.Catalog.Roots

open Lib

section Reading

variable [Lowercase]

-- Of the rows and of the schema, the root pages.
def roots : Reading Int64 Int64 where
  tableRow := tableEntry
  indexRow := indexEntry
  table tbl := if tbl.viewSelect.isNone then some (pageInt tbl.rootPage) else none
  index idx := pageInt idx.rootPage
  tableRow_key _ := rfl
  indexRow_key _ := rfl

abbrev Rooted (db : Db) : Prop := roots.Matches db

end Reading

section Statements

theorem moveFtsRoot_same {schema : Schema} {oldRoot newRoot : UInt32}
    (h : newRoot = oldRoot ∨ ∀ e ∈ schema.indexes, e.2.isFts = true → e.2.rootPage ≠ oldRoot) :
    moveFtsRoot oldRoot newRoot schema = schema := by
  unfold moveFtsRoot
  cases hfind : schema.indexes.findIdx? fun e => e.2.isFts && e.2.rootPage = oldRoot with
  | none => rfl
  | some i =>
      obtain ⟨hi, hfound, -⟩ := List.findIdx?_eq_some_iff_getElem.mp hfind
      obtain ⟨hfts, hroot⟩ := (Bool.and_eq_true _ _).mp hfound
      rw [decide_eq_true_eq] at hroot
      rcases h with rfl | hnone
      · have hsame : (schema.indexes.modify i fun e => (e.1, { e.2 with rootPage := newRoot })) = schema.indexes := by
          apply List.ext_getElem?
          intro j
          rw [List.getElem?_modify]
          split_ifs with hij
          · subst hij
            rw [List.getElem?_eq_getElem hi, ← hroot]
            rfl
          · simp
        dsimp only
        rw [hsame]
      · exact absurd hroot (hnone _ (List.getElem_mem hi) hfts)

variable [Lowercase]

variable {db : Db}

theorem Rooted.modifyTable (h : Rooted db) (key : List Char) {f : TableSchema → TableSchema}
    (hf : ∀ tbl, (f tbl).rootPage = tbl.rootPage ∧ (f tbl).viewSelect = tbl.viewSelect) :
    Rooted (left (Catalog.modifyTable key f) db) :=
  h.schema (roots.tables_modify db.schema key fun tbl _ => by simp only [roots, hf]) fun _ => rfl

variable {tableName : String}

theorem Rooted.changeTable (h : Rooted db) {table : TableSchema}
    (htable : db.schema.getTable tableName = some table) (table' : TableSchema) {schema : Schema}
    (htables : schema.tables = put (Schema.lowercaseKey tableName) table' db.schema.tables)
    (hroot : table'.rootPage = table.rootPage ∧ table'.viewSelect = table.viewSelect)
    (hindexes : ∀ x, roots.indexes schema x = roots.indexes db.schema x) (named : TableSchema) :
    Rooted { schema := schema, calls := db.calls ++ textCalls tableName named db.catalog } := by
  refine (h.schema (fun x => ?_) hindexes).rewriteSame _ fun row hrow => entries_setSql hrow _
  simp only [Reading.tables, htables, lookup_put]
  split_ifs with hx
  · rw [hx, show db.schema.tables.lookup _ = some table from htable]
    simp only [Option.bind_some, roots, hroot]
  · rfl

theorem Rooted.alterAddColumn (h : Rooted db) (rewritten : UInt32 → (Row → Row) → Res Unit)
    (tableName : String) (col : ColumnDef) : Rooted (left (Catalog.alterAddColumn rewritten tableName col) db) := by
  rcases alterAddColumn_cases rewritten tableName col h.shaped with hsame | ⟨table, htable, hleft⟩
  · rw [hsame]
    exact h
  · rw [hleft]
    refine h.changeTable htable (addColumnTo col table.columns.length table) ?_ ⟨rfl, rfl⟩ (fun _ => ?_) _ <;> rfl

theorem Rooted.alterRenameColumn (h : Rooted db) (tableName oldCol newCol : String) :
    Rooted (left (Catalog.alterRenameColumn tableName oldCol newCol) db) := by
  rcases alterRenameColumn_cases tableName oldCol newCol h.shaped with hsame | ⟨table, htable, hleft⟩
  · rw [hsame]
    exact h
  · rw [hleft]
    refine h.changeTable htable (renameColumnIn oldCol newCol table) rfl ⟨rfl, rfl⟩ ?_ _
    refine roots.indexes_map db.schema (renameIndexColumn tableName oldCol newCol) fun key idx _ => ?_
    rw [renameIndexColumn]
    split_ifs <;> rfl

theorem Rooted.alterDropColumn (h : Rooted db) (rewritten : UInt32 → (Row → Row) → Res Unit)
    {colName : String} (hdrops : DropsIndexes (indexesOn db.schema tableName colName) db) :
    Rooted (left (Catalog.alterDropColumn rewritten tableName colName) db) := by
  rcases alterDropColumn_cases rewritten tableName colName h.shaped with
    hsame | ⟨table, htable, indexesByTable, hleft⟩
  · rw [hsame]
    exact h
  · have hdropped := h.dropIndexes hdrops
    rw [hleft]
    rw [left_ok (dropIndexes_ok _ db)] at hdropped ⊢
    refine Rooted.changeTable hdropped htable (dropColumnFrom colName table) ?_ ⟨rfl, rfl⟩ (fun _ => ?_) _ <;> rfl

theorem Rooted.renameView (h : Rooted db) {oldName : String} (newName : String)
    (hview : tableRoot db.schema (toLowercase oldName) = none) (hnone : ∀ r ∈ db.catalog, isTableRow oldName r.2 = false) :
    Rooted (left (Catalog.alterRenameTable oldName newName) db) := by
  rcases alterRenameTable_cases oldName newName h.shaped with hsame | ⟨table, hold, hnew, indexesByTable, hleft⟩
  · rw [hsame]
    exact h
  · have hfind : (db.catalog.find? fun r => isTableRow oldName r.2) = none :=
      List.find?_eq_none.mpr fun r hr => by simp [hnone r hr]
    have htable : roots.table table = none := by
      rw [tableRoot, hold] at hview
      exact hview
    rw [hleft, rewriteCalls, hfind, List.append_nil]
    refine h.schema (fun x => ?_) (roots.indexes_map db.schema (renameTableIn oldName newName) fun key idx _ => ?_)
    · simp only [Reading.tables, lookup_put, lookup_remove]
      split_ifs with h₁ h₂
      · rw [h₁, hnew]
        exact htable
      · rw [h₂, hold]
        exact htable.symm
      · rfl
    · rw [renameTableIn]
      split_ifs <;> rfl

theorem Rooted.alterRenameTable (h : Rooted db) {oldName : String} (newName : String)
    (hguard : (tableRoot db.schema (toLowercase oldName) = none ∧ ∀ r ∈ db.catalog, isTableRow oldName r.2 = false) ∨
      FirstIs tableEntry (toLowercase oldName) (isTableRow oldName) db.catalog) :
    Rooted (left (Catalog.alterRenameTable oldName newName) db) := by
  rcases hguard with ⟨hview, hnone⟩ | hfirst
  · exact h.renameView newName hview hnone
  · refine Reading.Matches.alterRenameTable h newName hfirst id (fun tbl v _ hv => hv) (fun r v hfind hr => ?_)
      fun key idx _ => ?_
    · have hentry := (entry_renameRow (h.shaped r (List.mem_of_find?_eq_some hfind)) oldName newName).2
      rw [show tableEntry r.2 = _ from hr] at hentry
      exact hentry
    · rw [renameTableIn]
      split_ifs <;> rfl

theorem Rooted.saveTrigger (h : Rooted db) (t : TriggerSchema) :
    Rooted (left (Catalog.saveTrigger t) db) := by
  rw [Catalog.saveTrigger, left_insertNext_bind]
  split_ifs with hmax
  · exact h
  · exact (h.addOther hmax rfl rfl rfl).schema (fun _ => rfl) fun _ => rfl

theorem Rooted.dropTrigger (h : Rooted db) {name : String} (hdrops : DropsTrigger name db)
    (ifExists : Bool) : Rooted (left (dropTriggerByName name ifExists) db) := by
  rw [dropTriggerByName, left_get_bind]
  cases hfind : findTrigger name db.schema.triggers with
  | none =>
      dsimp only
      split_ifs
      · exact h
      · exact h
  | some found =>
      obtain ⟨tbl, i, t⟩ := found
      have hcatalog : ∀ schema : Schema, Db.catalog { schema := schema, calls := db.calls ++ [.Delete t.rowid] } =
          db.catalog.filter fun x => !decide (x.1 = t.rowid) := fun schema =>
        (catalog_delete db schema t.rowid).trans (List.filter_congr fun x _ => by simp)
      exact h.remove (hdrops tbl i t hfind) (hcatalog _) (fun key => by simp; rfl) fun key => by simp; rfl

theorem Rooted.newTrigger (h : Rooted db) (trig : CreateTriggerStmt) :
    Rooted (left (do
      match (← get).schema.getTable trig.tableName with
      | none => throw (.Err (.TableNotFound trig.tableName))
      | some _ =>
          Catalog.saveTrigger
            { name := trig.name, timing := trig.timing, event := trig.event, tableName := trig.tableName,
              bodySql := trig.bodySql, rowid := 0 }) db) := by
  rw [left_get_bind]
  cases db.schema.getTable trig.tableName with
  | none => exact h
  | some _ => exact h.saveTrigger _

theorem Rooted.createTrigger (h : Rooted db) {trig : CreateTriggerStmt}
    (hguard : trig.orReplace → DropsTrigger trig.name db) : Rooted (left (execCreateTrigger trig) db) := by
  rw [execCreateTrigger, left_get_bind]
  split_ifs with hexists hreplace
  · exact left_bind_inv Rooted (h.dropTrigger (hguard hreplace) true) fun _ db' h' => h'.newTrigger trig
  · exact h
  · exact h.newTrigger trig

theorem Rooted.enableRowLevelSecurity (h : Rooted db) (tableName : String) :
    Rooted (left (Catalog.enableRowLevelSecurity tableName) db) := by
  rw [Catalog.enableRowLevelSecurity, left_get_bind]
  dsimp only
  split_ifs
  · exact h
  · refine left_bind_inv Rooted (h.modifyTable _ fun tbl => ⟨rfl, rfl⟩) fun _ db' h' => ?_
    rw [left_insertNext_bind]
    split_ifs with hmax
    · exact h'
    · exact h'.addOther hmax rfl rfl rfl

theorem Rooted.execCreateView (h : Rooted db) {create : CreateViewStmt}
    (hname : (db.schema.getTable create.name).isNone → db.schema.tables.lookup (toLowercase create.name) = none)
    (hpicks : create.orReplace → (db.schema.tables.lookup (toLowercase create.name)).isSome →
      PicksTable create.name db) : Rooted (left (Catalog.execCreateView create) db) := by
  have hrest : ∀ {db' : Db}, Rooted db' → tableRoot db'.schema (toLowercase create.name) = none → Rooted (left (do
      setSchema fun schema => { schema with tables := put (toLowercase create.name) (viewSchema create) schema.tables }
      let _ ← insertNext [.Text "view", .Text create.name, .Text create.name, .Integer 0,
        .Text s!"CREATE VIEW {create.name} AS (view query)"]) db') := by
    intro db' h' hfree
    have hview : Rooted { db' with schema :=
        { db'.schema with tables := put (toLowercase create.name) (viewSchema create) db'.schema.tables } } := by
      refine h'.schema (fun x => ?_) fun _ => rfl
      simp only [Reading.tables, lookup_put]
      split_ifs with hx
      · exact (hx ▸ hfree).symm
      · rfl
    rw [setSchema, left_modify_bind, left_insertNext_bind]
    split_ifs with hmax
    · exact hview
    · exact hview.addOther hmax rfl rfl rfl
  have hroot : ∀ {schema : Schema}, schema.tables.lookup (toLowercase create.name) = none →
      tableRoot schema (toLowercase create.name) = none := fun hnone => by
    rw [tableRoot, hnone]
    rfl
  rw [Catalog.execCreateView, left_get_bind]
  split_ifs with hexists hreplace hskip
  · rcases dropTable_cases create.name true db with ⟨hsame, hmissing⟩ | ⟨hsome, hcall⟩
    · have hok : Catalog.dropTable create.name true db = .ok ⟨⟩ db := by
        rw [Catalog.dropTable, get_bind]
        simp only [hmissing, if_true]
        rfl
      rw [left_bind_ok hok]
      exact hrest h (hroot (Option.isNone_iff_eq_none.mp hmissing))
    · have hdropped := h.dropTable (hpicks hreplace) true
      rw [left_ok hcall] at hdropped
      rw [left_bind_ok hcall]
      exact hrest hdropped (hroot (by rw [lookup_remove, if_pos rfl]))
  · exact h
  · exact h
  · exact hrest h (hroot (hname (by simpa using hexists)))

theorem Rooted.moveTable (h : Rooted db)
    (hfirst : FirstIs tableEntry (Schema.lowercaseKey tableName) (named tableName) db.catalog) (rootPage : UInt32) :
    Rooted (left (do
      Catalog.modifyTable (Schema.lowercaseKey tableName) fun tbl => { tbl with rootPage := rootPage }
      updateSchemaObjectRootPage tableName rootPage) db) := by
  rw [Catalog.modifyTable, setSchema, left_modify_bind, updateSchemaObjectRootPage,
    left_ok (updateFirst_ok h.shaped _ _ _)]
  refine h.rewriteTable hfirst (Schema.lowercaseKey tableName) (fun _ => pageInt rootPage)
    (fun row hrow => (entries_setRoot hrow rootPage).1) (fun r v hfind hr => ?_) (.inl rfl) (fun v hv => ?_)
    (fun hne => absurd rfl hne) (fun x hx _ => ?_) fun _ => rfl
  · have hentry := (entries_setRoot (h.shaped r (List.mem_of_find?_eq_some hfind)) rootPage).2.1
    rw [show tableEntry r.2 = _ from hr] at hentry
    exact hentry
  · simp only [Reading.tables] at hv ⊢
    cases hlook : db.schema.tables.lookup (Schema.lowercaseKey tableName) with
    | none =>
        rw [hlook] at hv
        cases hv
    | some table =>
        rw [hlook, Option.bind_some] at hv
        simp only [roots] at hv
        split_ifs at hv with hview
        simp [lookup_put, roots, Option.isNone_iff_eq_none.mp hview]
  · simp only [Reading.tables]
    cases db.schema.tables.lookup (Schema.lowercaseKey tableName) with
    | none => rfl
    | some table => simp [lookup_put, hx]

theorem Rooted.finishInsert (h : Rooted db) {originalRoot rootPage : UInt32}
    (hguard : Guarded (.InsertDone tableName originalRoot rootPage) db) :
    Rooted (left (Catalog.finishInsert tableName originalRoot rootPage) db) := by
  rw [Catalog.finishInsert, left_get_bind]
  by_cases hmoved : rootPage ≠ originalRoot
  · rw [Guarded, if_neg hmoved] at hguard
    simp only [if_pos hmoved]
    split_ifs
    · exact h
    · exact h.moveTable hguard rootPage
  · obtain rfl : rootPage = originalRoot := not_not.mp hmoved
    rw [Guarded, if_pos rfl] at hguard
    simp only [if_neg hmoved]
    split_ifs
    · exact h
    refine h.schema (fun x => ?_) fun _ => rfl
    dsimp only
    cases hlook : db.schema.tables.lookup (Schema.lowercaseKey tableName) with
    | none => rfl
    | some table =>
        have hroot := hguard table hlook
        simp only [Reading.tables, lookup_put]
        split_ifs with hx
        · rw [hx, hlook, ← hroot]
        · rfl

theorem Rooted.finishUpdate (h : Rooted db) {originalRoot rootPage : UInt32}
    (hguard : Guarded (.UpdateDone tableName originalRoot rootPage) db) :
    Rooted (left (Catalog.finishUpdate tableName originalRoot rootPage) db) := by
  rw [Catalog.finishUpdate]
  split_ifs with hmoved
  · rw [left_get_bind]
    dsimp only
    split_ifs
    · exact h
    · exact h.moveTable (hguard hmoved) rootPage
  · exact h

theorem Rooted.moveIndex (h : Rooted db) {indexName : String}
    (hfirst : FirstIs indexEntry (toLowercase indexName) (named indexName) db.catalog) (newRoot : UInt32) :
    Rooted (left (Catalog.moveIndex indexName newRoot true) db) := by
  rw [Catalog.moveIndex, setSchema, left_modify_bind, if_pos rfl, updateSchemaObjectRootPage,
    left_ok (updateFirst_ok h.shaped _ _ _)]
  refine h.rewriteIndex hfirst (fun _ => pageInt newRoot) (fun row hrow => (entries_setRoot hrow newRoot).1)
    (fun row v hrow hv => ?_) (fun _ => rfl) (fun v hv => ?_) fun x hx => ?_
  · have hentry := (entries_setRoot hrow newRoot).2.2
    rw [show indexEntry row = _ from hv] at hentry
    exact hentry
  · simp only [Reading.indexes] at hv ⊢
    cases hlook : db.schema.indexes.lookup (toLowercase indexName) with
    | none =>
        rw [hlook] at hv
        cases hv
    | some idx => simp [lookup_put, roots]
  · simp only [Reading.indexes]
    cases db.schema.indexes.lookup (toLowercase indexName) with
    | none => rfl
    | some idx => simp [lookup_put, hx]

theorem Rooted.execCreateFulltextIndex (h : Rooted db) (stmt : CreateFulltextIndexStmt)
    (root : Res UInt32) : Rooted (left (Catalog.execCreateFulltextIndex stmt root root) db) := by
  unfold Catalog.execCreateFulltextIndex
  rw [left_get_bind]
  dsimp only
  cases db.schema.getTable stmt.tableName with
  | none => exact h
  | some tbl =>
      dsimp only
      cases missingColumn tbl stmt.columns with
      | some colName => exact h
      | none =>
          dsimp only
          split_ifs with hexists hskip
          · exact h
          · exact h
          · cases root with
            | error fault => exact h
            | ok page =>
                dsimp only
                rw [left_insertNext_bind]
                split_ifs with hmax hmoved
                · exact h
                · exact absurd rfl hmoved
                · exact h.addIndex hmax rfl rfl (Option.not_isSome_iff_eq_none.mp hexists)

theorem Rooted.step {s : Step} (hguard : Guarded s db) (h : Rooted db) : Rooted (Roots.step s db) := by
  cases s with
  | CreateTable name columnDefs ifNotExists originalSql extraChecks isFts rootPage =>
      refine h.createTable name columnDefs ifNotExists originalSql extraChecks isFts rootPage ⟨pageInt rootPage, ?_, rfl⟩
      cases isFts <;> rfl
  | CreateIndex stmt built => exact h.createIndex _ _ _ _ _ _ _ fun _ => rfl
  | CreateFulltextIndex stmt ftsRoot finalRoot =>
      obtain rfl : finalRoot = ftsRoot := hguard
      exact h.execCreateFulltextIndex stmt finalRoot
  | CreateView create => exact h.execCreateView hguard.1 hguard.2
  | CreateTrigger trig => exact h.createTrigger hguard
  | DropTrigger name ifExists => exact h.dropTrigger hguard ifExists
  | DropTable name ifExists => exact h.execDropTable hguard ifExists
  | DropIndex name ifExists => exact h.dropIndex hguard ifExists
  | AddColumn rewritten tableName col => exact h.alterAddColumn rewritten tableName col
  | DropColumn rewritten tableName colName => exact h.alterDropColumn rewritten hguard
  | RenameTable oldName newName => exact h.alterRenameTable newName hguard
  | RenameColumn tableName oldCol newCol => exact h.alterRenameColumn tableName oldCol newCol
  | EnableRowLevelSecurity tableName => exact h.enableRowLevelSecurity tableName
  | InsertDone tableName originalRoot rootPage => exact h.finishInsert hguard
  | UpdateDone tableName originalRoot rootPage => exact h.finishUpdate hguard
  | IndexMoved indexName newRoot written =>
      obtain ⟨rfl, hfirst⟩ := hguard
      exact h.moveIndex hfirst newRoot
  | FtsMoved oldRoot newRoot =>
      have hsame : Roots.step (.FtsMoved oldRoot newRoot) db = db := by
        rw [Roots.step, Step.call, setSchema, left_modify, moveFtsRoot_same hguard]
      rw [hsame]
      exact h

-- In a run whose steps are all guarded, with a catalog that its calls have made soundly, the catalog holds the root
-- pages that the schema uses.
theorem roots_recorded [Lz4Flex] {steps : List Step} {t : BTree.Table} (hmeets : Meets Roots.step Guarded steps start)
    (hstored : Stored (run Roots.step steps start).calls t) :
    Recorded (run Roots.step steps start) ∧ Served (run Roots.step steps start).calls ∧
      Answers t (run Roots.step steps start).catalog := by
  have h := run_invariant Rooted Reading.matches_start (fun _ _ h hguard => h.step hguard) hmeets
  exact ⟨⟨h.tables, h.indexes⟩, hstored.served, hstored.answers⟩

end Statements

section Moving

attribute [local instance] Lowercase.ascii Lz4Flex.incompressible

def indexOn (indexName tableName : String) : CreateIndexStmt where
  indexName := indexName
  tableName := tableName
  columns := []
  unique := false
  ifNotExists := false

def movedRoots : List Step :=
  [.CreateTable "t" [.bare "a" .Integer] false "CREATE TABLE t (a INTEGER)" [] false 2,
    .CreateIndex (indexOn "i" "t") (.ok 3),
    .IndexMoved "i" 5 true, .InsertDone "t" 2 6]

set_option maxRecDepth 10000 in
theorem movedRoots_sound :
    Meets CatalogCall.step CatalogCall.Sound (run Roots.step movedRoots start).calls (emptyTree Buf.zero) := by
  decide +kernel

theorem roots_recorded_moved :
    Recorded (run Roots.step movedRoots start) ∧ Served (run Roots.step movedRoots start).calls ∧
      Answers (run CatalogCall.step (run Roots.step movedRoots start).calls (emptyTree Buf.zero)).1
        (run Roots.step movedRoots start).catalog := by
  refine roots_recorded ⟨trivial, trivial, ⟨rfl, ⟨(2, _), rfl, ?_⟩⟩, ?_, trivial⟩
    (stored_calls (stored_emptyTree Buf.zero) movedRoots_sound)
  · decide +kernel
  · rw [Guarded, if_neg (by decide)]
    exact ⟨(1, _), rfl, by decide +kernel⟩

def namesakes : List Step :=
  [.CreateTable "t" [.bare "a" .Integer] false "CREATE TABLE t (a INTEGER)" [] false 2,
    .CreateIndex (indexOn "t" "t") (.ok 3),
    .IndexMoved "t" 5 true]

set_option maxRecDepth 10000 in
-- The row of the table gets the root page of the index.
theorem not_recorded_namesakes :
    Meets CatalogCall.step CatalogCall.Sound (run Roots.step namesakes start).calls (emptyTree Buf.zero) ∧
      ¬Recorded (run Roots.step namesakes start) := by
  refine ⟨by decide +kernel, fun h => ?_⟩
  have hrow := (h.1.lookup ['t'] 2).mp (by decide +kernel)
  revert hrow
  decide +kernel

end Moving

end Kkdb.Catalog.Roots
