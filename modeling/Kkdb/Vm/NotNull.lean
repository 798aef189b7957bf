import Kkdb.Vm.StatementRuns

namespace Kkdb

open Lib

namespace Dml

def NotNull (table : TableSchema) (row : Row) : Prop :=
  ∀ c ∈ table.columns, c.notNull = true → row.getD c.colIndex .Null ≠ .Null

instance (table : TableSchema) (row : Row) : Decidable (NotNull table row) :=
  inferInstanceAs (Decidable (∀ c ∈ table.columns, c.notNull = true → row.getD c.colIndex .Null ≠ .Null))

def NotNullKept (schema : Schema) (trees : Trees) : Prop :=
  ∀ name table, schema.getTable name = some table → ∀ r ∈ lookupD trees (tableRoot name) [], NotNull table r.2

-- INSERT leaves key columns out of its check and fills in the first of them: the others have a value.
def SecondKeysGiven (table : TableSchema) (given : Row) : Prop :=
  ∀ c ∈ table.columns, c.notNull = true → c.primaryKey = true → table.pkColIdx ≠ some c.colIndex →
    given.getD c.colIndex .Null ≠ .Null

-- No NOT NULL column is set to NULL.
def NoneCleared (table : TableSchema) (old new : Row) : Prop :=
  ∀ c ∈ table.columns, c.notNull = true → old.getD c.colIndex .Null ≠ .Null → new.getD c.colIndex .Null ≠ .Null

instance (table : TableSchema) (given : Row) : Decidable (SecondKeysGiven table given) := by
  unfold SecondKeysGiven
  infer_instance

instance (table : TableSchema) (old new : Row) : Decidable (NoneCleared table old new) := by
  unfold NoneCleared
  infer_instance

def Change.KeepsNotNull (schema : Schema) : Change → Prop
  | .Inserted name given _ =>
      match schema.getTable name with
      | none => True
      | some table => SecondKeysGiven table given
  | .Rewriting name targets =>
      match schema.getTable name with
      | none => True
      | some table => ∀ x ∈ targets, NoneCleared table x.2.1 x.2.2

theorem keepsNotNull_inserted {schema : Schema} {name : String} {given : Row} {rowid : Int64} :
    ((schema.getTable name).all fun table => decide (SecondKeysGiven table given)) = true ↔
      (Change.Inserted name given rowid).KeepsNotNull schema := by
  cases htable : schema.getTable name with
  | none => simp only [Change.KeepsNotNull, htable, Option.all_none]
  | some table => simp only [Change.KeepsNotNull, htable, Option.all_some, decide_eq_true_eq]

theorem keepsNotNull_rewriting {schema : Schema} {name : String} {targets : List (Int64 × Row × Row)} :
    ((schema.getTable name).all fun table => targets.all fun x =>
      decide (NoneCleared table x.2.1 x.2.2)) = true ↔
      (Change.Rewriting name targets).KeepsNotNull schema := by
  cases htable : schema.getTable name with
  | none => simp only [Change.KeepsNotNull, htable, Option.all_none]
  | some table =>
      simp only [Change.KeepsNotNull, htable, Option.all_some, List.all_eq_true, decide_eq_true_eq]

instance (schema : Schema) (c : Change) : Decidable (c.KeepsNotNull schema) :=
  c.casesOn (fun _ _ _ => decidable_of_iff _ keepsNotNull_inserted)
    fun _ _ => decidable_of_iff _ keepsNotNull_rewriting

structure NotNullInv {τ : Type} (schema : Schema) (vm : VM τ) : Prop where
  trees : NotNullKept schema vm.trees
  catalog : ∀ trees ∈ vm.catalogTxn, NotNullKept schema trees
  tables : ∀ trees ∈ vm.tableTxn, NotNullKept schema trees
  planned : ∀ name targets, .Rewriting name targets ∈ vm.history → ∀ table, schema.getTable name = some table →
    ∀ x ∈ targets, NotNull table x.2.1

section Rows

variable {table : TableSchema} {given row : Row} {rowid : Int64} {pk : Nat}

theorem filled_cases (h : Filled (some pk) given rowid row) :
    (given.getD pk .Null = .Null ∧ row = given.set pk (.Integer rowid)) ∨
      (given.getD pk .Null ≠ .Null ∧ row = given) := by
  unfold Filled at h
  dsimp only at h
  cases hv : given.getD pk .Null with
  | Null =>
      rw [hv] at h
      exact .inl ⟨rfl, h⟩
  | Integer rid =>
      rw [hv] at h
      exact .inr ⟨Value.noConfusion, h.2⟩
  | Real bits =>
      rw [hv] at h
      exact .inr ⟨Value.noConfusion, h⟩
  | Text v =>
      rw [hv] at h
      exact .inr ⟨Value.noConfusion, h⟩
  | Blob v =>
      rw [hv] at h
      exact .inr ⟨Value.noConfusion, h⟩

theorem filled_key (h : Filled (some pk) given rowid row) (hin : pk < given.length) :
    row.getD pk .Null ≠ .Null := by
  rcases filled_cases h with ⟨-, rfl⟩ | ⟨hne, rfl⟩
  · rw [List.getD_eq_getElem?_getD, List.getElem?_set_self hin]
    exact Value.noConfusion
  · exact hne

theorem filled_other (h : Filled (some pk) given rowid row) {i : Nat} (hi : pk ≠ i) :
    row.getD i .Null = given.getD i .Null := by
  rcases filled_cases h with ⟨-, rfl⟩ | ⟨-, rfl⟩
  · rw [List.getD_eq_getElem?_getD, List.getElem?_set_ne hi, List.getD_eq_getElem?_getD]
  · rfl

-- The row that INSERT stores: what is checked, what is filled in and what the statement gave.
theorem notNull_of_filled (hplaced : ∀ c ∈ table.columns, c.colIndex < table.columns.length)
    (hlength : given.length = table.columns.length) (hfilled : Filled table.pkColIdx given rowid row)
    (hchecked : ∀ c ∈ table.notNullCols, row.getD c.1 .Null ≠ .Null) (hgiven : SecondKeysGiven table given) :
    NotNull table row := by
  intro c hc hnn
  cases hkey : c.primaryKey with
  | false =>
      refine hchecked (c.colIndex, c.name) (List.mem_map.mpr ⟨c, List.mem_filter.mpr ⟨hc, ?_⟩, rfl⟩)
      rw [hnn, hkey]
      rfl
  | true =>
      obtain ⟨first, hfirst⟩ : ∃ first, table.primaryKey = some first :=
        Option.isSome_iff_exists.mp (List.find?_isSome.mpr ⟨c, hc, hkey⟩)
      have hpk : table.pkColIdx = some first.colIndex := by rw [TableSchema.pkColIdx, hfirst, Option.map_some]
      have hin : first.colIndex < given.length := by
        rw [hlength]
        exact hplaced first (List.mem_of_find?_eq_some hfirst)
      rw [hpk] at hfilled
      by_cases hsame : first.colIndex = c.colIndex
      · rw [← hsame]
        exact filled_key hfilled hin
      · rw [filled_other hfilled hsame]
        exact hgiven c hc hnn hkey fun h => hsame (Option.some.inj (hpk.symm.trans h))

theorem mem_putRow {r : Int64 × Row} {rows : List (Int64 × Row)} (h : r ∈ putRow rowid row rows) :
    r = (rowid, row) ∨ r ∈ rows := by
  induction rows with
  | nil => exact .inl (List.mem_singleton.mp h)
  | cons x rows ih =>
      rw [putRow] at h
      split_ifs at h
      · exact List.mem_cons.mp h
      · exact (List.mem_cons.mp h).imp id (List.mem_cons_of_mem _)
      · rcases List.mem_cons.mp h with rfl | h
        · exact .inr List.mem_cons_self
        · exact (ih h).imp id (List.mem_cons_of_mem _)

end Rows

section Trees

variable {schema : Schema} {trees : Trees} {name : String} {rows : List (Int64 × Row)}

theorem getTable_congr {a b : String} (h : tableRoot a = tableRoot b) : schema.getTable a =
    schema.getTable b := by
  rw [Schema.getTable, Schema.getTable, tableRoot_inj.mp h]

theorem NotNullKept.setTable (h : NotNullKept schema trees)
    (hrows : ∀ table, schema.getTable name = some table → ∀ r ∈ rows, NotNull table r.2) :
    NotNullKept schema (put (tableRoot name) rows trees) := by
  intro other table htable
  rw [lookupD_put]
  split_ifs with heq
  · exact hrows table (getTable_congr heq ▸ htable)
  · exact h other table htable

theorem NotNullKept.setIndex {index : List Char} (h : NotNullKept schema trees) :
    NotNullKept schema (put (.Index index) rows trees) := by
  intro other table htable
  rw [lookupD_put, if_neg (by rw [tableRoot]; simp)]
  exact h other table htable

end Trees

section Steps

variable {τ : Type} {W : World} {vm vm' : VM τ}

theorem Effect.notNullInv (h : Effect W vm vm') (hplaced : Schema.Placed W.shape)
    (hkeeps : ∀ c ∈ vm'.history, c.KeepsNotNull W.shape) (hinv : NotNullInv W.shape vm) :
    NotNullInv W.shape vm' := by
  cases h with
  | cached caches side => exact ⟨hinv.trees, hinv.catalog, hinv.tables, hinv.planned⟩
  | indexed index rows => exact ⟨hinv.trees.setIndex, hinv.catalog, hinv.tables, hinv.planned⟩
  | numbered name nextRowid => exact ⟨hinv.trees, hinv.catalog, hinv.tables, hinv.planned⟩
  | stored name table given rowid row htable hlength hfilled hnotnull hfresh =>
      refine ⟨hinv.trees.setTable fun table' htable' r hr => ?_, hinv.catalog, hinv.tables,
        fun name' targets hmem => ?_⟩
      · obtain rfl : table = table' := Option.some.inj (htable.symm.trans htable')
        have hgiven := hkeeps (.Inserted name given rowid) (List.mem_append_right _ List.mem_cons_self)
        simp only [Change.KeepsNotNull, htable] at hgiven
        rcases mem_putRow hr with rfl | hr
        · exact notNull_of_filled (hplaced name table htable) hlength hfilled hnotnull hgiven
        · exact hinv.trees name table htable r hr
      · refine hinv.planned name' targets ((List.mem_append.mp hmem).resolve_right fun hmem => ?_)
        cases List.mem_singleton.mp hmem
  | planned name targets hread =>
      refine ⟨hinv.trees, hinv.catalog, hinv.tables, fun name' targets' hmem table htable x hx => ?_⟩
      rcases List.mem_append.mp hmem with hmem | hmem
      · exact hinv.planned name' targets' hmem table htable x hx
      · cases List.mem_singleton.mp hmem
        exact hinv.trees name table htable _ (hread x hx)
  | rewritten name targets x hplanned hx =>
      refine ⟨hinv.trees.setTable fun table htable r hr => ?_, hinv.catalog, hinv.tables, hinv.planned⟩
      have hold := hinv.planned name targets hplanned table htable x hx
      have hkept := hkeeps _ hplanned
      simp only [Change.KeepsNotNull, htable] at hkept
      rcases mem_putRow hr with rfl | hr
      · exact fun c hc hnn => hkept x hx c hc hnn (hold c hc hnn)
      · exact hinv.trees name table htable r (List.mem_of_mem_filter hr)
  | erased name rowid =>
      refine ⟨hinv.trees.setTable fun table htable r hr => ?_, hinv.catalog, hinv.tables, hinv.planned⟩
      exact hinv.trees name table htable r (List.mem_of_mem_filter hr)
  | begun tables htables =>
      refine ⟨hinv.trees, fun trees htrees => ?_, fun trees htrees => ?_, hinv.planned⟩
      · cases htrees
        exact hinv.trees
      · rcases htables with rfl | rfl
        · exact hinv.tables trees htrees
        · cases htrees
          exact hinv.trees
  | committed tables htables =>
      refine ⟨hinv.trees, fun trees htrees => (by cases htrees), fun trees htrees => ?_, hinv.planned⟩
      rcases htables with rfl | rfl
      · exact hinv.tables trees htrees
      · cases htrees
  | undone trees tables htrees htables =>
      refine ⟨?_, fun trees htrees => (by cases htrees), fun trees' htrees' => ?_, hinv.planned⟩
      · rcases htrees with rfl | htrees | htrees
        · exact hinv.trees
        · exact hinv.catalog trees htrees
        · exact hinv.tables trees htrees
      · rcases htables with rfl | rfl
        · exact hinv.tables trees' htrees'
        · cases htrees'

theorem Effects.notNullInv (h : Effects W vm vm') (hplaced : Schema.Placed W.shape)
    (hkeeps : ∀ c ∈ vm'.history, c.KeepsNotNull W.shape) (hinv : NotNullInv W.shape vm) :
    NotNullInv W.shape vm' := by
  induction h with
  | refl => exact hinv
  | tail _ hstep ih =>
      exact hstep.notNullInv hplaced hkeeps (ih fun c hc => hkeeps c (hstep.history_prefix.subset hc))

end Steps

section Run

variable {τ : Type} {E : Engine τ} {depth : Nat} {vm : VM τ}

def KeepsNotNulls (E : Engine τ) (depth : Nat) (schema : Schema) (sql : String) (vm : VM τ) : Prop :=
  ∀ c ∈ changesOf E depth sql vm, c.KeepsNotNull schema

instance (E : Engine τ) (depth : Nat) (schema : Schema) (sql : String) (vm : VM τ) :
    Decidable (KeepsNotNulls E depth schema sql vm) :=
  inferInstanceAs (Decidable (∀ c ∈ changesOf E depth sql vm, c.KeepsNotNull schema))

-- Outside a transaction, with nothing remembered yet.
structure Idle (vm : VM τ) : Prop where
  rows : NotNullKept vm.schema vm.trees
  placed : Schema.Placed vm.schema
  snapshot : vm.schemaSnapshot = none
  catalog : vm.catalogTxn = none
  tables : vm.tableTxn = none
  history : vm.history = []

theorem notNullKept_shape {schema : Schema} {trees : Trees} :
    NotNullKept (shape schema) trees ↔ NotNullKept schema trees := by
  refine forall_congr' fun name => ?_
  rw [getTable_shape]
  cases schema.getTable name with
  | none => simp
  | some table => simp [NotNull]

theorem keepsNotNull_shape {schema : Schema} {c : Change} :
    c.KeepsNotNull (shape schema) ↔ c.KeepsNotNull schema := by
  cases c with
  | Inserted name given rowid =>
      simp only [Change.KeepsNotNull, getTable_shape]
      cases schema.getTable name with
      | none => rfl
      | some table => rfl
  | Rewriting name targets =>
      simp only [Change.KeepsNotNull, getTable_shape]
      cases schema.getTable name with
      | none => rfl
      | some table => rfl

theorem Idle.framed (h : Idle vm) : Framed (worldOf vm) vm where
  schema := rfl
  snapshot s hs := by
    rw [h.snapshot] at hs
    cases hs
  inTransaction := .inl trivial

theorem Idle.notNullInv (h : Idle vm) : NotNullInv (shape vm.schema) vm where
  trees := notNullKept_shape.mpr h.rows
  catalog trees htrees := by
    rw [h.catalog] at htrees
    cases htrees
  tables trees htrees := by
    rw [h.tables] at htrees
    cases htrees
  planned name targets hmem := by
    rw [h.history] at hmem
    cases hmem

-- In every run of statements, nested ones included, in which no update and no upsert sets a NOT NULL column to
-- NULL and no INSERT leaves out a second NOT NULL key, no NOT NULL column of a row is NULL in any state.
theorem run_notNullKept (E : Engine τ) (depth : Nat) (vm : VM τ) (hclosed : Closed E (worldOf vm))
    (hstart : Idle vm) (sqls : List String) (hsqls : ∀ sql ∈ sqls, Allowed (worldOf vm) E sql)
    (hkeeps : Meets (afterSql E depth) (KeepsNotNulls E depth vm.schema) sqls vm) :
    NotNullKept (run (afterSql E depth) sqls vm).schema (run (afterSql E depth) sqls vm).trees := by
  have heffects : Effects _ vm (run (afterSql E depth) sqls vm) := run_effects hclosed hsqls hstart.framed
  have hhistory := run_history hclosed hsqls hstart.framed (fun c hc => by rw [hstart.history] at hc; cases hc) hkeeps
  have hinv := heffects.notNullInv (placed_shape hstart.placed)
      (fun c hc => keepsNotNull_shape.mpr (hhistory c hc))
    hstart.notNullInv
  refine notNullKept_shape.mp ?_
  rw [(heffects.framed hstart.framed).schema]
  exact hinv.trees

end Run

section Sample

def valueColumn : ColumnInfo := ⟨"v", .Integer, false, true, 1⟩

-- An empty database in memory with the table `t (id INTEGER PRIMARY KEY, v INTEGER NOT NULL)`.
def notNullVm : VM Unit :=
  { keyVm with schema := ⟨[("t".toList, ⟨"t", [keyColumn, valueColumn], ["id", "v"], 1, [], []⟩)], [], []⟩ }

def insertPair : String := "INSERT INTO t VALUES (1, 5)"

def clearValue : String := "UPDATE t SET v = NULL"

def setValue : String := "UPDATE t SET v = 6"

def upsertClear : String := "INSERT INTO t VALUES (1, 7) ON CONFLICT DO UPDATE SET v = NULL"

def notNullEngine : Engine Unit := plainEngine fun sql =>
  if sql = insertPair then
    .ok (.Insert ⟨"t", none, .Values [[.IntegerLiteral 1, .IntegerLiteral 5]], .Error, none⟩)
  else if sql = clearValue then .ok (.Update ⟨"t", [("v", .Null)], none, none⟩)
  else if sql = setValue then .ok (.Update ⟨"t", [("v", .IntegerLiteral 6)], none, none⟩)
  else if sql = upsertClear then
    .ok (.Insert ⟨"t", none, .Values [[.IntegerLiteral 1, .IntegerLiteral 7]], .Update [("v", .Null)], none⟩)
  else .error (.Internal "")

def notNullPlaces (vm : VM Unit) (name : String) : List Nat :=
  (((vm.schema.getTable name).map TableSchema.columns).getD []).filterMap fun c =>
    if c.notNull then some c.colIndex else none

theorem not_notNullKept {vm : VM Unit} (hplace : 1 ∈ notNullPlaces vm "t")
    (hrows : lookupD vm.trees (tableRoot "t") [] = [(1, [.Integer 1, .Null])]) :
    ¬NotNullKept vm.schema vm.trees := by
  intro h
  obtain ⟨c, hc, hif⟩ := List.mem_filterMap.mp hplace
  cases htable : vm.schema.getTable "t" with
  | none =>
      rw [htable] at hc
      cases hc
  | some table =>
      rw [htable] at hc
      split_ifs at hif with hnn
      have hrow := h "t" table htable (1, [.Integer 1, .Null]) (hrows ▸ List.mem_cons_self) c hc hnn
      rw [Option.some.inj hif] at hrow
      exact hrow rfl

-- After an insert, an update and an upsert store NULL in the column.
theorem null_stored :
    (succeeds (executeSql notNullEngine 1 insertPair) notNullVm = true ∧
      succeeds (executeSql notNullEngine 1 clearValue) (afterSql notNullEngine 1 insertPair notNullVm) = true ∧
      ¬NotNullKept (run (afterSql notNullEngine 1) [insertPair, clearValue] notNullVm).schema
        (run (afterSql notNullEngine 1) [insertPair, clearValue] notNullVm).trees) ∧
    succeeds (executeSql notNullEngine 1 upsertClear) (afterSql notNullEngine 1 insertPair notNullVm) = true ∧
    ¬NotNullKept (run (afterSql notNullEngine 1) [insertPair, upsertClear] notNullVm).schema
      (run (afterSql notNullEngine 1) [insertPair, upsertClear] notNullVm).trees :=
  ⟨⟨by decide, by decide, not_notNullKept (by decide) (by decide)⟩, by decide, not_notNullKept (by decide)
    (by decide)⟩

theorem notNullEngine_allowed (W : World) (sql : String) : Allowed W notNullEngine sql := by
  unfold Allowed
  simp only [notNullEngine, plainEngine]
  split_ifs <;> trivial

theorem notNullVm_idle : Idle notNullVm where
  rows := fun _ _ _ r hr => absurd hr List.not_mem_nil
  placed := by
    intro name table htable c hc
    simp only [Schema.getTable, notNullVm, lookup_cons_eq] at htable
    split_ifs at htable
    · cases htable
      rcases List.mem_cons.mp hc with rfl | hc
      · decide
      · cases List.mem_singleton.mp hc
        decide
    · cases htable
  snapshot := rfl
  catalog := rfl
  tables := rfl
  history := rfl

theorem notNullVm_closed : Closed notNullEngine (worldOf notNullVm) where
  triggers := fun _ _ _ _ _ sql _ => notNullEngine_allowed _ sql
  deletes := fun _ => notNullEngine_allowed _ _
  updates := fun _ => notNullEngine_allowed _ _

theorem run_notNullKept_sample :
    NotNullKept (run (afterSql notNullEngine 1) [insertPair, setValue] notNullVm).schema
      (run (afterSql notNullEngine 1) [insertPair, setValue] notNullVm).trees :=
  run_notNullKept notNullEngine 1 notNullVm notNullVm_closed notNullVm_idle [insertPair, setValue]
    (fun sql _ => notNullEngine_allowed _ sql) (by decide)

end Sample

end Dml

end Kkdb
