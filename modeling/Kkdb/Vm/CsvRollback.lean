import Kkdb.Vm.CsvImport

namespace Kkdb.Csv

open Lib Dml
open JsonPath (Text)

section Calm

variable {τ α β : Type} {E : Dml.Engine τ} {exec : String → VmM τ ExecResult} {tableName : String}
  {vm vm' vm'' : VM τ}

-- What a ROLLBACK puts back is the same, and so are the triggers.
structure Same (vm vm' : VM τ) : Prop where
  triggers : vm'.schema.triggers = vm.schema.triggers
  directory : vm'.directory = vm.directory
  catalogTxn : vm'.catalogTxn = vm.catalogTxn
  tableTxn : vm'.tableTxn = vm.tableTxn

theorem Same.refl (vm : VM τ) : Same vm vm := ⟨rfl, rfl, rfl, rfl⟩

theorem Same.trans (h : Same vm vm') (h' : Same vm' vm'') : Same vm vm'' where
  triggers := h'.triggers.trans h.triggers
  directory := h'.directory.trans h.directory
  catalogTxn := h'.catalogTxn.trans h.catalogTxn
  tableTxn := h'.tableTxn.trans h.tableTxn

theorem Same.of_touches (h : Relation.ReflTransGen Touch vm vm') : Same vm vm' := by
  induction h with
  | refl => exact .refl _
  | tail _ hstep ih => cases hstep <;> exact ih.trans ⟨rfl, rfl, rfl, rfl⟩

def Untriggered (tableName : String) (vm : VM τ) : Prop :=
  ∀ timing, vm.schema.getTriggers tableName timing .Insert = []

theorem Same.untriggered (h : Same vm vm') (hquiet : Untriggered tableName vm) : Untriggered tableName vm' := by
  intro timing
  rw [Schema.getTriggers, h.triggers]
  exact hquiet timing

-- On a table without INSERT triggers the call leaves it at that, whether it succeeds or fails.
def Calm (tableName : String) (x : VmM τ α) : Prop := ∀ vm, Untriggered tableName vm → Same vm (left x vm)

variable {x : VmM τ α} {f : α → VmM τ β}

theorem Calm.bind (hx : Calm tableName x) (hf : ∀ a, Calm tableName (f a)) : Calm tableName (x >>= f) := by
  intro vm hquiet
  refine left_bind Same (fun _ _ _ => Same.trans) (hx vm hquiet) fun a vm' hrun => hf a vm' ?_
  have hsame := hx vm hquiet
  rw [left_ok hrun] at hsame
  exact hsame.untriggered hquiet

theorem Calm.of_touches (h : Touches x) : Calm tableName x := fun vm _ => .of_touches (h vm)

theorem Calm.of_reads (h : Reads x) : Calm tableName x := .of_touches (.of_reads h)

theorem Calm.modify {g : VM τ → VM τ} (h : ∀ vm, Same vm (g vm)) : Calm tableName (modify g : VmM τ Unit) :=
  fun vm _ => h vm

theorem calm_fireTriggers (timing : TriggerTiming) :
    Calm tableName (fireTriggers exec tableName timing .Insert) := by
  intro vm hquiet
  rw [left_ok (fireTriggers_empty (hquiet timing))]
  exact .refl vm

variable {plan : InsertPlan}

theorem calm_storeRow (given : Row) (rowid : Int64) (row : Row) :
    Calm tableName (storeRow plan given rowid row : VmM τ Unit) := by
  have hput : Calm tableName (insertWithBuf (tableRoot plan.stmt.tableName) rowid row : VmM τ Unit) := by
    intro vm _
    rcases insertWithBuf_cases (tableRoot plan.stmt.tableName) rowid row vm with ⟨-, hrun⟩ | hrun
    · rw [left_ok hrun]
      exact ⟨rfl, rfl, rfl, rfl⟩
    · rw [left_error hrun]
      exact .refl vm
  exact hput.bind fun _ => .modify fun _ => ⟨rfl, rfl, rfl, rfl⟩

theorem calm_insertOrError (given : Row) (rowid : Int64) (row : Row) (loop : InsertLoop) :
    Calm plan.stmt.tableName (insertOrError E exec plan given rowid row loop) := by
  refine (Calm.of_touches (touches_validateUniqueIndexesForRow E _ rowid row)).bind fun _ => ?_
  refine (calm_storeRow given rowid row).bind fun _ => ?_
  refine (Calm.of_touches (touches_insertIndexEntries E _ rowid row)).bind fun _ => ?_
  refine (Calm.of_touches (touches_maintainFtsInsert E _ rowid row)).bind fun _ => ?_
  refine (Calm.of_touches (touches_maintainVecInsert E _ rowid row)).bind fun _ => ?_
  exact (calm_fireTriggers .After).bind fun _ => .of_reads (.pure _)

theorem calm_insertValueRow (hconflict : plan.stmt.conflict = .Error) (valueRow : Row) (loop : InsertLoop) :
    Calm plan.stmt.tableName (insertValueRow E exec plan valueRow loop) := by
  intro vm hquiet
  by_cases hsized : valueRow.length = plan.colIndices.length
  · unfold insertValueRow
    rw [if_neg (not_not.mpr hsized)]
    refine (Calm.bind (.of_reads (.chooseRowid _ _)) fun chosen => ?_ : Calm plan.stmt.tableName _) vm hquiet
    obtain ⟨rowid, row, next⟩ := chosen
    refine (calm_fireTriggers .Before).bind fun _ => (Calm.of_reads (.checkNotNull row plan)).bind fun _ => ?_
    refine (Calm.of_reads (.checkFkOnInsert _ row)).bind fun _ => ?_
    refine (Calm.of_reads (.checkConstraintsForRow E _ row)).bind fun _ => ?_
    rw [resolveConflict, hconflict]
    exact calm_insertOrError _ rowid row _
  · rw [left_error (insertValueRow_unsized E exec loop vm hsized)]
    exact .refl vm

theorem calm_insertLoop (plan : InsertPlan) (hconflict : plan.stmt.conflict = .Error) (valueRows : List Row)
    (loop : InsertLoop) : Calm plan.stmt.tableName (insertLoop E exec plan valueRows loop) := by
  induction valueRows generalizing loop with
  | nil => exact .of_reads (.pure loop)
  | cons valueRow valueRows ih => exact (calm_insertValueRow hconflict valueRow loop).bind ih

theorem calm_insertValueRows {insert : InsertStmt} (hconflict : insert.conflict = .Error) (valueRows : List Row) :
    Calm insert.tableName (insertValueRows E exec insert valueRows) := by
  refine (Calm.of_reads .getTable).bind fun table => (Calm.of_reads (.ofRes _)).bind fun colIndices => ?_
  have hloop : Calm insert.tableName
      (insertLoop E exec ⟨insert, table, colIndices⟩ valueRows ⟨table.nextRowid, 0, []⟩) :=
    calm_insertLoop ⟨insert, table, colIndices⟩ hconflict valueRows _
  refine hloop.bind fun loop => (Calm.of_reads .getTable).bind fun _ => ?_
  have hnumber : Calm insert.tableName (modify fun vm =>
      { vm with schema := vm.schema.setNextRowid insert.tableName loop.nextRowid } : VmM τ Unit) :=
    .modify fun vm => ⟨rfl, rfl, rfl, rfl⟩
  refine hnumber.bind fun _ => ?_
  cases insert.returning with
  | none => exact .of_reads (.pure _)
  | some exprs => exact .of_reads (.returningResult _ _ _)

theorem same_execInsert {insert : InsertStmt} (hconflict : insert.conflict = .Error)
    (hinside : vm.catalogTxn.isSome = true) (hquiet : Untriggered insert.tableName vm) :
    Same vm (left (execInsert E exec insert) vm) := by
  cases hrows : sourceRows E insert.source vm with
  | error e =>
      rw [left_error (execInsert_refused exec hrows)]
      exact .refl vm
  | ok valueRows =>
      rw [left, execInsert_inside exec hinside hrows]
      exact calm_insertValueRows hconflict valueRows vm hquiet

end Calm

section Undoing

variable {τ α : Type} {E : Dml.Engine τ} {depth : Nat} {tableName : String} {toF64 : Text → UInt64}
  {file line : Text} {lines : List Text} {e : KkdbError} {r : EStateM.Result Fault (VM τ) α} {vm vm' : VM τ}

def rolledBack (vm : VM τ) : VM τ := vm.rollbackCatalog.rollbackTables.restoreSchema.clearIndexCaches

-- A call that fails has rolled back all that it did.
def Undoes (vm : VM τ) : EStateM.Result Fault (VM τ) α → Prop
  | .ok _ vm' => Same vm vm'
  | .error (.Err _) vm' => ∃ vm₁, Same vm vm₁ ∧ vm' = rolledBack vm₁
  | .error _ _ => True

theorem Undoes.after (h : Undoes vm' r) (hsame : Same vm vm') : Undoes vm r := by
  cases r with
  | ok a vm'' => exact hsame.trans h
  | error f vm'' =>
      cases f with
      | Err e =>
          obtain ⟨vm₁, hsame', rfl⟩ := h
          exact ⟨vm₁, hsame.trans hsame', rfl⟩
      | _ => trivial

theorem same_insertSql (h : Parses E tableName toF64 file) (hline : line ∈ dataLines file)
    (hinside : vm.catalogTxn.isSome = true) (hquiet : Untriggered tableName vm) :
    Same vm (left (executeSql E (depth + 1) (insertSql tableName (lineLiterals line))) vm) := by
  have hinsert := h.inserts line hline
  cases hexprs : (lineLiterals line).mapM (Literal.expr toF64) with
  | error e =>
      rw [hexprs] at hinsert
      rw [executeSql_succ, runSql, hinsert]
      exact .refl vm
  | ok exprs =>
      rw [hexprs] at hinsert
      rw [executeSql_parsed hinsert]
      exact same_execInsert rfl hinside hquiet

theorem importLine_undoes (h : Parses E tableName toF64 file) (hline : line ∈ dataLines file)
    (hinside : vm.catalogTxn.isSome = true) (hquiet : Untriggered tableName vm) :
    Undoes vm (importLine E (depth + 1) tableName line vm) := by
  have hsame : Same vm (left (executeSql E (depth + 1) (insertSql tableName (lineLiterals line))) vm) :=
    same_insertSql h hline hinside hquiet
  cases hrun : executeSql E (depth + 1) (insertSql tableName (lineLiterals line)) vm with
  | ok r vm₁ =>
      rw [left_ok hrun] at hsame
      have hattempt : attempt (executeSql E (depth + 1) (insertSql tableName (lineLiterals line))) vm =
          .ok (.ok r) vm₁ := by rw [attempt, hrun]
      rw [importLine, bind_ok hattempt]
      exact hsame
  | error f vm₁ =>
      rw [left_error hrun] at hsame
      cases f with
      | Err e =>
          have hattempt : attempt (executeSql E (depth + 1) (insertSql tableName (lineLiterals line))) vm =
              .ok (.error e) vm₁ := by rw [attempt, hrun]
          rw [importLine, bind_ok hattempt, executeSql_parsed h.rollsBack]
          exact ⟨vm₁, hsame, rfl⟩
      | _ =>
          rw [importLine, bind_error (by rw [attempt, hrun])]
          trivial

theorem importLines_undoes (h : Parses E tableName toF64 file) (hlines : ∀ line ∈ lines, line ∈ dataLines file)
    (hinside : vm.catalogTxn.isSome = true) (hquiet : Untriggered tableName vm) :
    Undoes vm (lines.forM (importLine E (depth + 1) tableName) vm) := by
  induction lines generalizing vm with
  | nil => exact Same.refl vm
  | cons line lines ih =>
      obtain ⟨hline, hrest⟩ := List.forall_mem_cons.mp hlines
      have hfirst : Undoes vm (importLine E (depth + 1) tableName line vm) :=
        importLine_undoes h hline hinside hquiet
      show Undoes vm ((importLine E (depth + 1) tableName line >>= fun _ =>
        lines.forM (importLine E (depth + 1) tableName)) vm)
      cases hrun : importLine E (depth + 1) tableName line vm with
      | ok u vm₁ =>
          rw [hrun] at hfirst
          rw [bind_ok hrun]
          exact (ih hrest (hfirst.catalogTxn ▸ hinside) (hfirst.untriggered hquiet)).after hfirst
      | error f vm₁ =>
          rw [hrun] at hfirst
          rw [bind_error hrun]
          exact hfirst

-- In directory mode the trees come back with the pagers of the tables.
theorem trees_rolledBack (htables : vm.tableTxn = none) (h : Same (opened vm) vm') :
    (rolledBack vm').trees = vm.trees := by
  show vm'.tableTxn.getD (if vm'.directory = true then vm'.trees else vm'.catalogTxn.getD vm'.trees) = vm.trees
  rw [h.tableTxn, h.directory, h.catalogTxn]
  show (if vm.directory = true ∧ vm.tableTxn.isNone = true then some vm.trees else vm.tableTxn).getD
    (if vm.directory = true then vm'.trees else vm.trees) = vm.trees
  rw [htables]
  cases vm.directory <;> rfl

-- An import that fails leaves every row as it was.
theorem importCsv_undone (h : Parses E tableName toF64 file) (hquiet : Untriggered tableName vm)
    (htables : vm.tableTxn = none) (hrun : importCsv E (depth + 1) tableName file vm = .error (.Err e) vm') :
    vm'.trees = vm.trees := by
  by_cases hfile : readLines [] file = []
  · rw [importCsv, if_pos hfile] at hrun
    cases hrun
    rfl
  · rw [importCsv_eq h hfile] at hrun
    cases hbusy : vm.catalogTxn.isSome with
    | true =>
        rw [transaction, bind_error (execBegin_busy hbusy)] at hrun
        cases hrun
        rfl
    | false =>
        rw [transaction, bind_ok (execBegin_idle hbusy)] at hrun
        have hread := (Reads.getTable : Reads (getTable tableName : VmM τ _)) (opened vm)
        cases hget : (getTable tableName : VmM τ _) (opened vm) with
        | error f vm₁ =>
            rw [left_error hget] at hread
            rw [bind_error hget, hread] at hrun
            cases hrun
            rfl
        | ok table vm₁ =>
            rw [left_ok hget] at hread
            rw [bind_ok hget, hread] at hrun
            have hundoes : Undoes (opened vm) ((dataLines file).forM (importLine E (depth + 1) tableName) (opened vm)) :=
              importLines_undoes h (fun _ hline => hline) rfl hquiet
            cases hlines : (dataLines file).forM (importLine E (depth + 1) tableName) (opened vm) with
            | ok u vm₂ =>
                rw [bind_ok hlines] at hrun
                cases hrun
            | error f vm₂ =>
                rw [bind_error hlines] at hrun
                cases hrun
                rw [hlines] at hundoes
                obtain ⟨vm₃, hsame, rfl⟩ := hundoes
                exact trees_rolledBack htables hsame

end Undoing

section Exact

variable {τ : Type} {E : Dml.Engine τ} {depth : Nat} {tableName : String} {toF64 : Text → UInt64}
  {realText : UInt64 → Text} {columns : List String} {rows : List Row} {vm : VM τ}

-- Rows that survive in the file are inserted again as they are. They all have to, and a table that refuses one
-- of the lines keeps none.
theorem importCsv_exact (hparse : Parses E tableName toF64 (exportCsv realText columns rows))
    (hcolumns : ∀ c ∈ columns, '\n' ∉ c.toList) (hreal : ∀ row ∈ rows, ∀ v ∈ row, ∀ b, v ≠ .Real b) :
    ((∀ row ∈ rows, Survives row) →
      importCsv E (depth + 1) tableName (exportCsv realText columns rows) = reinsertRows E depth tableName rows) ∧
    (Target tableName vm →
      (Restores (importCsv E (depth + 1) tableName (exportCsv realText columns rows)) tableName rows vm ↔
        (∀ row ∈ rows, Survives row) ∧ Restores (reinsertRows E depth tableName rows) tableName rows vm)) ∧
    (Target tableName vm → vm.tableTxn = none → ∀ e vm',
      importCsv E (depth + 1) tableName (exportCsv realText columns rows) vm = .error (.Err e) vm' →
        vm'.tree (tableRoot tableName) = []) := by
  have hsame : (∀ row ∈ rows, Survives row) → importCsv E (depth + 1) tableName (exportCsv realText columns rows) =
      reinsertRows E depth tableName rows := importCsv_of_survives hparse hcolumns hreal
  refine ⟨hsame, fun htarget => restores_iff hsame ?_, fun htarget htables e vm' hrun => ?_⟩
  · exact survives_of_restores hparse hcolumns hreal htarget
  · rw [VM.tree, importCsv_undone hparse htarget.quiet htables hrun]
    exact htarget.empty

end Exact

section BrokenLine

def brokenRows : List Row := [[.Integer 7, .Text "a\nb"]]

def brokenEngine : Dml.Engine Unit := scriptEngine [("BEGIN TRANSACTION;", .Begin), ("COMMIT;", .Commit),
  ("ROLLBACK;", .Rollback),
  ("INSERT INTO t VALUES (7, 'a');", .Insert (insertOf "t" [.IntegerLiteral 7, .StringLiteral "a"])),
  ("INSERT INTO t VALUES ('b');", .Insert (insertOf "t" [.StringLiteral "b"]))]

def brokenFile : Text := exportCsv (fun _ => []) ["n", "v"] brokenRows

theorem brokenEngine_parses : Parses brokenEngine "t" (fun _ => 0) brokenFile where
  begins := rfl
  commits := rfl
  rollsBack := rfl
  inserts := by
    have hlines : dataLines brokenFile = ["7,\"a".toList, "b\"".toList] := by decide
    rw [hlines]
    intro line hline
    rcases List.mem_pair.mp hline with rfl | rfl <;> rfl

-- The table takes the row, but the quoted newline ends its line in the file.
theorem brokenLine_rejected : Restores (reinsertRows brokenEngine 0 "t" brokenRows) "t" brokenRows csvVm ∧
    ¬Restores (importCsv brokenEngine 1 "t" brokenFile) "t" brokenRows csvVm := by
  refine ⟨⟨_, rfl, rfl⟩, ?_⟩
  rintro ⟨vm', hrun, -⟩
  have hrejected : ∃ vm₁, importCsv brokenEngine 1 "t" brokenFile csvVm =
      .error (.Err (.ColumnCountMismatch 2 1)) vm₁ := ⟨_, rfl⟩
  obtain ⟨vm₁, hrejected⟩ := hrejected
  rw [hrejected] at hrun
  cases hrun

theorem exact_brokenLine : ¬Restores (importCsv brokenEngine 1 "t" brokenFile) "t" brokenRows csvVm ∧
    ∀ e vm', importCsv brokenEngine 1 "t" brokenFile csvVm = .error (.Err e) vm' → vm'.tree (tableRoot "t") = [] := by
  have hcolumns : ∀ c ∈ ["n", "v"], '\n' ∉ c.toList :=
    List.forall_mem_cons.mpr ⟨by decide, List.forall_mem_singleton.mpr (by decide)⟩
  have hreal : ∀ row ∈ brokenRows, ∀ v ∈ row, ∀ b, v ≠ .Real b := by
    intro row hrow v hv b hb
    rw [List.mem_singleton.mp hrow] at hv
    rcases List.mem_pair.mp hv with rfl | rfl <;> cases hb
  obtain ⟨-, hexact, hundone⟩ := importCsv_exact brokenEngine_parses hcolumns hreal
  refine ⟨fun hrestores => ?_, hundone csvVm_target rfl⟩
  have hsurvives := ((hexact csvVm_target).mp hrestores).1 _ (List.mem_singleton.mpr rfl)
  exact hsurvives.oneLine "a\nb" (List.mem_pair.mpr (.inr rfl)) (by decide)

end BrokenLine

end Kkdb.Csv
