import Kkdb.Lib.Copies
import Kkdb.Vm.Constraints
import Kkdb.Vm.Csv
import Kkdb.Vm.NotNull
import Kkdb.Vm.RowidRuns

namespace Kkdb.Csv

open Lib Dml
open JsonPath (Text)

section Import

variable {τ : Type} (E : Dml.Engine τ) (depth : Nat) (tableName : String)

def insertSql (literals : List Literal) : String :=
  "INSERT INTO " ++ tableName ++ " VALUES (" ++
    String.intercalate ", " (literals.map fun l => String.ofList l.sql) ++ ");"

-- A statement that fails takes the whole transaction back.
def importLine (line : Text) : VmM τ Unit := do
  match ← attempt (executeSql E depth (insertSql tableName (lineLiterals line))) with
  | .ok _ => pure ()
  | .error e => do
      let _ ← attempt (executeSql E depth "ROLLBACK;")
      throw (.Err e)

def importCsv (file : Text) : VmM τ Unit := do
  if readLines [] file = [] then throw (.Err (.Internal "Empty CSV file"))
  let _ ← executeSql E depth "BEGIN TRANSACTION;"
  let _ ← getTable tableName
  (dataLines file).forM (importLine E depth tableName)
  let _ ← executeSql E depth "COMMIT;"

def insertOf (exprs : List Expr) : InsertStmt := ⟨tableName, none, .Values [exprs], .Error, none⟩

-- What the parser, which is not part of the source, makes of the statements that an import of the file runs.
structure Parses (toF64 : Text → UInt64) (file : Text) : Prop where
  begins : E.parseSql "BEGIN TRANSACTION;" = .ok .Begin
  commits : E.parseSql "COMMIT;" = .ok .Commit
  rollsBack : E.parseSql "ROLLBACK;" = .ok .Rollback
  inserts : ∀ line ∈ dataLines file, E.parseSql (insertSql tableName (lineLiterals line)) =
    ((lineLiterals line).mapM (Literal.expr toF64)).map fun exprs => .Insert (insertOf tableName exprs)

def transaction (work : VmM τ Unit) : VmM τ Unit := do
  let _ ← execBegin
  let _ ← getTable tableName
  work
  let _ ← execCommit

def reinsertRow (row : Row) : VmM τ Unit := do
  match ← attempt (execInsert E (executeSql E depth) (plainInsert tableName row)) with
  | .ok _ => pure ()
  | .error e => do
      let _ ← attempt execRollback
      throw (.Err e)

def reinsertRows (rows : List Row) : VmM τ Unit := transaction tableName (rows.forM (reinsertRow E depth tableName))

end Import

def Restores {τ : Type} (x : VmM τ Unit) (tableName : String) (rows : List Row) (vm : VM τ) : Prop :=
  ∃ vm', x vm = .ok () vm' ∧ (vm'.tree (tableRoot tableName)).map Prod.snd = rows

section Adding

variable {τ α β : Type} {E : Dml.Engine τ} {exec : String → VmM τ ExecResult} {tableName : String}
  {rows rows' : List Row} {vm vm' vm'' : VM τ}

-- The rows come to those of the table, in the transaction that was there.
structure Adds (tableName : String) (rows : List Row) (vm vm' : VM τ) : Prop where
  rows : ((vm'.tree (tableRoot tableName)).map Prod.snd).Perm (rows ++ (vm.tree (tableRoot tableName)).map Prod.snd)
  triggers : vm'.schema.triggers = vm.schema.triggers
  inside : vm'.catalogTxn = vm.catalogTxn

theorem Adds.refl (vm : VM τ) : Adds tableName [] vm vm := ⟨List.Perm.refl _, rfl, rfl⟩

theorem Adds.trans (h : Adds tableName rows vm vm') (h' : Adds tableName rows' vm' vm'') :
    Adds tableName (rows ++ rows') vm vm'' where
  rows := by
    refine h'.rows.trans ((h.rows.append_left rows').trans ?_)
    rw [← List.append_assoc]
    exact List.perm_append_comm.append_right _
  triggers := h'.triggers.trans h.triggers
  inside := h'.inside.trans h.inside

theorem Adds.of_touch (h : Touch vm vm') : Adds tableName [] vm vm' := by
  cases h with
  | cached caches side => exact ⟨List.Perm.refl _, rfl, rfl⟩
  | indexed name rows =>
      refine ⟨?_, rfl, rfl⟩
      rw [VM.tree, VM.setTree, lookupD_put, if_neg (by rintro ⟨⟩)]
      exact List.Perm.refl _

theorem Adds.of_touches {x : VmM τ α} {a : α} (hx : Touches x) (h : x vm = .ok a vm') :
    Adds tableName [] vm vm' := by
  have hsteps := hx vm
  rw [left_ok h] at hsteps
  clear h
  induction hsteps with
  | refl => exact .refl _
  | tail _ hstep ih => exact ih.trans (.of_touch hstep)

theorem Adds.of_reads {x : VmM τ α} {a : α} (hx : Reads x) (h : x vm = .ok a vm') : Adds tableName [] vm vm' :=
  .of_touches (.of_reads hx) h

theorem fireTriggers_empty {name : String} {timing : TriggerTiming} {event : TriggerEvent}
    (h : vm.schema.getTriggers name timing event = []) : fireTriggers exec name timing event vm = .ok () vm := by
  rw [fireTriggers, get_bind, h]
  rfl

theorem Adds.getTriggers (h : Adds tableName rows vm vm') (name : String) (timing : TriggerTiming)
    (event : TriggerEvent) : vm'.schema.getTriggers name timing event = vm.schema.getTriggers name timing event := by
  rw [Schema.getTriggers, Schema.getTriggers, h.triggers]

variable {plan : InsertPlan} {given row valueRow : Row} {rowid : Int64} {loop loop' : InsertLoop}

theorem storeRow_adds (h : storeRow plan given rowid row vm = .ok () vm') :
    Adds plan.stmt.tableName [row] vm vm' := by
  obtain ⟨_, vm₁, hput, hrecord⟩ := ok_of_bind_state h
  rcases insertWithBuf_cases (tableRoot plan.stmt.tableName) rowid row vm with ⟨hfresh, hrun⟩ | hrun
  · obtain ⟨-, rfl⟩ := EStateM.Result.ok.inj (hrun.symm.trans hput)
    obtain ⟨-, rfl⟩ := EStateM.Result.ok.inj hrecord
    refine ⟨?_, rfl, rfl⟩
    show ((lookupD (put (tableRoot plan.stmt.tableName) _ vm.trees) _ []).map Prod.snd).Perm _
    rw [lookupD_put, if_pos rfl]
    exact (putRow_perm (notMem_of_lookup_eq_none hfresh)).map Prod.snd
  · rw [hrun] at hput
    cases hput

theorem insertOrError_adds (hquiet : vm.schema.getTriggers plan.stmt.tableName .After .Insert = [])
    (h : insertOrError E exec plan given rowid row loop vm = .ok loop' vm') :
    Adds plan.stmt.tableName [row] vm vm' := by
  obtain ⟨_, vm₁, hvalid, h⟩ := ok_of_bind_state h
  obtain ⟨_, vm₂, hstore, h⟩ := ok_of_bind_state h
  obtain ⟨_, vm₃, hentries, h⟩ := ok_of_bind_state h
  obtain ⟨_, vm₄, hfts, h⟩ := ok_of_bind_state h
  obtain ⟨_, vm₅, hvec, h⟩ := ok_of_bind_state h
  have hadds : Adds plan.stmt.tableName [row] vm vm₅ :=
    (Adds.of_touches (touches_validateUniqueIndexesForRow E _ rowid row) hvalid).trans
      ((storeRow_adds hstore).trans
        ((Adds.of_touches (touches_insertIndexEntries E _ rowid row) hentries).trans
          ((Adds.of_touches (touches_maintainFtsInsert E _ rowid row) hfts).trans
            (Adds.of_touches (touches_maintainVecInsert E _ rowid row) hvec))))
  rw [bind_ok (fireTriggers_empty ((hadds.getTriggers _ _ _).trans hquiet))] at h
  obtain ⟨-, rfl⟩ := EStateM.Result.ok.inj h
  exact hadds

theorem insertValueRow_adds (hconflict : plan.stmt.conflict = .Error)
    (hquiet : ∀ timing, vm.schema.getTriggers plan.stmt.tableName timing .Insert = [])
    (h : insertValueRow E exec plan valueRow loop vm = .ok loop' vm') :
    valueRow.length = plan.colIndices.length ∧ ∃ rowid row,
      Dml.Filled plan.table.pkColIdx (alignRow plan.table.columns.length plan.colIndices valueRow) rowid row ∧
        Adds plan.stmt.tableName [row] vm vm' := by
  by_cases hsized : valueRow.length = plan.colIndices.length
  · refine ⟨hsized, ?_⟩
    unfold insertValueRow at h
    rw [if_neg (not_not.mpr hsized)] at h
    obtain ⟨⟨rowid, row, next⟩, vm₁, hchoose, h⟩ := ok_of_bind_state h
    have hfilled := chooseRowid_ok hchoose
    have hchosen : Adds plan.stmt.tableName [] vm vm₁ := .of_reads (.chooseRowid _ _) hchoose
    dsimp only at h
    rw [bind_ok (fireTriggers_empty ((hchosen.getTriggers _ _ _).trans (hquiet _)))] at h
    obtain ⟨_, vm₂, hnull, h⟩ := ok_of_bind_state h
    obtain ⟨_, vm₃, hfk, h⟩ := ok_of_bind_state h
    obtain ⟨_, vm₄, hcheck, h⟩ := ok_of_bind_state h
    have hchecked : Adds plan.stmt.tableName [] vm vm₄ :=
      hchosen.trans ((Adds.of_reads (.checkNotNull row plan) hnull).trans
        ((Adds.of_reads (.checkFkOnInsert _ row) hfk).trans (Adds.of_reads (.checkConstraintsForRow E _ row) hcheck)))
    rw [resolveConflict, hconflict] at h
    have hadds := insertOrError_adds ((hchecked.getTriggers _ _ _).trans (hquiet _)) h
    exact ⟨rowid, row, hfilled, hchecked.trans hadds⟩
  · rw [insertValueRow_unsized E exec loop vm hsized] at h
    cases h

theorem execInsert_adds {insert : InsertStmt} {r : ExecResult} (hinside : vm.catalogTxn.isSome = true)
    (hall : insert.columns = none) (hconflict : insert.conflict = .Error) (hreturning : insert.returning = none)
    (hrows : sourceRows E insert.source vm = .ok [given])
    (hquiet : ∀ timing, vm.schema.getTriggers insert.tableName timing .Insert = [])
    (h : execInsert E exec insert vm = .ok r vm') :
    ∃ pk rowid row, Dml.Filled pk given rowid row ∧ Adds insert.tableName [row] vm vm' := by
  rw [execInsert_inside exec hinside hrows] at h
  obtain ⟨table, vm₁, hget, h⟩ := ok_of_bind_state h
  have hfound : Adds insert.tableName [] vm vm₁ := .of_reads .getTable hget
  rw [hall] at h
  obtain ⟨colIndices, _, hcols, h⟩ := ok_of_bind_state h
  obtain ⟨rfl, hrange⟩ := ofRes_ok hcols
  obtain rfl := Except.ok.inj hrange
  obtain ⟨loop, vm₂, hloop, h⟩ := ok_of_bind_state h
  obtain ⟨loop', vm₃, hrow, hdone⟩ := ok_of_bind_state hloop
  obtain ⟨-, rfl⟩ := EStateM.Result.ok.inj hdone
  obtain ⟨hsized, rowid, row, hfilled, hadds⟩ :=
    insertValueRow_adds hconflict (fun timing => (hfound.getTriggers _ _ _).trans (hquiet timing)) hrow
  obtain ⟨_, vm₄, hget', h⟩ := ok_of_bind_state h
  have hfound' : Adds insert.tableName [] vm₃ vm₄ := .of_reads .getTable hget'
  rw [modify_bind, hreturning] at h
  obtain ⟨-, rfl⟩ := EStateM.Result.ok.inj h
  refine ⟨table.pkColIdx, rowid, row, ?_, hfound.trans (hadds.trans (hfound'.trans ⟨List.Perm.refl _, rfl, rfl⟩))⟩
  rw [List.length_range] at hsized
  rw [← hsized, alignRow_range] at hfilled
  exact hfilled

end Adding

section Statements

variable {τ : Type} {E : Dml.Engine τ} {depth : Nat} {tableName : String} {toF64 : Text → UInt64} {env : EvalEnv}
  {file line : Text} {lines : List Text} {literals : List Literal} {exprs : List Expr} {row : Row}
  {vm vm' : VM τ}

theorem executeSql_parsed {sql : String} {stmt : Stmt} (h : E.parseSql sql = .ok stmt) :
    executeSql E (depth + 1) sql = executeStatement E (executeSql E depth) stmt sql := by
  rw [executeSql_succ]
  funext vm
  rw [runSql, h]

theorem importCsv_eq (h : Parses E tableName toF64 file) (hfile : readLines [] file ≠ []) :
    importCsv E (depth + 1) tableName file =
      transaction tableName ((dataLines file).forM (importLine E (depth + 1) tableName)) := by
  rw [importCsv, if_neg hfile, executeSql_parsed h.begins, executeSql_parsed h.commits]
  rfl

theorem importLine_eq (h : Parses E tableName toF64 file) (hline : line ∈ dataLines file)
    (hexprs : (lineLiterals line).mapM (Literal.expr toF64) = .ok exprs) :
    importLine E (depth + 1) tableName line = (do
      match ← attempt (execInsert E (executeSql E depth) (insertOf tableName exprs)) with
      | .ok _ => pure ()
      | .error e => do
          let _ ← attempt execRollback
          throw (.Err e)) := by
  have hinsert := h.inserts line hline
  rw [hexprs] at hinsert
  rw [importLine, executeSql_parsed hinsert, executeSql_parsed h.rollsBack]
  rfl

-- Literals have no columns or functions to look up.
theorem value_env (l : Literal) (env env' : EvalEnv) : l.value toF64 env = l.value toF64 env' := by
  cases l with
  | null => rw [value_null, value_null]
  | text f => rw [value_text, value_text]
  | number f =>
      rw [Literal.value, Literal.value, Literal.expr]
      cases hexpr : signedNumber toF64 f with
      | error e => rfl
      | ok e =>
          obtain ⟨raw, e', hraw, he⟩ := signedNumber_cases hexpr
          rcases parseNumberLiteral_cases hraw with ⟨i, rfl⟩ | ⟨b, rfl⟩ <;> rcases he with rfl | rfl <;>
            simp only [EvalEnv.evalExpr]

theorem lineValues_env (line : Text) (env env' : EvalEnv) : lineValues toF64 env line = lineValues toF64 env' line :=
  congrArg (fun value => (lineLiterals line).mapM value) (funext fun l => value_env l env env')

theorem values_of_exprs (h : literals.mapM (Literal.expr toF64) = .ok exprs) :
    literals.mapM (Literal.value toF64 env) = exprs.mapM fun e => env.evalExpr e [] [] := by
  induction literals generalizing exprs with
  | nil =>
      obtain rfl := Except.ok.inj h
      rfl
  | cons l literals ih =>
      rw [List.mapM_cons] at h
      obtain ⟨e, he, h⟩ := ok_of_bind h
      obtain ⟨es, hes, hdone⟩ := ok_of_bind h
      obtain rfl := Except.ok.inj hdone
      have hvalue : l.value toF64 env = env.evalExpr e [] [] := by rw [Literal.value, he]
      rw [List.mapM_cons, List.mapM_cons, hvalue, ih hes]

theorem exprs_of_values (h : literals.mapM (Literal.value toF64 env) = .ok row) :
    ∃ exprs, literals.mapM (Literal.expr toF64) = .ok exprs := by
  induction literals generalizing row with
  | nil => exact ⟨[], rfl⟩
  | cons l literals ih =>
      rw [List.mapM_cons] at h
      obtain ⟨v, hv, h⟩ := ok_of_bind h
      obtain ⟨vs, hvs, -⟩ := ok_of_bind h
      obtain ⟨es, hes⟩ := ih hvs
      cases he : l.expr toF64 with
      | error e =>
          rw [Literal.value, he] at hv
          cases hv
      | ok e =>
          refine ⟨e :: es, ?_⟩
          rw [List.mapM_cons, he, hes]
          rfl

theorem sourceRows_insertOf (h : (lineLiterals line).mapM (Literal.expr toF64) = .ok exprs) (vm : VM τ) :
    sourceRows E (insertOf tableName exprs).source vm = (lineValues toF64 (E.env vm) line).map fun row => [row] := by
  rw [lineValues, values_of_exprs h]
  show [exprs].mapM _ = _
  rw [List.mapM_cons]
  cases exprs.mapM fun e => (E.env vm).evalExpr e [] [] <;> rfl

-- The line does what an INSERT of its row does.
theorem execInsert_line (exec : String → VmM τ ExecResult)
    (hexprs : (lineLiterals line).mapM (Literal.expr toF64) = .ok exprs)
    (hvalues : lineValues toF64 env line = .ok row) :
    execInsert E exec (insertOf tableName exprs) = execInsert E exec (plainInsert tableName row) := by
  funext vm
  have hline : sourceRows E (insertOf tableName exprs).source vm = .ok [row] := by
    rw [sourceRows_insertOf hexprs, lineValues_env line (E.env vm) env, hvalues]
    rfl
  have hrow := sourceRows_plainInsert E tableName row vm
  have hsame : ∀ vm, insertValueRows E exec (insertOf tableName exprs) [row] vm =
      insertValueRows E exec (plainInsert tableName row) [row] vm := fun _ => rfl
  by_cases hinside : vm.catalogTxn.isSome = true
  · rw [execInsert_inside exec hinside hline, execInsert_inside exec hinside hrow, hsame]
  · rw [execInsert_alone exec hinside hline, execInsert_alone exec hinside hrow, hsame]

theorem importLine_reinserts (h : Parses E tableName toF64 file) (hline : line ∈ dataLines file)
    (hvalues : lineValues toF64 env line = .ok row) :
    importLine E (depth + 1) tableName line = reinsertRow E depth tableName row := by
  obtain ⟨exprs, hexprs⟩ := exprs_of_values hvalues
  rw [importLine_eq h hline hexprs, execInsert_line _ hexprs hvalues]
  rfl

theorem importLines_reinsert (h : Parses E tableName toF64 file) {rows : List Row}
    (hlines : ∀ line ∈ lines, line ∈ dataLines file) (hvalues : lines.mapM (lineValues toF64 env) = .ok rows) :
    lines.forM (importLine E (depth + 1) tableName) = rows.forM (reinsertRow E depth tableName) := by
  induction lines generalizing rows with
  | nil =>
      obtain rfl := Except.ok.inj hvalues
      rfl
  | cons line lines ih =>
      obtain ⟨hline, hrest⟩ := List.forall_mem_cons.mp hlines
      rw [List.mapM_cons] at hvalues
      obtain ⟨row, hrow, hvalues⟩ := ok_of_bind hvalues
      obtain ⟨rows, hrows, hdone⟩ := ok_of_bind hvalues
      obtain rfl := Except.ok.inj hdone
      show (importLine E (depth + 1) tableName line >>= fun _ => lines.forM (importLine E (depth + 1) tableName)) =
        (reinsertRow E depth tableName row >>= fun _ => rows.forM (reinsertRow E depth tableName))
      rw [importLine_reinserts h hline hrow, ih hrest hrows]

theorem importCsv_reinserts (h : Parses E tableName toF64 file) (hfile : readLines [] file ≠ []) {rows : List Row}
    (hrows : importedRows toF64 env file = .ok rows) :
    importCsv E (depth + 1) tableName file = reinsertRows E depth tableName rows := by
  rw [importCsv_eq h hfile, importLines_reinsert h (fun _ hline => hline) hrows, reinsertRows]

-- A line that is taken adds its row, with an omitted key filled in.
theorem importLine_adds (h : Parses E tableName toF64 file) (hline : line ∈ dataLines file) (env : EvalEnv)
    (hinside : vm.catalogTxn.isSome = true)
    (hquiet : ∀ timing, vm.schema.getTriggers tableName timing .Insert = [])
    (hrun : importLine E (depth + 1) tableName line vm = .ok () vm') :
    ∃ given row, lineValues toF64 env line = .ok given ∧ (∃ pk rowid, Dml.Filled pk given rowid row) ∧
      Adds tableName [row] vm vm' := by
  obtain ⟨result, vm₁, hattempt, hrun⟩ := ok_of_bind_state hrun
  cases result with
  | error e =>
      obtain ⟨_, vm₂, -, hthrow⟩ := ok_of_bind_state hrun
      cases hthrow
  | ok r =>
      obtain ⟨-, rfl⟩ := EStateM.Result.ok.inj hrun
      have hexec := attempt_ok hattempt
      have hinsert := h.inserts line hline
      cases hexprs : (lineLiterals line).mapM (Literal.expr toF64) with
      | error e =>
          rw [executeSql_succ, runSql, hinsert, hexprs] at hexec
          cases hexec
      | ok exprs =>
          rw [hexprs] at hinsert
          rw [executeSql_parsed hinsert] at hexec
          have hsource : sourceRows E (insertOf tableName exprs).source vm = _ := sourceRows_insertOf hexprs vm
          rw [lineValues_env line (E.env vm) env] at hsource
          cases hvalues : lineValues toF64 env line with
          | error e =>
              rw [hvalues] at hsource
              rw [executeStatement, execInsert_refused _ hsource] at hexec
              cases hexec
          | ok given =>
              rw [hvalues] at hsource
              obtain ⟨pk, rowid, row, hfilled, hadds⟩ := execInsert_adds hinside rfl rfl rfl hsource hquiet hexec
              exact ⟨given, row, rfl, ⟨pk, rowid, hfilled⟩, hadds⟩

theorem importLines_adds (h : Parses E tableName toF64 file) (hlines : ∀ line ∈ lines, line ∈ dataLines file)
    (env : EvalEnv) (hinside : vm.catalogTxn.isSome = true)
    (hquiet : ∀ timing, vm.schema.getTriggers tableName timing .Insert = [])
    (hrun : lines.forM (importLine E (depth + 1) tableName) vm = .ok () vm') :
    ∃ new stored, lines.mapM (lineValues toF64 env) = .ok new ∧
      List.Forall₂ (fun given row => ∃ pk rowid, Dml.Filled pk given rowid row) new stored ∧
      Adds tableName stored vm vm' := by
  induction lines generalizing vm with
  | nil =>
      obtain ⟨-, rfl⟩ := EStateM.Result.ok.inj hrun
      exact ⟨[], [], rfl, .nil, .refl _⟩
  | cons line lines ih =>
      obtain ⟨hline, hrest⟩ := List.forall_mem_cons.mp hlines
      obtain ⟨_, vm₁, hfirst, hrun⟩ := ok_of_bind_state hrun
      obtain ⟨given, row, hvalues, hfilled, hadds⟩ := importLine_adds h hline env hinside hquiet hfirst
      obtain ⟨new, stored, hnew, hstored, hadds'⟩ := ih hrest (by rw [hadds.inside]; exact hinside)
        (fun timing => (hadds.getTriggers _ _ _).trans (hquiet timing)) hrun
      refine ⟨given :: new, row :: stored, ?_, .cons hfilled hstored, hadds.trans hadds'⟩
      rw [List.mapM_cons, hvalues, hnew]
      rfl

end Statements

section Comparing

variable {toF64 : Text → UInt64} {env : EvalEnv} {realText : UInt64 → Text} {columns : List String}
  {rows new kept : List Row} {given row : Row} {pk : Option Nat} {rowid : Int64} {v : Value}

theorem filled_set (h : Dml.Filled pk given rowid row) :
    row = given ∨ ∃ k, given.getD k .Null = .Null ∧ row = given.set k (.Integer rowid) := by
  cases pk with
  | none => exact .inl h
  | some k =>
      rcases filled_cases h with ⟨hnull, hset⟩ | ⟨-, heq⟩
      · exact .inr ⟨k, hnull, hset⟩
      · exact .inl heq

theorem mem_set_of_null {k : Nat} {w : Value} (hnull : given.getD k .Null = .Null) (hv : v ∈ given) (hne : v ≠ .Null) :
    v ∈ given.set k w := by
  induction given generalizing k with
  | nil => exact absurd hv List.not_mem_nil
  | cons u given ih =>
      cases k with
      | zero =>
          have hu : u = .Null := hnull
          rcases List.mem_cons.mp hv with rfl | hv
          · exact absurd hu hne
          · exact List.mem_cons_of_mem _ hv
      | succ k =>
          rcases List.mem_cons.mp hv with rfl | hv
          · exact List.mem_cons_self
          · exact List.mem_cons_of_mem _ (ih hnull hv)

theorem mem_filled (h : Dml.Filled pk given rowid row) (hv : v ∈ given) (hne : v ≠ .Null) : v ∈ row := by
  rcases filled_set h with rfl | ⟨k, hnull, rfl⟩
  · exact hv
  · exact mem_set_of_null hnull hv hne

theorem of_mem_filled (h : Dml.Filled pk given rowid row) (hv : v ∈ row) (hne : ∀ i, v ≠ .Integer i) : v ∈ given := by
  rcases filled_set h with rfl | ⟨k, -, rfl⟩
  · exact hv
  · exact (List.mem_or_eq_of_mem_set hv).resolve_right (hne rowid)

theorem weigh_filled (h : Dml.Filled pk given rowid row) : weigh weight row = weigh weight given := by
  rcases filled_set h with rfl | ⟨k, hnull, rfl⟩
  · rfl
  · clear h
    induction given generalizing k with
    | nil => rfl
    | cons u given ih =>
        cases k with
        | zero =>
            have hu : u = .Null := hnull
            rw [hu]
            rfl
        | succ k => exact congrArg (weight u + ·) (ih k hnull)

theorem line_shrinks (hne : row ≠ []) (hreal : ∀ v ∈ row, ∀ b, v ≠ .Real b) (hgiven : ∀ b, .Real b ∉ given)
    (h : lineValues toF64 env (stripCr (csvLine realText row)) = .ok given) :
    given = row ∨ weigh weight given < weigh weight row := by
  rw [lineValues, lineLiterals_csvLine hne hreal, mapM_eq_ok_iff] at h
  exact eq_or_weigh_lt (fields_shrink hreal hgiven h)

-- The rows of the table do not come together again from other rows.
theorem survives_of_kept (hcolumns : ∀ c ∈ columns, '\n' ∉ c.toList)
    (hreal : ∀ row ∈ rows, ∀ v ∈ row, ∀ b, v ≠ .Real b)
    (hnew : importedRows toF64 env (exportCsv realText columns rows) = .ok new)
    (hkept : List.Forall₂ (fun given row => ∃ pk rowid, Dml.Filled pk given rowid row) new kept)
    (hperm : kept.Perm rows) : ∀ row ∈ rows, Survives row := by
  obtain ⟨hlen, hzip⟩ := List.forall₂_iff_zip.mp hkept
  have hlines : ∀ row ∈ rows, ∀ t, .Text t ∈ row → '\n' ∉ t.toList := by
    intro row hrow t ht
    rw [← hperm.mem_iff, ← List.map_snd_zip (le_of_eq hlen.symm)] at hrow
    obtain ⟨⟨given, row⟩, hpair, rfl⟩ := List.mem_map.mp hrow
    obtain ⟨pk, rowid, hfilled⟩ := hzip hpair
    exact noBreak_imported hnew given (List.of_mem_zip hpair).1 t (of_mem_filled hfilled ht fun i hi => by cases hi)
  have hplain : ∀ given ∈ new, ∀ b, .Real b ∉ given := by
    intro given hgiven b hb
    rw [← List.map_fst_zip (le_of_eq hlen)] at hgiven
    obtain ⟨⟨given, row⟩, hpair, rfl⟩ := List.mem_map.mp hgiven
    obtain ⟨pk, rowid, hfilled⟩ := hzip hpair
    have hrow := hperm.mem_iff.mp (List.of_mem_zip hpair).2
    exact hreal row hrow _ (mem_filled hfilled hb (by rintro ⟨⟩)) b rfl
  obtain ⟨hshown, hread⟩ := lines_imported hcolumns hreal hlines hnew (hlen.trans hperm.length_eq)
  have hreads : List.Forall₂ (fun row given => lineValues toF64 env (stripCr (csvLine realText row)) = .ok given)
      rows new := by
    rw [← List.forall₂_eq_eq_eq] at hread
    exact List.forall₂_map_right_iff.mp (List.forall₂_map_left_iff.mp hread)
  have hpairs : List.Forall₂ (fun row given => given = row ∨ weigh weight given < weigh weight row) rows new := by
    obtain ⟨hlen, hread⟩ := List.forall₂_iff_zip.mp hreads
    refine List.forall₂_iff_zip.mpr ⟨hlen, fun {row given} hpair => ?_⟩
    obtain ⟨hrow, hgiven⟩ := List.of_mem_zip hpair
    have hne := ((shown_iff (hreal row hrow) (hlines row hrow)).mp (hshown row hrow)).1
    exact line_shrinks hne (hreal row hrow) (hplain given hgiven) (hread hpair)
  have hsame : new = rows := by
    refine (eq_or_weigh_lt hpairs).resolve_right fun hlt => ?_
    have hfilled : weigh (weigh weight) kept = weigh (weigh weight) new :=
      weigh_congr (hkept.imp fun given row h => by obtain ⟨pk, rowid, hfilled⟩ := h; exact weigh_filled hfilled)
    rw [← hfilled, weigh_perm hperm] at hlt
    exact absurd hlt (Nat.lt_irrefl _)
  exact (importedRows_iff hcolumns hreal).mp (hsame ▸ hnew)

end Comparing

section Transactions

variable {τ : Type} {tableName : String} {vm vm' : VM τ}

def opened (vm : VM τ) : VM τ :=
  { vm.beginCatalog.clearIndexCaches with
    tableTxn := if vm.directory ∧ vm.tableTxn.isNone then some vm.trees else vm.tableTxn
    schemaSnapshot := some vm.schema }

theorem execBegin_idle (h : vm.catalogTxn.isSome = false) :
    execBegin vm = .ok (.Ok "Transaction started") (opened vm) := by
  rw [execBegin, get_bind, h]
  rfl

theorem execBegin_busy (h : vm.catalogTxn.isSome = true) :
    execBegin vm = .error (.Err (.RuntimeError "transaction already active")) vm := by
  rw [execBegin, get_bind, h]
  rfl

theorem transaction_ok {work : VmM τ Unit} (h : transaction tableName work vm = .ok () vm') :
    ∃ vm₁, work (opened vm) = .ok () vm₁ ∧ vm'.trees = vm₁.trees := by
  cases hbusy : vm.catalogTxn.isSome with
  | true =>
      rw [transaction, bind_error (execBegin_busy hbusy)] at h
      cases h
  | false =>
      rw [transaction, bind_ok (execBegin_idle hbusy)] at h
      obtain ⟨table, vm₁, hget, h⟩ := ok_of_bind_state h
      have hread := (Reads.getTable : Reads (getTable tableName : VmM τ _)) (opened vm)
      rw [left_ok hget] at hread
      subst hread
      obtain ⟨_, vm₂, hwork, h⟩ := ok_of_bind_state h
      refine ⟨vm₂, hwork, ?_⟩
      obtain ⟨-, rfl⟩ := EStateM.Result.ok.inj h
      rfl

end Transactions

-- The table that a file is imported into. Its triggers may run statements, but not when rows are inserted.
structure Target {τ : Type} (tableName : String) (vm : VM τ) : Prop where
  empty : vm.tree (tableRoot tableName) = []
  quiet : ∀ timing, vm.schema.getTriggers tableName timing .Insert = []

section RoundTrip

variable {τ : Type} {E : Dml.Engine τ} {depth : Nat} {tableName : String} {toF64 : Text → UInt64}
  {realText : UInt64 → Text} {columns : List String} {rows : List Row} {vm : VM τ}

theorem restores_iff {x y : VmM τ Unit} {p : Prop} (hsame : p → x = y) (hneeded : Restores x tableName rows vm → p) :
    Restores x tableName rows vm ↔ p ∧ Restores y tableName rows vm := by
  constructor
  · intro hrestores
    have hp := hneeded hrestores
    rw [hsame hp] at hrestores
    exact ⟨hp, hrestores⟩
  · rintro ⟨hp, hrestores⟩
    rw [hsame hp]
    exact hrestores

theorem readLines_export (hcolumns : ∀ c ∈ columns, '\n' ∉ c.toList) :
    readLines [] (exportCsv realText columns rows) ≠ [] := by
  rw [exportCsv, List.flatMap_cons, List.append_assoc, List.singleton_append,
    readLines_line (noBreak_header hcolumns)]
  exact List.cons_ne_nil _ _

theorem survives_of_restores (hparse : Parses E tableName toF64 (exportCsv realText columns rows))
    (hcolumns : ∀ c ∈ columns, '\n' ∉ c.toList) (hreal : ∀ row ∈ rows, ∀ v ∈ row, ∀ b, v ≠ .Real b)
    (htarget : Target tableName vm)
    (h : Restores (importCsv E (depth + 1) tableName (exportCsv realText columns rows)) tableName rows vm) :
    ∀ row ∈ rows, Survives row := by
  obtain ⟨vm', hrun, hrows⟩ := h
  rw [importCsv_eq hparse (readLines_export hcolumns)] at hrun
  obtain ⟨vm₁, hlines, htrees⟩ := transaction_ok hrun
  have hquiet : ∀ timing, (opened vm).schema.getTriggers tableName timing .Insert = [] := htarget.quiet
  obtain ⟨new, kept, hnew, hkept, hadds⟩ :=
    importLines_adds hparse (fun _ hline => hline) (E.env vm) rfl hquiet hlines
  have hempty : (opened vm).tree (tableRoot tableName) = [] := htarget.empty
  have hperm := hadds.rows
  have htree : vm'.tree (tableRoot tableName) = vm₁.tree (tableRoot tableName) := by rw [VM.tree, htrees]; rfl
  rw [← htree, hrows, hempty, List.map_nil, List.append_nil] at hperm
  exact survives_of_kept hcolumns hreal hnew hkept hperm.symm

theorem importCsv_of_survives (hparse : Parses E tableName toF64 (exportCsv realText columns rows))
    (hcolumns : ∀ c ∈ columns, '\n' ∉ c.toList) (hreal : ∀ row ∈ rows, ∀ v ∈ row, ∀ b, v ≠ .Real b)
    (hsurvives : ∀ row ∈ rows, Survives row) :
    importCsv E (depth + 1) tableName (exportCsv realText columns rows) = reinsertRows E depth tableName rows := by
  have hrows : importedRows toF64 plainEnv (exportCsv realText columns rows) = .ok rows :=
    (importedRows_iff hcolumns hreal).mpr hsurvives
  exact importCsv_reinserts hparse (readLines_export hcolumns) hrows

-- A table comes back from its file exactly when each row survives there and the
-- table takes the rows themselves back.
theorem roundTrips_iff (hparse : Parses E tableName toF64 (exportCsv realText columns rows))
    (hcolumns : ∀ c ∈ columns, '\n' ∉ c.toList) (hreal : ∀ row ∈ rows, ∀ v ∈ row, ∀ b, v ≠ .Real b)
    (htarget : Target tableName vm) :
    Restores (importCsv E (depth + 1) tableName (exportCsv realText columns rows)) tableName rows vm ↔
      (∀ row ∈ rows, Survives row) ∧ Restores (reinsertRows E depth tableName rows) tableName rows vm :=
  restores_iff (importCsv_of_survives hparse hcolumns hreal) (survives_of_restores hparse hcolumns hreal htarget)

end RoundTrip

section Sample

def scriptEngine (script : List (String × Stmt)) : Dml.Engine Unit :=
  plainEngine fun sql => (script.lookup sql).elim (.error (.Internal "")) .ok

def noteRows : List Row := [[.Integer 7, .Text "a, \"b\""], [.Null, .Text "it's"]]

def csvEngine : Dml.Engine Unit := scriptEngine [("BEGIN TRANSACTION;", .Begin), ("COMMIT;", .Commit),
  ("ROLLBACK;", .Rollback),
  ("INSERT INTO t VALUES (7, 'a, \"b\"');", .Insert (insertOf "t" [.IntegerLiteral 7, .StringLiteral "a, \"b\""])),
  ("INSERT INTO t VALUES (NULL, 'it''s');", .Insert (insertOf "t" [.Null, .StringLiteral "it's"]))]

def csvVm : VM Unit where
  schema :=
    { tables := [("t".toList, ⟨"t", [⟨"n", .Integer, false, false, 0⟩, ⟨"v", .Text, false, false, 1⟩], [], 1, [], []⟩)]
      indexes := []
      triggers := [] }
  schemaSnapshot := none
  trees := []
  directory := false
  catalogTxn := none
  tableTxn := none
  caches := []
  side := ()
  history := []

theorem csvVm_target : Target "t" csvVm where
  empty := rfl
  quiet := fun _ => rfl

def noteFile : Text := exportCsv (fun _ => []) ["n", "v"] noteRows

theorem csvEngine_parses : Parses csvEngine "t" (fun _ => 0) noteFile where
  begins := rfl
  commits := rfl
  rollsBack := rfl
  inserts := by
    have hlines : dataLines noteFile = ["7,\"a, \"\"b\"\"\"".toList, ",it's".toList] := by decide
    rw [hlines]
    intro line hline
    rcases List.mem_pair.mp hline with rfl | rfl <;> rfl

theorem survives_pair {v : Value} {t : String} (hv : Keeps v) (ht : Keeps (.Text t)) (hvline : ∀ s, .Text s ≠ v)
    (htline : '\n' ∉ t.toList) (hend : t.toList.getLast? ≠ some '\r') : Survives [v, .Text t] where
  values := List.forall_mem_cons.mpr ⟨hv, List.forall_mem_singleton.mpr ht⟩
  oneLine := by
    intro s hs
    rcases List.mem_pair.mp hs with h | h
    · exact absurd h (hvline s)
    · rw [Value.Text.inj h]
      exact htline
  shown := by
    refine ⟨List.cons_ne_nil _ _, fun h => ?_, fun s hs => ?_⟩
    · cases h
    · cases hs
  ending := by
    intro s hs
    cases hs
    exact .inr hend

theorem survives_note : ∀ row ∈ noteRows, Survives row := by
  have hseven : Keeps (.Integer 7) := show (7 : Int64) ≠ Int64.minValue by decide
  have hquoted : Keeps (.Text "a, \"b\"") := ⟨by decide, .inl (by decide)⟩
  have hplain : Keeps (.Text "it's") := ⟨by decide, .inr (by decide)⟩
  refine List.forall_mem_cons.mpr ⟨?_, List.forall_mem_singleton.mpr ?_⟩
  · exact survives_pair hseven hquoted (by rintro s ⟨⟩) (by decide) (by decide)
  · exact survives_pair trivial hplain (by rintro s ⟨⟩) (by decide) (by decide)

theorem restores_note : Restores (importCsv csvEngine 1 "t" noteFile) "t" noteRows csvVm := by
  refine (roundTrips_iff csvEngine_parses ?_ ?_ csvVm_target).mpr ⟨survives_note, ?_⟩
  · exact List.forall_mem_cons.mpr ⟨by decide, List.forall_mem_singleton.mpr (by decide)⟩
  · intro row hrow v hv b hb
    rcases List.mem_pair.mp hrow with rfl | rfl <;> rcases List.mem_pair.mp hv with rfl | rfl <;> cases hb
  · exact ⟨_, rfl, rfl⟩

end Sample

end Kkdb.Csv
