import Kkdb.Vm.Rowids

namespace Kkdb

open Lib

namespace Dml

section Statement

variable {τ : Type} (E : Engine τ) (exec : String → VmM τ ExecResult)

def runSql (sql : String) : VmM τ ExecResult :=
  match E.parseSql sql with
  | .ok stmt => executeStatement E exec stmt sql
  | .error e => throw (.Err e)

def turnsOfSql (sql : String) (vm : VM τ) : List (Turn τ) :=
  match E.parseSql sql with
  | .ok (.Insert insert) => turnsOf E exec insert vm
  | _ => []

def insertedInto (sql : String) : List (List Char) :=
  match E.parseSql sql with
  | .ok (.Insert insert) => [tableKey insert.tableName]
  | _ => []

-- Rows are below the next rowid in every table that no INSERT is under way for.
def Settles (under : List (List Char)) (vm : VM τ) : Prop :=
  ∀ key, key ∉ under → ∀ n, counter vm.schema key = some n → ∀ r ∈ vm.tree (.Table key), r.1.toInt < n

-- The INSERT goes to another table than those under way, no row takes the last rowid, and if it fails it
-- leaves no row at or above the next rowid of its table.
structure OrderlyInsert (under : List (List Char)) (insert : InsertStmt) (vm : VM τ) : Prop where
  elsewhere : tableKey insert.tableName ∉ under
  fits : ∀ t ∈ turnsOf E exec insert vm, t.Fits
  failed : ∀ e vm', execInsert E exec insert vm = .error e vm' → Settles under vm'

def OrderlySql (under : List (List Char)) (sql : String) (vm : VM τ) : Prop :=
  match E.parseSql sql with
  | .ok (.Insert insert) => OrderlyInsert E exec under insert vm
  | .ok (.Update _) | .ok (.Delete _) => True
  | .ok .Other => Quiet E sql
  | .ok _ => False
  | .error _ => True

end Statement

section Nesting

variable {τ : Type} (E : Engine τ)

-- The statement is orderly, and so are those that it runs in the states that it runs them in.
def Orderly : Nat → List (List Char) → String → VM τ → Prop
  | 0, _, _, _ => True
  | depth + 1, under, sql, vm =>
      OrderlySql E (executeSql E depth) under sql vm ∧
      Guarded (Orderly depth (insertedInto E sql ++ under)) .Abort (executeSql E depth) fun exec =>
        (runSql E exec sql vm, turnsOfSql E exec sql vm)

-- Every turn of the statement finds a rowid, and so does every turn of those that it runs.
def Assigned : Nat → List (List Char) → String → VM τ → Prop
  | 0, _, _, _ => True
  | depth + 1, under, sql, vm =>
      (∀ t ∈ turnsOfSql E (executeSql E depth) sql vm, t.Assigns) ∧
      Guarded (fun inner vm' => Orderly E depth (insertedInto E sql ++ under) inner vm' ∧
          Assigned depth (insertedInto E sql ++ under) inner vm') .Abort (executeSql E depth) fun exec =>
        (runSql E exec sql vm, turnsOfSql E exec sql vm)

end Nesting

section Rows

variable {τ : Type} {under : UnderWay} {base : List Char → Option Int} {start : VM τ} {E : Engine τ}
variable {exec exec' : String → VmM τ ExecResult} {insert : InsertStmt}

-- What is left of the numbering when an INSERT stops half way.
structure Stays (under : UnderWay) (base : List Char → Option Int) (start vm : VM τ) : Prop
    extends Kept base start vm where
  under : ∀ key n, under.lookup key = some n → ∀ r ∈ vm.tree (.Table key), r.1.toInt < n

theorem Numbered.stays {vm : VM τ} (h : Numbered under base start vm) : Stays under base start vm where
  toKept := h.toKept
  under key n hn r hr := h.below key n (by rw [limit, hn, Option.some_or]) r hr

theorem notMem_of_lookup {key : List Char} {n : Int} (hkey : key ∉ under.map Prod.fst) :
    under.lookup key ≠ some n := fun h => hkey (List.mem_map.mpr ⟨_, mem_of_lookup h, rfl⟩)

theorem Numbered.stays_of_loop {plan : InsertPlan} {next : Int64} {vm : VM τ}
    (hkey : tableKey plan.stmt.tableName ∉ under.map Prod.fst)
    (h : Numbered (atLoop plan next under) base start vm) : Stays under base start vm where
  toKept := h.toKept
  under key n hn r hr := by
    refine h.below key n ?_ r hr
    have hne : key ≠ tableKey plan.stmt.tableName := fun heq => notMem_of_lookup (heq ▸ hkey) hn
    rw [limit, lookup_atLoop, if_neg hne, hn, Option.some_or]

theorem Stays.numbered {vm : VM τ} (h : Stays under base start vm) (hsettles : Settles (under.map Prod.fst) vm) :
    Numbered under base start vm where
  toKept := h.toKept
  below key n hn r hr := by
    cases hunder : under.lookup key with
    | some m =>
        rw [limit, hunder, Option.some_or] at hn
        exact h.under key n (hunder.trans hn) r hr
    | none =>
        rw [limit, hunder, Option.none_or] at hn
        refine hsettles key (fun hmem => ?_) n hn r hr
        obtain ⟨e, he, rfl⟩ := List.mem_map.mp hmem
        exact lookup_ne_none_of_mem (k := e.1) (v := e.2) he hunder

theorem numbered_atLoop {table : TableSchema} {vm : VM τ} (h : Numbered under base start vm) {plan : InsertPlan}
    (hkey : tableKey plan.stmt.tableName ∉ under.map Prod.fst)
    (htable : vm.schema.getTable plan.stmt.tableName = some table) :
    Numbered (atLoop plan table.nextRowid under) base start vm where
  toKept := h.toKept
  below key n hn r hr := by
    refine h.below key n ?_ r hr
    rw [limit, lookup_atLoop] at hn
    by_cases heq : key = tableKey plan.stmt.tableName
    · rw [if_pos heq, Option.some_or] at hn
      have hnone : under.lookup key = none :=
        Option.eq_none_iff_forall_ne_some.mpr fun n => notMem_of_lookup (heq ▸ hkey)
      rw [limit, hnone, Option.none_or, heq, counter_of_getTable htable]
      exact hn
    · rw [if_neg heq] at hn
      exact hn

def finishInsert (E : Engine τ) (insert : InsertStmt) (loop : InsertLoop) : VmM τ ExecResult := do
  let _ ← getTable insert.tableName
  modify fun vm => { vm with schema := vm.schema.setNextRowid insert.tableName loop.nextRowid }
  match insert.returning with
  | some exprs => returningResult E insert.tableName loop.returning exprs
  | none => return .RowsAffected loop.rowsInserted (toString loop.rowsInserted ++ " row(s) inserted")

theorem numbered_setNextRowid {plan : InsertPlan} {next : Int64} {vm : VM τ}
    (h : Numbered (atLoop plan next under) base start vm) (hkey : tableKey plan.stmt.tableName ∉ under.map Prod.fst)
    (hbase : ∀ b, base (tableKey plan.stmt.tableName) = some b → b ≤ next.toInt) :
    Numbered under base start { vm with schema := vm.schema.setNextRowid plan.stmt.tableName next } where
  base key n hn := by
    rw [counter_setNextRowid] at hn
    obtain ⟨old, hold, rfl⟩ := Option.map_eq_some_iff.mp hn
    obtain ⟨b, hb, hle⟩ := h.base key old hold
    refine ⟨b, hb, ?_⟩
    split_ifs with heq
    · exact hbase b (heq ▸ hb)
    · exact hle
  catalogTxn := h.catalogTxn
  snapshot := h.snapshot
  directory := h.directory
  below key n hn r hr := by
    refine h.below key n ?_ r hr
    rw [limit, lookup_atLoop]
    rw [limit, counter_setNextRowid] at hn
    by_cases heq : key = tableKey plan.stmt.tableName
    · have hnone : under.lookup key = none :=
        Option.eq_none_iff_forall_ne_some.mpr fun n => notMem_of_lookup (heq ▸ hkey)
      rw [hnone, Option.none_or] at hn
      obtain ⟨old, -, hn⟩ := Option.map_eq_some_iff.mp hn
      rw [if_pos heq] at hn
      rw [if_pos heq, Option.some_or, hn]
    · rw [if_neg heq]
      cases hunder : under.lookup key with
      | some m =>
          rw [hunder, Option.some_or] at hn
          rw [Option.some_or, hn]
      | none =>
          rw [hunder, Option.none_or] at hn
          obtain ⟨old, hold, hn⟩ := Option.map_eq_some_iff.mp hn
          rw [if_neg heq] at hn
          rw [Option.none_or, hold, hn]

theorem finishInsert_left (E : Engine τ) (plan : InsertPlan) {loop : InsertLoop} {vm : VM τ}
    (h : Numbered (atLoop plan loop.nextRowid under) base start vm)
    (hkey : tableKey plan.stmt.tableName ∉ under.map Prod.fst)
    (hbase : ∀ b, base (tableKey plan.stmt.tableName) = some b → b ≤ loop.nextRowid.toInt) :
    Stays under base start (left (finishInsert E plan.stmt loop) vm) ∧
    ∀ r vm', finishInsert E plan.stmt loop vm = .ok r vm' → Numbered under base start vm' := by
  have hread := (Reads.getTable : Reads (getTable plan.stmt.tableName : VmM τ _)) vm
  cases hget : (getTable plan.stmt.tableName : VmM τ TableSchema) vm with
  | error e vm₁ =>
      rw [left_error hget] at hread
      subst hread
      refine ⟨?_, fun r vm' hok => ?_⟩
      · rw [finishInsert, left_bind_error hget]
        exact h.stays_of_loop hkey
      · rw [finishInsert, bind_error hget] at hok
        cases hok
  | ok table vm₁ =>
      rw [left_ok hget] at hread
      subst hread
      have hnumbered := numbered_setNextRowid h hkey hbase
      have hrest : Reads (match plan.stmt.returning with
          | some exprs => returningResult E plan.stmt.tableName loop.returning exprs
          | none => return .RowsAffected loop.rowsInserted (toString loop.rowsInserted ++ " row(s) inserted")) := by
        cases plan.stmt.returning with
        | none => exact .pure _
        | some exprs => exact .returningResult _ _ _
      have hleft : left (finishInsert E plan.stmt loop) vm₁ =
          { vm₁ with schema := vm₁.schema.setNextRowid plan.stmt.tableName loop.nextRowid } := by
        rw [finishInsert, left_bind_ok hget, left_modify_bind]
        exact hrest _
      refine ⟨?_, fun r vm' hok => ?_⟩
      · rw [hleft]
        exact hnumbered.stays
      · rw [left_ok hok] at hleft
        rw [hleft]
        exact hnumbered

-- What `insert_value_rows` does with executors that cannot be told apart, when its turns fit.
structure InsertWent (under : UnderWay) (base : List Char → Option Int) (start : VM τ) (E : Engine τ)
    (exec exec' : String → VmM τ ExecResult) (insert : InsertStmt) (valueRows : List Row) (vm : VM τ) : Prop where
  same : insertValueRows E exec insert valueRows vm = insertValueRows E exec' insert valueRows vm
  turns : turnsOfRows E exec insert valueRows vm = turnsOfRows E exec' insert valueRows vm
  assigns : ∀ t ∈ turnsOfRows E exec insert valueRows vm, t.Assigns
  stays : Stays under base start (left (insertValueRows E exec insert valueRows) vm)
  ok : ∀ r vm', insertValueRows E exec insert valueRows vm = .ok r vm' → Numbered under base start vm'

theorem insertValueRows_stopped {valueRows : List Row} {vm : VM τ} (h : Numbered under base start vm) (e : Fault)
    (hstop : ∀ exec : String → VmM τ ExecResult, insertValueRows E exec insert valueRows vm = .error e vm)
    (hturns : ∀ exec : String → VmM τ ExecResult, turnsOfRows E exec insert valueRows vm = []) :
    InsertWent under base start E exec exec' insert valueRows vm where
  same := (hstop exec).trans (hstop exec').symm
  turns := (hturns exec).trans (hturns exec').symm
  assigns t ht := by
    rw [hturns] at ht
    cases ht
  stays := by
    rw [left_error (hstop exec)]
    exact h.stays
  ok r vm' hok := by
    rw [hstop] at hok
    cases hok

theorem insertValueRows_went {valueRows : List Row} {vm : VM τ} (hkey : tableKey insert.tableName ∉ under.map Prod.fst)
    (hrun : ∀ next : Int64, NestedAlike ((tableKey insert.tableName, next.toInt) :: under) start exec exec')
    (hfits : ∀ t ∈ turnsOfRows E exec insert valueRows vm, t.Fits) (hvm : Numbered under base start vm) :
    InsertWent under base start E exec exec' insert valueRows vm := by
  cases htable : vm.schema.getTable insert.tableName with
  | none =>
      refine insertValueRows_stopped hvm (.Err (.TableNotFound insert.tableName)) (fun exec => ?_) fun exec => ?_
      · rw [insertValueRows, getTable, bind_assoc, get_bind, htable]
        rfl
      · rw [turnsOfRows, htable]
  | some table =>
      have hget : (getTable insert.tableName : VmM τ TableSchema) vm = .ok table vm := by
        rw [getTable, get_bind, htable]
        rfl
      cases hcols : resolveColumns table insert.columns with
      | error e =>
          refine insertValueRows_stopped hvm e (fun exec => ?_) fun exec => ?_
          · rw [insertValueRows, bind_ok hget, hcols]
            rfl
          · rw [turnsOfRows, htable]
            simp only [hcols]
      | ok colIndices =>
          have hturns : ∀ exec : String → VmM τ ExecResult, turnsOfRows E exec insert valueRows vm =
              turns E exec ⟨insert, table, colIndices⟩ valueRows ⟨table.nextRowid, 0, []⟩ vm := by
            intro exec
            rw [turnsOfRows, htable]
            simp only [hcols]
          have hgo : ∀ exec : String → VmM τ ExecResult, insertValueRows E exec insert valueRows vm =
              (insertLoop E exec ⟨insert, table, colIndices⟩ valueRows ⟨table.nextRowid, 0, []⟩ >>=
                finishInsert E insert) vm := by
            intro exec
            rw [insertValueRows, bind_ok hget, hcols]
            rfl
          rw [hturns] at hfits
          have hstart : Numbered (atLoop ⟨insert, table, colIndices⟩ table.nextRowid under) base start vm :=
            numbered_atLoop hvm hkey htable
          have hnested : ∀ next, NestedAlike (atLoop ⟨insert, table, colIndices⟩ next under) start exec exec' := hrun
          obtain ⟨hwent, hsame, hassigns⟩ := insertLoop_went hnested hfits hstart
          have hfinish : ∀ {loop : InsertLoop} {vm' : VM τ}, table.nextRowid.toInt ≤ loop.nextRowid.toInt →
              Numbered (atLoop ⟨insert, table, colIndices⟩ loop.nextRowid under) base start vm' →
              Stays under base start (left (finishInsert E insert loop) vm') ∧
              ∀ r vm'', finishInsert E insert loop vm' = .ok r vm'' → Numbered under base start vm'' := by
            intro loop vm' hle hvm'
            have hbase : ∀ b, base (tableKey insert.tableName) = some b → b ≤ loop.nextRowid.toInt := by
              intro b hb
              obtain ⟨b', hb', hle'⟩ := hvm.base _ _ (counter_of_getTable htable)
              rw [hb', Option.some.injEq] at hb
              omega
            exact finishInsert_left E ⟨insert, table, colIndices⟩ hvm' hkey hbase
          have hassigns' : ∀ t ∈ turnsOfRows E exec insert valueRows vm, t.Assigns := by
            rw [hturns]
            exact hassigns
          have hturns' := (hturns exec).trans (hsame.trans (hturns exec').symm)
          cases hloop : insertLoop E exec ⟨insert, table, colIndices⟩ valueRows ⟨table.nextRowid, 0, []⟩ vm with
          | error e vm' =>
              have hfail : insertValueRows E exec insert valueRows vm = .error e vm' :=
                (hgo exec).trans (bind_error hloop)
              have hfail' : insertValueRows E exec' insert valueRows vm = .error e vm' :=
                (hgo exec').trans (bind_error (hwent.same ▸ hloop))
              refine ⟨hfail.trans hfail'.symm, hturns', hassigns', ?_, fun r vm'' hok => ?_⟩
              · obtain ⟨next, hnext⟩ := hwent.left
                rw [left_error hloop] at hnext
                rw [left_error hfail]
                exact hnext.stays_of_loop hkey
              · rw [hfail] at hok
                cases hok
          | ok loop vm' =>
              have hdone : insertValueRows E exec insert valueRows vm = finishInsert E insert loop vm' :=
                (hgo exec).trans (bind_ok hloop)
              have hdone' : insertValueRows E exec' insert valueRows vm = finishInsert E insert loop vm' :=
                (hgo exec').trans (bind_ok (hwent.same ▸ hloop))
              obtain ⟨hle, hvm'⟩ := hwent.ok loop vm' hloop
              obtain ⟨hstays, hok⟩ := hfinish hle hvm'
              refine ⟨hdone.trans hdone'.symm, hturns', hassigns', ?_, fun r vm'' hrun => ?_⟩
              · rw [left, hdone]
                exact hstays
              · exact hok r vm'' (hdone.symm.trans hrun)

end Rows

section Exec

variable {τ : Type} {E : Engine τ} (exec : String → VmM τ ExecResult) {insert : InsertStmt} {vm : VM τ}
variable {valueRows : List Row}

theorem attempt_of_ok {α : Type} {x : VmM τ α} {a : α} {vm' : VM τ} (h : x vm = .ok a vm') :
    attempt x vm = .ok (.ok a) vm' := by rw [attempt, h]

theorem attempt_of_err {α : Type} {x : VmM τ α} {e : KkdbError} {vm' : VM τ} (h : x vm = .error (.Err e) vm') :
    attempt x vm = .ok (.error e) vm' := by rw [attempt, h]

theorem attempt_of_fault {α : Type} {x : VmM τ α} {f : Fault} {vm' : VM τ} (h : x vm = .error f vm')
    (hf : ∀ e, f ≠ .Err e) : attempt x vm = .error f vm' := by
  rw [attempt, h]
  cases f with
  | Err e => exact absurd rfl (hf e)
  | Panic => rfl
  | Hang => rfl
  | Abort => rfl

theorem turnsOf_rows (hrows : sourceRows E insert.source vm = .ok valueRows) :
    turnsOf E exec insert vm = turnsOfRows E exec insert valueRows (begun vm) := by
  simp only [turnsOf, hrows]

theorem turnsOf_refused {e : Fault} (hrows : sourceRows E insert.source vm = .error e) :
    turnsOf E exec insert vm = [] := by
  simp only [turnsOf, hrows]

theorem begun_inside (h : vm.catalogTxn.isSome = true) : begun vm = vm := if_pos h

theorem execInsert_refused {e : Fault} (hrows : sourceRows E insert.source vm = .error e) :
    execInsert E exec insert vm = .error e vm := by
  rw [execInsert, get_bind, hrows]
  rfl

theorem execInsert_inside (h : vm.catalogTxn.isSome = true) (hrows : sourceRows E insert.source vm = .ok valueRows) :
    execInsert E exec insert vm = insertValueRows E exec insert valueRows vm := by
  rw [execInsert, get_bind, hrows]
  show (if vm.catalogTxn.isSome = true then insertValueRows E exec insert valueRows else _) vm = _
  rw [if_pos h]

-- How a statement in a transaction of its own ends.
def settle : EStateM.Result Fault (VM τ) ExecResult → EStateM.Result Fault (VM τ) ExecResult
  | .ok r vm' => .ok r { vm'.commitCatalog with schemaSnapshot := none }
  | .error (.Err e) vm' => .error (.Err e) vm'.rollbackCatalog.restoreSchema.clearIndexCaches
  | .error f vm' => .error f vm'

theorem settle_ok {res : EStateM.Result Fault (VM τ) ExecResult} {r : ExecResult} {vm' : VM τ}
    (h : settle res = .ok r vm') : ∃ vm₁, res = .ok r vm₁ ∧ vm' = { vm₁.commitCatalog with schemaSnapshot := none } := by
  cases res with
  | ok r₁ vm₁ =>
      obtain ⟨rfl, rfl⟩ := EStateM.Result.ok.inj h
      exact ⟨vm₁, rfl, rfl⟩
  | error f vm₁ => cases f <;> cases h

theorem execInsert_alone (h : ¬vm.catalogTxn.isSome = true) (hrows : sourceRows E insert.source vm = .ok valueRows) :
    execInsert E exec insert vm = settle (insertValueRows E exec insert valueRows (begun vm)) := by
  rw [execInsert, get_bind, hrows, begun, if_neg h]
  show (if vm.catalogTxn.isSome = true then insertValueRows E exec insert valueRows else _) vm = _
  rw [if_neg h, modify_bind]
  cases hgo : insertValueRows E exec insert valueRows { vm.beginCatalog with schemaSnapshot := some vm.schema } with
  | ok r vm' =>
      rw [bind_ok (attempt_of_ok hgo)]
      rfl
  | error f vm' =>
      cases f with
      | Err e =>
          rw [bind_ok (attempt_of_err hgo)]
          rfl
      | Panic => exact bind_error (attempt_of_fault hgo fun e he => (by cases he))
      | Hang => exact bind_error (attempt_of_fault hgo fun e he => (by cases he))
      | Abort => exact bind_error (attempt_of_fault hgo fun e he => (by cases he))

end Exec

section Depth

variable {τ : Type} {E : Engine τ} {depth : Nat} {under : UnderWay} {base : List Char → Option Int} {start vm : VM τ}
variable {sql : String}

theorem executeSql_succ (E : Engine τ) (depth : Nat) : executeSql E (depth + 1) = runSql E (executeSql E depth) := rfl

-- What the orderly statements of one depth less do.
def Tame (E : Engine τ) (depth : Nat) (start : VM τ) : Prop :=
  ∀ (under : UnderWay) (base : List Char → Option Int) (sql : String) (vm : VM τ), Numbered under base start vm →
    Orderly E depth (under.map Prod.fst) sql vm →
    Numbered under base start (left (executeSql E depth sql) vm) ∧ Assigned E depth (under.map Prod.fst) sql vm

noncomputable def orderlyExec (E : Engine τ) (depth : Nat) (keys : List (List Char)) : String → VmM τ ExecResult :=
  monitor (Orderly E depth keys) .Abort (executeSql E depth)

noncomputable def assignedExec (E : Engine τ) (depth : Nat) (keys : List (List Char)) : String → VmM τ ExecResult :=
  monitor (fun sql vm => Orderly E depth keys sql vm ∧ Assigned E depth keys sql vm) .Abort (executeSql E depth)

theorem Tame.nested (h : Tame E depth start) (under : UnderWay) :
    NestedAlike under start (orderlyExec E depth (under.map Prod.fst)) (assignedExec E depth (under.map Prod.fst)) := by
  intro base sql
  refine alike_monitor (fun sql vm hvm => ?_) (fun sql vm hvm horderly => (h under base sql vm hvm horderly).1) sql
  exact ⟨fun horderly => ⟨horderly, (h under base sql vm hvm horderly).2⟩, And.left⟩

section Insert

variable {insert : InsertStmt} {keys : List (List Char)}

theorem orderly_insert (hparse : E.parseSql sql = .ok (.Insert insert)) (h : Orderly E (depth + 1) keys sql vm) :
    OrderlyInsert E (executeSql E depth) keys insert vm ∧
    execInsert E (orderlyExec E depth (tableKey insert.tableName :: keys)) insert vm =
      execInsert E (executeSql E depth) insert vm ∧
    turnsOf E (orderlyExec E depth (tableKey insert.tableName :: keys)) insert vm =
      turnsOf E (executeSql E depth) insert vm := by
  obtain ⟨hsql, hguarded⟩ := h
  rw [OrderlySql, hparse] at hsql
  have hinto : insertedInto E sql = [tableKey insert.tableName] := by rw [insertedInto, hparse]
  rw [hinto, Guarded] at hguarded
  simp only [runSql, turnsOfSql, hparse] at hguarded
  exact ⟨hsql, congrArg Prod.fst hguarded, congrArg Prod.snd hguarded⟩

theorem assigned_insert (hparse : E.parseSql sql = .ok (.Insert insert))
    (hassigns : ∀ t ∈ turnsOf E (executeSql E depth) insert vm, t.Assigns)
    (hsame : execInsert E (assignedExec E depth (tableKey insert.tableName :: keys)) insert vm =
      execInsert E (executeSql E depth) insert vm)
    (hturns : turnsOf E (assignedExec E depth (tableKey insert.tableName :: keys)) insert vm =
      turnsOf E (executeSql E depth) insert vm) : Assigned E (depth + 1) keys sql vm := by
  have hinto : insertedInto E sql = [tableKey insert.tableName] := by rw [insertedInto, hparse]
  refine ⟨?_, ?_⟩
  · rw [turnsOfSql, hparse]
    exact hassigns
  · rw [hinto, Guarded]
    simp only [runSql, turnsOfSql, hparse]
    exact Prod.ext hsame hturns

theorem insert_went (h : Tame E depth start) (hparse : E.parseSql sql = .ok (.Insert insert))
    (horderly : Orderly E (depth + 1) (under.map Prod.fst) sql vm) {valueRows : List Row}
    (hrows : sourceRows E insert.source vm = .ok valueRows) (hbegun : Numbered under base start (begun vm)) :
    InsertWent under base start E (orderlyExec E depth (tableKey insert.tableName :: under.map Prod.fst))
      (assignedExec E depth (tableKey insert.tableName :: under.map Prod.fst)) insert valueRows (begun vm) := by
  obtain ⟨hsql, -, hturns⟩ := orderly_insert hparse horderly
  refine insertValueRows_went hsql.elsewhere (fun next => h.nested ((tableKey insert.tableName, next.toInt) :: under))
    (fun t ht => hsql.fits t ?_) hbegun
  rw [← hturns, turnsOf_rows _ hrows]
  exact ht

-- The two executors do the same, so that every statement that the INSERT runs is orderly and assigned.
theorem InsertWent.assigned {valueRows : List Row} (hparse : E.parseSql sql = .ok (.Insert insert))
    (horderly : Orderly E (depth + 1) keys sql vm) (hrows : sourceRows E insert.source vm = .ok valueRows)
    (h : InsertWent under base start E (orderlyExec E depth (tableKey insert.tableName :: keys))
      (assignedExec E depth (tableKey insert.tableName :: keys)) insert valueRows (begun vm)) :
    Assigned E (depth + 1) keys sql vm := by
  obtain ⟨-, hexec, hturns⟩ := orderly_insert hparse horderly
  refine assigned_insert hparse (fun t ht => ?_) ?_ ?_
  · rw [← hturns, turnsOf_rows _ hrows] at ht
    exact h.assigns t ht
  · rw [← hexec]
    by_cases htxn : vm.catalogTxn.isSome = true
    · rw [execInsert_inside _ htxn hrows, execInsert_inside _ htxn hrows, ← begun_inside htxn]
      exact h.same.symm
    · rw [execInsert_alone _ htxn hrows, execInsert_alone _ htxn hrows, h.same]
  · rw [← hturns, turnsOf_rows _ hrows, turnsOf_rows _ hrows]
    exact h.turns.symm

theorem assigned_refused {e : Fault} (hparse : E.parseSql sql = .ok (.Insert insert))
    (hrows : sourceRows E insert.source vm = .error e) : Assigned E (depth + 1) keys sql vm := by
  refine assigned_insert hparse (fun t ht => ?_) ?_ ?_
  · rw [turnsOf_refused _ hrows] at ht
    cases ht
  · rw [execInsert_refused _ hrows, execInsert_refused _ hrows]
  · rw [turnsOf_refused _ hrows, turnsOf_refused _ hrows]

end Insert

-- A statement that inserts nothing itself runs only orderly statements, which keep the numbering.
theorem tame_of_alike (h : Orderly E (depth + 1) (under.map Prod.fst) sql vm) (hinto : insertedInto E sql = [])
    (hturns : ∀ exec : String → VmM τ ExecResult, turnsOfSql E exec sql vm = [])
    (halike : AlikeAt (Numbered under base start) (runSql E (orderlyExec E depth (under.map Prod.fst)) sql)
      (runSql E (assignedExec E depth (under.map Prod.fst)) sql) vm) :
    Numbered under base start (left (executeSql E (depth + 1) sql) vm) ∧
    Assigned E (depth + 1) (under.map Prod.fst) sql vm := by
  obtain ⟨-, hguarded⟩ := h
  rw [hinto, Guarded, List.nil_append] at hguarded
  have hsame : runSql E (orderlyExec E depth (under.map Prod.fst)) sql vm = runSql E (executeSql E depth) sql vm :=
    congrArg Prod.fst hguarded
  refine ⟨?_, ?_, ?_⟩
  · rw [executeSql_succ, left, ← hsame]
    exact halike.2
  · rw [hturns]
    exact fun t ht => absurd ht List.not_mem_nil
  · rw [hinto, Guarded, List.nil_append, hturns, hturns]
    exact congrArg (·, []) (halike.1.symm.trans hsame)

theorem tame_insert (h : Tame E depth start) {insert : InsertStmt} (hparse : E.parseSql sql = .ok (.Insert insert))
    (hvm : Numbered under base start vm) (htxn : vm.catalogTxn.isSome = true)
    (horderly : Orderly E (depth + 1) (under.map Prod.fst) sql vm) :
    Numbered under base start (left (executeSql E (depth + 1) sql) vm) ∧
    Assigned E (depth + 1) (under.map Prod.fst) sql vm := by
  obtain ⟨hsql, hexec, -⟩ := orderly_insert hparse horderly
  have hrun : executeSql E (depth + 1) sql vm = execInsert E (executeSql E depth) insert vm := by
    rw [executeSql_succ, runSql, hparse]
    rfl
  cases hrows : sourceRows E insert.source vm with
  | error e =>
      refine ⟨?_, assigned_refused hparse hrows⟩
      rw [left, hrun, execInsert_refused _ hrows]
      exact hvm
  | ok valueRows =>
      have hwent := insert_went h hparse horderly hrows (by rwa [begun_inside htxn])
      refine ⟨?_, hwent.assigned hparse horderly hrows⟩
      have hgo := hexec
      rw [execInsert_inside _ htxn hrows] at hgo
      have hstays := hwent.stays
      have hok := hwent.ok
      rw [begun_inside htxn] at hstays hok
      rw [left, hrun]
      rw [left, hgo] at hstays
      rw [hgo] at hok
      cases hend : execInsert E (executeSql E depth) insert vm with
      | ok r vm' => exact hok r vm' hend
      | error e vm' =>
          rw [hend] at hstays
          exact hstays.numbered (hsql.failed e vm' hend)

-- In a transaction the orderly statements of every depth keep the numbering.
theorem tame (E : Engine τ) (depth : Nat) (hstart : start.catalogTxn.isSome = true) : Tame E depth start := by
  induction depth with
  | zero => exact fun under base sql vm hvm _ => ⟨hvm, trivial⟩
  | succ depth ih =>
      intro under base sql vm hvm horderly
      have hnested := ih.nested under
      have hsql := horderly.1
      cases hparse : E.parseSql sql with
      | error e =>
          refine tame_of_alike horderly (by rw [insertedInto, hparse]) (fun exec => by rw [turnsOfSql, hparse]) ?_
          simp only [runSql, hparse]
          exact Alike.throw _ vm hvm
      | ok stmt =>
          rw [OrderlySql, hparse] at hsql
          cases stmt with
          | Insert insert =>
              exact tame_insert ih hparse hvm (by rw [hvm.catalogTxn]; exact hstart) horderly
          | Update update =>
              refine tame_of_alike horderly (by rw [insertedInto, hparse]) (fun exec => by rw [turnsOfSql, hparse]) ?_
              simp only [runSql, hparse]
              exact alike_execUpdate hnested update vm hvm
          | Delete delete =>
              refine tame_of_alike horderly (by rw [insertedInto, hparse]) (fun exec => by rw [turnsOfSql, hparse]) ?_
              simp only [runSql, hparse]
              exact alike_execDelete hnested delete vm hvm
          | Begin => exact hsql.elim
          | Commit => exact hsql.elim
          | Rollback => exact hsql.elim
          | Other =>
              refine tame_of_alike horderly (by rw [insertedInto, hparse]) (fun exec => by rw [turnsOfSql, hparse]) ?_
              simp only [runSql, hparse]
              refine ⟨rfl, ?_⟩
              obtain ⟨caches, side, hquiet⟩ := hsql vm
              show Numbered under base start (left (E.execOther sql) vm)
              rw [hquiet]
              exact hvm.touch (.cached vm caches side)

end Depth

section Top

variable {τ : Type} {E : Engine τ} {depth : Nat} {vm : VM τ} {sql : String}

theorem below_of_numbered {base : List Char → Option Int} {start : VM τ} (h : Numbered [] base start vm) :
    Below (counter vm.schema) vm.trees := h.below

theorem below_of_settles (h : Settles [] vm) : Below (counter vm.schema) vm.trees :=
  fun key n hn r hr => h key List.not_mem_nil n hn r hr

theorem numbered_begun (h : Below (counter vm.schema) vm.trees) :
    Numbered [] (counter vm.schema) (begun vm) (begun vm) := by
  have hschema : (begun vm).schema = vm.schema := by
    unfold begun
    split_ifs <;> rfl
  have htrees : (begun vm).trees = vm.trees := by
    unfold begun
    split_ifs <;> rfl
  refine ⟨⟨fun key n hn => ⟨n, hschema ▸ hn, le_refl n⟩, rfl, rfl, rfl⟩, ?_⟩
  show Below (counter (begun vm).schema) (begun vm).trees
  rw [hschema, htrees]
  exact h

theorem catalogTxn_begun (vm : VM τ) : (begun vm).catalogTxn.isSome = true := by
  unfold begun
  split_ifs with h
  · exact h
  · rfl

-- An orderly INSERT of the session finds a rowid in every turn and keeps the tables numbered.
theorem insert_assigned {insert : InsertStmt} (hparse : E.parseSql sql = .ok (.Insert insert))
    (hvm : Below (counter vm.schema) vm.trees) (horderly : Orderly E depth [] sql vm) :
    Below (counter (afterSql E depth sql vm).schema) (afterSql E depth sql vm).trees ∧ Assigned E depth [] sql vm := by
  cases depth with
  | zero => exact ⟨hvm, trivial⟩
  | succ depth =>
      have hbegun := numbered_begun hvm
      have htame := tame E depth (catalogTxn_begun vm)
      by_cases htxn : vm.catalogTxn.isSome = true
      · rw [begun_inside htxn] at hbegun htame
        obtain ⟨hnumbered, hassigned⟩ := tame_insert htame hparse hbegun htxn horderly
        exact ⟨below_of_numbered hnumbered, hassigned⟩
      · obtain ⟨hsql, hexec, -⟩ := orderly_insert hparse horderly
        have hrun : executeSql E (depth + 1) sql vm = execInsert E (executeSql E depth) insert vm := by
          rw [executeSql_succ, runSql, hparse]
          rfl
        cases hrows : sourceRows E insert.source vm with
        | error e =>
            refine ⟨?_, assigned_refused hparse hrows⟩
            rw [afterSql, left, hrun, execInsert_refused _ hrows]
            exact hvm
        | ok valueRows =>
            have hwent := insert_went htame hparse (by exact horderly) hrows hbegun
            refine ⟨?_, hwent.assigned hparse horderly hrows⟩
            rw [execInsert_alone _ htxn hrows] at hexec
            cases hend : execInsert E (executeSql E depth) insert vm with
            | error e vm' =>
                rw [afterSql, left, hrun, hend]
                exact below_of_settles (hsql.failed e vm' hend)
            | ok r vm' =>
                rw [hend] at hexec
                rw [afterSql, left, hrun, hend]
                obtain ⟨vm₁, hgo, rfl⟩ := settle_ok hexec
                have hbelow := below_of_numbered (hwent.ok r vm₁ hgo)
                exact hbelow

end Top

-- What a session does: statements, and closing and opening a database in a directory. `maxRowid` is what
-- `max_rowid` reads from the file of each table, 0 for an error.
inductive Action where
  | Sql (sql : String)
  | Reopen (maxRowid : List Char → Int64)

section Session

variable {τ : Type}

def durable (vm : VM τ) : Trees := vm.tableTxn.getD vm.trees

def openVm (maxRowid : List Char → Int64) : VmM τ Unit := do
  modify fun vm =>
    { vm with trees := durable vm, tableTxn := none, catalogTxn := none, schemaSnapshot := none, caches := [] }
  let tables ← (← get).schema.tables.mapM fun t => do
    let nextRowid ← nextRowidAfter (maxRowid t.1)
    return (t.1, { t.2 with nextRowid := nextRowid })
  modify fun vm => { vm with schema := { vm.schema with tables := tables } }

variable (E : Engine τ) (depth : Nat)

def act : Action → VM τ → VM τ
  | .Sql sql, vm => afterSql E depth sql vm
  | .Reopen maxRowid, vm => left (openVm maxRowid) vm

def Inserts : Action → Prop
  | .Sql sql => ∃ insert, E.parseSql sql = .ok (.Insert insert)
  | .Reopen _ => True

-- A reopened table has no row above the rowid that is read as its greatest, and that is not the last one.
def OrderlyAction : Action → VM τ → Prop
  | .Sql sql, vm => Orderly E depth [] sql vm
  | .Reopen maxRowid, vm =>
      vm.directory = true ∧ ∀ t ∈ vm.schema.tables, maxRowid t.1 ≠ Int64.maxValue ∧
        ∀ r ∈ lookupD (durable vm) (.Table t.1) [], r.1.toInt ≤ (maxRowid t.1).toInt

def AssignedAction : Action → VM τ → Prop
  | .Sql sql, vm => Assigned E depth [] sql vm
  | .Reopen maxRowid, vm => ∃ vm', openVm maxRowid vm = .ok () vm'

variable {E depth} {vm : VM τ}

theorem lookup_map_key {κ ν μ : Type} [BEq κ] [LawfulBEq κ] [DecidableEq κ] (f : κ → ν → μ) (m : List (κ × ν))
    (k : κ) : (m.map fun e => (e.1, f e.1 e.2)).lookup k = (m.lookup k).map (f k) := by
  induction m with
  | nil => rfl
  | cons e m ih =>
      rw [List.map_cons, lookup_cons_eq, lookup_cons_eq]
      by_cases hk : k = e.1
      · rw [if_pos hk, if_pos hk, Option.map_some, hk]
      · rw [if_neg hk, if_neg hk, ih]

theorem numberTables_ok {maxRowid : List Char → Int64} {tables : List (List Char × TableSchema)}
    (h : ∀ t ∈ tables, maxRowid t.1 ≠ Int64.maxValue) (vm : VM τ) :
    (tables.mapM fun t => do
      let nextRowid ← nextRowidAfter (maxRowid t.1)
      return (t.1, { t.2 with nextRowid := nextRowid }) : VmM τ (List (List Char × TableSchema))) vm =
    .ok (tables.map fun t => (t.1, { t.2 with nextRowid := maxRowid t.1 + 1 })) vm := by
  induction tables with
  | nil => rfl
  | cons t tables ih =>
      obtain ⟨ht, hrest⟩ := List.forall_mem_cons.mp h
      rw [List.mapM_cons, bind_assoc, bind_ok (nextRowidAfter_ok vm ht), pure_bind, bind_ok (ih hrest)]
      rfl

theorem reopen_assigned {maxRowid : List Char → Int64} (horderly : OrderlyAction E depth (.Reopen maxRowid) vm) :
    Below (counter (act E depth (.Reopen maxRowid) vm).schema) (act E depth (.Reopen maxRowid) vm).trees ∧
    AssignedAction E depth (.Reopen maxRowid) vm := by
  obtain ⟨-, htables⟩ := horderly
  have hrun : openVm maxRowid vm = .ok ()
      { vm with
        trees := durable vm, tableTxn := none, catalogTxn := none, schemaSnapshot := none, caches := []
        schema := { vm.schema with
          tables := vm.schema.tables.map fun t => (t.1, { t.2 with nextRowid := maxRowid t.1 + 1 }) } } := by
    rw [openVm, modify_bind, get_bind, bind_ok (numberTables_ok (fun t ht => (htables t ht).1) _)]
    rfl
  refine ⟨?_, _, hrun⟩
  rw [act, left_ok hrun]
  intro key n hn r hr
  have hlook := lookup_map_key (fun key (t : TableSchema) => { t with nextRowid := maxRowid key + 1 }) vm.schema.tables key
  rw [counter, hlook, Option.map_map] at hn
  obtain ⟨table, htable, rfl⟩ := Option.map_eq_some_iff.mp hn
  obtain ⟨hlast, hrows⟩ := htables (key, table) (mem_of_lookup htable)
  have hsucc : (maxRowid key + 1).toInt = (maxRowid key).toInt + 1 := toInt_add_one hlast
  have hle : r.1.toInt ≤ (maxRowid key).toInt := hrows r hr
  show r.1.toInt < (maxRowid key + 1).toInt
  omega

-- In every run of INSERTs and reopenings whose steps are orderly, every turn of every INSERT finds a rowid, one
-- that is not in the table if the row does not give it, and so do the INSERTs that triggers run.
theorem rowids_assigned (E : Engine τ) (depth : Nat) (actions : List Action) (vm : VM τ)
    (hstart : Below (counter vm.schema) vm.trees) (hinserts : ∀ a ∈ actions, Inserts E a)
    (horderly : Meets (act E depth) (OrderlyAction E depth) actions vm) :
    Meets (act E depth) (AssignedAction E depth) actions vm := by
  induction actions generalizing vm with
  | nil => trivial
  | cons a actions ih =>
      obtain ⟨ha, hrest⟩ := List.forall_mem_cons.mp hinserts
      have hstep : Below (counter (act E depth a vm).schema) (act E depth a vm).trees ∧ AssignedAction E depth a vm := by
        cases a with
        | Sql sql =>
            obtain ⟨insert, hparse⟩ := ha
            exact insert_assigned hparse hstart horderly.1
        | Reopen maxRowid => exact reopen_assigned horderly.1
      exact ⟨hstep.2, ih _ hstep.1 hrest horderly.2⟩

end Session

section Sample

def insertLast : String := "INSERT INTO t VALUES (9223372036854775807)"

def insertFive : String := "INSERT INTO t VALUES (5)"

def insertNull : String := "INSERT INTO t VALUES (NULL)"

def lastInsert : InsertStmt := ⟨"t", none, .Values [[.IntegerLiteral Int64.maxValue]], .Error, none⟩

def fiveInsert : InsertStmt := ⟨"t", none, .Values [[.IntegerLiteral 5]], .Error, none⟩

def nullInsert : InsertStmt := ⟨"t", none, .Values [[.Null]], .Error, none⟩

def rowidEngine : Engine Unit := plainEngine fun sql =>
  if sql = insertLast then .ok (.Insert lastInsert)
  else if sql = insertFive then .ok (.Insert fiveInsert)
  else if sql = insertNull then .ok (.Insert nullInsert)
  else .error (.Internal "")

theorem parse_insertLast : rowidEngine.parseSql insertLast = .ok (.Insert lastInsert) := by
  simp [rowidEngine, plainEngine]

theorem parse_insertFive : rowidEngine.parseSql insertFive = .ok (.Insert fiveInsert) := by
  simp [rowidEngine, plainEngine, insertFive, insertLast]

theorem parse_insertNull : rowidEngine.parseSql insertNull = .ok (.Insert nullInsert) := by
  simp [rowidEngine, plainEngine, insertNull, insertFive, insertLast]

theorem keyVm_below : Below (counter keyVm.schema) keyVm.trees := fun _ _ _ _ hr => absurd hr List.not_mem_nil

instance {τ : Type} (t : Turn τ) : Decidable t.Sized := inferInstanceAs (Decidable (_ = _))

instance {τ : Type} (t : Turn τ) : Decidable t.Fits := inferInstanceAs (Decidable (_ → _))

-- Into an empty table.
theorem insertLast_panics :
    Below (counter keyVm.schema) keyVm.trees ∧ Inserts rowidEngine (.Sql insertLast) ∧
    ¬Meets (act rowidEngine 1) (AssignedAction rowidEngine 1) [.Sql insertLast] keyVm := by
  refine ⟨keyVm_below, ⟨lastInsert, parse_insertLast⟩, fun h => ?_⟩
  have hassigns := h.1.1
  rw [turnsOfSql, parse_insertLast] at hassigns
  have hfits : ∀ t ∈ turnsOf rowidEngine (executeSql rowidEngine 0) lastInsert keyVm, t.Fits :=
    fun t ht => fits_of_assigns (hassigns t ht)
  exact absurd hfits (by decide)

-- An INSERT that runs no others, goes through, and whose turns fit is orderly.
theorem orderly_sample {E : Engine Unit} {sql : String} {insert : InsertStmt} {vm : VM Unit}
    (hparse : E.parseSql sql = .ok (.Insert insert)) (hfits : ∀ t ∈ turnsOf E (executeSql E 0) insert vm, t.Fits)
    (hok : succeeds (execInsert E (executeSql E 0) insert) vm = true) : Orderly E 1 [] sql vm := by
  refine ⟨?_, guarded_of_forall fun _ _ => trivial⟩
  rw [OrderlySql, hparse]
  refine ⟨List.not_mem_nil, hfits, fun e vm' hfail => ?_⟩
  rw [succeeds, hfail] at hok
  cases hok

def directoryVm : VM Unit := { keyVm with directory := true }

-- A key, and a rowid after it in the reopened table.
theorem rowids_assigned_sample :
    Meets (act rowidEngine 1) (AssignedAction rowidEngine 1)
      [.Sql insertFive, .Reopen fun _ => 5, .Sql insertNull] directoryVm := by
  refine rowids_assigned rowidEngine 1 [.Sql insertFive, .Reopen fun _ => 5, .Sql insertNull] directoryVm keyVm_below
    ?_ ⟨?_, ⟨rfl, by decide⟩, ?_, trivial⟩
  · rw [List.forall_mem_cons, List.forall_mem_cons, List.forall_mem_singleton]
    exact ⟨⟨fiveInsert, parse_insertFive⟩, trivial, ⟨nullInsert, parse_insertNull⟩⟩
  · exact orderly_sample parse_insertFive (by decide) (by decide)
  · exact orderly_sample parse_insertNull (by decide) (by decide)

end Sample

end Dml

end Kkdb
