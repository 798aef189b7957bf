import Kkdb.Lib.State
import Kkdb.Vm.StatementRuns

namespace Kkdb

open Lib

namespace Dml

def counter (schema : Schema) (key : List Char) : Option Int :=
  (schema.tables.lookup key).map fun table => table.nextRowid.toInt

def tableKey (name : String) : List Char := toAsciiLowercase name

def Below (limit : List Char → Option Int) (trees : Trees) : Prop :=
  ∀ key n, limit key = some n → ∀ r ∈ lookupD trees (.Table key) [], r.1.toInt < n

-- The tables that rows are being inserted into, each with the next rowid that its loop holds.
abbrev UnderWay := List (List Char × Int)

def limit (under : UnderWay) (schema : Schema) (key : List Char) : Option Int :=
  (under.lookup key).or (counter schema key)

-- What the statements that run inside others keep: the numbering does not fall behind `base`, and the
-- transaction stays as it was at the start.
structure Kept {τ : Type} (base : List Char → Option Int) (start vm : VM τ) : Prop where
  base : ∀ key n, counter vm.schema key = some n → ∃ b, base key = some b ∧ b ≤ n
  catalogTxn : vm.catalogTxn = start.catalogTxn
  snapshot : vm.schemaSnapshot = start.schemaSnapshot
  directory : vm.directory = start.directory

structure Numbered {τ : Type} (under : UnderWay) (base : List Char → Option Int) (start vm : VM τ) : Prop
    extends Kept base start vm where
  below : Below (limit under vm.schema) vm.trees

section Counters

variable {schema : Schema} {key : List Char} {name : String}

theorem counter_of_getTable {table : TableSchema} (h : schema.getTable name = some table) :
    counter schema (tableKey name) = some table.nextRowid.toInt := by
  rw [Schema.getTable] at h
  rw [counter, tableKey, h, Option.map_some]

theorem lookup_setNextRowid (key : List Char) (tables : List (List Char × TableSchema)) (k : List Char)
    (n : Int64) :
    (tables.map fun t => if t.1 = k then (t.1, { t.2 with nextRowid := n }) else t).lookup key =
      (tables.lookup key).map fun t => if key = k then { t with nextRowid := n } else t := by
  induction tables with
  | nil => rfl
  | cons t tables ih =>
      rw [List.map_cons]
      by_cases hk : t.1 = k
      · rw [if_pos hk, lookup_cons_eq, lookup_cons_eq]
        by_cases heq : key = t.1
        · rw [if_pos heq, if_pos heq, Option.map_some, if_pos (heq.trans hk)]
        · rw [if_neg heq, if_neg heq, ih]
      · rw [if_neg hk, lookup_cons_eq, lookup_cons_eq]
        by_cases heq : key = t.1
        · rw [if_pos heq, if_pos heq, Option.map_some, if_neg fun h => hk (heq.symm.trans h)]
        · rw [if_neg heq, if_neg heq, ih]

theorem counter_setNextRowid (n : Int64) :
    counter (schema.setNextRowid name n) key =
      (counter schema key).map fun old => if key = tableKey name then n.toInt else old := by
  have htables := lookup_setNextRowid key schema.tables (toAsciiLowercase name) n
  rw [counter, Schema.setNextRowid, htables, counter, Option.map_map, Option.map_map]
  refine congrArg (Option.map · _) (funext fun table => ?_)
  rw [Function.comp_apply, Function.comp_apply, tableKey]
  by_cases hkey : key = toAsciiLowercase name
  · rw [if_pos hkey, if_pos hkey]
  · rw [if_neg hkey, if_neg hkey]

theorem of_mem_putRow {rowid : Int64} {row : Row} {rows : List (Int64 × Row)} {r : Int64 × Row}
    (h : r ∈ putRow rowid row rows) : r.1 = rowid ∨ r ∈ rows := by
  induction rows with
  | nil =>
      rw [putRow, List.mem_singleton] at h
      exact .inl (congrArg Prod.fst h)
  | cons r' rows ih =>
      rw [putRow] at h
      split_ifs at h
      · rcases List.mem_cons.mp h with rfl | h
        · exact .inl rfl
        · exact .inr h
      · rcases List.mem_cons.mp h with rfl | h
        · exact .inl rfl
        · exact .inr (List.mem_cons_of_mem _ h)
      · rcases List.mem_cons.mp h with rfl | h
        · exact .inr List.mem_cons_self
        · exact (ih h).imp_right (List.mem_cons_of_mem _)

end Counters

section Steps

variable {τ : Type} {under : UnderWay} {base : List Char → Option Int} {start vm : VM τ} {key : List Char}
variable {rows : List (Int64 × Row)}

theorem Below.setTable {lim : List Char → Option Int} {trees : Trees} (h : Below lim trees)
    (hrows : ∀ n, lim key = some n → ∀ r ∈ rows, r.1.toInt < n) : Below lim (put (.Table key) rows trees) := by
  intro other n hn r hr
  rw [lookupD_put] at hr
  split_ifs at hr with heq
  · rw [Root.Table.injEq] at heq
    exact hrows n (heq ▸ hn) r hr
  · exact h other n hn r hr

theorem Below.setIndex {lim : List Char → Option Int} {trees : Trees} {index : List Char}
    (h : Below lim trees) :
    Below lim (put (.Index index) rows trees) := by
  intro other n hn r hr
  rw [lookupD_put, if_neg (by simp)] at hr
  exact h other n hn r hr

theorem Numbered.setTable (h : Numbered under base start vm)
    (hrows : ∀ n, limit under vm.schema key = some n → ∀ r ∈ rows, r.1.toInt < n) :
    Numbered under base start (vm.setTree (.Table key) rows) :=
  ⟨⟨h.base, h.catalogTxn, h.snapshot, h.directory⟩, h.below.setTable hrows⟩

theorem Numbered.record (h : Numbered under base start vm) (change : Change) :
    Numbered under base start (vm.record change) :=
  ⟨⟨h.base, h.catalogTxn, h.snapshot, h.directory⟩, h.below⟩

theorem Numbered.touch {vm' : VM τ} (h : Numbered under base start vm) (hstep : Touch vm vm') :
    Numbered under base start vm' := by
  cases hstep with
  | cached caches side => exact ⟨⟨h.base, h.catalogTxn, h.snapshot, h.directory⟩, h.below⟩
  | indexed name rows => exact ⟨⟨h.base, h.catalogTxn, h.snapshot, h.directory⟩, h.below.setIndex⟩

theorem Numbered.touched {vm' : VM τ} (h : Numbered under base start vm)
    (hsteps : Relation.ReflTransGen Touch vm vm') : Numbered under base start vm' := by
  induction hsteps with
  | refl => exact h
  | tail _ hstep ih => exact ih.touch hstep

theorem Touches.alike {α : Type} {x : VmM τ α} (h : Touches x) : Alike (Numbered under base start) x x :=
  .of_left fun vm hvm => hvm.touched (h vm)

theorem Reads.alike {α : Type} {x : VmM τ α} (h : Reads x) : Alike (Numbered under base start) x x :=
  (Touches.of_reads h).alike

theorem Numbered.lt_limit (h : Numbered under base start vm) {rowid : Int64}
    (hrowid : ∀ b, (under.lookup key).or (base key) = some b → rowid.toInt < b) {n : Int}
    (hn : limit under vm.schema key = some n) : rowid.toInt < n := by
  cases hunder : under.lookup key with
  | some b =>
      rw [limit, hunder, Option.some_or] at hn
      rw [hunder, Option.some_or] at hrowid
      exact hrowid n hn
  | none =>
      rw [limit, hunder, Option.none_or] at hn
      rw [hunder, Option.none_or] at hrowid
      obtain ⟨b, hb, hle⟩ := h.base key n hn
      exact lt_of_lt_of_le (hrowid b hb) hle

theorem alike_deleteByRowid {name : String} (rowid : Int64) :
    Alike (Numbered under base start) (deleteByRowid (tableRoot name) rowid)
      (deleteByRowid (tableRoot name) rowid) := by
  refine .of_left fun vm hvm => hvm.setTable fun n hn r hr => ?_
  exact hvm.below _ n hn r (List.mem_filter.mp hr).1

theorem alike_updateRow {name : String} {rowid : Int64} (row : Row)
    (hrowid : ∀ b, (under.lookup (tableKey name)).or (base (tableKey name)) = some b → rowid.toInt < b) :
    Alike (Numbered under base start) (updateRow (tableRoot name) rowid row)
      (updateRow (tableRoot name) rowid row) := by
  refine .of_left fun vm hvm => hvm.setTable fun n hn r hr => ?_
  rcases of_mem_putRow hr with heq | hr
  · rw [heq]
    exact hvm.lt_limit hrowid hn
  · exact hvm.below _ n hn r (List.mem_filter.mp hr).1

theorem alike_storeRow {plan : InsertPlan} {given row : Row} {rowid : Int64}
    (hrowid : ∀ b, (under.lookup (tableKey plan.stmt.tableName)).or (base (tableKey plan.stmt.tableName)) =
      some b →
      rowid.toInt < b) :
    Alike (Numbered under base start) (storeRow plan given rowid row) (storeRow plan given rowid row) := by
  refine .of_left fun vm hvm => ?_
  unfold storeRow
  rcases insertWithBuf_cases (tableRoot plan.stmt.tableName) rowid row vm with ⟨-, hrun⟩ | hrun
  · rw [left, bind_ok hrun]
    refine Numbered.record (hvm.setTable fun n hn r hr => ?_) _
    rcases of_mem_putRow hr with heq | hr
    · rw [heq]
      exact hvm.lt_limit hrowid hn
    · exact hvm.below _ n hn r hr
  · rw [left_error (bind_error hrun)]
    exact hvm

theorem alike_attempt {α : Type} {I : VM τ → Prop} {x y : VmM τ α} (h : Alike I x y) :
    Alike I (attempt x) (attempt y) := by
  intro vm hvm
  obtain ⟨hsame, hkept⟩ := h vm hvm
  refine ⟨?_, ?_⟩
  · unfold Dml.attempt
    rw [hsame]
  · rw [left_attempt]
    exact hkept

end Steps

-- The statements that the two executors run inside others cannot be told apart.
def NestedAlike {τ : Type} (under : UnderWay) (start : VM τ) (exec exec' : String → VmM τ ExecResult) : Prop :=
  ∀ base sql, Alike (Numbered under base start) (exec sql) (exec' sql)

section Nested

variable {τ : Type} {under : UnderWay} {base : List Char → Option Int} {start : VM τ} {E : Engine τ}
variable {exec exec' : String → VmM τ ExecResult} (hrun : NestedAlike under start exec exec')

include hrun

theorem alike_fireTriggers (name : String) (timing : TriggerTiming) (event : TriggerEvent) :
    Alike (Numbered under base start) (fireTriggers exec name timing event)
      (fireTriggers exec' name timing event) := by
  refine (Reads.alike .get).bind fun vm => .forM fun t _ => .forM fun sql _ => ?_
  exact (alike_attempt (hrun base sql)).bind fun _ => .pure _

theorem alike_enforceFkParentDelete (name : String) (row : Row) :
    Alike (Numbered under base start) (enforceFkParentDelete E exec name row)
      (enforceFkParentDelete E exec' name row) := by
  refine (Reads.alike .get).bind fun vm => .forM fun key _ => (Reads.alike .get).bind fun vm => ?_
  cases vm.schema.tables.lookup key with
  | none => exact .pure _
  | some child =>
      refine .forM fun fk _ => .ite ((Reads.alike .getTable).bind fun parent => ?_) (.pure _)
      split
      · exact .pure _
      · exact .pure _
      · split
        · exact (hrun base _).bind fun _ => .pure _
        · exact (hrun base _).bind fun _ => .pure _
        · exact (Reads.alike (.fkValueExistsInParent _ _ _)).bind fun b => .ite (.throw _) (.pure _)
        · exact .pure _

theorem alike_enforceFkParentUpdate (name : String) (oldRow newRow : Row) :
    Alike (Numbered under base start) (enforceFkParentUpdate E exec name oldRow newRow)
      (enforceFkParentUpdate E exec' name oldRow newRow) := by
  refine (Reads.alike .get).bind fun vm => .forM fun key _ => (Reads.alike .get).bind fun vm => ?_
  cases vm.schema.tables.lookup key with
  | none => exact .pure _
  | some child =>
      refine .forM fun fk _ => .ite ((Reads.alike .getTable).bind fun parent => .ite ?_ (.pure _)) (.pure _)
      split
      · split
        · exact (hrun base _).bind fun _ => .pure _
        · exact (hrun base _).bind fun _ => .pure _
        · exact (Reads.alike (.fkValueExistsInParent _ _ _)).bind fun b => .ite (.throw _) (.pure _)
      · exact .pure _

theorem alike_updateOne {name : String} {x : Int64 × Row × Row}
    (hrowid : ∀ b, (under.lookup (tableKey name)).or (base (tableKey name)) = some b → x.1.toInt < b) :
    Alike (Numbered under base start) (updateOne E exec name x) (updateOne E exec' name x) := by
  refine (alike_fireTriggers hrun _ _ _).bind fun _ => ?_
  refine (Reads.alike (.checkConstraintsForRow E _ _)).bind fun _ => ?_
  refine (touches_maintainFtsDelete E _ _).alike.bind fun _ => ?_
  refine (touches_maintainVecDelete E _ _).alike.bind fun _ => ?_
  refine (touches_deleteIndexEntries E _ _).alike.bind fun _ => ?_
  refine (touches_validateUniqueIndexesForRow E _ _ _).alike.bind fun _ => ?_
  refine (alike_updateRow _ hrowid).bind fun _ => ?_
  refine (touches_insertIndexEntries E _ _ _).alike.bind fun _ => ?_
  refine (touches_maintainFtsInsert E _ _ _).alike.bind fun _ => ?_
  refine (touches_maintainVecInsert E _ _ _).alike.bind fun _ => ?_
  exact (alike_enforceFkParentUpdate hrun _ _ _).bind fun _ => alike_fireTriggers hrun _ _ _

-- The rows to update were in the table when they were chosen, and the numbering has not fallen back since.
theorem alike_execUpdate (update : UpdateStmt) :
    Alike (Numbered under base start) (execUpdate E exec update) (execUpdate E exec' update) := by
  refine (touches_rowsToUpdate update).alike.bind_ok fun vm targets vm' _ htargets hvm' => ?_
  have hread := rowsToUpdate_read htargets
  have hnow : Numbered under (counter vm'.schema) start (vm'.record (.Rewriting update.tableName targets)) :=
    ⟨⟨fun key n hn => ⟨n, hn, le_refl n⟩, hvm'.catalogTxn, hvm'.snapshot, hvm'.directory⟩, hvm'.below⟩
  have hturns : Alike (Numbered under (counter vm'.schema) start)
      (targets.forM (updateOne E exec update.tableName))
      (targets.forM (updateOne E exec' update.tableName)) :=
    .forM fun x hx => alike_updateOne hrun fun b hb => hvm'.below _ b hb _ (hread x hx)
  refine .modify_bind ((hturns.bind fun _ => ?_) _ hnow |>.mono fun vm'' hvm'' => ?_)
  · cases update.returning with
    | none => exact .pure _
    | some exprs => exact Reads.alike (.returningResult _ _ _)
  refine ⟨⟨fun key n hn => ?_, ?_, ?_, ?_⟩, hvm''.below⟩
  · obtain ⟨m, hm, hle⟩ := hvm''.base key n hn
    obtain ⟨b, hb, hle'⟩ := hvm'.base key m hm
    exact ⟨b, hb, hle'.trans hle⟩
  · exact hvm''.catalogTxn
  · exact hvm''.snapshot
  · exact hvm''.directory

theorem alike_deleteOne (name : String) (rowid : Int64) :
    Alike (Numbered under base start) (deleteOne E exec name rowid) (deleteOne E exec' name rowid) := by
  refine (alike_fireTriggers hrun _ _ _).bind fun _ => (Reads.alike (.findByRowid _ _)).bind fun parentRow => ?_
  have hrest : Alike (Numbered under base start)
      (do
        maintainFtsDelete E name rowid
        maintainVecDelete E name rowid
        deleteIndexEntries E name rowid
        let oldRow ← findByRowid (tableRoot name) rowid
        deleteByRowid (tableRoot name) rowid
        fireTriggers exec name .After .Delete
        return oldRow : VmM τ (Option Row))
      (do
        maintainFtsDelete E name rowid
        maintainVecDelete E name rowid
        deleteIndexEntries E name rowid
        let oldRow ← findByRowid (tableRoot name) rowid
        deleteByRowid (tableRoot name) rowid
        fireTriggers exec' name .After .Delete
        return oldRow : VmM τ (Option Row)) := by
    refine (touches_maintainFtsDelete E _ _).alike.bind fun _ => ?_
    refine (touches_maintainVecDelete E _ _).alike.bind fun _ => ?_
    refine (touches_deleteIndexEntries E _ _).alike.bind fun _ => ?_
    refine (Reads.alike (.findByRowid _ _)).bind fun oldRow => (alike_deleteByRowid _).bind fun _ => ?_
    exact (alike_fireTriggers hrun _ _ _).bind fun _ => .pure _
  cases parentRow with
  | none => exact hrest
  | some parentRow => exact (alike_enforceFkParentDelete hrun _ _).bind fun _ => hrest

theorem alike_execDelete (delete : DeleteStmt) :
    Alike (Numbered under base start) (execDelete E exec delete) (execDelete E exec' delete) := by
  refine (touches_rowidsToDelete delete).alike.bind fun rowids => ?_
  refine (Alike.mapM fun rowid _ => alike_deleteOne hrun _ rowid).bind fun deleted => ?_
  cases delete.returning with
  | none => exact .pure _
  | some exprs => exact Reads.alike (.returningResult _ _ _)

end Nested

end Dml

end Kkdb
