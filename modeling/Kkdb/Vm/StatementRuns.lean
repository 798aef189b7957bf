import Kkdb.Vm.DmlEffects

namespace Kkdb

open Lib

namespace Dml

-- The index of a column is within the rows of its table.
def Schema.Placed (schema : Schema) : Prop :=
  ∀ name table, schema.getTable name = some table → ∀ c ∈ table.columns, c.colIndex < table.columns.length

section Rows

variable {rows : List (Int64 × Row)} {rowid : Int64} {row : Row}

theorem notMem_of_lookup_eq_none (h : rows.lookup rowid = none) : rowid ∉ rows.map Prod.fst := by
  intro hmem
  obtain ⟨r, hr, rfl⟩ := List.mem_map.mp hmem
  exact lookup_ne_none_of_mem (k := r.1) (v := r.2) hr h

theorem putRow_perm (h : rowid ∉ rows.map Prod.fst) : (putRow rowid row rows).Perm ((rowid, row) :: rows) := by
  induction rows with
  | nil => exact List.Perm.refl _
  | cons r rows ih =>
      rw [List.map_cons, List.mem_cons, not_or] at h
      rw [putRow, if_neg h.1]
      split_ifs
      · exact List.Perm.refl _
      · exact ((ih h.2).cons r).trans (List.Perm.swap _ _ _)

theorem tableRoot_inj {a b : String} : tableRoot a = tableRoot b ↔ toAsciiLowercase a = toAsciiLowercase b := by
  rw [tableRoot, tableRoot, Root.Table.injEq]

end Rows

section Run

variable {τ : Type} {E : Engine τ} {depth : Nat} {vm : VM τ}

def afterSql (E : Engine τ) (depth : Nat) (sql : String) (vm : VM τ) : VM τ := left (executeSql E depth sql) vm

def changesOf (E : Engine τ) (depth : Nat) (sql : String) (vm : VM τ) : List Change :=
  (afterSql E depth sql vm).history.drop vm.history.length

-- Nested statements may begin and end transactions.
def worldOf (vm : VM τ) : World := ⟨shape vm.schema, True⟩

theorem placed_shape {schema : Schema} (h : Schema.Placed schema) : Schema.Placed (shape schema) := by
  intro name table htable c hc
  rw [getTable_shape] at htable
  obtain ⟨t, ht, rfl⟩ := Option.map_eq_some_iff.mp htable
  exact h name t ht c hc

theorem run_effects {W : World} (hclosed : Closed E W) {sqls : List String} (hsqls : ∀ sql ∈ sqls, Allowed W E sql)
    (hframe : Framed W vm) : Effects W vm (run (afterSql E depth) sqls vm) := by
  induction sqls generalizing vm with
  | nil => exact Relation.ReflTransGen.refl
  | cons sql sqls ih =>
      have hstep : Effects W vm (afterSql E depth sql vm) :=
        does_executeSql hclosed depth (hsqls sql List.mem_cons_self) vm hframe fun c hc => absurd hc List.not_mem_nil
      exact hstep.trans (ih (fun s hs => hsqls s (List.mem_cons_of_mem _ hs)) (hstep.framed hframe))

-- What holds of the changes of every statement holds of all changes in the history.
theorem run_history {W : World} {P : Change → Prop} (hclosed : Closed E W) {sqls : List String}
    (hsqls : ∀ sql ∈ sqls, Allowed W E sql) (hframe : Framed W vm) (hstart : ∀ c ∈ vm.history, P c)
    (hmeets : Meets (afterSql E depth) (fun sql vm => ∀ c ∈ changesOf E depth sql vm, P c) sqls vm) :
    ∀ c ∈ (run (afterSql E depth) sqls vm).history, P c := by
  induction sqls generalizing vm with
  | nil => exact hstart
  | cons sql sqls ih =>
      have hstep : Effects W vm (afterSql E depth sql vm) :=
        does_executeSql hclosed depth (hsqls sql List.mem_cons_self) vm hframe fun c hc => absurd hc List.not_mem_nil
      refine ih (fun s hs => hsqls s (List.mem_cons_of_mem _ hs)) (hstep.framed hframe) ?_ hmeets.2
      obtain ⟨new, hnew⟩ := hstep.history_prefix
      intro c hc
      rw [← hnew, List.mem_append] at hc
      rcases hc with hc | hc
      · exact hstart c hc
      · refine hmeets.1 c ?_
        rw [changesOf, ← hnew, List.drop_left]
        exact hc

end Run

section Sample

def keyColumn : ColumnInfo := ⟨"id", .Integer, true, false, 0⟩

def keyVm : VM Unit where
  schema :=
    { tables := [("t".toList, ⟨"t", [keyColumn], ["id"], 1, [], []⟩)]
      indexes := []
      triggers := [] }
  schemaSnapshot := none
  trees := []
  directory := false
  catalogTxn := none
  tableTxn := none
  caches := []
  side := ()
  history := []

def succeeds {τ α : Type} (x : VmM τ α) (vm : VM τ) : Bool :=
  match x vm with
  | .ok _ _ => true
  | .error _ _ => false

end Sample

end Dml

end Kkdb
