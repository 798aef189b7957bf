import Kkdb.Vm.Dml
import Kkdb.Vm.DmlIndex
import Kkdb.Vm.Touches
import Mathlib.Logic.Relation

namespace Kkdb

open Lib

namespace Dml

-- The parts of the schema that the statements leave alone: all but the next rowids.
def shapeOf (table : TableSchema) : TableSchema := { table with nextRowid := 0 }

def shape (schema : Schema) : Schema :=
  { schema with tables := schema.tables.map fun t => (t.1, shapeOf t.2) }

-- What stays the same while statements run: the shape of the schema, and whether the statements of
-- triggers may begin and end transactions.
structure World where
  shape : Schema
  control : Prop

structure Framed {τ : Type} (W : World) (vm : VM τ) : Prop where
  schema : shape vm.schema = W.shape
  snapshot : ∀ s ∈ vm.schemaSnapshot, shape s = W.shape
  inTransaction : W.control ∨ vm.catalogTxn.isSome

-- How the rowid of a stored row follows from the row that the statement gave.
def Filled (pkColIdx : Option Nat) (given : Row) (rowid : Int64) (row : Row) : Prop :=
  match pkColIdx with
  | none => row = given
  | some pk =>
      match given.getD pk .Null with
      | .Integer rid => rowid = rid ∧ row = given
      | .Null => row = given.set pk (.Integer rowid)
      | _ => row = given

-- What the statements can do to the state, one change at a time.
inductive Effect {τ : Type} (W : World) : VM τ → VM τ → Prop where
  | cached (vm : VM τ) (caches : List (List Char × IndexCaches)) (side : τ) :
      Effect W vm { vm with caches := caches, side := side }
  | indexed (vm : VM τ) (name : List Char) (rows : List (Int64 × Row)) :
      Effect W vm (vm.setTree (.Index name) rows)
  | numbered (vm : VM τ) (name : String) (nextRowid : Int64) :
      Effect W vm { vm with schema := vm.schema.setNextRowid name nextRowid }
  | stored (vm : VM τ) (name : String) (table : TableSchema) (given : Row) (rowid : Int64) (row : Row)
      (htable : W.shape.getTable name = some table) (hlength : given.length = table.columns.length)
      (hfilled : Filled table.pkColIdx given rowid row)
      (hnotnull : ∀ c ∈ table.notNullCols, row.getD c.1 .Null ≠ .Null)
      (hfresh : (vm.tree (tableRoot name)).lookup rowid = none) :
      Effect W vm ((vm.setTree (tableRoot name) (putRow rowid row (vm.tree (tableRoot name)))).record
        (.Inserted name given rowid))
  | planned (vm : VM τ) (name : String) (targets : List (Int64 × Row × Row))
      (hread : ∀ x ∈ targets, (x.1, x.2.1) ∈ vm.tree (tableRoot name)) :
      Effect W vm (vm.record (.Rewriting name targets))
  | rewritten (vm : VM τ) (name : String) (targets : List (Int64 × Row × Row)) (x : Int64 × Row × Row)
      (hplanned : .Rewriting name targets ∈ vm.history) (hx : x ∈ targets) :
      Effect W vm (vm.setTree (tableRoot name)
        (putRow x.1 x.2.2 (remove x.1 (vm.tree (tableRoot name)))))
  | erased (vm : VM τ) (name : String) (rowid : Int64) :
      Effect W vm (vm.setTree (tableRoot name) (remove rowid (vm.tree (tableRoot name))))
  | begun (vm : VM τ) (tables : Option Trees) (htables : tables = vm.tableTxn ∨ tables = some vm.trees)
      (hcontrol : W.control) :
      Effect W vm { vm.beginCatalog with tableTxn := tables, schemaSnapshot := some vm.schema }
  | committed (vm : VM τ) (tables : Option Trees) (htables : tables = vm.tableTxn ∨ tables = none)
      (hcontrol : W.control) :
      Effect W vm { vm.commitCatalog with tableTxn := tables, schemaSnapshot := none }
  | undone (vm : VM τ) (trees : Trees) (tables : Option Trees)
      (htrees : trees = vm.trees ∨ vm.catalogTxn = some trees ∨ vm.tableTxn = some trees)
      (htables : tables = vm.tableTxn ∨ tables = none) (hcontrol : W.control) :
      Effect W vm { vm.restoreSchema with trees := trees, catalogTxn := none, tableTxn := tables }

def Effects {τ : Type} (W : World) : VM τ → VM τ → Prop := Relation.ReflTransGen (Effect W)

section Shape

@[simp] theorem shapeOf_columns (table : TableSchema) : (shapeOf table).columns = table.columns := rfl

@[simp] theorem shapeOf_pkColIdx (table : TableSchema) : (shapeOf table).pkColIdx = table.pkColIdx := rfl

theorem lookup_map {κ ν μ : Type} [BEq κ] [LawfulBEq κ] [DecidableEq κ] (f : ν → μ) (m : List (κ × ν))
    (k : κ) : (m.map fun e => (e.1, f e.2)).lookup k = (m.lookup k).map f := by
  induction m with
  | nil => rfl
  | cons e m ih =>
      rw [List.map_cons, lookup_cons_eq, lookup_cons_eq]
      split_ifs
      · rfl
      · exact ih

theorem getTable_shape (schema : Schema) (name : String) :
    (shape schema).getTable name = (schema.getTable name).map shapeOf :=
  lookup_map shapeOf schema.tables (toAsciiLowercase name)

theorem shape_setNextRowid (schema : Schema) (name : String) (nextRowid : Int64) :
    shape (schema.setNextRowid name nextRowid) = shape schema := by
  have htables : ((schema.setNextRowid name nextRowid).tables.map fun t => (t.1, shapeOf t.2)) =
      schema.tables.map fun t => (t.1, shapeOf t.2) := by
    rw [Schema.setNextRowid, List.map_map]
    refine List.map_congr_left fun t _ => ?_
    simp only [Function.comp_apply]
    split_ifs <;> rfl
  rw [shape, shape, htables]
  rfl

end Shape

section Frame

variable {τ : Type} {W : World} {vm vm' : VM τ}

theorem Effect.framed (h : Effect W vm vm') (hf : Framed W vm) : Framed W vm' := by
  cases h with
  | cached caches side => exact ⟨hf.schema, hf.snapshot, hf.inTransaction⟩
  | indexed name rows => exact ⟨hf.schema, hf.snapshot, hf.inTransaction⟩
  | numbered name nextRowid =>
      exact ⟨(shape_setNextRowid _ _ _).trans hf.schema, hf.snapshot, hf.inTransaction⟩
  | stored name table given rowid row => exact ⟨hf.schema, hf.snapshot, hf.inTransaction⟩
  | planned name targets => exact ⟨hf.schema, hf.snapshot, hf.inTransaction⟩
  | rewritten name targets x => exact ⟨hf.schema, hf.snapshot, hf.inTransaction⟩
  | erased name rowid => exact ⟨hf.schema, hf.snapshot, hf.inTransaction⟩
  | begun tables _ hcontrol =>
      refine ⟨hf.schema, fun s hs => ?_, .inl hcontrol⟩
      cases hs
      exact hf.schema
  | committed tables _ hcontrol => exact ⟨hf.schema, fun s hs => (by cases hs), .inl hcontrol⟩
  | undone trees tables _ _ hcontrol =>
      refine ⟨?_, fun s hs => (by cases hs), .inl hcontrol⟩
      show shape (vm.schemaSnapshot.getD vm.schema) = W.shape
      cases hsnap : vm.schemaSnapshot with
      | none => exact hf.schema
      | some s => exact hf.snapshot s hsnap

theorem Effects.framed (h : Effects W vm vm') (hf : Framed W vm) : Framed W vm' := by
  induction h with
  | refl => exact hf
  | tail _ hstep ih => exact hstep.framed ih

theorem Effect.history_prefix (h : Effect W vm vm') : vm.history <+: vm'.history := by
  cases h with
  | stored => exact List.prefix_append _ _
  | planned => exact List.prefix_append _ _
  | _ => exact List.prefix_rfl

theorem Effects.history_prefix (h : Effects W vm vm') : vm.history <+: vm'.history := by
  induction h with
  | refl => exact List.prefix_rfl
  | tail _ hstep ih => exact ih.trans hstep.history_prefix

theorem Effects.history (h : Effects W vm vm') {c : Change} (hc : c ∈ vm.history) : c ∈ vm'.history :=
  h.history_prefix.subset hc

end Frame

end Dml

end Kkdb

namespace Kkdb

open Lib

namespace Dml

-- From every state with the changes `known` in its history the call leaves a state that the effects lead
-- to, whether it succeeds or fails.
def Does {τ α : Type} (W : World) (known : List Change) (x : VmM τ α) : Prop :=
  ∀ vm, Framed W vm → (∀ c ∈ known, c ∈ vm.history) → Effects W vm (left x vm)

section Rules

variable {τ α β : Type} {W : World} {known : List Change} {x : VmM τ α} {f : α → VmM τ β}

theorem Does.weaken (h : Does W [] x) : Does W known x := fun vm hf _ =>
  h vm hf fun _ hc => (by cases hc)

theorem Does.bind_ok (hx : Does W known x)
    (hf : ∀ vm a vm', Framed W vm' → (∀ c ∈ known, c ∈ vm'.history) → x vm = .ok a vm' →
      Effects W vm' (left (f a) vm')) : Does W known (x >>= f) := by
  intro vm hframe hknown
  refine left_bind (Effects W) (fun _ _ _ => Relation.ReflTransGen.trans) (hx vm hframe hknown) ?_
  intro a vm' hrun
  have hsteps := hx vm hframe hknown
  rw [left_ok hrun] at hsteps
  exact hf vm a vm' (hsteps.framed hframe) (fun c hc => hsteps.history (hknown c hc)) hrun

theorem Does.bind (hx : Does W known x) (hf : ∀ a, Does W known (f a)) : Does W known (x >>= f) :=
  hx.bind_ok fun _ a vm' hframe hknown _ => hf a vm' hframe hknown

theorem Does.of_reads (h : Reads x) : Does W known x := fun vm _ _ => by
  rw [h vm]
  exact Relation.ReflTransGen.refl

theorem Does.modify {g : VM τ → VM τ} (h : ∀ vm, Framed W vm → (∀ c ∈ known, c ∈ vm.history) → Effect W vm
    (g vm)) :
    Does W known (modify g : VmM τ Unit) := fun vm hframe hknown =>
  Relation.ReflTransGen.single (h vm hframe hknown)

theorem Does.pure (a : α) : Does W known (Pure.pure a : VmM τ α) := .of_reads (.pure a)

theorem Does.throw (e : Fault) : Does W known (MonadExcept.throw e : VmM τ α) := .of_reads (.throw e)

theorem Does.ofRes (r : Res α) : Does W known (Dml.ofRes r : VmM τ α) := .of_reads (.ofRes r)

theorem Does.get_bind {f : VM τ → VmM τ β}
    (h : ∀ vm, Framed W vm → (∀ c ∈ known, c ∈ vm.history) → Effects W vm (left (f vm) vm)) :
    Does W known (MonadState.get >>= f) := h

theorem Does.ite {p : Prop} [Decidable p] {y : VmM τ α} (hx : Does W known x) (hy : Does W known y) :
    Does W known (if p then x else y) := by
  split_ifs
  · exact hx
  · exact hy

theorem Does.attempt (hx : Does W known x) : Does W known (attempt x) := fun vm hframe hknown => by
  rw [left_attempt]
  exact hx vm hframe hknown

-- Caches and indexes are in no effect but two.
theorem Touches.does (h : Touches x) : Does W known x := fun vm _ _ => by
  refine Relation.ReflTransGen.mono (fun vm vm' hstep => ?_) _ _ (h vm)
  cases hstep with
  | cached caches side => exact .cached vm caches side
  | indexed name rows => exact .indexed vm name rows

theorem Does.forM {xs : List α} {f : α → VmM τ Unit} (h : ∀ a ∈ xs, Does W known (f a)) :
    Does W known (xs.forM f) := by
  induction xs with
  | nil => exact .pure ()
  | cons a xs ih =>
      show Does W known (f a >>= fun _ => xs.forM f)
      exact (h a List.mem_cons_self).bind fun _ => ih fun b hb => h b (List.mem_cons_of_mem _ hb)

-- A loop that goes through has gone through every turn.
theorem forM_ok {xs : List α} {f : α → VmM τ Unit} {vm vm' : VM τ} (h : xs.forM f vm = .ok () vm') :
    ∀ a ∈ xs, ∃ vm₁ vm₂, f a vm₁ = .ok () vm₂ := by
  induction xs generalizing vm with
  | nil => exact fun a ha => absurd ha List.not_mem_nil
  | cons a xs ih =>
      have hcons : (f a >>= fun _ => xs.forM f) vm = .ok () vm' := h
      obtain ⟨⟨⟩, vm₁, hhead, hrest⟩ := ok_of_bind_state hcons
      intro b hb
      rcases List.mem_cons.mp hb with rfl | hb
      · exact ⟨vm, vm₁, hhead⟩
      · exact ih hrest b hb

theorem Does.mapM {xs : List α} (h : ∀ a ∈ xs, Does W known (f a)) : Does W known (xs.mapM f) := by
  induction xs with
  | nil => exact .pure []
  | cons a xs ih =>
      rw [List.mapM_cons]
      refine (h a List.mem_cons_self).bind fun b => ?_
      exact (ih fun b hb => h b (List.mem_cons_of_mem _ hb)).bind fun bs => .pure _

end Rules

section Trees

variable {τ : Type} {W : World} {known : List Change} {name : String} {index : IndexSchema}

theorem getTable_ok {vm vm' : VM τ} {table : TableSchema} (hframe : Framed W vm)
    (h : (Dml.getTable name : VmM τ TableSchema) vm = .ok table vm') :
    vm' = vm ∧ W.shape.getTable name = some (shapeOf table) := by
  rw [Dml.getTable, get_bind] at h
  rw [← hframe.schema, getTable_shape]
  cases hlook : vm.schema.getTable name with
  | none =>
      rw [hlook] at h
      cases h
  | some t =>
      rw [hlook] at h
      cases h
      exact ⟨rfl, rfl⟩

theorem does_deleteByRowid (rowid : Int64) : Does W known (deleteByRowid (tableRoot name) rowid : VmM τ Unit) :=
  fun vm _ _ => Relation.ReflTransGen.single (.erased vm name rowid)

theorem does_updateRow {targets : List (Int64 × Row × Row)} {x : Int64 × Row × Row}
    (hplanned : .Rewriting name targets ∈ known) (hx : x ∈ targets) :
    Does W known (updateRow (tableRoot name) x.1 x.2.2 : VmM τ Unit) := fun vm _ hknown =>
  Relation.ReflTransGen.single (.rewritten vm name targets x (hknown _ hplanned) hx)

end Trees

-- A statement that is not modelled changes neither rows nor the schema nor a transaction.
def Quiet {τ : Type} (E : Engine τ) (sql : String) : Prop :=
  ∀ vm, ∃ caches side, left (E.execOther sql) vm = { vm with caches := caches, side := side }

-- The statements that may run inside others.
def Allowed {τ : Type} (W : World) (E : Engine τ) (sql : String) : Prop :=
  match E.parseSql sql with
  | .ok .Begin | .ok .Commit | .ok .Rollback => W.control
  | .ok .Other => Quiet E sql
  | _ => True

-- The statements of all triggers and those that foreign keys generate are allowed.
structure Closed {τ : Type} (E : Engine τ) (W : World) : Prop where
  triggers : ∀ name timing event, ∀ t ∈ W.shape.getTriggers name timing event,
    ∀ sql ∈ bodyStatements t.bodySql, Allowed W E sql
  deletes : ∀ rest, Allowed W E ("DELETE FROM " ++ rest)
  updates : ∀ rest, Allowed W E ("UPDATE " ++ rest)

section Nested

variable {τ : Type} {W : World} {known : List Change} {E : Engine τ} {executeSql : String → VmM τ ExecResult}

theorem does_fireTriggers (hclosed : Closed E W) (hrun : ∀ sql, Allowed W E sql → Does W [] (executeSql sql))
    (name : String) (timing : TriggerTiming) (event : TriggerEvent) :
    Does W known (fireTriggers executeSql name timing event) := by
  refine .get_bind fun vm hframe hknown => ?_
  refine (Does.forM fun t ht => Does.forM fun sql hsql => ?_) vm hframe hknown
  have hsame : vm.schema.getTriggers name timing event = W.shape.getTriggers name timing event := by
    rw [← hframe.schema]
    rfl
  have hallowed := hclosed.triggers name timing event t (hsame ▸ ht) sql hsql
  exact (hrun sql hallowed).weaken.attempt.bind fun _ => .pure _

theorem does_forEachForeignKey {action : String → ForeignKey → VmM τ Unit}
    (h : ∀ child fk, Does W known (action child fk)) : Does W known (forEachForeignKey action) := by
  refine (Does.of_reads .get).bind fun vm => .forM fun name _ => ?_
  refine (Does.of_reads .get).bind fun vm => ?_
  cases vm.schema.tables.lookup name with
  | none => exact .pure _
  | some child => exact .forM fun fk _ => h _ fk

theorem does_enforceFkParentDelete (hclosed : Closed E W)
    (hrun : ∀ sql, Allowed W E sql → Does W [] (executeSql sql)) (name : String) (row : Row) :
    Does W known (enforceFkParentDelete E executeSql name row) := by
  refine does_forEachForeignKey fun child fk => .ite ?_ (.pure _)
  refine (Does.of_reads .getTable).bind fun parent => ?_
  split
  · exact .pure _
  · exact .pure _
  · split
    · refine Does.bind (Does.weaken (hrun _ ?_)) fun _ => .pure _
      simpa only [String.append_assoc] using hclosed.deletes _
    · refine Does.bind (Does.weaken (hrun _ ?_)) fun _ => .pure _
      simpa only [String.append_assoc] using hclosed.updates _
    · exact (Does.of_reads (.fkValueExistsInParent _ _ _)).bind fun b => .ite (.throw _) (.pure _)
    · exact .pure _

theorem does_enforceFkParentUpdate (hclosed : Closed E W)
    (hrun : ∀ sql, Allowed W E sql → Does W [] (executeSql sql)) (name : String) (oldRow newRow : Row) :
    Does W known (enforceFkParentUpdate E executeSql name oldRow newRow) := by
  refine does_forEachForeignKey fun child fk => .ite ?_ (.pure _)
  refine (Does.of_reads .getTable).bind fun parent => .ite ?_ (.pure _)
  split
  · split
    · refine Does.bind (Does.weaken (hrun _ ?_)) fun _ => .pure _
      simpa only [String.append_assoc] using hclosed.updates _
    · refine Does.bind (Does.weaken (hrun _ ?_)) fun _ => .pure _
      simpa only [String.append_assoc] using hclosed.updates _
    · exact (Does.of_reads (.fkValueExistsInParent _ _ _)).bind fun b => .ite (.throw _) (.pure _)
  · exact .pure _

end Nested

section Insert

variable {τ : Type} {W : World} {known : List Change} {E : Engine τ} {executeSql : String → VmM τ ExecResult}
variable {plan : InsertPlan} {given row : Row} {rowid : Int64}

theorem length_alignRow (colCount : Nat) (colIndices : List Nat) (valueRow : Row) :
    (alignRow colCount colIndices valueRow).length = colCount := by
  have hfold : ∀ (ps : List (Nat × Value)) (row : Row),
      (ps.foldl (fun row p => row.set p.1 p.2) row).length = row.length := by
    intro ps
    induction ps with
    | nil => exact fun _ => rfl
    | cons p ps ih => exact fun row => (ih _).trans (List.length_set ..)
  rw [alignRow, hfold, List.length_replicate]

-- The table of the statement and a row as the statement gave it, with its rowid.
structure Placed (W : World) (plan : InsertPlan) (given : Row) (rowid : Int64) (row : Row) : Prop where
  table : W.shape.getTable plan.stmt.tableName = some (shapeOf plan.table)
  length : given.length = plan.table.columns.length
  filled : Filled plan.table.pkColIdx given rowid row
  notNull : ∀ c ∈ plan.table.notNullCols, row.getD c.1 .Null ≠ .Null

theorem chooseRowid_ok {pk : Option Nat} {nextRowid next : Int64} {vm vm' : VM τ}
    (h : (chooseRowid pk nextRowid given : VmM τ _) vm = .ok (rowid, row, next) vm') :
    Filled pk given rowid row := by
  have hafter : ∀ {α : Type} (rid : Int64) (f : Int64 → VmM τ α) (a : α),
      (nextRowidAfter rid >>= f) vm = .ok a vm' → ∃ n, f n vm = .ok a vm' := by
    intro α rid f a hrun
    unfold nextRowidAfter at hrun
    split_ifs at hrun
    · cases hrun
    · exact ⟨_, hrun⟩
  unfold chooseRowid at h
  unfold Filled
  cases pk with
  | none =>
      obtain ⟨n, hrun⟩ := hafter _ _ _ h
      cases hrun
      rfl
  | some pk =>
      dsimp only at h ⊢
      cases hv : given.getD pk .Null with
      | Null =>
          rw [hv] at h
          obtain ⟨n, hrun⟩ := hafter _ _ _ h
          cases hrun
          rfl
      | Integer rid =>
          rw [hv] at h
          dsimp only at h ⊢
          split_ifs at h
          · obtain ⟨n, hrun⟩ := hafter _ _ _ h
            cases hrun
            exact ⟨rfl, rfl⟩
          · cases h
            exact ⟨rfl, rfl⟩
      | Real bits =>
          rw [hv] at h
          obtain ⟨n, hrun⟩ := hafter _ _ _ h
          cases hrun
          rfl
      | Text v =>
          rw [hv] at h
          obtain ⟨n, hrun⟩ := hafter _ _ _ h
          cases hrun
          rfl
      | Blob v =>
          rw [hv] at h
          obtain ⟨n, hrun⟩ := hafter _ _ _ h
          cases hrun
          rfl

theorem Reads.chooseRowid (pk : Option Nat) (nextRowid : Int64) :
    Reads (chooseRowid pk nextRowid given : VmM τ _) := by
  unfold Dml.chooseRowid
  cases pk with
  | none => exact (Reads.nextRowidAfter _).bind fun _ => .pure _
  | some pk =>
      dsimp only
      cases given.getD pk .Null with
      | Integer rid =>
          dsimp only
          split_ifs
          · exact (Reads.nextRowidAfter _).bind fun _ => .pure _
          · exact .pure _
      | Null => exact (Reads.nextRowidAfter _).bind fun _ => .pure _
      | Real bits => exact (Reads.nextRowidAfter _).bind fun _ => .pure _
      | Text v => exact (Reads.nextRowidAfter _).bind fun _ => .pure _
      | Blob v => exact (Reads.nextRowidAfter _).bind fun _ => .pure _

theorem checkNotNull_ok {vm vm' : VM τ} (h : (checkNotNull plan row : VmM τ Unit) vm = .ok () vm') :
    ∀ c ∈ plan.table.notNullCols, row.getD c.1 .Null ≠ .Null := by
  intro c hc hnull
  obtain ⟨vm₁, vm₂, hrun⟩ := forM_ok h c hc
  rw [if_pos hnull] at hrun
  cases hrun

theorem does_storeRow (h : Placed W plan given rowid row) :
    Does W known (storeRow plan given rowid row : VmM τ Unit) := by
  intro vm _ _
  unfold storeRow
  rcases insertWithBuf_cases (tableRoot plan.stmt.tableName) rowid row vm with ⟨hfresh, hrun⟩ | hrun
  · rw [left, bind_ok hrun]
    exact Relation.ReflTransGen.single (.stored vm _ _ given rowid row h.table h.length h.filled h.notNull hfresh)
  · rw [left_error (bind_error hrun)]
    exact Relation.ReflTransGen.refl

theorem does_insertOrError (hclosed : Closed E W) (hrun : ∀ sql, Allowed W E sql → Does W [] (executeSql sql))
    (h : Placed W plan given rowid row) (loop : InsertLoop) :
    Does W known (insertOrError E executeSql plan given rowid row loop) := by
  refine (touches_validateUniqueIndexesForRow E _ rowid row).does.bind fun _ => ?_
  refine (does_storeRow h).bind fun _ => ?_
  refine (touches_insertIndexEntries E _ rowid row).does.bind fun _ => ?_
  refine (touches_maintainFtsInsert E _ rowid row).does.bind fun _ => ?_
  refine (touches_maintainVecInsert E _ rowid row).does.bind fun _ => ?_
  exact (does_fireTriggers hclosed hrun _ _ _).bind fun _ => .pure _

theorem does_insertOrIgnore (hclosed : Closed E W) (hrun : ∀ sql, Allowed W E sql → Does W [] (executeSql sql))
    (h : Placed W plan given rowid row) (loop : InsertLoop) :
    Does W known (insertOrIgnore E executeSql plan given rowid row loop) := by
  refine (touches_validateUniqueIndexesForRow E _ rowid row).does.attempt.bind fun conflict => ?_
  refine (Does.of_reads (.findByRowid _ _)).bind fun existing => .ite (.pure _) ?_
  refine (does_storeRow h).bind fun _ => ?_
  refine (touches_insertIndexEntries E _ rowid row).does.bind fun _ => ?_
  exact (does_fireTriggers hclosed hrun _ _ _).bind fun _ => .pure _

theorem Reads.existingRowidForPk : Reads (existingRowidForPk plan row : VmM τ (Option Int64)) := by
  unfold Dml.existingRowidForPk
  split
  · exact .pure _
  · split
    · exact (Reads.findByRowid _ _).bind fun _ => .pure _
    · exact (Reads.scanAll _).bind fun _ => .pure _

theorem Reads.conflictRowids (index : IndexSchema) :
    Reads (conflictRowids plan rowid row index : VmM τ (List Int64)) := by
  refine .ite (.pure _) (Reads.getTable.bind fun table => .ite (.pure _) ?_)
  exact (Reads.scanAll _).bind fun _ => .pure _

theorem does_eraseRow (rowid : Int64) : Does W known (eraseRow E plan rowid) := by
  refine (touches_maintainFtsDelete E _ rowid).does.bind fun _ => ?_
  exact (touches_deleteIndexEntries E _ rowid).does.bind fun _ => does_deleteByRowid rowid

theorem does_insertOrReplace (hclosed : Closed E W) (hrun : ∀ sql, Allowed W E sql → Does W [] (executeSql sql))
    (h : Placed W plan given rowid row) (loop : InsertLoop) :
    Does W known (insertOrReplace E executeSql plan given rowid row loop) := by
  refine (Does.of_reads .existingRowidForPk).bind fun existing => ?_
  refine (Does.forM fun rowid _ => does_eraseRow rowid).bind fun _ => ?_
  refine (Does.of_reads .get).bind fun vm => ?_
  refine (Does.mapM fun index _ => .of_reads (.conflictRowids index)).bind fun conflicting => ?_
  refine (Does.forM fun rowid _ => does_eraseRow rowid).bind fun _ => ?_
  refine (does_storeRow h).bind fun _ => ?_
  refine (touches_insertIndexEntries E _ rowid row).does.bind fun _ => ?_
  refine (touches_maintainFtsInsert E _ rowid row).does.bind fun _ => ?_
  refine (touches_maintainVecInsert E _ rowid row).does.bind fun _ => ?_
  exact (does_fireTriggers hclosed hrun _ _ _).bind fun _ => .pure _

-- The new version is that of a row of the table, and it is remembered.
theorem upsertTarget_cases (assignments : List (String × Expr)) {vm : VM τ} (hframe : Framed W vm)
    (hfound : ∃ r, (rowid, r) ∈ vm.tree (tableRoot plan.stmt.tableName)) :
    (∃ e, upsertTarget E plan assignments rowid vm = .error e vm) ∨
    ∃ oldRow newRow, (rowid, oldRow) ∈ vm.tree (tableRoot plan.stmt.tableName) ∧
      upsertTarget E plan assignments rowid vm =
        .ok newRow (vm.record (.Rewriting plan.stmt.tableName [(rowid, oldRow, newRow)])) := by
  obtain ⟨oldRow, hlook⟩ : ∃ oldRow, (vm.tree (tableRoot plan.stmt.tableName)).lookup rowid = some oldRow := by
    obtain ⟨r, hr⟩ := hfound
    exact Option.ne_none_iff_exists'.mp (lookup_ne_none_of_mem hr)
  have hfind : findByRowid (tableRoot plan.stmt.tableName) rowid vm = .ok (some oldRow) vm := by
    rw [← hlook]
    rfl
  unfold upsertTarget
  rw [bind_ok hfind]
  cases hget : (getTable plan.stmt.tableName : VmM τ TableSchema) vm with
  | error e vm' =>
      have hleft := (Reads.getTable : Reads (getTable plan.stmt.tableName : VmM τ _)) vm
      rw [left_error hget] at hleft
      rw [bind_error hget, hleft]
      exact .inl ⟨e, rfl⟩
  | ok table vm' =>
      obtain ⟨rfl, -⟩ := getTable_ok hframe hget
      rw [bind_ok hget, get_bind, Option.getD_some]
      cases upsertRow (E.env vm') table _ oldRow assignments oldRow with
      | error e => exact .inl ⟨e, rfl⟩
      | ok newRow => exact .inr ⟨oldRow, newRow, mem_of_lookup hlook, rfl⟩

theorem does_rewriteRow {targets : List (Int64 × Row × Row)} {x : Int64 × Row × Row} {name : String}
    (hplanned : .Rewriting name targets ∈ known) (hx : x ∈ targets) :
    Does W known (rewriteRow E name x.1 x.2.2) := by
  refine (Does.of_reads (.checkConstraintsForRow E _ _)).bind fun _ => ?_
  refine (Does.of_reads (.checkFkOnInsert _ _)).bind fun _ => ?_
  refine (touches_maintainFtsDelete E _ _).does.bind fun _ => ?_
  refine (touches_deleteIndexEntries E _ _).does.bind fun _ => ?_
  refine (touches_validateUniqueIndexesForRow E _ _ _).does.bind fun _ => ?_
  refine (does_updateRow hplanned hx).bind fun _ => ?_
  refine (touches_insertIndexEntries E _ _ _).does.bind fun _ => ?_
  refine (touches_maintainFtsInsert E _ _ _).does.bind fun _ => ?_
  exact (touches_maintainVecDelete E _ _).does.bind fun _ => (touches_maintainVecInsert E _ _ _).does

theorem does_rewriteConflicting (assignments : List (String × Expr)) (loop : InsertLoop) {vm : VM τ}
    (hframe : Framed W vm) (hfound : ∃ r, (rowid, r) ∈ vm.tree (tableRoot plan.stmt.tableName)) :
    Effects W vm (left (rewriteConflicting E plan assignments rowid loop) vm) := by
  unfold rewriteConflicting
  rcases upsertTarget_cases (E := E) assignments hframe hfound with ⟨e, hrun⟩ | ⟨oldRow, newRow, hold, hrun⟩
  · rw [left_error (bind_error hrun)]
    exact Relation.ReflTransGen.refl
  · have heffect : Effect W vm (vm.record (.Rewriting plan.stmt.tableName [(rowid, oldRow, newRow)])) := by
      refine .planned vm _ _ fun x hx => ?_
      rw [List.mem_singleton.mp hx]
      exact hold
    have hrest : Does W [.Rewriting plan.stmt.tableName [(rowid, oldRow, newRow)]] (do
        rewriteRow E plan.stmt.tableName rowid newRow
        return { loop with rowsInserted := loop.rowsInserted + 1 } : VmM τ InsertLoop) :=
      (does_rewriteRow (x := (rowid, oldRow,
        newRow)) List.mem_cons_self List.mem_cons_self).bind fun _ => .pure _
    rw [left, bind_ok hrun]
    refine Relation.ReflTransGen.head heffect (hrest _ (heffect.framed hframe) fun c hc => ?_)
    rw [List.mem_singleton.mp hc]
    exact List.mem_append_right _ List.mem_cons_self

theorem does_insertUpsert (hclosed : Closed E W) (hrun : ∀ sql, Allowed W E sql → Does W [] (executeSql sql))
    (h : Placed W plan given rowid row) (loop : InsertLoop) :
    Does W known (insertUpsert E executeSql plan given rowid row loop) := by
  refine (does_storeRow h).bind fun _ => ?_
  refine (touches_insertIndexEntries E _ rowid row).does.attempt.bind fun _ => ?_
  refine (touches_maintainFtsInsert E _ rowid row).does.bind fun _ => ?_
  refine (touches_maintainVecInsert E _ rowid row).does.bind fun _ => ?_
  exact (does_fireTriggers hclosed hrun _ _ _).bind fun _ => .pure _

theorem does_insertOrUpdate (hclosed : Closed E W) (hrun : ∀ sql, Allowed W E sql → Does W [] (executeSql sql))
    (assignments : List (String × Expr)) (h : Placed W plan given rowid row) (loop : InsertLoop) :
    Does W known (insertOrUpdate E executeSql plan assignments given rowid row loop) := by
  intro vm hframe hknown
  unfold insertOrUpdate
  rw [left, scanAll_bind]
  cases hfind : conflictingRow plan.table.pkColIdx row (vm.tree (tableRoot plan.stmt.tableName)) with
  | some existing =>
      exact does_rewriteConflicting assignments loop hframe ⟨existing.2, List.mem_of_find?_eq_some hfind⟩
  | none => exact does_insertUpsert hclosed hrun h loop vm hframe hknown

theorem does_insertValueRow (hclosed : Closed E W) (hrun : ∀ sql, Allowed W E sql → Does W [] (executeSql sql))
    (htable : W.shape.getTable plan.stmt.tableName = some (shapeOf plan.table)) (valueRow : Row)
    (loop : InsertLoop) : Does W known (insertValueRow E executeSql plan valueRow loop) := by
  have hresolve : ∀ (rowid : Int64) (row : Row) (loop : InsertLoop),
      Filled plan.table.pkColIdx (alignRow plan.table.columns.length plan.colIndices valueRow) rowid row →
      (∀ c ∈ plan.table.notNullCols, row.getD c.1 .Null ≠ .Null) →
      Does W known (resolveConflict E executeSql plan
        (alignRow plan.table.columns.length plan.colIndices valueRow) rowid row loop) := by
    intro rowid row loop hfilled hnotnull
    have h : Placed W plan (alignRow plan.table.columns.length plan.colIndices valueRow) rowid row :=
      ⟨htable, length_alignRow _ _ _, hfilled, hnotnull⟩
    unfold resolveConflict
    split
    · exact does_insertOrError hclosed hrun h loop
    · exact does_insertOrIgnore hclosed hrun h loop
    · exact does_insertOrReplace hclosed hrun h loop
    · exact does_insertOrUpdate hclosed hrun _ h loop
  refine .ite (.throw _) ((Does.of_reads (.chooseRowid _ _)).bind_ok ?_)
  intro vm chosen vm' hframe hknown hchosen
  obtain ⟨rowid, row, next⟩ := chosen
  refine (Does.bind (does_fireTriggers hclosed hrun _ _ _) fun _ => ?_ : Does W known _) vm' hframe hknown
  refine (Does.of_reads (.checkNotNull _ plan)).bind_ok fun vm₁ _ vm₂ hframe₂ hknown₂ hcheck => ?_
  refine ((Does.of_reads (.checkFkOnInsert _ row)).bind fun _ => ?_ : Does W known _) vm₂ hframe₂ hknown₂
  refine (Does.of_reads (.checkConstraintsForRow E _ row)).bind fun _ => ?_
  exact hresolve rowid row _ (chooseRowid_ok hchosen) (checkNotNull_ok hcheck)

theorem does_insertLoop (hclosed : Closed E W) (hrun : ∀ sql, Allowed W E sql → Does W [] (executeSql sql))
    (htable : W.shape.getTable plan.stmt.tableName = some (shapeOf plan.table)) (valueRows : List Row)
    (loop : InsertLoop) : Does W known (insertLoop E executeSql plan valueRows loop) := by
  induction valueRows generalizing loop with
  | nil => exact .pure _
  | cons valueRow valueRows ih =>
      exact (does_insertValueRow hclosed hrun htable valueRow loop).bind fun loop => ih loop

theorem Reads.returningResult (name : String) (rows : List Row) (exprs : List Expr) :
    Reads (returningResult E name rows exprs) :=
  Reads.getTable.bind fun _ => Reads.get.bind fun _ => (Reads.ofRes _).bind fun _ => .pure _

theorem does_insertValueRows (hclosed : Closed E W) (hrun : ∀ sql, Allowed W E sql → Does W [] (executeSql sql))
    (insert : InsertStmt) (valueRows : List Row) :
    Does W known (insertValueRows E executeSql insert valueRows) := by
  refine (Does.of_reads .getTable).bind_ok fun vm table vm' hframe hknown hget => ?_
  obtain ⟨rfl, htable⟩ : vm' = vm ∧ _ := getTable_ok (W := W) (by
    have hsame := (Reads.getTable : Reads (getTable insert.tableName : VmM τ _)) vm
    rw [left_ok hget] at hsame
    exact hsame ▸ hframe) hget
  refine ((Does.ofRes _).bind fun colIndices => ?_ : Does W known _) vm' hframe hknown
  refine (does_insertLoop hclosed hrun htable valueRows _).bind fun loop => ?_
  refine (Does.of_reads .getTable).bind fun _ => ?_
  refine (Does.modify fun vm _ _ => .numbered vm _ _).bind fun _ => ?_
  cases insert.returning with
  | none => exact .pure _
  | some exprs => exact .of_reads (.returningResult _ _ _)

end Insert

section Statements

variable {τ : Type} {W : World} {known : List Change} {E : Engine τ} {executeSql : String → VmM τ ExecResult}

theorem does_execInsert (hclosed : Closed E W) (hrun : ∀ sql, Allowed W E sql → Does W [] (executeSql sql))
    (insert : InsertStmt) : Does W known (execInsert E executeSql insert) := by
  refine (Does.of_reads .get).bind fun vm₀ => (Does.ofRes _).bind fun valueRows => ?_
  refine .get_bind fun vm hframe hknown => ?_
  by_cases htxn : vm.catalogTxn.isSome
  · rw [if_pos htxn]
    exact does_insertValueRows hclosed hrun insert valueRows vm hframe hknown
  · rw [if_neg htxn]
    have hcontrol := hframe.inTransaction.resolve_right htxn
    refine ((Does.modify fun vm _ _ => ?_).bind fun _ => ?_ : Does W known _) vm hframe hknown
    · exact .begun vm vm.tableTxn (.inl rfl) hcontrol
    refine (does_insertValueRows hclosed hrun insert valueRows).attempt.bind fun result => ?_
    cases result with
    | ok r =>
        refine (Does.modify fun vm _ _ => ?_).bind fun _ => .pure _
        exact .committed vm vm.tableTxn (.inl rfl) hcontrol
    | error e =>
        refine Does.bind (fun vm hframe _ => ?_) fun _ => .throw _
        have htrees : vm.rollbackCatalog.trees = vm.trees ∨ vm.catalogTxn = some vm.rollbackCatalog.trees := by
          unfold VM.rollbackCatalog
          cases vm.directory <;> cases vm.catalogTxn <;> simp
        have hundone := Effect.undone (W := W) vm vm.rollbackCatalog.trees vm.tableTxn
          (htrees.imp_right .inl) (.inl rfl) hcontrol
        exact (Relation.ReflTransGen.single hundone).tail (.cached _ [] _)

theorem of_mem_takeRows {r : Int64 × Row} (rowids : List Int64) {byId : List (Int64 × Row)}
    (h : r ∈ takeRows rowids byId) : r ∈ byId := by
  induction rowids generalizing byId with
  | nil => cases h
  | cons rid rowids ih =>
      rw [takeRows] at h
      cases hlook : byId.lookup rid with
      | none =>
          rw [hlook] at h
          exact ih h
      | some row =>
          rw [hlook] at h
          rcases List.mem_cons.mp h with rfl | h
          · exact mem_of_lookup hlook
          · exact List.mem_of_mem_filter (ih h)

theorem of_mem_fetchRowsByRowids {r : Int64 × Row} {rows : List (Int64 × Row)} {rowids : List Int64}
    (h : r ∈ fetchRowsByRowids rows rowids) : r ∈ rows := by
  unfold fetchRowsByRowids at h
  split_ifs at h
  · exact List.mem_of_mem_filter (of_mem_takeRows rowids h)
  · obtain ⟨rid, -, hrow⟩ := List.mem_filterMap.mp h
    obtain ⟨row, hlook, rfl⟩ := Option.map_eq_some_iff.mp hrow
    exact mem_of_lookup hlook

theorem mem_of_planUpdates {env : EvalEnv} {colMap : ColMap} {assignments : List (Nat × Expr)}
    {rows : List (Int64 × Row)} {targets : List (Int64 × Row × Row)}
    (h : planUpdates env colMap assignments rows = .ok targets) :
    ∀ x ∈ targets, (x.1, x.2.1) ∈ rows := by
  induction rows generalizing targets with
  | nil =>
      cases h
      exact fun x hx => (by cases hx)
  | cons r rows ih =>
      rw [planUpdates] at h
      obtain ⟨new, -, h⟩ := ok_of_bind h
      obtain ⟨rest, hrest, h⟩ := ok_of_bind h
      cases h
      intro x hx
      rcases List.mem_cons.mp hx with rfl | hx
      · exact List.mem_cons_self
      · exact List.mem_cons_of_mem _ (ih hrest x hx)

theorem mem_of_planScan {env : EvalEnv} {colMap : ColMap} {whereClause : Option Expr}
    {assignments : List (Nat × Expr)} {rows : List (Int64 × Row)} {targets : List (Int64 × Row × Row)}
    (h : planScan env colMap whereClause assignments rows = .ok targets) :
    ∀ x ∈ targets, (x.1, x.2.1) ∈ rows := by
  induction rows generalizing targets with
  | nil =>
      cases h
      exact fun x hx => (by cases hx)
  | cons r rows ih =>
      rw [planScan] at h
      obtain ⟨selected, -, h⟩ := ok_of_bind h
      cases selected with
      | false => exact fun x hx => List.mem_cons_of_mem _ (ih h x hx)
      | true =>
          obtain ⟨new, -, h⟩ := ok_of_bind h
          obtain ⟨rest, hrest, h⟩ := ok_of_bind h
          cases h
          intro x hx
          rcases List.mem_cons.mp hx with rfl | hx
          · exact List.mem_cons_self
          · exact List.mem_cons_of_mem _ (ih hrest x hx)

-- The rows to update are those of the state in which the update goes on.
theorem rowsToUpdate_read {update : UpdateStmt} {vm vm' : VM τ} {targets : List (Int64 × Row × Row)}
    (h : rowsToUpdate E update vm = .ok targets vm') :
    ∀ x ∈ targets, (x.1, x.2.1) ∈ vm'.tree (tableRoot update.tableName) := by
  unfold rowsToUpdate at h
  obtain ⟨table, vm₁, -, h⟩ := ok_of_bind_state h
  obtain ⟨assignments, vm₂, -, h⟩ := ok_of_bind_state h
  obtain ⟨rowids, vm₃, -, h⟩ := ok_of_bind_state h
  rw [scanAll_bind, get_bind] at h
  cases rowids with
  | none =>
      obtain ⟨rfl, hplan⟩ := ofRes_ok h
      exact mem_of_planScan hplan
  | some rowids =>
      obtain ⟨rfl, hplan⟩ := ofRes_ok h
      exact fun x hx => of_mem_fetchRowsByRowids (mem_of_planUpdates hplan x hx)

theorem does_updateOne (hclosed : Closed E W) (hrun : ∀ sql, Allowed W E sql → Does W [] (executeSql sql))
    {targets : List (Int64 × Row × Row)} {x : Int64 × Row × Row} {name : String}
    (hplanned : .Rewriting name targets ∈ known) (hx : x ∈ targets) :
    Does W known (updateOne E executeSql name x) := by
  refine (does_fireTriggers hclosed hrun _ _ _).bind fun _ => ?_
  refine (Does.of_reads (.checkConstraintsForRow E _ _)).bind fun _ => ?_
  refine (touches_maintainFtsDelete E _ _).does.bind fun _ =>
    (touches_maintainVecDelete E _ _).does.bind fun _ => ?_
  refine (touches_deleteIndexEntries E _ _).does.bind fun _ => ?_
  refine (touches_validateUniqueIndexesForRow E _ _ _).does.bind fun _ => ?_
  refine (does_updateRow hplanned hx).bind fun _ => ?_
  refine (touches_insertIndexEntries E _ _ _).does.bind fun _ => ?_
  refine (touches_maintainFtsInsert E _ _ _).does.bind fun _ =>
    (touches_maintainVecInsert E _ _ _).does.bind fun _ => ?_
  exact (does_enforceFkParentUpdate hclosed hrun _ _ _).bind fun _ => does_fireTriggers hclosed hrun _ _ _

theorem does_updateRows (hclosed : Closed E W) (hrun : ∀ sql, Allowed W E sql → Does W [] (executeSql sql))
    (update : UpdateStmt) (targets : List (Int64 × Row × Row)) :
    Does W [.Rewriting update.tableName targets] (do
      targets.forM (updateOne E executeSql update.tableName)
      match update.returning with
      | some exprs => returningResult E update.tableName (targets.map fun t => t.2.2) exprs
      | none => return .RowsAffected targets.length (toString targets.length ++ " row(s) updated")) := by
  refine (Does.forM fun x hx => does_updateOne hclosed hrun List.mem_cons_self hx).bind fun _ => ?_
  cases update.returning with
  | none => exact .pure _
  | some exprs => exact .of_reads (.returningResult _ _ _)

theorem does_execUpdate (hclosed : Closed E W) (hrun : ∀ sql, Allowed W E sql → Does W [] (executeSql sql))
    (update : UpdateStmt) : Does W known (execUpdate E executeSql update) := by
  refine (touches_rowsToUpdate update).does.bind_ok fun vm targets vm' hframe hknown htargets => ?_
  have heffect : Effect W vm' (vm'.record (.Rewriting update.tableName targets)) :=
    .planned vm' _ _ (rowsToUpdate_read htargets)
  have hrest := does_updateRows hclosed hrun update targets
  refine Relation.ReflTransGen.head heffect (hrest _ (heffect.framed hframe) fun c hc => ?_)
  rw [List.mem_singleton.mp hc]
  exact List.mem_append_right _ List.mem_cons_self

theorem does_deleteOne (hclosed : Closed E W) (hrun : ∀ sql, Allowed W E sql → Does W [] (executeSql sql))
    (name : String) (rowid : Int64) : Does W known (deleteOne E executeSql name rowid) := by
  refine (does_fireTriggers hclosed hrun _ _ _).bind fun _ => ?_
  refine (Does.of_reads (.findByRowid _ _)).bind fun parentRow => ?_
  have hrest : Does W known (do
      maintainFtsDelete E name rowid
      maintainVecDelete E name rowid
      deleteIndexEntries E name rowid
      let oldRow ← findByRowid (tableRoot name) rowid
      deleteByRowid (tableRoot name) rowid
      fireTriggers executeSql name .After .Delete
      return oldRow : VmM τ (Option Row)) := by
    refine (touches_maintainFtsDelete E _ _).does.bind fun _ =>
      (touches_maintainVecDelete E _ _).does.bind fun _ => ?_
    refine (touches_deleteIndexEntries E _ _).does.bind fun _ => ?_
    refine (Does.of_reads (.findByRowid _ _)).bind fun oldRow => (does_deleteByRowid _).bind fun _ => ?_
    exact (does_fireTriggers hclosed hrun _ _ _).bind fun _ => .pure _
  cases parentRow with
  | none => exact hrest
  | some parentRow => exact (does_enforceFkParentDelete hclosed hrun _ _).bind fun _ => hrest

theorem does_execDelete (hclosed : Closed E W) (hrun : ∀ sql, Allowed W E sql → Does W [] (executeSql sql))
    (delete : DeleteStmt) : Does W known (execDelete E executeSql delete) := by
  refine (touches_rowidsToDelete delete).does.bind fun rowids => ?_
  refine (Does.mapM fun rowid _ => does_deleteOne hclosed hrun _ rowid).bind fun deleted => ?_
  cases delete.returning with
  | none => exact .pure _
  | some exprs => exact .of_reads (.returningResult _ _ _)

theorem does_execBegin (hcontrol : W.control) : Does W known (execBegin : VmM τ ExecResult) := by
  refine (Does.of_reads .get).bind fun vm₀ => .ite (.throw _) ?_
  refine Does.bind (fun vm _ _ => ?_) fun _ => .pure _
  have htables : (if vm.directory ∧ vm.tableTxn.isNone then some vm.trees else vm.tableTxn) = vm.tableTxn ∨
      (if vm.directory ∧ vm.tableTxn.isNone then some vm.trees else vm.tableTxn) = some vm.trees := by
    split_ifs
    · exact .inr rfl
    · exact .inl rfl
  exact (Relation.ReflTransGen.single (.begun vm _ htables hcontrol)).tail (.cached _ [] _)

theorem does_execCommit (hcontrol : W.control) : Does W known (execCommit : VmM τ ExecResult) := by
  refine Does.bind (fun vm _ _ => ?_) fun _ => .pure _
  exact (Relation.ReflTransGen.single (.committed vm none (.inr rfl) hcontrol)).tail (.cached _ [] _)

theorem does_execRollback (hcontrol : W.control) : Does W known (execRollback : VmM τ ExecResult) := by
  refine Does.bind (fun vm _ _ => ?_) fun _ => .pure _
  have htrees : vm.rollbackCatalog.rollbackTables.trees = vm.trees ∨
      vm.catalogTxn = some vm.rollbackCatalog.rollbackTables.trees ∨
      vm.tableTxn = some vm.rollbackCatalog.rollbackTables.trees := by
    unfold VM.rollbackTables VM.rollbackCatalog
    cases vm.tableTxn <;> cases vm.directory <;> cases vm.catalogTxn <;> simp
  have hundone := Effect.undone (W := W) vm _ none htrees (.inr rfl) hcontrol
  exact (Relation.ReflTransGen.single hundone).tail (.cached _ [] _)

theorem does_executeSql (hclosed : Closed E W) (depth : Nat) {sql : String} (hsql : Allowed W E sql) :
    Does W [] (Dml.executeSql E depth sql) := by
  induction depth generalizing sql with
  | zero => exact .throw _
  | succ depth ih =>
      have hrun : ∀ sql, Allowed W E sql → Does W [] (Dml.executeSql E depth sql) := fun _ h => ih h
      unfold Dml.executeSql
      unfold Allowed at hsql
      cases hparse : E.parseSql sql with
      | error e => exact .throw _
      | ok stmt =>
          rw [hparse] at hsql
          cases stmt with
          | Insert insert => exact does_execInsert hclosed hrun insert
          | Update update => exact does_execUpdate hclosed hrun update
          | Delete delete => exact does_execDelete hclosed hrun delete
          | Begin => exact does_execBegin hsql
          | Commit => exact does_execCommit hsql
          | Rollback => exact does_execRollback hsql
          | Other =>
              intro vm _ _
              obtain ⟨caches, side, hquiet⟩ := hsql vm
              show Effects W vm (left (E.execOther sql) vm)
              rw [hquiet]
              exact Relation.ReflTransGen.single (.cached vm caches side)

end Statements

def plainEngine (parseSql : String → Except KkdbError Stmt) : Engine Unit where
  std := .counting _
  floats := ⟨fun a _ => a, fun a _ => a, fun a _ => a⟩
  formatReal _ := ""
  env _ := plainEnv
  execSelect _ _ := .error (.Err (.Internal ""))
  parseSql := parseSql
  ftsInsert _ _ _ side := .ok side
  ftsDelete _ _ side := .ok side
  vecInsert _ _ _ side := side
  vecDelete _ _ side := side
  execOther _ := throw (.Err (.Internal ""))

end Dml

end Kkdb
