import Kkdb.Vm.Dml
import Mathlib.Logic.Relation

namespace Kkdb

open Lib

namespace Dml

def Reads {τ α : Type} (x : VmM τ α) : Prop := ∀ vm, left x vm = vm

-- A change of the caches, of the FULLTEXT and vector indexes, or of the tree of an index.
inductive Touch {τ : Type} : VM τ → VM τ → Prop where
  | cached (vm : VM τ) (caches : List (List Char × IndexCaches)) (side : τ) :
      Touch vm { vm with caches := caches, side := side }
  | indexed (vm : VM τ) (name : List Char) (rows : List (Int64 × Row)) :
      Touch vm (vm.setTree (.Index name) rows)

-- The call leaves all but these as it was.
def Touches {τ α : Type} (x : VmM τ α) : Prop := ∀ vm, Relation.ReflTransGen Touch vm (left x vm)

section Rules

variable {τ α β : Type} {x : VmM τ α} {f : α → VmM τ β}

theorem Reads.pure (a : α) : Reads (Pure.pure a : VmM τ α) := fun _ => rfl

theorem Reads.throw (e : Fault) : Reads (MonadExcept.throw e : VmM τ α) := fun _ => rfl

theorem Reads.ofRes (r : Res α) : Reads (ofRes r : VmM τ α) := fun _ => by
  cases r <;> rfl

theorem Reads.bind (hx : Reads x) (hf : ∀ a, Reads (f a)) : Reads (x >>= f) := by
  intro vm
  refine left_bind (fun s s' => s' = s) (fun _ _ _ hab hbc => hbc.trans hab) (hx vm) ?_
  exact fun a vm' _ => hf a vm'

theorem ofRes_ok {r : Res α} {vm vm' : VM τ} {a : α} (h : Dml.ofRes r vm = .ok a vm') :
    vm' = vm ∧ r = .ok a := by
  cases r with
  | ok b =>
      cases h
      exact ⟨rfl, rfl⟩
  | error e => cases h

theorem Reads.get : Reads (MonadState.get : VmM τ (VM τ)) := fun _ => rfl

theorem Reads.ite {p : Prop} [Decidable p] {y : VmM τ α} (hx : Reads x) (hy : Reads y) :
    Reads (if p then x else y) := by
  split_ifs
  · exact hx
  · exact hy

theorem Reads.forM {xs : List α} {f : α → VmM τ Unit} (h : ∀ a ∈ xs, Reads (f a)) :
    Reads (xs.forM f) := by
  induction xs with
  | nil => exact .pure ()
  | cons a xs ih =>
      show Reads (f a >>= fun _ => xs.forM f)
      exact (h a List.mem_cons_self).bind fun _ => ih fun b hb => h b (List.mem_cons_of_mem _ hb)

theorem Touches.of_reads (h : Reads x) : Touches x := fun vm => by
  rw [h vm]

theorem Touches.pure (a : α) : Touches (Pure.pure a : VmM τ α) := .of_reads (.pure a)

theorem Touches.throw (e : Fault) : Touches (MonadExcept.throw e : VmM τ α) := .of_reads (.throw e)

theorem Touches.ofRes (r : Res α) : Touches (Dml.ofRes r : VmM τ α) := .of_reads (.ofRes r)

theorem Touches.modify {g : VM τ → VM τ} (h : ∀ vm, Touch vm (g vm)) : Touches (modify g : VmM τ Unit) :=
  fun vm => Relation.ReflTransGen.single (h vm)

theorem Touches.bind (hx : Touches x) (hf : ∀ a, Touches (f a)) : Touches (x >>= f) := fun vm =>
  left_bind (Relation.ReflTransGen Touch) (fun _ _ _ => Relation.ReflTransGen.trans) (hx vm) fun a vm' _ =>
    hf a vm'

theorem Touches.ite {p : Prop} [Decidable p] {y : VmM τ α} (hx : Touches x) (hy : Touches y) :
    Touches (if p then x else y) := by
  split_ifs
  · exact hx
  · exact hy

theorem Touches.forM {xs : List α} {f : α → VmM τ Unit} (h : ∀ a ∈ xs, Touches (f a)) :
    Touches (xs.forM f) := by
  induction xs with
  | nil => exact .pure ()
  | cons a xs ih =>
      show Touches (f a >>= fun _ => xs.forM f)
      exact (h a List.mem_cons_self).bind fun _ => ih fun b hb => h b (List.mem_cons_of_mem _ hb)

theorem left_attempt (x : VmM τ α) (vm : VM τ) : left (attempt x) vm = left x vm := by
  unfold left attempt
  cases x vm with
  | ok a vm' => rfl
  | error e vm' => cases e <;> rfl

theorem Touches.attempt (h : Touches x) : Touches (attempt x) := fun vm => by
  rw [left_attempt]
  exact h vm

end Rules

section Indexes

variable {τ α : Type} (E : Engine τ) {name : String} {index : IndexSchema}

theorem Reads.getTable : Reads (getTable name : VmM τ TableSchema) := fun vm => by
  rw [left, Dml.getTable, get_bind]
  cases vm.schema.getTable name <;> rfl

theorem Reads.scanAll (root : Root) : Reads (scanAll root : VmM τ _) := fun _ => rfl

theorem scanAll_bind (root : Root) (f : List (Int64 × Row) → VmM τ α) (vm : VM τ) :
    (Dml.scanAll root >>= f) vm = f (vm.tree root) vm := rfl

theorem Reads.findByRowid (root : Root) (rowid : Int64) : Reads (findByRowid root rowid : VmM τ _) :=
    fun _ => rfl

theorem Reads.maxRowid (root : Root) : Reads (maxRowid root : VmM τ _) := fun _ => rfl

theorem Reads.nextRowidAfter (rowid : Int64) : Reads (nextRowidAfter rowid : VmM τ _) := fun _ => by
  unfold Dml.nextRowidAfter
  split_ifs <;> rfl

theorem insertWithBuf_cases (root : Root) (rowid : Int64) (row : Row) (vm : VM τ) :
    ((vm.tree root).lookup rowid = none ∧
      insertWithBuf root rowid row vm = .ok () (vm.setTree root (putRow rowid row (vm.tree root)))) ∨
    insertWithBuf root rowid row vm = .error (BTree.duplicateRowid rowid) vm := by
  cases hlook : (vm.tree root).lookup rowid with
  | none =>
      left
      refine ⟨rfl, ?_⟩
      simp [insertWithBuf, scanAll, setRows, hlook]
      rfl
  | some r =>
      right
      simp [insertWithBuf, scanAll, hlook]
      rfl

theorem touches_insertWithBuf_index (rowid : Int64) (row : Row) :
    Touches (insertWithBuf (indexRoot index) rowid row : VmM τ Unit) := by
  intro vm
  rcases insertWithBuf_cases (indexRoot index) rowid row vm with ⟨-, hrun⟩ | hrun
  · rw [left_ok hrun]
    exact Relation.ReflTransGen.single (.indexed vm _ _)
  · rw [left_error hrun]

theorem touches_deleteByRowid_index (rowid : Int64) :
    Touches (deleteByRowid (indexRoot index) rowid : VmM τ Unit) :=
  (Touches.of_reads (.scanAll _)).bind fun _ => .modify fun vm => .indexed vm _ _

variable (name index)

theorem touches_loadIndexCaches : Touches (loadIndexCaches E index) := by
  refine (Touches.of_reads .get).bind fun vm => (Touches.ofRes _).bind fun caches => ?_
  exact (Touches.modify fun vm => .cached vm _ _).bind fun _ => .pure _

theorem touches_updateIndexCaches (f : IndexCaches → IndexCaches) :
    Touches (updateIndexCaches index f : VmM τ Unit) := by
  refine .modify fun vm => ?_
  cases vm.caches.lookup (toAsciiLowercase index.name) with
  | none => exact .cached vm vm.caches vm.side
  | some caches => exact .cached vm _ _

theorem touches_uniqueIndexConflictExists (key : Row) (ignore : Option Int64) :
    Touches (uniqueIndexConflictExists E index key ignore) := by
  cases key with
  | nil => exact .pure _
  | cons first key =>
      refine (touches_loadIndexCaches E index).bind fun caches => ?_
      exact (Touches.of_reads (.scanAll _)).bind fun entries => .pure _

theorem touches_validateUniqueIndex (table : TableSchema) (rowid : Int64) (row : Row) :
    Touches (validateUniqueIndex E table name rowid row index) := by
  refine .ite ?_ (.pure _)
  refine (Touches.ofRes _).bind fun key => .ite ?_ (.pure _)
  exact (touches_uniqueIndexConflictExists E index key _).bind fun b => .ite (.throw _) (.pure _)

theorem touches_validateUniqueIndexesForRow (rowid : Int64) (row : Row) :
    Touches (validateUniqueIndexesForRow E name rowid row) := by
  refine (Touches.of_reads .get).bind fun vm => .ite ?_ (.pure _)
  refine (Touches.of_reads .getTable).bind fun table => .forM fun index _ => ?_
  exact touches_validateUniqueIndex E name index table rowid row

theorem touches_storeIndexRow (rowid : Int64) (indexRow : Row) :
    Touches (do
      let idxNext ← nextRowidAfter (← maxRowid (indexRoot index))
      insertWithBuf (indexRoot index) idxNext (indexRow ++ [.Integer rowid])
      match indexRow.head? with
      | some first => updateIndexCaches index (indexCacheInsert E.std first rowid idxNext)
      | none => pure () : VmM τ Unit) := by
  refine (Touches.of_reads (.maxRowid _)).bind fun last => ?_
  refine (Touches.of_reads (.nextRowidAfter last)).bind fun idxNext => ?_
  refine (touches_insertWithBuf_index _ _).bind fun _ => ?_
  cases indexRow with
  | nil => exact .pure _
  | cons first rest => exact touches_updateIndexCaches index _

theorem touches_insertIndexEntry (table : TableSchema) (rowid : Int64) (row : Row) :
    Touches (insertIndexEntry E table name rowid row index) := by
  unfold insertIndexEntry
  refine .ite ?_ (touches_storeIndexRow E index rowid _)
  refine (touches_uniqueIndexConflictExists E index _ _).bind fun b =>
    .ite ((Touches.throw _).bind fun _ => ?_) ?_
  · exact touches_storeIndexRow E index rowid _
  · exact touches_storeIndexRow E index rowid _

theorem touches_insertIndexEntries (rowid : Int64) (row : Row) :
    Touches (insertIndexEntries E name rowid row) := by
  refine (Touches.of_reads .get).bind fun vm => .ite ?_ (.pure _)
  refine (Touches.of_reads .getTable).bind fun table => .forM fun index _ => ?_
  exact touches_insertIndexEntry E name index table rowid row

theorem touches_deleteIndexEntry (rowid : Int64) : Touches (deleteIndexEntry E rowid index) := by
  refine (touches_loadIndexCaches E index).bind fun caches => ?_
  cases caches.rowidMap.lookup rowid with
  | none => exact .pure _
  | some entryRowid =>
      refine (Touches.of_reads (.findByRowid _ _)).bind fun entry => ?_
      refine (touches_deleteByRowid_index entryRowid).bind fun _ => ?_
      cases entry.bind List.head? with
      | none => exact .pure _
      | some first => exact touches_updateIndexCaches index _

theorem touches_deleteIndexEntries (rowid : Int64) : Touches (deleteIndexEntries E name rowid) :=
  (Touches.of_reads .get).bind fun _ => .forM fun index _ => touches_deleteIndexEntry E index rowid

end Indexes

section Checks

variable {τ : Type} (E : Engine τ) (name : String) (rowid : Int64) (row : Row)

theorem touches_maintainFtsInsert : Touches (maintainFtsInsert E name rowid row) := by
  refine (Touches.of_reads .get).bind fun vm => (Touches.ofRes _).bind fun side => ?_
  exact .modify fun vm => .cached vm vm.caches side

theorem touches_maintainFtsDelete : Touches (maintainFtsDelete E name rowid) := by
  refine (Touches.of_reads .get).bind fun vm => (Touches.ofRes _).bind fun side => ?_
  exact .modify fun vm => .cached vm vm.caches side

theorem touches_maintainVecInsert : Touches (maintainVecInsert E name rowid row) :=
  .modify fun vm => .cached vm vm.caches _

theorem touches_maintainVecDelete : Touches (maintainVecDelete E name rowid) :=
  .modify fun vm => .cached vm vm.caches _

theorem Reads.checkConstraintsForRow : Reads (checkConstraintsForRow E name row) :=
  Reads.getTable.bind fun _ => .ofRes _

theorem Reads.fkValueExistsInParent (colName : Option String) (value : Value) :
    Reads (fkValueExistsInParent name colName value : VmM τ Bool) :=
  Reads.getTable.bind fun _ => (Reads.scanAll _).bind fun _ => .pure _

theorem Reads.checkFkOnInsert : Reads (checkFkOnInsert name row : VmM τ Unit) := by
  refine Reads.getTable.bind fun table => .forM fun fk _ => .ite ?_ (.pure _)
  exact (Reads.fkValueExistsInParent _ _ _).bind fun b => .ite (.throw _) (.pure _)

theorem Reads.checkNotNull (plan : InsertPlan) : Reads (checkNotNull plan row : VmM τ Unit) :=
  .forM fun _ _ => .ite (.throw _) (.pure _)

end Checks

section Lookups

variable {τ : Type} {E : Engine τ}

theorem touches_loadUsedCaches (indexes : List TableIndex) (used : Option (String × Lookup)) :
    Touches (loadUsedCaches E indexes used) := by
  unfold loadUsedCaches
  split
  · exact .pure _
  · split
    · exact .pure _
    · exact .ite ((touches_loadIndexCaches E _).bind fun _ => .pure _) (.pure _)

theorem touches_dmlIndexRowids (name : String) (whereExpr : Expr) :
    Touches (dmlIndexRowids E name whereExpr) := by
  refine (Touches.of_reads .get).bind fun vm => (Touches.ofRes _).bind fun rowids => ?_
  exact (touches_loadUsedCaches _ _).bind fun _ => .pure _

theorem touches_indexRowids (name : String) (whereClause : Option Expr) :
    Touches (indexRowids E name whereClause) := by
  cases whereClause with
  | none => exact .pure _
  | some whereExpr => exact touches_dmlIndexRowids name whereExpr

theorem touches_rowsToUpdate (update : UpdateStmt) : Touches (rowsToUpdate E update) := by
  refine (Touches.of_reads .getTable).bind fun table => (Touches.ofRes _).bind fun assignments => ?_
  refine (touches_indexRowids _ _).bind fun rowids => ?_
  refine (Touches.of_reads (.scanAll _)).bind fun rows => (Touches.of_reads .get).bind fun vm => ?_
  cases rowids with
  | none => exact .ofRes _
  | some rowids => exact .ofRes _

theorem touches_rowidsToDelete (delete : DeleteStmt) : Touches (rowidsToDelete E delete) := by
  refine (Touches.of_reads .getTable).bind fun table => (touches_indexRowids _ _).bind fun rowids => ?_
  cases rowids with
  | some rowids => exact .pure _
  | none =>
      refine (Touches.of_reads (.scanAll _)).bind fun rows => (Touches.of_reads .get).bind fun vm => ?_
      exact (Touches.ofRes _).bind fun targets => .pure _

end Lookups

end Dml

end Kkdb
