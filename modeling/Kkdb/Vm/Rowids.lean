import Kkdb.Vm.Numbering

namespace Kkdb

open Lib

namespace Dml

def explicitKey (pkColIdx : Option Nat) (given : Row) : Option Int64 :=
  pkColIdx.bind fun pk =>
    match given.getD pk .Null with
    | .Integer rid => some rid
    | _ => none

-- The loop of `insert_value_rows` before one of its turns.
structure Turn (τ : Type) where
  plan : InsertPlan
  valueRow : Row
  loop : InsertLoop
  vm : VM τ

namespace Turn

variable {τ : Type} (t : Turn τ)

def given : Row := alignRow t.plan.table.columns.length t.plan.colIndices t.valueRow

def key : Option Int64 := explicitKey t.plan.table.pkColIdx t.given

-- A row with too many or too few values gets no rowid.
def Sized : Prop := t.valueRow.length = t.plan.colIndices.length

-- The rowid that the row takes is not the last one.
def Fits : Prop := t.Sized → t.key.getD t.loop.nextRowid ≠ Int64.maxValue

-- A rowid is found, and one that the row does not give itself is not in the table.
def Assigns : Prop :=
  t.Sized → ∃ rowid row next,
    chooseRowid t.plan.table.pkColIdx t.loop.nextRowid t.given t.vm = .ok (rowid, row, next) t.vm ∧
    (t.key = none → rowid ∉ (t.vm.tree (tableRoot t.plan.stmt.tableName)).map Prod.fst)

end Turn

section Turns

variable {τ : Type} (E : Engine τ) (exec : String → VmM τ ExecResult)

def turns (plan : InsertPlan) : List Row → InsertLoop → VM τ → List (Turn τ)
  | [], _, _ => []
  | valueRow :: valueRows, loop, vm =>
      ⟨plan, valueRow, loop, vm⟩ ::
        match insertValueRow E exec plan valueRow loop vm with
        | .ok loop vm => turns plan valueRows loop vm
        | .error _ _ => []

def turnsOfRows (insert : InsertStmt) (valueRows : List Row) (vm : VM τ) : List (Turn τ) :=
  match vm.schema.getTable insert.tableName with
  | none => []
  | some table =>
      match resolveColumns table insert.columns with
      | .error _ => []
      | .ok colIndices => turns E exec ⟨insert, table, colIndices⟩ valueRows ⟨table.nextRowid, 0, []⟩ vm

def begun (vm : VM τ) : VM τ :=
  if vm.catalogTxn.isSome then vm else { vm.beginCatalog with schemaSnapshot := some vm.schema }

def turnsOf (insert : InsertStmt) (vm : VM τ) : List (Turn τ) :=
  match sourceRows E insert.source vm with
  | .error _ => []
  | .ok valueRows => turnsOfRows E exec insert valueRows (begun vm)

end Turns

section Choose

variable {τ : Type} {pk : Option Nat} {next : Int64} {given : Row}

theorem toInt_add_one {rid : Int64} (h : rid ≠ Int64.maxValue) : (rid + 1).toInt = rid.toInt + 1 := by
  have hlt : rid.toInt < 2 ^ 63 - 1 := by
    have hle : rid.toInt ≤ 2 ^ 63 - 1 := Int64.toInt_le rid
    have hne : rid.toInt ≠ 2 ^ 63 - 1 := fun heq => h (Int64.toInt_inj.mp heq)
    omega
  have hlow := Int64.le_toInt rid
  have hone : (1 : Int64).toInt = 1 := rfl
  rw [Int64.toInt_add, hone]
  exact Int.bmod_eq_of_le (by omega) (by omega)

theorem nextRowidAfter_ok (vm : VM τ) {rid : Int64} (h : rid ≠ Int64.maxValue) :
    (nextRowidAfter rid : VmM τ Int64) vm = .ok (rid + 1) vm := by
  rw [nextRowidAfter, if_neg h]
  rfl

theorem chooseRowid_auto (vm : VM τ) (hkey : explicitKey pk given = none) (hnext : next ≠ Int64.maxValue) :
    ∃ row, chooseRowid pk next given vm = .ok (next, row, next + 1) vm := by
  have hafter := nextRowidAfter_ok vm hnext
  cases pk with
  | none => exact ⟨given, bind_ok hafter⟩
  | some pk =>
      rw [explicitKey, Option.bind_some] at hkey
      unfold chooseRowid
      dsimp only
      cases hv : given.getD pk .Null with
      | Integer rid =>
          rw [hv] at hkey
          cases hkey
      | Null => exact ⟨_, bind_ok hafter⟩
      | Real bits => exact ⟨_, bind_ok hafter⟩
      | Text v => exact ⟨_, bind_ok hafter⟩
      | Blob v => exact ⟨_, bind_ok hafter⟩

theorem chooseRowid_explicit (vm : VM τ) {rid : Int64} (hkey : explicitKey pk given = some rid)
    (hrid : rid ≠ Int64.maxValue) :
    chooseRowid pk next given vm =
      .ok (rid, given, if next.toInt ≤ rid.toInt then rid + 1 else next) vm := by
  obtain ⟨pk, rfl, hv⟩ := Option.bind_eq_some_iff.mp hkey
  have hinteger : given.getD pk .Null = .Integer rid := by
    cases hval : given.getD pk .Null with
    | Integer r =>
        rw [hval] at hv
        rw [Option.some.inj hv]
    | Null =>
        rw [hval] at hv
        cases hv
    | Real bits =>
        rw [hval] at hv
        cases hv
    | Text v =>
        rw [hval] at hv
        cases hv
    | Blob v =>
        rw [hval] at hv
        cases hv
  unfold chooseRowid
  dsimp only
  rw [hinteger]
  dsimp only
  by_cases hle : next.toInt ≤ rid.toInt
  · rw [if_pos hle, if_pos hle, bind_ok (nextRowidAfter_ok vm hrid), pure_apply]
  · rw [if_neg hle, if_neg hle]
    rfl

theorem chooseRowid_panics (vm : VM τ) (h : (explicitKey pk given).getD next = Int64.maxValue) :
    chooseRowid pk next given vm = .error .Panic vm := by
  have hafter : (nextRowidAfter Int64.maxValue : VmM τ Int64) vm = .error .Panic vm := by
    rw [nextRowidAfter, if_pos rfl]
    rfl
  cases pk with
  | none =>
      obtain rfl : next = Int64.maxValue := h
      exact bind_error hafter
  | some pk =>
      rw [explicitKey, Option.bind_some] at h
      unfold chooseRowid
      dsimp only
      cases hv : given.getD pk .Null with
      | Integer rid =>
          rw [hv] at h
          obtain rfl : rid = Int64.maxValue := h
          dsimp only
          rw [if_pos (Int64.toInt_le next)]
          exact bind_error hafter
      | Null =>
          rw [hv] at h
          obtain rfl : next = Int64.maxValue := h
          exact bind_error hafter
      | Real bits =>
          rw [hv] at h
          obtain rfl : next = Int64.maxValue := h
          exact bind_error hafter
      | Text v =>
          rw [hv] at h
          obtain rfl : next = Int64.maxValue := h
          exact bind_error hafter
      | Blob v =>
          rw [hv] at h
          obtain rfl : next = Int64.maxValue := h
          exact bind_error hafter

-- The rowid that is found is below the next one, which does not fall back.
theorem chooseRowid_of_fits (vm : VM τ) (h : (explicitKey pk given).getD next ≠ Int64.maxValue) :
    ∃ rowid row next', chooseRowid pk next given vm = .ok (rowid, row, next') vm ∧
      next.toInt ≤ next'.toInt ∧ rowid.toInt < next'.toInt ∧ (explicitKey pk given = none → rowid = next) := by
  cases hkey : explicitKey pk given with
  | none =>
      rw [hkey, Option.getD_none] at h
      obtain ⟨row, hchoose⟩ := chooseRowid_auto vm hkey h
      have hsucc := toInt_add_one h
      exact ⟨next, row, next + 1, hchoose, by omega, by omega, fun _ => rfl⟩
  | some rid =>
      rw [hkey, Option.getD_some] at h
      refine ⟨rid, given, _, chooseRowid_explicit vm hkey h, ?_, ?_, fun hnone => (by cases hnone)⟩
      · split_ifs with hle
        · have hsucc := toInt_add_one h
          omega
        · exact le_refl _
      · split_ifs with hle
        · have hsucc := toInt_add_one h
          omega
        · exact lt_of_not_ge hle

end Choose

section Insert

variable {τ : Type} {under : UnderWay} {base : List Char → Option Int} {start : VM τ} {E : Engine τ}
variable {exec exec' : String → VmM τ ExecResult} {plan : InsertPlan} {given row : Row} {rowid : Int64}

theorem alike_eraseRow (rowid : Int64) :
    Alike (Numbered under base start) (eraseRow E plan rowid) (eraseRow E plan rowid) := by
  refine (touches_maintainFtsDelete E _ rowid).alike.bind fun _ => ?_
  exact (touches_deleteIndexEntries E _ rowid).alike.bind fun _ => alike_deleteByRowid rowid

theorem alike_rewriteRow {name : String} (newRow : Row)
    (hrowid : ∀ b, (under.lookup (tableKey name)).or (base (tableKey name)) = some b → rowid.toInt < b) :
    Alike (Numbered under base start) (rewriteRow E name rowid newRow) (rewriteRow E name rowid newRow) := by
  refine (Reads.alike (.checkConstraintsForRow E _ _)).bind fun _ => ?_
  refine (Reads.alike (.checkFkOnInsert _ _)).bind fun _ => ?_
  refine (touches_maintainFtsDelete E _ _).alike.bind fun _ => ?_
  refine (touches_deleteIndexEntries E _ _).alike.bind fun _ => ?_
  refine (touches_validateUniqueIndexesForRow E _ _ _).alike.bind fun _ => ?_
  refine (alike_updateRow _ hrowid).bind fun _ => ?_
  refine (touches_insertIndexEntries E _ _ _).alike.bind fun _ => ?_
  refine (touches_maintainFtsInsert E _ _ _).alike.bind fun _ => ?_
  refine (touches_maintainVecDelete E _ _).alike.bind fun _ => ?_
  exact (touches_maintainVecInsert E _ _ _).alike

theorem alike_upsertTarget (assignments : List (String × Expr)) (rowid : Int64) :
    Alike (Numbered under base start) (upsertTarget E plan assignments rowid)
      (upsertTarget E plan assignments rowid) := by
  refine (Reads.alike (.findByRowid _ _)).bind fun oldRow => (Reads.alike .getTable).bind fun table => ?_
  refine (Reads.alike .get).bind fun vm => (Reads.alike (.ofRes _)).bind fun newRow => ?_
  exact (Alike.modify fun vm hvm => hvm.record _).bind fun _ => .pure _

section Conflicts

variable (hrun : NestedAlike under start exec exec')
variable (hrowid : ∀ b, (under.lookup (tableKey plan.stmt.tableName)).or
  (base (tableKey plan.stmt.tableName)) = some b →
  rowid.toInt < b)

include hrun hrowid

theorem alike_insertOrError (loop : InsertLoop) :
    Alike (Numbered under base start) (insertOrError E exec plan given rowid row loop)
      (insertOrError E exec' plan given rowid row loop) := by
  refine (touches_validateUniqueIndexesForRow E _ _ _).alike.bind fun _ => ?_
  refine (alike_storeRow hrowid).bind fun _ => ?_
  refine (touches_insertIndexEntries E _ _ _).alike.bind fun _ => ?_
  refine (touches_maintainFtsInsert E _ _ _).alike.bind fun _ => ?_
  refine (touches_maintainVecInsert E _ _ _).alike.bind fun _ => ?_
  exact (alike_fireTriggers hrun _ _ _).bind fun _ => .pure _

theorem alike_insertOrIgnore (loop : InsertLoop) :
    Alike (Numbered under base start) (insertOrIgnore E exec plan given rowid row loop)
      (insertOrIgnore E exec' plan given rowid row loop) := by
  refine (touches_validateUniqueIndexesForRow E _ _ _).attempt.alike.bind fun conflict => ?_
  refine (Reads.alike (.findByRowid _ _)).bind fun existing => .ite (.pure _) ?_
  refine (alike_storeRow hrowid).bind fun _ => ?_
  refine (touches_insertIndexEntries E _ _ _).alike.bind fun _ => ?_
  exact (alike_fireTriggers hrun _ _ _).bind fun _ => .pure _

theorem alike_insertOrReplace (loop : InsertLoop) :
    Alike (Numbered under base start) (insertOrReplace E exec plan given rowid row loop)
      (insertOrReplace E exec' plan given rowid row loop) := by
  refine (Reads.alike .existingRowidForPk).bind fun existing => ?_
  refine (Alike.forM fun rowid _ => alike_eraseRow rowid).bind fun _ => (Reads.alike .get).bind fun vm => ?_
  refine (Alike.mapM fun index _ => Reads.alike (.conflictRowids index)).bind fun conflicting => ?_
  refine (Alike.forM fun rowid _ => alike_eraseRow rowid).bind fun _ => ?_
  refine (alike_storeRow hrowid).bind fun _ => ?_
  refine (touches_insertIndexEntries E _ _ _).alike.bind fun _ => ?_
  refine (touches_maintainFtsInsert E _ _ _).alike.bind fun _ => ?_
  refine (touches_maintainVecInsert E _ _ _).alike.bind fun _ => ?_
  exact (alike_fireTriggers hrun _ _ _).bind fun _ => .pure _

theorem alike_insertUpsert (loop : InsertLoop) :
    Alike (Numbered under base start) (insertUpsert E exec plan given rowid row loop)
      (insertUpsert E exec' plan given rowid row loop) := by
  refine (alike_storeRow hrowid).bind fun _ => ?_
  refine (touches_insertIndexEntries E _ _ _).attempt.alike.bind fun _ => ?_
  refine (touches_maintainFtsInsert E _ _ _).alike.bind fun _ => ?_
  refine (touches_maintainVecInsert E _ _ _).alike.bind fun _ => ?_
  exact (alike_fireTriggers hrun _ _ _).bind fun _ => .pure _

-- The row in the way is in the table, so that its rowid is below the limit of the loop.
theorem alike_insertOrUpdate (assignments : List (String × Expr)) (loop : InsertLoop)
    (hunder : (under.lookup (tableKey plan.stmt.tableName)).isSome) :
    Alike (Numbered under base start) (insertOrUpdate E exec plan assignments given rowid row loop)
      (insertOrUpdate E exec' plan assignments given rowid row loop) := by
  refine (Reads.alike (.scanAll _)).bind_ok fun vm rows vm' hvm hscan hvm' => ?_
  obtain ⟨rfl, rfl⟩ := EStateM.Result.ok.inj hscan
  cases hfind : conflictingRow plan.table.pkColIdx row (vm.tree (tableRoot plan.stmt.tableName)) with
  | none => exact alike_insertUpsert hrun hrowid loop vm hvm
  | some existing =>
      have hmem : existing ∈ vm.tree (tableRoot plan.stmt.tableName) := List.mem_of_find?_eq_some hfind
      obtain ⟨n, hn⟩ := Option.isSome_iff_exists.mp hunder
      have hlt : existing.1.toInt < n := by
        refine hvm.below _ n ?_ existing hmem
        show limit under vm.schema (tableKey plan.stmt.tableName) = some n
        rw [limit, hn, Option.some_or]
      refine ((alike_upsertTarget assignments existing.1).bind fun newRow => ?_) vm hvm
      refine (alike_rewriteRow newRow fun b hb => ?_).bind fun _ => .pure _
      rw [hn, Option.some_or] at hb
      rw [← Option.some.inj hb]
      exact hlt

theorem alike_resolveConflict (loop : InsertLoop)
    (hunder : (under.lookup (tableKey plan.stmt.tableName)).isSome) :
    Alike (Numbered under base start) (resolveConflict E exec plan given rowid row loop)
      (resolveConflict E exec' plan given rowid row loop) := by
  unfold resolveConflict
  split
  · exact alike_insertOrError hrun hrowid loop
  · exact alike_insertOrIgnore hrun hrowid loop
  · exact alike_insertOrReplace hrun hrowid loop
  · exact alike_insertOrUpdate hrun hrowid _ loop hunder

end Conflicts

-- The results that a call can have.
def Gives {α : Type} (Q : α → Prop) (x : VmM τ α) : Prop := ∀ vm a vm', x vm = .ok a vm' → Q a

theorem Gives.pure {α : Type} {Q : α → Prop} {a : α} (h : Q a) : Gives Q (Pure.pure a : VmM τ α) := by
  rintro vm _ _ ⟨⟩
  exact h

theorem Gives.bind {α β : Type} {Q : β → Prop} {x : VmM τ α} {f : α → VmM τ β} (hf : ∀ a, Gives Q (f a)) :
    Gives Q (x >>= f) := by
  intro vm b vm' h
  obtain ⟨a, vm₁, -, hrest⟩ := ok_of_bind_state h
  exact hf a vm₁ b vm' hrest

theorem gives_resolveConflict (loop : InsertLoop) :
    Gives (fun loop' => loop'.nextRowid = loop.nextRowid)
      (resolveConflict E exec plan given rowid row loop) := by
  unfold resolveConflict
  split
  · refine .bind fun _ => .bind fun _ => .bind fun _ => .bind fun _ => .bind fun _ => .bind fun _ => .pure rfl
  · refine .bind fun conflict => .bind fun existing => ?_
    split_ifs
    · exact .pure rfl
    · exact .bind fun _ => .bind fun _ => .bind fun _ => .pure rfl
  · refine .bind fun _ => .bind fun _ => .bind fun _ => .bind fun _ => .bind fun _ => ?_
    exact .bind fun _ => .bind fun _ => .bind fun _ => .bind fun _ => .bind fun _ => .pure rfl
  · refine .bind fun rows => ?_
    split
    · exact .bind fun _ => .bind fun _ => .pure rfl
    · exact .bind fun _ => .bind fun _ => .bind fun _ => .bind fun _ => .bind fun _ => .pure rfl

-- What a turn of the loop does once it has a rowid.
def placeRow (E : Engine τ) (exec : String → VmM τ ExecResult) (plan : InsertPlan) (given : Row) (rowid : Int64)
    (row : Row) (loop : InsertLoop) : VmM τ InsertLoop := do
  fireTriggers exec plan.stmt.tableName .Before .Insert
  checkNotNull plan row
  checkFkOnInsert plan.stmt.tableName row
  checkConstraintsForRow E plan.stmt.tableName row
  resolveConflict E exec plan given rowid row loop

theorem gives_placeRow (loop : InsertLoop) :
    Gives (fun loop' => loop'.nextRowid = loop.nextRowid) (placeRow E exec plan given rowid row loop) :=
  .bind fun _ => .bind fun _ => .bind fun _ => .bind fun _ => gives_resolveConflict loop

theorem alike_placeRow (given row : Row) (hrun : NestedAlike under start exec exec')
    (hrowid : ∀ b, (under.lookup (tableKey plan.stmt.tableName)).or (base (tableKey plan.stmt.tableName)) =
      some b →
      rowid.toInt < b) (hunder : (under.lookup (tableKey plan.stmt.tableName)).isSome) (loop : InsertLoop) :
    Alike (Numbered under base start) (placeRow E exec plan given rowid row loop)
      (placeRow E exec' plan given rowid row loop) := by
  refine (alike_fireTriggers hrun _ _ _).bind fun _ => ?_
  refine (Reads.alike (.checkNotNull row plan)).bind fun _ => ?_
  refine (Reads.alike (.checkFkOnInsert _ row)).bind fun _ => ?_
  refine (Reads.alike (.checkConstraintsForRow E _ row)).bind fun _ => ?_
  exact alike_resolveConflict hrun hrowid loop hunder

variable (E exec)

theorem insertValueRow_placed {valueRow : Row} {loop : InsertLoop} {next : Int64} {vm : VM τ}
    (hsized : valueRow.length = plan.colIndices.length)
    (hchoose : chooseRowid plan.table.pkColIdx loop.nextRowid
      (alignRow plan.table.columns.length plan.colIndices valueRow) vm = .ok (rowid, row, next) vm) :
    insertValueRow E exec plan valueRow loop vm =
      placeRow E exec plan (alignRow plan.table.columns.length plan.colIndices valueRow) rowid row
        { loop with nextRowid := next } vm := by
  unfold insertValueRow
  rw [if_neg (not_not.mpr hsized)]
  exact bind_ok hchoose

theorem insertValueRow_unsized {valueRow : Row} (loop : InsertLoop) (vm : VM τ)
    (hsized : valueRow.length ≠ plan.colIndices.length) :
    insertValueRow E exec plan valueRow loop vm =
      .error (.Err (.ColumnCountMismatch plan.colIndices.length valueRow.length)) vm := by
  unfold insertValueRow
  rw [if_pos hsized]
  rfl

end Insert

section Loop

variable {τ : Type} {under : UnderWay} {base : List Char → Option Int} {start : VM τ} {E : Engine τ}
variable {exec exec' : String → VmM τ ExecResult} {plan : InsertPlan}

def atLoop (plan : InsertPlan) (nextRowid : Int64) (under : UnderWay) : UnderWay :=
  (tableKey plan.stmt.tableName, nextRowid.toInt) :: under

theorem lookup_atLoop (next : Int64) (key : List Char) :
    (atLoop plan next under).lookup key =
      if key = tableKey plan.stmt.tableName then some next.toInt else under.lookup key := lookup_cons_eq _ _ _

theorem Numbered.raise {next next' : Int64} {vm : VM τ} (h : Numbered (atLoop plan next under) base start vm)
    (hle : next.toInt ≤ next'.toInt) : Numbered (atLoop plan next' under) base start vm := by
  refine ⟨h.toKept, fun key n hn r hr => ?_⟩
  rw [limit, lookup_atLoop] at hn
  have hbelow := h.below key
  rw [limit, lookup_atLoop] at hbelow
  by_cases hkey : key = tableKey plan.stmt.tableName
  · rw [if_pos hkey, Option.some_or] at hn hbelow
    have hlt := hbelow _ rfl r hr
    have heq := Option.some.inj hn
    omega
  · rw [if_neg hkey] at hn hbelow
    exact hbelow n hn r hr

-- What the loop keeps when its turns fit.
structure Went (under : UnderWay) (base : List Char → Option Int) (start : VM τ) (plan : InsertPlan)
    (loop : InsertLoop) (x y : VmM τ InsertLoop) (vm : VM τ) : Prop where
  same : x vm = y vm
  left : ∃ next, Numbered (atLoop plan next under) base start (left x vm)
  ok : ∀ loop' vm', x vm = .ok loop' vm' →
    loop.nextRowid.toInt ≤ loop'.nextRowid.toInt ∧ Numbered (atLoop plan loop'.nextRowid under) base start vm'

theorem insertValueRow_went (hrun : ∀ next, NestedAlike (atLoop plan next under) start exec exec')
    {valueRow : Row}
    {loop : InsertLoop} {vm : VM τ} (hfits : Turn.Fits ⟨plan, valueRow, loop, vm⟩)
    (hvm : Numbered (atLoop plan loop.nextRowid under) base start vm) :
    Went under base start plan loop (insertValueRow E exec plan valueRow loop)
      (insertValueRow E exec' plan valueRow loop) vm := by
  by_cases hsized : valueRow.length = plan.colIndices.length
  · obtain ⟨rowid, row, next, hchoose, hle, hlt, -⟩ := chooseRowid_of_fits vm (hfits hsized)
    have hrowid : ∀ b, ((atLoop plan next under).lookup (tableKey plan.stmt.tableName)).or
        (base (tableKey plan.stmt.tableName)) = some b → rowid.toInt < b := by
      intro b hb
      rw [lookup_atLoop, if_pos rfl, Option.some_or] at hb
      rw [← Option.some.inj hb]
      exact hlt
    have hunder : ((atLoop plan next under).lookup (tableKey plan.stmt.tableName)).isSome := by
      rw [lookup_atLoop, if_pos rfl]
      rfl
    obtain ⟨hsame, hkept⟩ := alike_placeRow (E := E)
      (alignRow plan.table.columns.length plan.colIndices valueRow) row (hrun next) hrowid hunder
      { loop with nextRowid := next } vm (hvm.raise hle)
    have hplaced := insertValueRow_placed E exec hsized hchoose
    have hplaced' := insertValueRow_placed E exec' hsized hchoose
    refine ⟨(hplaced.trans hsame).trans hplaced'.symm, ⟨next, ?_⟩, fun loop' vm' hok => ?_⟩
    · rw [Lib.left, hplaced]
      exact hkept
    · rw [hplaced] at hok
      have hnext := gives_placeRow _ _ _ _ hok
      rw [left_ok hok] at hkept
      rw [hnext]
      exact ⟨hle, hkept⟩
  · have hunsized := insertValueRow_unsized E exec loop vm hsized
    have hunsized' := insertValueRow_unsized E exec' loop vm hsized
    refine ⟨hunsized.trans hunsized'.symm, ⟨loop.nextRowid, ?_⟩, fun loop' vm' hok => ?_⟩
    · rw [left_error hunsized]
      exact hvm
    · rw [hunsized] at hok
      cases hok

theorem assigns_of_fits {t : Turn τ} (hfits : t.Fits)
    (hbelow : ∀ r ∈ t.vm.tree (tableRoot t.plan.stmt.tableName), r.1.toInt < t.loop.nextRowid.toInt) :
      t.Assigns := by
  intro hsized
  obtain ⟨rowid, row, next, hchoose, -, -, hauto⟩ := chooseRowid_of_fits t.vm (hfits hsized)
  refine ⟨rowid, row, next, hchoose, fun hkey hmem => ?_⟩
  obtain ⟨r, hr, heq⟩ := List.mem_map.mp hmem
  have hlt := hbelow r hr
  rw [heq, hauto hkey] at hlt
  exact lt_irrefl _ hlt

theorem fits_of_assigns {t : Turn τ} (h : t.Assigns) : t.Fits := by
  intro hsized hlast
  obtain ⟨rowid, row, next, hchoose, -⟩ := h hsized
  rw [chooseRowid_panics t.vm hlast] at hchoose
  cases hchoose

theorem insertLoop_went (hrun : ∀ next, NestedAlike (atLoop plan next under) start exec exec')
    {valueRows : List Row} {loop : InsertLoop} {vm : VM τ}
    (hfits : ∀ t ∈ turns E exec plan valueRows loop vm, t.Fits)
    (hvm : Numbered (atLoop plan loop.nextRowid under) base start vm) :
    Went under base start plan loop (insertLoop E exec plan valueRows loop)
      (insertLoop E exec' plan valueRows loop) vm ∧
    turns E exec plan valueRows loop vm = turns E exec' plan valueRows loop vm ∧
    ∀ t ∈ turns E exec plan valueRows loop vm, t.Assigns := by
  induction valueRows generalizing loop vm with
  | nil =>
      refine ⟨⟨rfl, ⟨loop.nextRowid, hvm⟩, fun loop' vm' hok => ?_⟩, rfl, fun t ht =>
        absurd ht List.not_mem_nil⟩
      obtain ⟨rfl, rfl⟩ := EStateM.Result.ok.inj hok
      exact ⟨le_refl _, hvm⟩
  | cons valueRow valueRows ih =>
      rw [turns, List.forall_mem_cons] at hfits
      obtain ⟨hfit, hrest⟩ := hfits
      have hturn := insertValueRow_went (E := E) hrun hfit hvm
      have hassigns : Turn.Assigns ⟨plan, valueRow, loop, vm⟩ := by
        refine assigns_of_fits hfit fun r hr => hvm.below (tableKey plan.stmt.tableName) _ ?_ r hr
        rw [limit, lookup_atLoop, if_pos rfl, Option.some_or]
      rw [turns, turns, List.forall_mem_cons, ← hturn.same]
      unfold insertLoop
      cases hgo : insertValueRow E exec plan valueRow loop vm with
      | error e vm' =>
          have hgo' := hturn.same ▸ hgo
          refine ⟨⟨?_, ?_, fun loop' vm'' hok => ?_⟩, rfl, hassigns, fun t ht => absurd ht List.not_mem_nil⟩
          · rw [bind_error hgo, bind_error hgo']
          · rw [left_bind_error hgo, ← left_error hgo]
            exact hturn.left
          · rw [bind_error hgo] at hok
            cases hok
      | ok loop₁ vm₁ =>
          have hgo' := hturn.same ▸ hgo
          obtain ⟨hle, hvm₁⟩ := hturn.ok loop₁ vm₁ hgo
          rw [hgo] at hrest
          obtain ⟨hwent, hturns, hall⟩ := ih hrest hvm₁
          refine ⟨⟨?_, ?_, fun loop' vm'' hok => ?_⟩, congrArg _ hturns, hassigns, hall⟩
          · rw [bind_ok hgo, bind_ok hgo', hwent.same]
          · rw [left_bind_ok hgo]
            exact hwent.left
          · rw [bind_ok hgo] at hok
            obtain ⟨hle', hnumbered⟩ := hwent.ok loop' vm'' hok
            exact ⟨hle.trans hle', hnumbered⟩

end Loop

end Dml

end Kkdb
