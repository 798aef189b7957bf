import Kkdb.Vm.IndexLookup

namespace Kkdb

open Lib

-- An expression that evaluates to one value in every row.
structure Constant (env : EvalEnv) where
  expr : Expr
  value : Value
  constant : ∀ row colMap, env.evalExpr expr row colMap = .ok value
  notColumn : ∀ table column, expr ≠ .ColumnRef table column
  notNaN : value.isNaN = false

inductive CompareOp where
  | Equal
  | LessThan
  | LessThanOrEqual
  | GreaterThan
  | GreaterThanOrEqual

namespace CompareOp

def binary : CompareOp → BinaryOperator
  | Equal => .Equal
  | LessThan => .LessThan
  | LessThanOrEqual => .LessThanOrEqual
  | GreaterThan => .GreaterThan
  | GreaterThanOrEqual => .GreaterThanOrEqual

def flip : CompareOp → CompareOp
  | Equal => Equal
  | LessThan => GreaterThan
  | LessThanOrEqual => GreaterThanOrEqual
  | GreaterThan => LessThan
  | GreaterThanOrEqual => LessThanOrEqual

def lookup (op : CompareOp) (value : Value) : Lookup :=
  match op with
  | Equal => .Eq value
  | op => .Comparison op.binary value

theorem flipComparisonOperator_binary (op : CompareOp) :
    flipComparisonOperator op.binary = some op.flip.binary := by
  cases op <;> rfl

theorem ofComparison_binary (op : CompareOp) (value : Value) :
    Lookup.ofComparison op.binary value = some (op.lookup value) := by
  cases op <;> rfl

end CompareOp

-- The predicates on one column that an index answers: `c op k`, `k op c`, `c IN (k1..kn)` and
-- `c BETWEEN k1 AND k2`.
inductive ColumnTest (env : EvalEnv) where
  | Left (op : CompareOp) (k : Constant env)
  | Right (op : CompareOp) (k : Constant env)
  | In (ks : List (Constant env))
  | Between (low high : Constant env)

namespace ColumnTest

variable {env : EvalEnv}

def expr (table : Option String) (column : String) : ColumnTest env → Expr
  | Left op k => .BinaryOp (.ColumnRef table column) op.binary k.expr
  | Right op k => .BinaryOp k.expr op.binary (.ColumnRef table column)
  | In ks => .InList (.ColumnRef table column) (ks.map Constant.expr) false
  | Between low high => .Between (.ColumnRef table column) low.expr high.expr false

def lookup : ColumnTest env → Lookup
  | Left op k => op.lookup k.value
  | Right op k => op.flip.lookup k.value
  | In ks => .In ((ks.map Constant.value).filter fun v => v ≠ .Null)
  | Between low high => .Between low.value high.value

theorem evalConstantExpr_eq (k : Constant env) : env.evalConstantExpr k.expr = some k.value := by
  rw [EvalEnv.evalConstantExpr, k.constant]
  rfl

theorem lookupOf_expr (test : ColumnTest env) (table : Option String) (column : String) :
    env.lookupOf (test.expr table column) = some (column, test.lookup) := by
  cases test with
  | Left op k =>
      rw [expr, EvalEnv.lookupOf, evalConstantExpr_eq]
      simp [lookup, CompareOp.ofComparison_binary]
  | Right op k =>
      rw [expr, EvalEnv.lookupOf, evalConstantExpr_eq, CompareOp.flipComparisonOperator_binary]
      · simp [lookup, CompareOp.ofComparison_binary]
      · exact k.notColumn
  | In ks =>
      have hvalues : (ks.map Constant.expr).mapM env.evalConstantExpr = some (ks.map Constant.value) := by
        induction ks with
        | nil => rfl
        | cons k ks ih => simp [evalConstantExpr_eq, ih]
      rw [expr, EvalEnv.lookupOf, hvalues]
      rfl
  | Between low high =>
      rw [expr, EvalEnv.lookupOf, evalConstantExpr_eq, evalConstantExpr_eq]
      rfl

section Eval

variable {table : Option String} {column : String} {row : Row} {colMap : ColMap} {v k : Value}

theorem isTruthy_ofBool (b : Bool) : (EvalEnv.ofBool b).isTruthy = b := by
  cases b <;> rfl

theorem applyBinaryOp_truthy (env : EvalEnv) (op : CompareOp) (v k : Value) :
    ∃ w, env.applyBinaryOp op.binary v k = .ok w ∧ (w.isTruthy = true ↔ (op.lookup k).Holds v) := by
  by_cases hnull : v = .Null ∨ k = .Null
  · refine ⟨.Null, ?_, iff_of_false Bool.false_ne_true ?_⟩
    · unfold EvalEnv.applyBinaryOp
      rw [if_pos hnull]
      cases op <;> rfl
    · cases op <;> exact fun h => hnull.elim h.1 h.2.1
  · have hnonnull := not_or.mp hnull
    unfold EvalEnv.applyBinaryOp
    rw [if_neg hnull]
    cases op
    all_goals
      refine ⟨_, rfl, ?_⟩
      simp only [isTruthy_ofBool, CompareOp.lookup, CompareOp.binary, Lookup.Holds, ne_eq, hnonnull,
        not_false_eq_true, true_and, decide_eq_true_eq]

theorem holds_flip (op : CompareOp) (hv : v.isNaN = false) (hk : k.isNaN = false) :
    (op.lookup v).Holds k ↔ (op.flip.lookup k).Holds v := by
  have hswap := Value.partialCmp_swap v k
  have heq : k.eq v = true ↔ v.eq k = true := by
    rw [Value.eq_iff_partialCmp hk hv, Value.eq_iff_partialCmp hv hk, hswap, partialCmp_eq_some hv hk]
    cases cmpValueTotal v k <;> simp
  cases op
  all_goals
    simp only [CompareOp.lookup, CompareOp.flip, CompareOp.binary, Lookup.Holds]
    rw [← and_assoc, ← and_assoc, and_comm (a := k ≠ .Null)]
    refine and_congr_right fun _ => ?_
  · exact heq
  all_goals
    rw [hswap, partialCmp_eq_some hv hk]
    cases cmpValueTotal v k <;> simp

theorem evalInList_truthy (ks : List (Constant env)) (v : Value) (hasNull : Bool) (row : Row)
    (colMap : ColMap) :
    ∃ w, env.evalInList v (ks.map Constant.expr) false hasNull row colMap = .ok w ∧
      (w.isTruthy = true ↔ ∃ k ∈ ks, k.value ≠ .Null ∧ v.eq k.value = true) := by
  induction ks generalizing hasNull with
  | nil =>
      refine ⟨_, rfl, iff_of_false ?_ (by simp)⟩
      cases hasNull <;> decide
  | cons k ks ih =>
      rw [List.map_cons, EvalEnv.evalInList, k.constant, List.exists_mem_cons_iff]
      simp only [bind, Except.bind]
      split_ifs with hnull heq
      · obtain ⟨w, hw, hiff⟩ := ih true
        exact ⟨w, hw, hiff.trans (or_iff_right fun h => h.1 hnull).symm⟩
      · exact ⟨_, rfl, iff_of_true rfl (.inl ⟨hnull, heq⟩)⟩
      · obtain ⟨w, hw, hiff⟩ := ih hasNull
        exact ⟨w, hw, hiff.trans (or_iff_right fun h => heq h.2).symm⟩

theorem evalExpr_truthy (test : ColumnTest env) (href : env.columnRef table column row colMap = .ok v)
    (hv : v.isNaN = false) :
    ∃ w, env.evalExpr (test.expr table column) row colMap = .ok w ∧
      (w.isTruthy = true ↔ test.lookup.Holds v) := by
  cases test with
  | Left op k =>
      obtain ⟨w, hw, hiff⟩ := applyBinaryOp_truthy env op v k.value
      refine ⟨w, ?_, hiff⟩
      rw [← hw, expr]
      cases op <;> simp only [CompareOp.binary, EvalEnv.evalExpr, href, k.constant] <;> rfl
  | Right op k =>
      obtain ⟨w, hw, hiff⟩ := applyBinaryOp_truthy env op k.value v
      refine ⟨w, ?_, hiff.trans (holds_flip op hv k.notNaN)⟩
      rw [← hw, expr]
      cases op <;> simp only [CompareOp.binary, EvalEnv.evalExpr, href, k.constant] <;> rfl
  | In ks =>
      by_cases hnull : v = .Null
      · refine ⟨.Null, ?_, iff_of_false Bool.false_ne_true fun h => h.1 hnull⟩
        rw [expr, EvalEnv.evalExpr, EvalEnv.evalExpr, href]
        simp only [bind, Except.bind, if_pos hnull]
        rfl
      · obtain ⟨w, hw, hiff⟩ := evalInList_truthy ks v false row colMap
        refine ⟨w, ?_, hiff.trans ?_⟩
        · rw [expr, EvalEnv.evalExpr, EvalEnv.evalExpr, href]
          simp only [bind, Except.bind, if_neg hnull]
          exact hw
        · rw [lookup, Lookup.Holds, and_iff_right hnull]
          constructor
          · rintro ⟨k, hk, hnonnull, heq⟩
            exact ⟨k.value, List.mem_filter.mpr ⟨List.mem_map_of_mem hk, decide_eq_true hnonnull⟩,
              hnonnull, heq⟩
          · rintro ⟨x, hx, hnonnull, heq⟩
            obtain ⟨k, hk, rfl⟩ := List.mem_map.mp (List.mem_filter.mp hx).1
            exact ⟨k, hk, hnonnull, heq⟩
  | Between low high =>
      rw [expr, EvalEnv.evalExpr, EvalEnv.evalExpr, href, low.constant, high.constant]
      simp only [bind, Except.bind]
      split_ifs with hnull
      · refine ⟨_, rfl, iff_of_false Bool.false_ne_true ?_⟩
        rintro ⟨hvn, hln, hhn, -⟩
        exact hnull.elim hvn fun h => h.elim hln hhn
      · obtain ⟨hvn, hrest⟩ := not_or.mp hnull
        obtain ⟨hln, hhn⟩ := not_or.mp hrest
        refine ⟨_, rfl, ?_⟩
        rw [isTruthy_ofBool, Bool.bne_false, Bool.and_eq_true]
        exact ⟨fun h => ⟨hvn, hln, hhn, h⟩, fun h => h.2.2.2⟩

end Eval

end ColumnTest

section Targets

variable {rows : List (Int64 × Row)} {rowids : List Int64}

theorem mem_takeRows (rowids : List Int64) {byId : List (Int64 × Row)}
    (hnodup : (byId.map Prod.fst).Nodup) (r : Int64 × Row) :
    r ∈ takeRows rowids byId ↔ r.1 ∈ rowids ∧ r ∈ byId := by
  induction rowids generalizing byId with
  | nil => simp [takeRows]
  | cons rid rowids ih =>
      rw [takeRows, List.mem_cons]
      cases hlook : byId.lookup rid with
      | none =>
          have hnot : ∀ row, (rid, row) ∉ byId := fun row hmem => by
            rw [(lookup_eq_some_iff hnodup).mpr hmem] at hlook
            cases hlook
          dsimp only
          rw [ih hnodup]
          refine and_congr_left fun hr => (or_iff_right ?_).symm
          intro heq
          exact hnot r.2 (heq ▸ hr)
      | some row =>
          dsimp only
          rw [List.mem_cons, remove, ih (hnodup.sublist (List.filter_sublist.map Prod.fst)), List.mem_filter,
            decide_eq_true_iff]
          have hrow := (lookup_eq_some_iff hnodup).mp hlook
          constructor
          · rintro (rfl | ⟨hin, hby, -⟩)
            · exact ⟨.inl rfl, hrow⟩
            · exact ⟨.inr hin, hby⟩
          · rintro ⟨hin, hby⟩
            by_cases heq : r.1 = rid
            · exact .inl (List.inj_on_of_nodup_map hnodup hby hrow heq)
            · exact .inr ⟨hin.resolve_left heq, hby, heq⟩

theorem mem_fetchRowsByRowids (hnodup : (rows.map Prod.fst).Nodup) (r : Int64 × Row) :
    r ∈ fetchRowsByRowids rows rowids ↔ r.1 ∈ rowids ∧ r ∈ rows := by
  unfold fetchRowsByRowids
  split_ifs
  · rw [mem_takeRows rowids (hnodup.sublist (List.filter_sublist.map Prod.fst)), List.mem_filter,
      decide_eq_true_iff]
    exact ⟨fun h => ⟨h.1, h.2.1⟩, fun h => ⟨h.1, h.2, h.1⟩⟩
  · rw [List.mem_filterMap]
    constructor
    · rintro ⟨rid, hrid, heq⟩
      obtain ⟨row, hrow, rfl⟩ := Option.map_eq_some_iff.mp heq
      exact ⟨hrid, (lookup_eq_some_iff hnodup).mp hrow⟩
    · rintro ⟨hrid, hr⟩
      exact ⟨r.1, hrid, by rw [(lookup_eq_some_iff hnodup).mpr hr]; rfl⟩

theorem scanTargets_ok {env : EvalEnv} {colMap : ColMap} {whereExpr : Expr} (q : Row → Prop)
    (h : ∀ r ∈ rows, ∃ w, env.evalExpr whereExpr r.2 colMap = .ok w ∧ (w.isTruthy = true ↔ q r.2)) :
    ∃ targets, scanTargets env colMap whereExpr rows = .ok targets ∧
      ∀ r, r ∈ targets ↔ r ∈ rows ∧ q r.2 := by
  induction rows with
  | nil => exact ⟨[], rfl, fun r => by simp⟩
  | cons r rows ih =>
      obtain ⟨targets, hok, hmem⟩ := ih fun r' hr' => h r' (List.mem_cons_of_mem _ hr')
      obtain ⟨w, hw, hiff⟩ := h r List.mem_cons_self
      refine ⟨_, by rw [scanTargets, hw, hok]; rfl, fun r' => ?_⟩
      split_ifs with ht
      · rw [List.mem_cons, hmem, List.mem_cons]
        constructor
        · rintro (rfl | ⟨hr', hq⟩)
          · exact ⟨.inl rfl, hiff.mp ht⟩
          · exact ⟨.inr hr', hq⟩
        · rintro ⟨rfl | hr', hq⟩
          · exact .inl rfl
          · exact .inr ⟨hr', hq⟩
      · rw [hmem, List.mem_cons]
        refine and_congr_left fun hq => (or_iff_right ?_).symm
        rintro rfl
        exact ht (hiff.mpr hq)

end Targets

namespace IndexedColumn

variable {env : EvalEnv} (col : IndexedColumn env)

def Selected (whereExpr : Expr) (rid : Int64) (row : Row) : Prop :=
  (rid, row) ∈ col.rows ∧
    ∃ w, env.evalExpr whereExpr row (buildColMap col.columns) = .ok w ∧ w.isTruthy = true

-- The index finds the rows on which the predicate is true, and `UPDATE` and `DELETE` change
-- the same rows with and without the index.
structure SameRows (std : EntryOps) (whereExpr : Expr) : Prop where
  rowids : ∃ rowids, tryDmlIndexRowids std env col.indexes whereExpr = .ok (some rowids) ∧
    ∀ rid, rid ∈ rowids ↔ ∃ row, col.Selected whereExpr rid row
  update : ∃ targets scanned,
    updateTargets std env col.columns col.rows col.indexes whereExpr = .ok targets ∧
    updateTargets std env col.columns col.rows [] whereExpr = .ok scanned ∧
    ∀ r, r ∈ targets ↔ r ∈ scanned
  delete : ∃ targets scanned,
    deleteTargets std env col.columns col.rows col.indexes whereExpr = .ok targets ∧
    deleteTargets std env col.columns col.rows [] whereExpr = .ok scanned ∧
    ∀ rid, rid ∈ targets ↔ rid ∈ scanned

variable (test : ColumnTest env)

theorem right_iff : col.Right test.lookup ↔ col.Faithful test.lookup := by
  have hcompare : ∀ (op : CompareOp) (k : Constant env),
      col.Right (op.lookup k.value) ↔ col.Faithful (op.lookup k.value) := by
    intro op k
    cases op with
    | Equal => exact col.right_eq_iff k.notNaN
    | LessThan => exact col.right_comparison_iff (.inl rfl) k.notNaN
    | LessThanOrEqual => exact col.right_comparison_iff (.inr (.inl rfl)) k.notNaN
    | GreaterThan => exact col.right_comparison_iff (.inr (.inr (.inl rfl))) k.notNaN
    | GreaterThanOrEqual => exact col.right_comparison_iff (.inr (.inr (.inr rfl))) k.notNaN
  cases test with
  | Left op k => exact hcompare op k
  | Right op k => exact hcompare op.flip k
  | In ks =>
      refine col.right_in_iff (fun k hk => ?_) (fun k hk => ?_)
      · exact of_decide_eq_true (List.mem_filter.mp hk).2
      · obtain ⟨c, -, rfl⟩ := List.mem_map.mp (List.mem_filter.mp hk).1
        exact c.notNaN
  | Between low high => exact col.right_between_iff low.notNaN high.notNaN

theorem evalExpr_row {r : Int64 × Row} (hr : r ∈ col.rows) :
    ∃ w, env.evalExpr (test.expr col.table col.column) r.2 (buildColMap col.columns) = .ok w ∧
      (w.isTruthy = true ↔ test.lookup.Holds (r.2.getD col.position .Null)) :=
  test.evalExpr_truthy (col.resolves r.2) (col.notNaN r hr)

theorem selected_iff (rid : Int64) :
    (∃ row, col.Selected (test.expr col.table col.column) rid row) ↔
      ∃ v, (v, rid) ∈ col.pairs ∧ test.lookup.Holds v := by
  constructor
  · rintro ⟨row, hrow, w, hw, htrue⟩
    obtain ⟨w', hw', hiff⟩ := col.evalExpr_row test hrow
    rw [hw] at hw'
    cases hw'
    exact ⟨_, col.mem_pairs.mpr ⟨row, hrow, rfl⟩, hiff.mp htrue⟩
  · rintro ⟨v, hv, hholds⟩
    obtain ⟨row, hrow, heq⟩ := col.mem_pairs.mp hv
    obtain ⟨w, hw, hiff⟩ := col.evalExpr_row test hrow
    exact ⟨row, hrow, w, hw, hiff.mpr (heq ▸ hholds)⟩

theorem tryDmlIndexRowids_eq (std : EntryOps) :
    tryDmlIndexRowids std env col.indexes (test.expr col.table col.column) =
      (lookupRowids std col.index test.lookup).map some := by
  rw [tryDmlIndexRowids, test.lookupOf_expr]
  dsimp only
  rw [col.found]
  rfl

theorem tryDmlIndexRowids_nil (std : EntryOps) :
    tryDmlIndexRowids std env [] (test.expr col.table col.column) = .ok none := by
  rw [tryDmlIndexRowids, test.lookupOf_expr]
  rfl

theorem sameRows_of_lookup {std : EntryOps} {rowids : List Int64}
    (hok : lookupRowids std col.index test.lookup = .ok rowids)
    (hmem : ∀ rid, rid ∈ rowids ↔ ∃ v, (v, rid) ∈ col.pairs ∧ test.lookup.Holds v) :
    col.SameRows std (test.expr col.table col.column) := by
  have htry : tryDmlIndexRowids std env col.indexes (test.expr col.table col.column) = .ok (some rowids) := by
    rw [tryDmlIndexRowids_eq, hok]
    rfl
  obtain ⟨scanned, hscan, hscanned⟩ := scanTargets_ok
    (fun row => test.lookup.Holds (row.getD col.position .Null)) fun r hr => col.evalExpr_row test hr
  have hrow : ∀ r ∈ col.rows, (r.1 ∈ rowids ↔ test.lookup.Holds (r.2.getD col.position .Null)) := by
    intro r hr
    rw [hmem]
    exact col.holds_of_rid (col.mem_pairs.mpr ⟨r.2, hr, rfl⟩)
  refine ⟨⟨rowids, htry, fun rid => (hmem rid).trans (col.selected_iff test rid).symm⟩,
    ⟨fetchRowsByRowids col.rows rowids, scanned, ?_, ?_, fun r => ?_⟩,
    ⟨rowids, scanned.map Prod.fst, ?_, ?_, fun rid => ?_⟩⟩
  · rw [updateTargets, htry]
    rfl
  · rw [updateTargets, tryDmlIndexRowids_nil]
    exact hscan
  · rw [mem_fetchRowsByRowids col.rowids, hscanned, and_comm]
    exact and_congr_right fun hr => hrow r hr
  · rw [deleteTargets, htry]
    rfl
  · rw [deleteTargets, tryDmlIndexRowids_nil]
    simp only [bind, Except.bind]
    rw [hscan]
    rfl
  · rw [hmem, List.mem_map]
    constructor
    · rintro ⟨v, hv, hholds⟩
      obtain ⟨row, hrow', heq⟩ := col.mem_pairs.mp hv
      exact ⟨(rid, row), (hscanned _).mpr ⟨hrow', heq ▸ hholds⟩, rfl⟩
    · rintro ⟨r, hr, rfl⟩
      obtain ⟨hrow', hholds⟩ := (hscanned r).mp hr
      exact ⟨_, col.mem_pairs.mpr ⟨r.2, hrow', rfl⟩, hholds⟩

theorem sameRows_iff_right :
    (∀ std : EntryOps, col.SameRows std (test.expr col.table col.column)) ↔ col.Right test.lookup := by
  constructor
  · intro h std
    obtain ⟨rowids, htry, hmem⟩ := (h std).rowids
    rw [tryDmlIndexRowids_eq] at htry
    cases hlook : lookupRowids std col.index test.lookup with
    | error e =>
        rw [hlook] at htry
        cases htry
    | ok found =>
        rw [hlook] at htry
        cases htry
        exact ⟨rowids, rfl, fun rid => (hmem rid).trans (col.selected_iff test rid)⟩
  · intro h std
    obtain ⟨rowids, hok, hmem⟩ := h std
    exact col.sameRows_of_lookup test hok hmem

-- For every table, index and predicate on its first column, the index path selects the rows
-- that the evaluator selects exactly if the lookup is faithful.
theorem dmlIndex_sameRows_iff :
    (∀ std : EntryOps, col.SameRows std (test.expr col.table col.column)) ↔ col.Faithful test.lookup :=
  (col.sameRows_iff_right test).trans (col.right_iff test)

end IndexedColumn

section NullRow

def plainEnv : EvalEnv where
  params := []
  outerRows := []
  operator := fun _ _ _ => .ok .Null
  other := fun _ _ _ => .ok .Null

def nullRow : IndexedColumn plainEnv where
  columns := ["c"]
  rows := [(1, [.Null])]
  indexes := [⟨⟨"i", ["c"], false, false⟩, [(1, [.Null, .Integer 1])], none⟩]
  table := none
  column := "c"
  position := 0
  index := ⟨⟨"i", ["c"], false, false⟩, [(1, [.Null, .Integer 1])], none⟩
  keyPositions := [0]
  rowids := by decide
  found := by rfl
  resolves := fun row => by rfl
  key := rfl
  entries := by decide
  notNaN := by decide
  cached := fun _ h => by cases h

def fiveConstant : Constant plainEnv where
  expr := .IntegerLiteral 5
  value := .Integer 5
  constant := fun row colMap => by
    rw [EvalEnv.evalExpr]
  notColumn := fun _ _ h => by cases h
  notNaN := rfl

-- `c < 5` is not true on the null value, and the index finds its row.
theorem nullRow_selected_by_index :
    ¬nullRow.SameRows (SliceOps.counting _) ((ColumnTest.Left .LessThan fiveConstant).expr none "c") := by
  intro h
  obtain ⟨rowids, htry, hmem⟩ := h.rowids
  have hfound : lookupRowids (SliceOps.counting _) nullRow.index (.Comparison .LessThan (.Integer 5)) =
      .ok [1] := by decide
  have hrun := (nullRow.tryDmlIndexRowids_eq (.Left .LessThan fiveConstant) (SliceOps.counting _)).trans
    (congrArg (Except.map some) hfound)
  cases hrun.symm.trans htry
  obtain ⟨v, hv, hholds⟩ := (nullRow.selected_iff (.Left .LessThan fiveConstant) 1).mp
    ((hmem 1).mp List.mem_cons_self)
  cases List.mem_singleton.mp hv
  exact hholds.1 rfl

end NullRow

end Kkdb
