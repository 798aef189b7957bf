import Kkdb.Sql.Convert
import Kkdb.Vm.AggregateForms

namespace Kkdb

open Lib

def aggregateValue (ops : SumOps) (name : String) (distinct : Bool) (values : List Value) : Value :=
  if eqIgnoreCase name "COUNT" then
    .Integer (Int64.ofNat (if distinct then countDistinct ops.shown values else (nonNull values).length))
  else if eqIgnoreCase name "SUM" then (values.foldl (Summing.addValue ops) Summing.start).result
  else if eqIgnoreCase name "AVG" then avgValue ops values
  else if eqIgnoreCase name "MIN" then (values.foldl (keepBetter .lt) none).getD .Null
  else (values.foldl (keepBetter .gt) none).getD .Null

section Nulls

variable {ops : SumOps} {name : String} {distinct : Bool} {values : List Value}

theorem nonNull_nonNull (values : List Value) : nonNull (nonNull values) = nonNull values := by
  rw [nonNull, nonNull, List.filter_filter]
  congr 1
  funext v
  exact Bool.and_self _

theorem foldl_nonNull {β : Type} {f : β → Value → β} (h : ∀ b, f b .Null = b) (b : β) (values : List Value) :
    (nonNull values).foldl f b = values.foldl f b := by
  rw [nonNull, List.foldl_filter]
  congr 1
  funext b v
  by_cases hnull : v = .Null
  · rw [if_neg (by rw [hnull]; decide), hnull, h]
  · rw [if_pos (decide_eq_true hnull)]

theorem countDistinct_nonNull : countDistinct ops.shown (nonNull values) = countDistinct ops.shown values := by
  have hsame := nonNull_nonNull values
  rw [countDistinct, countDistinct]
  exact congrArg _ (congrArg _ hsame)

theorem avgValue_nonNull : avgValue ops (nonNull values) = avgValue ops values := by
  have hnumbers : (nonNull values).filterMap (Value.toF64 ops) = values.filterMap (Value.toF64 ops) := by
    rw [nonNull, List.filterMap_filter]
    congr 1
    funext v
    by_cases hnull : v = .Null
    · rw [if_neg (by rw [hnull]; decide), hnull]
      rfl
    · rw [if_pos (decide_eq_true hnull)]
  rw [avgValue, avgValue, hnumbers]

theorem aggregateValue_nonNull : aggregateValue ops name distinct (nonNull values) =
    aggregateValue ops name distinct values := by
  have hskip : ∀ wanted kept, keepBetter wanted kept .Null = kept := fun _ _ => if_pos rfl
  rw [aggregateValue, aggregateValue, countDistinct_nonNull, nonNull_nonNull, avgValue_nonNull,
    foldl_nonNull (fun _ => rfl), foldl_nonNull (hskip .lt), foldl_nonNull (hskip .gt)]

end Nulls

namespace ScalarEnv

section Filtering

variable (env : ScalarEnv) (ops : SumOps) (colMap : ColMap)

def condHolds (cond : Expr) (row : Row) : Bool := ((env.evalExpr cond row colMap).toOption.getD .Null).isTruthy

-- The condition on a group of rows, as the window functions evaluate an expression.
def groupHolds (cond : Expr) (group : List Row) : Bool := (env.groupValue ops colMap cond group).isTruthy

def callValue (e : Expr) (rows : List Row) : Res Value :=
  env.evalExprWithAggregates ops rows e (rows.headD []) colMap

def windowCallValue (e : Expr) (frame : List (List Row)) : Value :=
  match e with
  | .WindowFunction func _ _ _ => env.frameValue ops colMap func frame
  | _ => .Null

-- A call with a filter is the call without it over the rows, or the frames, on which the condition is true.
def Filters (call : FunctionCall) (cond : Expr) (rows : List Row) (groups : List (List Row)) : Prop :=
  let filtered := convertFunction { call with filter := some cond }
  let plain := convertFunction { call with filter := none }
  match call.overSpec with
  | none =>
      filtered.map (fun e => env.callValue ops colMap e rows) =
        plain.map (fun e => env.callValue ops colMap e (rows.filter (env.condHolds colMap cond)))
  | some _ => ∀ frame, frame <:+: groups →
      filtered.map (fun e => env.windowCallValue ops colMap e frame) =
        plain.map (fun e => env.windowCallValue ops colMap e (frame.filter (env.groupHolds ops colMap cond)))

-- Whether a value changes what the window form of an aggregate gives.
def contributes (name : String) (v : Value) : Bool :=
  if eqIgnoreCase name "SUM" then
    match v with
    | .Integer _ | .Real _ => true
    | _ => false
  else v ≠ .Null

def FiltersWhen (call : FunctionCall) (cond : Expr) (rows : List Row) (groups : List (List Row)) : Prop :=
  match call.overSpec with
  | none => ¬(eqIgnoreCase call.name "COUNT" = true ∧ call.distinct = true ∧
      countsRows (call.argExprs) = true ∧ 2 ≤ (rows.filter (env.condHolds colMap cond)).length)
  | some _ => ∀ arg ∈ (call.args.filterMap FunctionArg.expr?).head?, ∀ group ∈ groups,
      env.groupHolds ops colMap cond group = true ∨
        contributes call.name (env.groupValue ops colMap arg group) = false

variable {env ops colMap} {cond arg : Expr} {rows : List Row} {name : String} {distinct : Bool}

theorem evalExpr_filterArg {row : Row} {v : Value} (hcond : env.evalExpr cond row colMap = .ok v) :
    env.evalExpr (filterArg cond arg) row colMap =
      if env.condHolds colMap cond row then env.evalExpr arg row colMap else .ok .Null := by
  have hholds : env.condHolds colMap cond row = v.isTruthy := by
    rw [condHolds, hcond]
    rfl
  rw [hholds]
  cases htruthy : v.isTruthy with
  | true =>
      have hwhen : whenHolds none v = true := htruthy
      simp only [filterArg, evalExpr, evalOption, evalWhens, evalWhen, hcond, hwhen, bind, Except.bind, pure,
        Except.pure, if_true]
      cases env.evalExpr arg row colMap <;> rfl
  | false =>
      have hwhen : whenHolds none v = false := htruthy
      simp only [filterArg, evalExpr, evalOption, evalWhens, evalWhen, hcond, hwhen, bind, Except.bind, pure,
        Except.pure, Bool.false_eq_true, if_false]
      rfl

theorem map_nonNull_cons {found kept : Res (List Value)} (h : found.map nonNull = kept.map nonNull)
    (x : Value) :
    (found >>= fun values => pure (x :: values)).map nonNull =
      (kept >>= fun values => pure (x :: values)).map nonNull := by
  cases found with
  | error fault =>
      cases kept with
      | error fault' => rw [Except.error.inj h]
      | ok values => cases h
  | ok values =>
      cases kept with
      | error fault => cases h
      | ok values' =>
          have hsame := Except.ok.inj h
          have hcons : nonNull (x :: values) = nonNull (x :: values') := by
            rw [nonNull] at hsame ⊢
            rw [nonNull, List.filter_cons, List.filter_cons, hsame]
            rfl
          exact congrArg Except.ok hcons

theorem map_nonNull_null {found : Res (List Value)} :
    (found >>= fun values => pure (Value.Null :: values)).map nonNull = found.map nonNull := by
  cases found <;> rfl

-- The values of a filtered argument differ in null values only from those on the rows that are kept.
theorem argValues_filterArg (hcond : ∀ row ∈ rows, ∃ v, env.evalExpr cond row colMap = .ok v) :
    (env.argValues (filterArg cond arg) rows colMap).map nonNull =
      (env.argValues arg (rows.filter (env.condHolds colMap cond)) colMap).map nonNull := by
  induction rows with
  | nil => rfl
  | cons row rows ih =>
      obtain ⟨⟨v, hv⟩, hrows⟩ := List.forall_mem_cons.mp hcond
      have hrest := ih hrows
      rw [argValues, argValues] at hrest ⊢
      rw [List.mapM_cons, evalExpr_filterArg hv]
      by_cases hholds : env.condHolds colMap cond row = true
      · rw [if_pos hholds, List.filter_cons_of_pos hholds, List.mapM_cons]
        cases hvalue : env.evalExpr arg row colMap with
        | error fault => rfl
        | ok x => exact map_nonNull_cons hrest x
      · rw [if_neg hholds, List.filter_cons_of_neg hholds, ← hrest]
        exact map_nonNull_null

theorem not_win_of_aggregate (h : isAggregateName name = true) : name ≠ "__win" := by
  rintro rfl
  exact absurd h (by decide)

theorem callValue_function (h : isAggregateName name = true) (args : List Expr) :
    env.callValue ops colMap (.Function name args distinct) rows =
      env.evalAggregate ops name args distinct rows colMap := by
  rw [callValue, evalExprWithAggregates, if_neg (not_win_of_aggregate h), if_pos h]

theorem evalAggregate_arg (hname : isAggregateName name = true) {rest : List Expr}
    (h : ¬(eqIgnoreCase name "COUNT" = true ∧ countsRows (arg :: rest) = true)) :
    env.evalAggregate ops name (arg :: rest) distinct rows colMap =
      (env.argValues arg rows colMap).map (aggregateValue ops name distinct) := by
  unfold evalAggregate aggregateValue
  dsimp only
  by_cases hcount : eqIgnoreCase name "COUNT" = true
  · simp only [if_pos hcount, if_neg fun hrows => h ⟨hcount, hrows⟩, List.headD_cons]
    cases env.argValues arg rows colMap <;> rfl
  · by_cases hsum : eqIgnoreCase name "SUM" = true
    · simp only [if_neg hcount, if_pos hsum]
      cases env.argValues arg rows colMap <;> rfl
    · by_cases havg : eqIgnoreCase name "AVG" = true
      · simp only [if_neg hcount, if_neg hsum, if_pos havg]
        cases env.argValues arg rows colMap <;> rfl
      · by_cases hmin : eqIgnoreCase name "MIN" = true
        · simp only [if_neg hcount, if_neg hsum, if_neg havg, if_pos hmin]
          cases env.argValues arg rows colMap <;> rfl
        · have hmax : eqIgnoreCase name "MAX" = true := by
            simpa [isAggregateName, hcount, hsum, havg, hmin] using hname
          simp only [if_neg hcount, if_neg hsum, if_neg havg, if_neg hmin, if_pos hmax]
          cases env.argValues arg rows colMap <;> rfl

theorem evalAggregate_filterArg (hname : isAggregateName name = true)
    (hcond : ∀ row ∈ rows, ∃ v, env.evalExpr cond row colMap = .ok v) (rest : List Expr) :
    env.evalAggregate ops name (filterArg cond arg :: rest) distinct rows colMap =
      (env.argValues arg (rows.filter (env.condHolds colMap cond)) colMap).map
      (aggregateValue ops name distinct) := by
  have hmap : ∀ found : Res (List Value), found.map (aggregateValue ops name distinct) =
      (found.map nonNull).map (aggregateValue ops name distinct) := by
    intro found
    cases found with
    | error fault => rfl
    | ok values => exact congrArg Except.ok aggregateValue_nonNull.symm
  have hrows : countsRows (filterArg cond arg :: rest) = false := rfl
  rw [evalAggregate_arg hname (by rw [hrows]; exact fun h => Bool.false_ne_true h.2), hmap, argValues_filterArg hcond, ← hmap]

theorem countDistinct_ones (n : Nat) :
    countDistinct ops.shown (List.replicate n (Value.Integer 1)) = if n = 0 then 0 else 1 := by
  have hfilter : (List.replicate n (Value.Integer 1)).filter (fun v => v ≠ .Null) =
      List.replicate n (Value.Integer 1) := List.filter_replicate_of_pos rfl
  rw [countDistinct, hfilter, length_distinctBy, List.map_replicate]
  by_cases hn : n = 0
  · rw [if_pos hn, hn]
    rfl
  · rw [if_neg hn, List.toFinset_replicate_of_ne_zero hn, Finset.card_singleton]

theorem argValues_one (rows : List Row) :
    env.argValues (.IntegerLiteral 1) rows colMap = .ok (List.replicate rows.length (.Integer 1)) := by
  have hvalues : (rows.mapM fun row => env.evalExpr (.IntegerLiteral 1) row colMap) =
      .ok (rows.map fun _ => Value.Integer 1) := mapM_ok fun _ _ => rfl
  rw [argValues, hvalues, List.map_const']

theorem count_filtered_iff (hname : eqIgnoreCase name "COUNT" = true)
    (hcond : ∀ row ∈ rows, ∃ v, env.evalExpr cond row colMap = .ok v)
    (hlen : rows.length ≤ 9223372036854775807) (rest : List Expr) :
    env.evalAggregate ops name (filterArg cond (.IntegerLiteral 1) :: rest) distinct rows colMap =
        .ok (.Integer (Int64.ofNat (rows.filter (env.condHolds colMap cond)).length)) ↔
      ¬(distinct = true ∧ 2 ≤ (rows.filter (env.condHolds colMap cond)).length) := by
  have hagg : isAggregateName name = true := by
    rw [isAggregateName, List.any_cons, hname]
    rfl
  have hkept : (rows.filter (env.condHolds colMap cond)).length ≤ rows.length := List.length_filter_le _ _
  have hnonNull : (nonNull (List.replicate (rows.filter (env.condHolds colMap cond)).length
      (Value.Integer 1))).length = (rows.filter (env.condHolds colMap cond)).length := by
    rw [nonNull, List.filter_replicate_of_pos rfl, List.length_replicate]
  rw [evalAggregate_filterArg hagg hcond, argValues_one, Except.map, aggregateValue, if_pos hname,
    countDistinct_ones, hnonNull, Except.ok.injEq]
  cases distinct with
  | false => exact iff_of_true rfl fun h => absurd h.1 Bool.false_ne_true
  | true =>
      rw [if_pos rfl, Argument.ofNat_inj (by split_ifs <;> omega) (by omega), eq_self, true_and]
      split_ifs <;> omega

variable {call : FunctionCall} {groups frame : List (List Row)}

theorem convertArgs_eq {args : List FunctionArg} {exprs : List Expr}
    (h : args.mapM (convertFunctionArg name) = some exprs) :
    exprs = args.map fun arg => (arg.expr?).getD (.IntegerLiteral 1) := by
  induction args generalizing exprs with
  | nil => exact (Option.some.inj h).symm
  | cons arg args ih =>
      rw [List.mapM_cons] at h
      cases hconv : convertFunctionArg name arg with
      | none =>
          rw [hconv] at h
          cases h
      | some e =>
          cases hrest : args.mapM (convertFunctionArg name) with
          | none =>
              rw [hconv, hrest] at h
              cases h
          | some es =>
              rw [hconv, hrest] at h
              obtain rfl := Option.some.inj h
              rw [List.map_cons, ih hrest]
              congr 1
              cases arg with
              | Expr e' => exact (Option.some.inj hconv).symm
              | Wildcard =>
                  rw [convertFunctionArg] at hconv
                  split_ifs at hconv
                  exact (Option.some.inj hconv).symm

theorem exists_convertArgs (hcount : eqIgnoreCase name "COUNT" = true) (args : List FunctionArg) :
    ∃ exprs, args.mapM (convertFunctionArg name) = some exprs := by
  induction args with
  | nil => exact ⟨[], rfl⟩
  | cons arg args ih =>
      obtain ⟨exprs, hexprs⟩ := ih
      rw [List.mapM_cons, hexprs]
      cases arg with
      | Expr e => exact ⟨_, rfl⟩
      | Wildcard =>
          rw [convertFunctionArg, if_pos hcount]
          exact ⟨_, rfl⟩

theorem evalAggregate_nil (hname : isAggregateName name = true) (hcount : ¬eqIgnoreCase name "COUNT" = true) :
    env.evalAggregate ops name [] distinct rows colMap = .ok .Null := by
  unfold evalAggregate
  by_cases hsum : eqIgnoreCase name "SUM" = true
  · rw [if_neg hcount, if_pos hsum]
  · by_cases havg : eqIgnoreCase name "AVG" = true
    · rw [if_neg hcount, if_neg hsum, if_pos havg]
    · by_cases hmin : eqIgnoreCase name "MIN" = true
      · rw [if_neg hcount, if_neg hsum, if_neg havg, if_pos hmin]
      · have hmax : eqIgnoreCase name "MAX" = true := by
          simpa [isAggregateName, hcount, hsum, havg, hmin] using hname
        rw [if_neg hcount, if_neg hsum, if_neg havg, if_neg hmin, if_pos hmax]

theorem evalAggregate_countsRows (hcount : eqIgnoreCase name "COUNT" = true) {args : List Expr}
    (hrows : countsRows args = true) :
    env.evalAggregate ops name args distinct rows colMap = .ok (.Integer (Int64.ofNat rows.length)) := by
  rw [evalAggregate.eq_def, if_pos hcount, if_pos hrows]

theorem filterArgs_cons (arg : Expr) (args : List Expr) :
    filterArgs name cond (arg :: args) = filterArg cond arg :: args.map (filterArg cond) := rfl

theorem evalAggregate_filterArgs_iff (hname : isAggregateName name = true)
    (hcond : ∀ row ∈ rows, ∃ v, env.evalExpr cond row colMap = .ok v)
    (hlen : rows.length ≤ 9223372036854775807) (args : List Expr) :
    env.evalAggregate ops name (filterArgs name cond args) distinct rows colMap =
        env.evalAggregate ops name args distinct (rows.filter (env.condHolds colMap cond)) colMap ↔
      ¬(eqIgnoreCase name "COUNT" = true ∧ distinct = true ∧ countsRows args = true ∧
        2 ≤ (rows.filter (env.condHolds colMap cond)).length) := by
  by_cases hcount : eqIgnoreCase name "COUNT" = true ∧ countsRows args = true
  · obtain ⟨hcount, hrows⟩ := hcount
    have hargs : ∃ rest, filterArgs name cond args = filterArg cond (.IntegerLiteral 1) :: rest := by
      cases args with
      | nil => exact ⟨[], by rw [filterArgs, hcount]; rfl⟩
      | cons arg args =>
          cases arg with
          | IntegerLiteral v =>
              have hone : v = 1 := of_decide_eq_true hrows
              rw [hone]
              exact ⟨_, rfl⟩
          | _ => cases hrows
    obtain ⟨rest, hargs⟩ := hargs
    rw [hargs, evalAggregate_countsRows hcount hrows, count_filtered_iff hcount hcond hlen]
    simp only [hcount, hrows, true_and]
  · refine iff_of_true ?_ fun h => hcount ⟨h.1, h.2.2.1⟩
    cases args with
    | nil =>
        have hno : ¬eqIgnoreCase name "COUNT" = true := fun h => hcount ⟨h, rfl⟩
        have hargs : filterArgs name cond [] = [] := by
          rw [filterArgs, Bool.eq_false_iff.mpr hno]
          rfl
        rw [hargs, evalAggregate_nil hname hno, evalAggregate_nil hname hno]
    | cons arg args =>
        rw [filterArgs_cons, evalAggregate_filterArg hname hcond, evalAggregate_arg hname hcount]

-- Without an OVER clause the rewrite goes wrong for `COUNT(DISTINCT 1)` only.
theorem filters_plain_iff (hname : isAggregateName call.name = true) (hover : call.overSpec = none)
    (hcond : ∀ row ∈ rows, ∃ v, env.evalExpr cond row colMap = .ok v)
    (hlen : rows.length ≤ 9223372036854775807) :
    env.Filters ops colMap call cond rows groups ↔ env.FiltersWhen ops colMap call cond rows groups := by
  simp only [Filters, FiltersWhen, convertFunction, hover]
  cases hargs : call.args.mapM (convertFunctionArg call.name) with
  | none =>
      refine iff_of_true rfl fun h => ?_
      obtain ⟨exprs, hexprs⟩ := exists_convertArgs h.1 call.args
      rw [hexprs] at hargs
      cases hargs
  | some exprs =>
      have hexprs : call.argExprs = exprs := (convertArgs_eq hargs).symm
      rw [hexprs, ← evalAggregate_filterArgs_iff hname hcond hlen exprs]
      change some (env.callValue ops colMap
          (.Function call.name (filterArgs call.name cond exprs) call.distinct) rows) =
        some (env.callValue ops colMap (.Function call.name exprs call.distinct)
          (rows.filter (env.condHolds colMap cond))) ↔ _
      rw [callValue_function hname, callValue_function hname, Option.some.injEq]

theorem windowFuncOf_aggregate (hname : isAggregateName name = true) (args : List Expr) :
    windowFuncOf name args distinct = .Aggregate name args distinct := by
  have hother : ∀ other : String, ["COUNT", "SUM", "AVG", "MIN", "MAX"].any
      (fun known => eqIgnoreCase known other) =
      false → eqIgnoreCase name other = false := by
    intro other hno
    rw [isAggregateName, List.any_eq_true] at hname
    obtain ⟨known, hmem, hknown⟩ := hname
    rw [Bool.eq_false_iff]
    intro hsame
    rw [List.any_eq_false] at hno
    apply hno known hmem
    rw [eqIgnoreCase, beq_iff_eq] at hknown hsame ⊢
    exact hknown.symm.trans hsame
  rw [windowFuncOf, hother "ROW_NUMBER" (by decide), hother "RANK" (by decide), hother "DENSE_RANK" (by decide),
    hother "NTILE" (by decide), hother "LAG" (by decide), hother "LEAD" (by decide),
    hother "FIRST_VALUE" (by decide), hother "LAST_VALUE" (by decide), hother "NTH_VALUE" (by decide)]
  rfl

theorem windowAggregateValue_filter (values : List Value) :
    windowAggregateValue ops name (values.filter (contributes name)) =
      windowAggregateValue ops name values := by
  by_cases hsum : eqIgnoreCase name "SUM" = true
  · have hfold : (values.filter (contributes name)).foldl (Summing.addWrapping ops) Summing.start =
        values.foldl (Summing.addWrapping ops) Summing.start := by
      rw [List.foldl_filter]
      congr 1
      funext s v
      rw [contributes.eq_def, if_pos hsum]
      cases v <;> rfl
    rw [windowAggregateValue, windowAggregateValue, if_pos hsum, if_pos hsum, hfold]
  · have hcontributes : contributes name = fun v => decide (v ≠ .Null) := by
      funext v
      rw [contributes.eq_def, if_neg hsum]
    have hfilter : (values.filter (contributes name)).filter (fun v => v ≠ .Null) =
        values.filter fun v => v ≠ .Null := by
      rw [hcontributes]
      exact nonNull_nonNull values
    simp only [windowAggregateValue, windowAvg, if_neg hsum, hfilter]

theorem windowAggregateValue_single (hname : isAggregateName name = true) {v : Value}
    (h : contributes name v = true) : windowAggregateValue ops name [v] ≠ windowAggregateValue ops name [] := by
  unfold contributes at h
  unfold windowAggregateValue
  by_cases hsum : eqIgnoreCase name "SUM" = true
  · rw [if_pos hsum] at h
    rw [if_pos hsum, if_pos hsum]
    cases v with
    | Integer x => exact fun h => nomatch h
    | Real bits => exact fun h => nomatch h
    | _ => cases h
  · rw [if_neg hsum] at h
    have hkeep : [v].filter (fun v => v ≠ .Null) = [v] := List.filter_cons_of_pos h
    rw [if_neg hsum, if_neg hsum]
    by_cases hcount : eqIgnoreCase name "COUNT" = true
    · rw [if_pos hcount, if_pos hcount, hkeep]
      change Value.Integer (Int64.ofNat 1) ≠ .Integer (Int64.ofNat 0)
      decide
    · rw [if_neg hcount, if_neg hcount]
      by_cases havg : eqIgnoreCase name "AVG" = true
      · rw [if_pos havg, if_pos havg, windowAvg, hkeep]
        exact fun h => nomatch h
      · rw [if_neg havg, if_neg havg, hkeep]
        by_cases hmax : eqIgnoreCase name "MAX" = true
        · rw [if_pos hmax, if_pos hmax]
          exact of_decide_eq_true h
        · have hmin : eqIgnoreCase name "MIN" = true := by
            simpa [isAggregateName, hcount, hsum, havg, hmax] using hname
          rw [if_neg hmax, if_neg hmax, if_pos hmin, if_pos hmin]
          exact of_decide_eq_true h

theorem filters_over_iff (hname : isAggregateName call.name = true) {spec : WindowSpec}
    (hover : call.overSpec = some spec) :
    env.Filters ops colMap call cond rows groups ↔ env.FiltersWhen ops colMap call cond rows groups := by
  simp only [Filters, FiltersWhen, convertFunction, hover, Option.map_some, Option.some.injEq, windowCallValue,
    windowFuncOf_aggregate hname, frameValue]
  cases hargs : call.args.filterMap FunctionArg.expr? with
  | nil => exact iff_of_true (fun _ _ => rfl) fun _ h => absurd h (Option.not_mem_none _)
  | cons arg rest =>
      simp only [frameVals, List.head?_cons, Option.mem_def, Option.some.injEq, forall_eq']
      constructor
      · intro h group hgroup
        by_cases hholds : env.groupHolds ops colMap cond group = true
        · exact .inl hholds
        · refine .inr (Bool.eq_false_iff.mpr fun hcontributes => ?_)
          obtain ⟨before, after, hsplit⟩ := List.append_of_mem hgroup
          have hone := h [group] ⟨before, after, by rw [hsplit, List.append_assoc]; rfl⟩
          rw [List.filter_cons_of_neg hholds] at hone
          exact windowAggregateValue_single hname hcontributes hone
      · intro h frame hframe
        rw [← windowAggregateValue_filter (frame.map _), ← windowAggregateValue_filter
          (List.map _ (frame.filter _)),
          List.filter_map, List.filter_map, List.filter_filter]
        congr 2
        refine List.filter_congr fun group hgroup => ?_
        rcases h group (hframe.subset hgroup) with hholds | hnone
        · rw [hholds, Bool.and_true]
        · rw [Function.comp_apply, hnone, Bool.false_and]

-- FILTER keeps exactly the rows on which its condition is true when the condition of the call form holds.
theorem aggregate_filter_iff (hname : isAggregateName call.name = true)
    (hcond : ∀ row ∈ rows, ∃ v, env.evalExpr cond row colMap = .ok v)
    (hlen : rows.length ≤ 9223372036854775807) :
    env.Filters ops colMap call cond rows groups ↔ env.FiltersWhen ops colMap call cond rows groups := by
  cases hover : call.overSpec with
  | none => exact filters_plain_iff hname hover hcond hlen
  | some spec => exact filters_over_iff hname hover

end Filtering

end ScalarEnv

section Samples

def countCall (overSpec : Option WindowSpec) : FunctionCall where
  name := "COUNT"
  args := [.Expr (.IntegerLiteral 5)]
  distinct := false
  filter := none
  overSpec := overSpec

theorem aggregate_filter_iff_plain :
    literalEnv.Filters wholeOps [] (countCall none) (.IntegerLiteral 1) [[]] [] ↔
      literalEnv.FiltersWhen wholeOps [] (countCall none) (.IntegerLiteral 1) [[]] [] :=
  ScalarEnv.aggregate_filter_iff (by decide) (fun _ _ => ⟨.Integer 1, rfl⟩) (by decide)

-- `COUNT(5) FILTER (WHERE 0) OVER ()` counts the row.
theorem filter_ignored_by_over :
    ¬literalEnv.Filters wholeOps [] (countCall (some ⟨[], [], none⟩)) (.IntegerLiteral 0) [] [[[]]] := by
  intro h
  have hone := Option.some.inj (h [[[]]] (List.infix_refl _))
  have hcounted : Value.Integer 1 = .Integer 0 := hone
  exact absurd hcounted (by decide)

end Samples

end Kkdb
