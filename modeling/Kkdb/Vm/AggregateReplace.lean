import Kkdb.Vm.Aggregate

namespace Kkdb

open Lib

abbrev AggregateValues := String → List Expr → Bool → Value

mutual

-- The expression with a literal in place of each aggregate call. Queries aggregate on their own.
def replaceAggregates (ρ : AggregateValues) : Expr → Expr
  | .Function name args distinct =>
      if name = "__win" then .Function name args distinct
      else if isAggregateName name then valueToExpr (ρ name args distinct)
      else .Function name (replaceList ρ args) distinct
  | .BinaryOp left op right => .BinaryOp (replaceAggregates ρ left) op (replaceAggregates ρ right)
  | .UnaryOp op e => .UnaryOp op (replaceAggregates ρ e)
  | .IsNull e negated => .IsNull (replaceAggregates ρ e) negated
  | .InList e list negated => .InList (replaceAggregates ρ e) (replaceList ρ list) negated
  | .Like e pattern escapeChar caseInsensitive negated =>
      .Like (replaceAggregates ρ e) (replaceAggregates ρ pattern) escapeChar caseInsensitive negated
  | .Between e low high negated =>
      .Between (replaceAggregates ρ e) (replaceAggregates ρ low) (replaceAggregates ρ high) negated
  | .Nested e => .Nested (replaceAggregates ρ e)
  | .InSubquery e query negated => .InSubquery (replaceAggregates ρ e) query negated
  | .AnyOp e op query => .AnyOp (replaceAggregates ρ e) op query
  | .AllOp e op query => .AllOp (replaceAggregates ρ e) op query
  | .Case operand whenClauses elseClause =>
      .Case (replaceOption ρ operand) (replaceWhens ρ whenClauses) (replaceOption ρ elseClause)
  | .Cast e toType tryCast => .Cast (replaceAggregates ρ e) toType tryCast
  | .Collate e collation => .Collate (replaceAggregates ρ e) collation
  | .Interval value leadingField => .Interval (replaceAggregates ρ value) leadingField
  | e => e

def replaceList (ρ : AggregateValues) : List Expr → List Expr
  | [] => []
  | e :: es => replaceAggregates ρ e :: replaceList ρ es

def replaceOption (ρ : AggregateValues) : Option Expr → Option Expr
  | none => none
  | some e => some (replaceAggregates ρ e)

def replaceWhens (ρ : AggregateValues) : List (Expr × Expr) → List (Expr × Expr)
  | [] => []
  | clause :: clauses => replaceWhen ρ clause :: replaceWhens ρ clauses

def replaceWhen (ρ : AggregateValues) : Expr × Expr → Expr × Expr
  | (cond, result) => (replaceAggregates ρ cond, replaceAggregates ρ result)

end

mutual

def callsAggregate : Expr → Bool
  | .Function name args _ => name ≠ "__win" && (isAggregateName name || callsInList args)
  | .BinaryOp left _ right => callsAggregate left || callsAggregate right
  | .UnaryOp _ e | .IsNull e _ | .Nested e | .Collate e _ | .Interval e _ | .Cast e _ _ => callsAggregate e
  | .InSubquery e _ _ | .AnyOp e _ _ | .AllOp e _ _ => callsAggregate e
  | .InList e list _ => callsAggregate e || callsInList list
  | .Like e pattern _ _ _ => callsAggregate e || callsAggregate pattern
  | .Between e low high _ => callsAggregate e || callsAggregate low || callsAggregate high
  | .Case operand whenClauses elseClause =>
      callsInOption operand || callsInWhens whenClauses || callsInOption elseClause
  | _ => false

def callsInList : List Expr → Bool
  | [] => false
  | e :: es => callsAggregate e || callsInList es

def callsInOption : Option Expr → Bool
  | none => false
  | some e => callsAggregate e

def callsInWhens : List (Expr × Expr) → Bool
  | [] => false
  | clause :: clauses => callsInWhen clause || callsInWhens clauses

def callsInWhen : Expr × Expr → Bool
  | (cond, result) => callsAggregate cond || callsAggregate result

end

-- Without a call there is nothing to replace.
section NoCalls

variable {ρ : AggregateValues}

mutual

theorem replaceAggregates_of_none (e : Expr) (h : callsAggregate e = false) : replaceAggregates ρ e = e := by
  cases e with
  | Function name args distinct =>
      rw [replaceAggregates]
      by_cases hwin : name = "__win"
      · rw [if_pos hwin]
      · rw [callsAggregate, decide_eq_true hwin, Bool.true_and, Bool.or_eq_false_iff] at h
        rw [if_neg hwin, if_neg (by rw [h.1]; decide), replaceList_of_none args h.2]
  | BinaryOp left op right =>
      rw [callsAggregate, Bool.or_eq_false_iff] at h
      rw [replaceAggregates, replaceAggregates_of_none left h.1, replaceAggregates_of_none right h.2]
  | UnaryOp op e => rw [replaceAggregates, replaceAggregates_of_none e h]
  | IsNull e negated => rw [replaceAggregates, replaceAggregates_of_none e h]
  | Nested e => rw [replaceAggregates, replaceAggregates_of_none e h]
  | Collate e collation => rw [replaceAggregates, replaceAggregates_of_none e h]
  | Interval e leadingField => rw [replaceAggregates, replaceAggregates_of_none e h]
  | Cast e toType tryCast => rw [replaceAggregates, replaceAggregates_of_none e h]
  | InSubquery e query negated => rw [replaceAggregates, replaceAggregates_of_none e h]
  | AnyOp e op query => rw [replaceAggregates, replaceAggregates_of_none e h]
  | AllOp e op query => rw [replaceAggregates, replaceAggregates_of_none e h]
  | InList e list negated =>
      rw [callsAggregate, Bool.or_eq_false_iff] at h
      rw [replaceAggregates, replaceAggregates_of_none e h.1, replaceList_of_none list h.2]
  | Like e pattern escapeChar caseInsensitive negated =>
      rw [callsAggregate, Bool.or_eq_false_iff] at h
      rw [replaceAggregates, replaceAggregates_of_none e h.1, replaceAggregates_of_none pattern h.2]
  | Between e low high negated =>
      rw [callsAggregate, Bool.or_eq_false_iff, Bool.or_eq_false_iff] at h
      rw [replaceAggregates, replaceAggregates_of_none e h.1.1, replaceAggregates_of_none low h.1.2,
        replaceAggregates_of_none high h.2]
  | Case operand whenClauses elseClause =>
      rw [callsAggregate, Bool.or_eq_false_iff, Bool.or_eq_false_iff] at h
      rw [replaceAggregates, replaceOption_of_none operand h.1.1, replaceWhens_of_none whenClauses h.1.2,
        replaceOption_of_none elseClause h.2]
  | _ => rfl

theorem replaceList_of_none (es : List Expr) (h : callsInList es = false) : replaceList ρ es = es := by
  cases es with
  | nil => rfl
  | cons e es =>
      rw [callsInList, Bool.or_eq_false_iff] at h
      rw [replaceList, replaceAggregates_of_none e h.1, replaceList_of_none es h.2]

theorem replaceOption_of_none (e : Option Expr) (h : callsInOption e = false) : replaceOption ρ e = e := by
  cases e with
  | none => rfl
  | some e => rw [replaceOption, replaceAggregates_of_none e h]

theorem replaceWhens_of_none (clauses : List (Expr × Expr)) (h : callsInWhens clauses = false) :
    replaceWhens ρ clauses = clauses := by
  cases clauses with
  | nil => rfl
  | cons clause clauses =>
      rw [callsInWhens, Bool.or_eq_false_iff] at h
      rw [replaceWhens, replaceWhen_of_none clause h.1, replaceWhens_of_none clauses h.2]

theorem replaceWhen_of_none (clause : Expr × Expr) (h : callsInWhen clause = false) :
    replaceWhen ρ clause = clause := by
  obtain ⟨cond, result⟩ := clause
  rw [callsInWhen, Bool.or_eq_false_iff] at h
  rw [replaceWhen, replaceAggregates_of_none cond h.1, replaceAggregates_of_none result h.2]

end

end NoCalls

theorem evalExpr_valueToExpr (env : ScalarEnv) (v : Value) (row : Row) (colMap : ColMap) :
    env.evalExpr (valueToExpr v) row colMap = .ok v := by
  cases v <;> rfl

namespace ScalarEnv

section Replacement

variable (env : ScalarEnv) (ops : SumOps) (groupRows : List Row) (row : Row) (colMap : ColMap)

def groupValues : AggregateValues := fun name args distinct =>
  (env.evalAggregate ops name args distinct groupRows colMap).toOption.getD .Null

def replaced (e : Expr) : Expr := replaceAggregates (env.groupValues ops groupRows colMap) e

def replacedValue (e : Expr) : Res Value := env.evalExpr (env.replaced ops groupRows colMap e) row colMap

def replacedValues (args : List Expr) : List (Res Value) :=
  args.map fun arg => env.replacedValue ops groupRows row colMap arg

-- A function that reports the error of the first of its arguments that has none but an error.
def Strict (results : List (Res Value)) (value : Res Value) : Prop :=
  ∀ fault, results.mapM id = .error fault → value = .error fault

-- What is given to the plain evaluator does not depend on the aggregate calls in it.
def Blind (e : Expr) : Prop := ∀ ρ, env.evalExpr (replaceAggregates ρ e) row colMap = env.evalExpr e row colMap

mutual

-- Every aggregate call that an evaluation comes to is seen by the evaluator that knows aggregates, and has a
-- value, and every scalar function that it comes to needs the arguments that fail.
def Seen (expr : Expr) : Prop :=
  let val := env.replacedValue ops groupRows row colMap
  match expr with
  | .Function name args distinct =>
      name = "__win" ∨
        if isAggregateName name then ∃ v, env.evalAggregate ops name args distinct groupRows colMap = .ok v
        else SeenArgs args ∧
          Strict (env.replacedValues ops groupRows row colMap args)
            (env.function name (env.replacedValues ops groupRows row colMap args))
  | .BinaryOp left .And right =>
      Seen left ∧ ∀ l, val left = .ok l → (l ≠ .Null ∧ !l.isTruthy) ∨ Seen right
  | .BinaryOp left .Or right =>
      Seen left ∧ ∀ l, val left = .ok l → (l ≠ .Null ∧ l.isTruthy) ∨ Seen right
  | .BinaryOp _ .FtsMatch _ => False
  | .BinaryOp left _ right => Seen left ∧ ∀ l, val left = .ok l → Seen right
  | .UnaryOp _ e | .IsNull e _ | .Nested e | .Collate e _ | .Interval e _ => Seen e
  | .InList e list _ => Seen e ∧ ∀ v, val e = .ok v → v = .Null ∨ SeenItems v list
  | .Like e pattern _ _ _ => Seen e ∧ ∀ v, val e = .ok v → Seen pattern
  | .Between e low high _ =>
      Seen e ∧ ∀ v, val e = .ok v → Seen low ∧ ∀ lo, val low = .ok lo → Seen high
  | e => env.Blind row colMap e

def SeenItems (v : Value) (list : List Expr) : Prop :=
  match list with
  | [] => True
  | item :: list =>
      Seen item ∧ ∀ x, env.replacedValue ops groupRows row colMap item = .ok x →
        (x ≠ .Null ∧ v.eq x) ∨ SeenItems v list

def SeenArgs (args : List Expr) : Prop :=
  match args with
  | [] => True
  | arg :: args => Seen arg ∧ ∀ x, env.replacedValue ops groupRows row colMap arg = .ok x → SeenArgs args

end

variable {env ops groupRows row colMap}

theorem evalArgs_replaceList (args : List Expr) :
    env.evalArgs (replaceList (env.groupValues ops groupRows colMap) args) row colMap =
      env.replacedValues ops groupRows row colMap args := by
  induction args with
  | nil => rfl
  | cons arg args ih =>
      rw [replaceList, evalArgs, ih]
      rfl

theorem evalArgs_valueToExpr (values : List Value) :
    env.evalArgs (values.map valueToExpr) row colMap = values.map .ok := by
  induction values with
  | nil => rfl
  | cons v values ih => rw [List.map_cons, evalArgs, ih, evalExpr_valueToExpr, List.map_cons]

mutual

theorem evalExprWithAggregates_of_seen (expr : Expr) (h : env.Seen ops groupRows row colMap expr) :
    env.evalExprWithAggregates ops groupRows expr row colMap =
      env.replacedValue ops groupRows row colMap expr := by
  cases expr with
  | UnaryOp op e =>
      rw [evalExprWithAggregates, evalExprWithAggregates_of_seen e h]
      rfl
  | IsNull e negated =>
      rw [evalExprWithAggregates, evalExprWithAggregates_of_seen e h]
      rfl
  | Nested e =>
      rw [evalExprWithAggregates, evalExprWithAggregates_of_seen e h]
      rfl
  | Collate e collation =>
      rw [evalExprWithAggregates, evalExprWithAggregates_of_seen e h]
      rfl
  | Interval e leadingField =>
      rw [evalExprWithAggregates, evalExprWithAggregates_of_seen e h]
      rfl
  | BinaryOp left op right =>
      cases op with
      | FtsMatch => exact h.elim
      | And =>
          obtain ⟨hleft, hright⟩ := h
          rw [evalExprWithAggregates, evalExprWithAggregates_of_seen left hleft]
          refine bind_congr_ok fun l hl => ?_
          by_cases hstop : l ≠ .Null ∧ !l.isTruthy
          · rw [if_pos hstop, if_pos hstop]
          · rw [if_neg hstop, if_neg hstop,
              evalExprWithAggregates_of_seen right ((hright l hl).resolve_left hstop)]
            rfl
      | Or =>
          obtain ⟨hleft, hright⟩ := h
          rw [evalExprWithAggregates, evalExprWithAggregates_of_seen left hleft]
          refine bind_congr_ok fun l hl => ?_
          by_cases hstop : l ≠ .Null ∧ l.isTruthy
          · rw [if_pos hstop, if_pos hstop]
          · rw [if_neg hstop, if_neg hstop,
              evalExprWithAggregates_of_seen right ((hright l hl).resolve_left hstop)]
            rfl
      | _ =>
          obtain ⟨hleft, hright⟩ := h
          rw [evalExprWithAggregates, evalExprWithAggregates_of_seen left hleft]
          · refine bind_congr_ok fun l hl => ?_
            rw [evalExprWithAggregates_of_seen right (hright l hl)]
            rfl
          all_goals exact fun h => nomatch h
  | InList e list negated =>
      obtain ⟨he, hlist⟩ := h
      rw [evalExprWithAggregates, evalExprWithAggregates_of_seen e he]
      refine bind_congr_ok fun v hv => ?_
      by_cases hnull : v = .Null
      · rw [if_pos hnull, if_pos hnull]
      · rw [if_neg hnull, if_neg hnull]
        exact evalItems_of_seen v list negated false ((hlist v hv).resolve_left hnull)
  | Like e pattern escapeChar caseInsensitive negated =>
      obtain ⟨he, hpattern⟩ := h
      rw [evalExprWithAggregates, evalExprWithAggregates_of_seen e he]
      refine bind_congr_ok fun v hv => ?_
      rw [evalExprWithAggregates_of_seen pattern (hpattern v hv)]
      rfl
  | Between e low high negated =>
      obtain ⟨he, hbounds⟩ := h
      rw [evalExprWithAggregates, evalExprWithAggregates_of_seen e he]
      refine bind_congr_ok fun v hv => ?_
      obtain ⟨hlow, hhigh⟩ := hbounds v hv
      rw [evalExprWithAggregates_of_seen low hlow]
      refine bind_congr_ok fun lo hlo => ?_
      rw [evalExprWithAggregates_of_seen high (hhigh lo hlo)]
      rfl
  | Function name args distinct =>
      rw [evalExprWithAggregates, replacedValue, replaced, replaceAggregates]
      by_cases hwin : name = "__win"
      · rw [if_pos hwin, if_pos hwin, evalExpr_function (by rw [hwin]; decide), if_pos hwin]
      · rw [if_neg hwin, if_neg hwin]
        have hcall := h.resolve_left hwin
        by_cases hagg : isAggregateName name
        · rw [if_pos hagg] at hcall
          obtain ⟨v, hv⟩ := hcall
          rw [if_pos hagg, if_pos hagg, evalExpr_valueToExpr, groupValues, hv]
          rfl
        · rw [if_neg hagg] at hcall
          obtain ⟨hargs, hstrict⟩ := hcall
          rw [if_neg hagg, if_neg hagg, evalArgs_of_seen args hargs, evalExpr_function hagg,
            if_neg hwin, evalArgs_replaceList]
          cases hresults : (env.replacedValues ops groupRows row colMap args).mapM id with
          | error fault => rw [hstrict fault hresults]; rfl
          | ok values =>
              have hall := map_of_mapM hresults
              rw [List.map_id] at hall
              rw [hall]
              change env.evalExpr (.Function name (values.map valueToExpr) distinct) row colMap = _
              rw [evalExpr_function hagg, if_neg hwin, evalArgs_valueToExpr]
  | _ => exact (h _).symm

theorem evalItems_of_seen (v : Value) (list : List Expr) (negated hasNull : Bool)
    (h : env.SeenItems ops groupRows row colMap v list) :
    env.evalInListWithAggregates ops groupRows v list negated hasNull row colMap =
      env.evalInList v (replaceList (env.groupValues ops groupRows colMap) list) negated hasNull row colMap := by
  cases list with
  | nil => rfl
  | cons item list =>
      obtain ⟨hitem, hlist⟩ := h
      rw [evalInListWithAggregates, evalExprWithAggregates_of_seen item hitem]
      refine bind_congr_ok fun x hx => ?_
      by_cases hnull : x = .Null
      · rw [if_pos hnull, if_pos hnull]
        exact evalItems_of_seen v list negated true ((hlist x hx).resolve_left fun hfound => hfound.1 hnull)
      · by_cases hfound : v.eq x
        · rw [if_neg hnull, if_neg hnull, if_pos hfound, if_pos hfound]
        · rw [if_neg hnull, if_neg hnull, if_neg hfound, if_neg hfound]
          exact evalItems_of_seen v list negated hasNull ((hlist x hx).resolve_left fun h => hfound h.2)

theorem evalArgs_of_seen (args : List Expr) (h : env.SeenArgs ops groupRows row colMap args) :
    env.evalArgsWithAggregates ops groupRows args row colMap =
      (env.replacedValues ops groupRows row colMap args).mapM id := by
  cases args with
  | nil => rfl
  | cons arg args =>
      obtain ⟨harg, hargs⟩ := h
      rw [evalArgsWithAggregates, evalExprWithAggregates_of_seen arg harg, replacedValues, List.map_cons,
        List.mapM_cons]
      refine bind_congr_ok fun x hx => ?_
      rw [evalArgs_of_seen args (hargs x hx)]
      rfl

end

theorem blind_of_no_calls {e : Expr} (h : callsAggregate e = false) : env.Blind row colMap e := by
  intro ρ
  rw [replaceAggregates_of_none e h]

-- The evaluator that knows aggregates agrees with the plain one on the literals, when it sees what counts.
theorem evalExprWithAggregates_eq_replaced (e : Expr) (h : env.Seen ops groupRows row colMap e) :
    env.evalExprWithAggregates ops groupRows e row colMap =
      env.evalExpr (replaceAggregates (env.groupValues ops groupRows colMap) e) row colMap :=
  evalExprWithAggregates_of_seen e h

end Replacement

end ScalarEnv

def countStar : Expr := .Function "COUNT" [.IntegerLiteral 1] false

theorem evalExprWithAggregates_eq_replaced_having :
    literalEnv.evalExprWithAggregates wholeOps [[], []]
      (.BinaryOp countStar .GreaterThan (.IntegerLiteral 1)) [] [] =
      literalEnv.evalExpr (.BinaryOp (.IntegerLiteral 2) .GreaterThan (.IntegerLiteral 1)) [] [] :=
  ScalarEnv.evalExprWithAggregates_eq_replaced (.BinaryOp countStar .GreaterThan (.IntegerLiteral 1))
    ⟨.inr ⟨.Integer 2, rfl⟩, fun _ _ => ScalarEnv.blind_of_no_calls rfl⟩

-- `CASE WHEN 1 THEN COUNT(*) END` over two rows is one.
theorem case_hides_aggregate :
    literalEnv.evalExprWithAggregates wholeOps [[], []]
      (.Case none [(.IntegerLiteral 1, countStar)] none) [] [] ≠
      literalEnv.evalExpr (replaceAggregates (literalEnv.groupValues wholeOps [[], []] [])
        (.Case none [(.IntegerLiteral 1, countStar)] none)) [] [] := by
  have hone : literalEnv.evalExprWithAggregates wholeOps [[], []]
      (.Case none [(.IntegerLiteral 1, countStar)] none) [] [] = .ok (.Integer 1) := rfl
  have htwo : literalEnv.evalExpr (replaceAggregates (literalEnv.groupValues wholeOps [[], []] [])
      (.Case none [(.IntegerLiteral 1, countStar)] none)) [] [] = .ok (.Integer 2) := rfl
  rw [hone, htwo]
  exact fun h => nomatch h

end Kkdb
