import Kkdb.Lib.State
import Kkdb.Sql.Convert

namespace Kkdb

open Lib EvalEnv

-- The names that `eval_expr` looks for after those of the aggregates.
def functionNames : List String :=
  ["ABS", "UPPER", "LOWER", "LENGTH", "TYPEOF", "COALESCE", "IFNULL", "SUBSTR", "SUBSTRING", "REPLACE", "TRIM",
    "LTRIM", "RTRIM", "NULLIF", "ROUND", "CEIL", "CEILING", "FLOOR", "INSTR", "OVERLAY", "SIGN", "BITWISE_NOT",
    "CBRT", "FACTORIAL", "POWER", "POW", "JSON_EXTRACT", "JSON_EXTRACT_TEXT", "JSON_ARRAY", "ARRAY_GET",
    "JSON_MEMBER_OF", "JSON_OBJECT", "JSON_TYPE", "JSON_VALID", "JSON_LENGTH", "JSON_KEYS", "JSON_CONTAINS",
    "JSON_REMOVE", "JSON_SET", "JSON_INSERT", "JSON_REPLACE", "JSON_QUOTE", "JSON_UNQUOTE", "REGEXP_LIKE",
    "MATCH_AGAINST", "STARTS_WITH", "HEX", "UNICODE", "CHAR", "DATE_EXTRACT", "RANDOM", "RAND", "auth.uid",
    "auth_uid", "current_setting", "current_user", "VEC", "VEC_SEARCH", "VEC_DIM", "VEC_DISTANCE",
    "VEC_NORMALIZE"]

def isDistinct (a b : Value) : Bool :=
  if a = .Null ∧ b = .Null then false else if a = .Null ∨ b = .Null then true else !a.eq b

def distinctFrom (negated : Bool) : List (Res Value) → Res Value
  | a :: b :: _ => do
      let a ← a
      let b ← b
      return ofBool (isDistinct a b != negated)
  | _ => .ok .Null

-- The functions of `eval_expr`, with those other than the two of IS DISTINCT FROM left open.
def scalarFunction (others : String → List (Res Value) → Res Value) (name : String) (args : List (Res Value)) :
    Res Value :=
  if eqIgnoreCase name "__IS_DISTINCT_FROM__" then distinctFrom false args
  else if eqIgnoreCase name "__IS_NOT_DISTINCT_FROM__" then distinctFrom true args
  else if functionNames.any (eqIgnoreCase name) then others name args
  else .error (.Err (.RuntimeError ("unknown function: " ++ name)))

-- The negation of SQL.
def IsNegation (v w : Value) : Prop := (v = .Null ∧ w = .Null) ∨ ∃ b, v = ofBool b ∧ w = ofBool (!b)

namespace Value

-- Numbers that are equal to 0 or 1, and empty values.
def isTruthValue (v : Value) : Bool := v.eq (.Integer 0) || v.eq (.Integer 1) || v = .Text "" || v = .Blob []

def isText : Value → Bool
  | Text _ => true
  | _ => false

theorem rank_eq_zero (bits : UInt64) : Double.rank bits = 0 ↔ Double.magnitude bits = 0 := by
  unfold Double.rank
  split_ifs <;> omega

theorem real_eq_zero (bits : UInt64) :
    (Real bits).eq (.Integer 0) = true ↔ (Real bits).isTruthy = false := by
  have hzero : Double.rank (Double.ofInt64 0) = 0 := by decide
  rw [eq, isTruthy, Double.eq, Double.isNaN_ofInt64, hzero, decide_eq_false_iff_not, Bool.and_eq_true,
    decide_eq_true_eq, rank_eq_zero, Bool.not_false, Bool.and_true, Bool.not_eq_true', not_or, not_not,
    Bool.not_eq_true]

theorem real_eq_one {bits : UInt64} (h : (Real bits).eq (.Integer 1) = true) : (Real bits).isTruthy = true := by
  have hone : Double.rank (Double.ofInt64 1) ≠ 0 := by decide
  rw [eq, Double.eq, Bool.and_eq_true, decide_eq_true_eq] at h
  rw [isTruthy, decide_eq_true_eq]
  refine .inr fun hzero => hone ?_
  rw [← h.2, rank_eq_zero, hzero]

theorem isTruthValue_iff (v : Value) :
    v.isTruthValue = true ↔ v ≠ .Null ∧ (v.eq (.Integer 1) = true ↔ v.isTruthy = true) := by
  cases v with
  | Null => decide
  | Integer i =>
      simp only [isTruthValue, eq, isTruthy, ne_eq, reduceCtorEq, not_false_iff, true_and, decide_eq_true_eq,
        Bool.or_eq_true, or_false, decide_false, Bool.false_eq_true, decide_not, Bool.not_eq_true']
      constructor
      · rintro (rfl | rfl) <;> decide
      · intro h
        by_cases hzero : i = 0
        · exact .inl hzero
        · exact .inr (h.mpr (decide_eq_false hzero))
  | Real bits =>
      have hzero := real_eq_zero bits
      have hone := @real_eq_one bits
      simp only [isTruthValue, ne_eq, reduceCtorEq, not_false_iff, true_and, Bool.or_eq_true, or_false,
        decide_false,
        Bool.false_eq_true, hzero]
      cases htruthy : (Real bits).isTruthy with
      | false => exact iff_of_true (.inl rfl) ⟨fun h => (hone h).symm.trans htruthy ▸ rfl,
          fun h => absurd h Bool.false_ne_true⟩
      | true => simp
  | Text s => simp [isTruthValue, eq, isTruthy]
  | Blob b => simp [isTruthValue, eq, isTruthy]

theorem eq_zero_iff_falsy (v : Value) : v ≠ .Null ∧ (v.eq (.Integer 0) = true ↔ v.isTruthy = false) ↔
    v ≠ .Null ∧ v ≠ .Text "" ∧ v ≠ .Blob [] := by
  cases v with
  | Null => decide
  | Integer i => simp [eq, isTruthy]
  | Real bits => simp [real_eq_zero]
  | Text s => simp [eq, isTruthy]
  | Blob b => simp [eq, isTruthy]

end Value

namespace ScalarEnv

def withFunctions (env : ScalarEnv) : ScalarEnv := { env with function := scalarFunction env.function }

section Unknown

variable {env : ScalarEnv} {row : Row} {colMap : ColMap}

-- NOT is an operator and no function.
theorem evalExpr_not (args : List Expr) : env.withFunctions.evalExpr (.Function "NOT" args false) row colMap =
    .error (.Err (.RuntimeError "unknown function: NOT")) := by
  rw [evalExpr_function (by decide), if_neg (by decide), withFunctions]
  rfl

theorem evalExpr_distinctFrom (l r : Expr) (negated : Bool) : env.withFunctions.evalExpr
    (.Function (if negated then "__IS_NOT_DISTINCT_FROM__" else "__IS_DISTINCT_FROM__")
    [l, r] false) row colMap =
      distinctFrom negated [env.withFunctions.evalExpr l row colMap,
        env.withFunctions.evalExpr r row colMap] := by
  cases negated with
  | false =>
      rw [if_neg Bool.false_ne_true, evalExpr_function (by decide), if_neg (by decide), withFunctions]
      rfl
  | true =>
      rw [if_pos rfl, evalExpr_function (by decide), if_neg (by decide), withFunctions]
      rfl

end Unknown

section Lists

variable {env : ScalarEnv} {v : Value} {row : Row} {colMap : ColMap}

theorem isNegation_ofBool (b : Bool) : IsNegation (ofBool b) (ofBool (!b)) := .inr ⟨b, rfl, rfl⟩

theorem isNegation_null : IsNegation .Null .Null := .inl ⟨rfl, rfl⟩

theorem isNegation_missing (hasNull : Bool) : IsNegation (if hasNull then .Null else ofBool false)
    (if hasNull then .Null else ofBool true) := by
  cases hasNull with
  | false => exact isNegation_ofBool false
  | true => exact isNegation_null

theorem evalInList_negation {list : List Expr} (hitems : ∀ item ∈ list, ∃ x,
    env.evalExpr item row colMap = .ok x)
    (hasNull : Bool) : ∃ w w', env.evalInList v list false hasNull row colMap = .ok w ∧
      env.evalInList v list true hasNull row colMap = .ok w' ∧ IsNegation w w' := by
  induction list generalizing hasNull with
  | nil => exact ⟨_, _, rfl, rfl, isNegation_missing hasNull⟩
  | cons item list ih =>
      obtain ⟨⟨x, hx⟩, hrest⟩ := List.forall_mem_cons.mp hitems
      simp only [evalInList, hx, bind, Except.bind]
      by_cases hnull : x = .Null
      · rw [if_pos hnull, if_pos hnull]
        exact ih hrest true
      · rw [if_neg hnull, if_neg hnull]
        by_cases hequal : v.eq x = true
        · rw [if_pos hequal, if_pos hequal]
          exact ⟨_, _, rfl, rfl, isNegation_ofBool true⟩
        · rw [if_neg hequal, if_neg hequal]
          exact ih hrest hasNull

theorem inValues_negation (values : List Value) (hasNull : Bool) :
    IsNegation (inValues v false hasNull values) (inValues v true hasNull values) := by
  induction values generalizing hasNull with
  | nil => exact isNegation_missing hasNull
  | cons x values ih =>
      rw [inValues, inValues]
      by_cases hnull : x = .Null
      · rw [if_pos hnull, if_pos hnull]
        exact ih true
      · rw [if_neg hnull, if_neg hnull]
        by_cases hequal : v.eq x = true
        · rw [if_pos hequal, if_pos hequal]
          exact isNegation_ofBool true
        · rw [if_neg hequal, if_neg hequal]
          exact ih hasNull

end Lists

section Duality

variable {α β : Type} (convertExpr : α → Res Expr) (convertQuery : β → Res SelectStmt) (env : ScalarEnv)
  (row : Row)
  (colMap : ColMap)

def operandValue (e : α) : Res Value := do env.withFunctions.evalExpr (← convertExpr e) row colMap

def queryRows (query : β) : Res (List Row) := do env.query (← convertQuery query) row colMap

def predicateValue (p : Predicate α β) (negated : Bool) : Res Value := do
  env.withFunctions.evalExpr (← convertPredicate convertExpr convertQuery p negated) row colMap

def Evaluates (p : Predicate α β) : Prop :=
  (∀ e ∈ p.operands, ∃ v, env.operandValue convertExpr row colMap e = .ok v) ∧
    ∀ query ∈ p.queries, ∃ rows, env.queryRows convertQuery row colMap query = .ok rows

-- An operand that is not null and whose truth is as given.
def HasTruth (e : α) (truthy : Bool) : Prop :=
  ∃ x, env.operandValue convertExpr row colMap e = .ok x ∧ x ≠ .Null ∧ x.isTruthy = truthy

-- The tests of truth and of distinctness decide, with the values of the two forms.
def Decides (p : Predicate α β) (v w : Value) : Prop :=
  match p with
  | .IsTrue e => v ≠ .Null ∧ w ≠ .Null ∧ (v = .Integer 1 ↔ env.HasTruth convertExpr row colMap e true)
  | .IsFalse e => v ≠ .Null ∧ w ≠ .Null ∧ (v = .Integer 1 ↔ env.HasTruth convertExpr row colMap e false)
  | .IsDistinctFrom _ _ => v ≠ .Null ∧ w ≠ .Null
  | _ => True

def Dual (p : Predicate α β) : Prop :=
  ∃ v w, env.predicateValue convertExpr convertQuery row colMap p false = .ok v ∧
    env.predicateValue convertExpr convertQuery row colMap p true = .ok w ∧ IsNegation v w ∧
      env.Decides convertExpr row colMap p v w

def DualWhen (p : Predicate α β) : Prop :=
  match p with
  | .IsTrue e => ∃ x, env.operandValue convertExpr row colMap e = .ok x ∧ x.isTruthValue = true
  | .IsFalse e => ∃ x, env.operandValue convertExpr row colMap e = .ok x ∧
      x ≠ .Null ∧ x ≠ .Text "" ∧ x ≠ .Blob []
  | .Like e pattern _ | .ILike e pattern _ => ∃ x y, env.operandValue convertExpr row colMap e = .ok x ∧
      env.operandValue convertExpr row colMap pattern = .ok y ∧
        (x = .Null ∨ y = .Null ∨ (x.isText = true ∧ y.isText = true))
  | .SimilarTo _ _ | .RLike _ _ | .PGRegexMatch _ _ | .PGRegexIMatch _ _ | .InUnnest _ _ => False
  | _ => True

variable {convertExpr convertQuery env row colMap} {e l r m : α} {x y z : Value}

theorem dual_iff_of_values {p : Predicate α β} {v w : Value}
    (hv : env.predicateValue convertExpr convertQuery row colMap p false = .ok v)
    (hw : env.predicateValue convertExpr convertQuery row colMap p true = .ok w) :
    env.Dual convertExpr convertQuery row colMap p ↔ IsNegation v w ∧
      env.Decides convertExpr row colMap p v w := by
  constructor
  · rintro ⟨v', w', hv', hw', hdual⟩
    obtain rfl := Except.ok.inj (hv.symm.trans hv')
    obtain rfl := Except.ok.inj (hw.symm.trans hw')
    exact hdual
  · exact fun hdual => ⟨v, w, hv, hw, hdual⟩

theorem exists_operand (hx : env.operandValue convertExpr row colMap e = .ok x) :
    ∃ expr, convertExpr e = .ok expr ∧ env.withFunctions.evalExpr expr row colMap = .ok x := ok_of_bind hx

theorem exists_query {query : β} {rows : List Row}
    (h : env.queryRows convertQuery row colMap query = .ok rows) :
    ∃ stmt, convertQuery query = .ok stmt ∧ env.query stmt row colMap = .ok rows := ok_of_bind h

theorem hasTruth_iff {truthy : Bool} (hx : env.operandValue convertExpr row colMap e = .ok x) :
    env.HasTruth convertExpr row colMap e truthy ↔ x ≠ .Null ∧ x.isTruthy = truthy := by
  constructor
  · rintro ⟨x', hx', h⟩
    obtain rfl := Except.ok.inj (hx.symm.trans hx')
    exact h
  · exact fun h => ⟨x, hx, h⟩

theorem exists_operands {list : List α} (h : ∀ e ∈ list, ∃ v, env.operandValue convertExpr row colMap e =
    .ok v) :
    ∃ out, list.mapM convertExpr = .ok out ∧
      ∀ item ∈ out, ∃ v, env.withFunctions.evalExpr item row colMap = .ok v := by
  induction list with
  | nil => exact ⟨[], rfl, fun _ hmem => nomatch hmem⟩
  | cons e list ih =>
      obtain ⟨⟨v, hv⟩, hrest⟩ := List.forall_mem_cons.mp h
      obtain ⟨expr, hexpr, heval⟩ := exists_operand hv
      obtain ⟨out, hout, hevals⟩ := ih hrest
      refine ⟨expr :: out, ?_, List.forall_mem_cons.mpr ⟨⟨v, heval⟩, hevals⟩⟩
      rw [List.mapM_cons, hexpr, hout]
      rfl

theorem negation_compared (k : Int64) (truthy : Bool) :
    (∃ v w, env.base.applyBinaryOp .Equal x (.Integer k) = .ok v ∧
        env.base.applyBinaryOp .NotEqual x (.Integer k) = .ok w ∧ IsNegation v w ∧ v ≠ .Null ∧ w ≠ .Null ∧
          (v = .Integer 1 ↔ x ≠ .Null ∧ x.isTruthy = truthy)) ↔
      x ≠ .Null ∧ (x.eq (.Integer k) = true ↔ x.isTruthy = truthy) := by
  by_cases hnull : x = .Null
  · have hequal : env.base.applyBinaryOp .Equal x (.Integer k) = .ok .Null := if_pos (.inl hnull)
    constructor
    · rintro ⟨v, w, hv, -, -, hne, -⟩
      exact absurd (Except.ok.inj (hequal.symm.trans hv)).symm hne
    · exact fun h => absurd hnull h.1
  · have hneither : ¬(x = .Null ∨ Value.Integer k = .Null) := not_or.mpr ⟨hnull, nofun⟩
    have hone : ∀ b, ofBool b = .Integer 1 ↔ b = true := by decide
    have hvalue : ∀ b, ofBool b ≠ .Null := by decide
    have hequal : env.base.applyBinaryOp .Equal x (.Integer k) = .ok (ofBool (x.eq (.Integer k))) :=
        if_neg hneither
    have hnotEqual : env.base.applyBinaryOp .NotEqual x (.Integer k) = .ok (ofBool (!x.eq (.Integer k))) :=
      if_neg hneither
    constructor
    · rintro ⟨v, w, hv, -, -, -, -, hiff⟩
      obtain rfl := Except.ok.inj (hequal.symm.trans hv)
      rw [hone] at hiff
      exact ⟨hnull, hiff.trans ⟨fun h => h.2, fun h => ⟨hnull, h⟩⟩⟩
    · rintro ⟨-, hiff⟩
      refine ⟨_, _, hequal, hnotEqual, isNegation_ofBool _, hvalue _, hvalue _, ?_⟩
      rw [hone, hiff]
      exact ⟨fun h => ⟨hnull, h⟩, fun h => h.2⟩

variable {p : Predicate α β} {b : Bool}

theorem dual_of_flag (hvalue : ∀ negated, env.predicateValue convertExpr convertQuery row colMap p negated =
      .ok (ofBool (b != negated)))
    (hdecides : env.Decides convertExpr row colMap p (ofBool (b != false)) (ofBool (b != true))) :
    env.Dual convertExpr convertQuery row colMap p := by
  have hnegation : IsNegation (ofBool (b != false)) (ofBool (b != true)) := by
    rw [Bool.bne_false, Bool.bne_true]
    exact isNegation_ofBool b
  exact ⟨_, _, hvalue false, hvalue true, hnegation, hdecides⟩

theorem dual_of_null (hvalue : ∀ negated, env.predicateValue convertExpr convertQuery row colMap p negated =
    .ok .Null)
    (hdecides : env.Decides convertExpr row colMap p .Null .Null) :
      env.Dual convertExpr convertQuery row colMap p :=
  ⟨_, _, hvalue false, hvalue true, isNegation_null, hdecides⟩

-- A form whose negation is a call of NOT has no negation.
theorem not_dual_of_call {name : String} {args : List Expr}
    (hconvert : convertPredicate convertExpr convertQuery p true = .ok (predicateCall name args true)) :
    ¬env.Dual convertExpr convertQuery row colMap p := by
  rintro ⟨v, w, -, hw, -⟩
  have hfails : env.predicateValue convertExpr convertQuery row colMap p true =
      .error (.Err (.RuntimeError "unknown function: NOT")) := by
    rw [predicateValue, hconvert]
    exact evalExpr_not _
  rw [hfails] at hw
  cases hw

theorem dual_isNull (hx : env.operandValue convertExpr row colMap e = .ok x) :
    env.Dual convertExpr convertQuery row colMap (.IsNull e) := by
  obtain ⟨expr, hexpr, heval⟩ := exists_operand hx
  refine dual_of_flag (b := decide (x = .Null)) (fun negated => ?_) trivial
  simp only [predicateValue, convertPredicate, hexpr, heval, evalExpr, bind, Except.bind, pure, Except.pure]

theorem dual_isTrue_iff (hx : env.operandValue convertExpr row colMap e = .ok x) :
    env.Dual convertExpr convertQuery row colMap (.IsTrue e) ↔ x.isTruthValue = true := by
  obtain ⟨expr, hexpr, heval⟩ := exists_operand hx
  rw [Value.isTruthValue_iff, ← @negation_compared env x 1 true]
  simp only [Dual, Decides, hasTruth_iff hx, predicateValue, convertPredicate, hexpr, heval, evalExpr, bind,
    Except.bind, pure, Except.pure, if_true, Bool.false_eq_true, if_false]
  rfl

theorem dual_isFalse_iff (hx : env.operandValue convertExpr row colMap e = .ok x) :
    env.Dual convertExpr convertQuery row colMap (.IsFalse e) ↔ x ≠ .Null ∧ x ≠ .Text "" ∧ x ≠ .Blob [] := by
  obtain ⟨expr, hexpr, heval⟩ := exists_operand hx
  rw [← Value.eq_zero_iff_falsy, ← @negation_compared env x 0 false]
  simp only [Dual, Decides, hasTruth_iff hx, predicateValue, convertPredicate, hexpr, heval, evalExpr, bind,
    Except.bind, pure, Except.pure, if_true, Bool.false_eq_true, if_false]
  rfl

theorem dual_isDistinctFrom (hl : env.operandValue convertExpr row colMap l = .ok x)
    (hr : env.operandValue convertExpr row colMap r = .ok y) :
    env.Dual convertExpr convertQuery row colMap (.IsDistinctFrom l r) := by
  obtain ⟨left, hleft, hlv⟩ := exists_operand hl
  obtain ⟨right, hright, hrv⟩ := exists_operand hr
  have hvalue : ∀ b, ofBool b ≠ .Null := by decide
  refine dual_of_flag (b := isDistinct x y) (fun negated => ?_) ⟨hvalue _, hvalue _⟩
  simp only [predicateValue, convertPredicate, hleft, hright, bind, Except.bind, pure, Except.pure,
    evalExpr_distinctFrom, hlv, hrv, distinctFrom]

theorem dual_inList {list : List α} (hx : env.operandValue convertExpr row colMap e = .ok x)
    (hlist : ∀ item ∈ list, ∃ v, env.operandValue convertExpr row colMap item = .ok v) :
    env.Dual convertExpr convertQuery row colMap (.InList e list) := by
  obtain ⟨expr, hexpr, heval⟩ := exists_operand hx
  obtain ⟨out, hout, hitems⟩ := exists_operands hlist
  have hvalue : ∀ negated, env.predicateValue convertExpr convertQuery row colMap (.InList e list) negated =
      if x = .Null then .ok .Null else env.withFunctions.evalInList x out negated false row colMap := by
    intro negated
    simp only [predicateValue, convertPredicate, hout, hexpr, heval, evalExpr, bind, Except.bind, pure,
      Except.pure]
  by_cases hnull : x = .Null
  · exact dual_of_null (fun negated => (hvalue negated).trans (if_pos hnull)) trivial
  · obtain ⟨w, w', hw, hw', hnegation⟩ := evalInList_negation (v := x) hitems false
    exact ⟨w, w', (hvalue false).trans ((if_neg hnull).trans hw), (hvalue true).trans
      ((if_neg hnull).trans hw'),
      hnegation, trivial⟩

theorem dual_inSubquery {query : β} {rows : List Row} (hx : env.operandValue convertExpr row colMap e = .ok x)
    (hrows : env.queryRows convertQuery row colMap query = .ok rows) :
    env.Dual convertExpr convertQuery row colMap (.InSubquery e query) := by
  obtain ⟨expr, hexpr, heval⟩ := exists_operand hx
  obtain ⟨stmt, hstmt, hquery⟩ := exists_query hrows
  have hrun : env.withFunctions.query stmt row colMap = .ok rows := hquery
  have hvalue : ∀ negated, env.predicateValue convertExpr convertQuery row colMap
      (.InSubquery e query) negated =
      .ok (if x = .Null then .Null else inValues x negated false (rows.filterMap fun subRow =>
        subRow.head?)) := by
    intro negated
    simp only [predicateValue, convertPredicate, hexpr, hstmt, heval, hrun, evalExpr, bind, Except.bind, pure,
      Except.pure]
    split_ifs <;> rfl
  by_cases hnull : x = .Null
  · exact dual_of_null (fun negated => (hvalue negated).trans (by rw [if_pos hnull])) trivial
  · refine ⟨_, _, hvalue false, hvalue true, ?_, trivial⟩
    rw [if_neg hnull, if_neg hnull]
    exact inValues_negation _ false

theorem dual_between (hx : env.operandValue convertExpr row colMap e = .ok x)
    (hl : env.operandValue convertExpr row colMap l = .ok y)
    (hm : env.operandValue convertExpr row colMap m = .ok z) :
    env.Dual convertExpr convertQuery row colMap (.Between e l m) := by
  obtain ⟨expr, hexpr, heval⟩ := exists_operand hx
  obtain ⟨low, hlow, hlv⟩ := exists_operand hl
  obtain ⟨high, hhigh, hhv⟩ := exists_operand hm
  by_cases hnull : x = .Null ∨ y = .Null ∨ z = .Null
  · refine dual_of_null (fun negated => ?_) trivial
    simp only [predicateValue, convertPredicate, hexpr, hlow, hhigh, heval, hlv, hhv, evalExpr, bind,
      Except.bind,
      pure, Except.pure, if_pos hnull]
  · refine dual_of_flag (b := (x.partialCmp y).any (· ≠ .lt) && (x.partialCmp z).any (· ≠ .gt))
      (fun negated => ?_)
      trivial
    simp only [predicateValue, convertPredicate, hexpr, hlow, hhigh, heval, hlv, hhv, evalExpr, bind,
      Except.bind,
      pure, Except.pure, if_neg hnull]

theorem dual_exists {query : β} {rows : List Row}
    (hrows : env.queryRows convertQuery row colMap query = .ok rows) :
    env.Dual convertExpr convertQuery row colMap (.Exists query) := by
  obtain ⟨stmt, hstmt, hquery⟩ := exists_query hrows
  have hrun : env.withFunctions.query stmt row colMap = .ok rows := hquery
  refine dual_of_flag (b := !rows.isEmpty) (fun negated => ?_) trivial
  simp only [predicateValue, convertPredicate, hstmt, bind, Except.bind, pure, Except.pure]
  cases negated with
  | false => simp only [Bool.false_eq_true, if_false, evalExpr, hrun, bind, Except.bind, pure, Except.pure,
        Bool.bne_false]
  | true =>
      simp only [if_true, evalExpr, hrun, bind, Except.bind, pure, Except.pure, Bool.bne_true]
      cases rows <;> rfl

-- A value that is neither null nor a text gives 0 for both forms.
theorem negation_likeValue_iff (escapeChar : Option Char) (caseInsensitive : Bool) :
    IsNegation (likeValue x y escapeChar caseInsensitive false)
      (likeValue x y escapeChar caseInsensitive true) ↔
      x = .Null ∨ y = .Null ∨ (x.isText = true ∧ y.isText = true) := by
  by_cases hnull : x = .Null ∨ y = .Null
  · have hvalue : ∀ negated, likeValue x y escapeChar caseInsensitive negated = .Null := fun _ => if_pos hnull
    rw [hvalue, hvalue]
    exact iff_of_true isNegation_null (hnull.imp_right .inl)
  · rw [← or_assoc, or_iff_right hnull]
    by_cases htext : x.isText = true ∧ y.isText = true
    · refine iff_of_true ?_ htext
      cases x with
      | Text s =>
          cases y with
          | Text pattern =>
              have hvalue : ∀ negated, likeValue (.Text s) (.Text pattern) escapeChar caseInsensitive negated =
                  ofBool (likeMatch s pattern escapeChar caseInsensitive != negated) := fun _ => if_neg hnull
              rw [hvalue, hvalue, Bool.bne_false, Bool.bne_true]
              exact isNegation_ofBool _
          | _ => cases htext.2
      | _ => cases htext.1
    · refine iff_of_false ?_ htext
      have hzero : ∀ negated, likeValue x y escapeChar caseInsensitive negated = .Integer 0 := by
        intro negated
        unfold likeValue
        rw [if_neg hnull]
        split
        · exact absurd ⟨rfl, rfl⟩ htext
        · rfl
      rw [hzero, hzero]
      rintro (⟨hv, -⟩ | ⟨b, hv, hw⟩)
      · cases hv
      · cases b with
        | false => exact absurd hw (by decide)
        | true => exact absurd hv (by decide)

theorem dual_of_like (escapeChar : Option Char) (caseInsensitive : Bool)
    (hvalue : ∀ negated, env.predicateValue convertExpr convertQuery row colMap p negated =
      .ok (likeValue x y escapeChar caseInsensitive negated))
    (hdecides : ∀ v w, env.Decides convertExpr row colMap p v w) :
    env.Dual convertExpr convertQuery row colMap p ↔
      x = .Null ∨ y = .Null ∨ (x.isText = true ∧ y.isText = true) := by
  rw [dual_iff_of_values (hvalue false) (hvalue true), negation_likeValue_iff]
  exact and_iff_left (hdecides _ _)

theorem exists_operand_iff {Q : Value → Prop} (hx : env.operandValue convertExpr row colMap e = .ok x) :
    (∃ x', env.operandValue convertExpr row colMap e = .ok x' ∧ Q x') ↔ Q x := by
  constructor
  · rintro ⟨x', hx', h⟩
    obtain rfl := Except.ok.inj (hx.symm.trans hx')
    exact h
  · exact fun h => ⟨x, hx, h⟩

theorem exists_operands_iff {Q : Value → Value → Prop} (hx : env.operandValue convertExpr row colMap e = .ok x)
    (hy : env.operandValue convertExpr row colMap l = .ok y) :
    (∃ x' y', env.operandValue convertExpr row colMap e = .ok x' ∧
      env.operandValue convertExpr row colMap l = .ok y' ∧ Q x' y') ↔ Q x y := by
  constructor
  · rintro ⟨x', y', hx', hy', h⟩
    obtain rfl := Except.ok.inj (hx.symm.trans hx')
    obtain rfl := Except.ok.inj (hy.symm.trans hy')
    exact h
  · exact fun h => ⟨x, y, hx, hy, h⟩

-- On rows where the operands evaluate, the forms that are duals, and on which values.
theorem dual_iff (hevaluates : env.Evaluates convertExpr convertQuery row colMap p) :
    env.Dual convertExpr convertQuery row colMap p ↔ env.DualWhen convertExpr row colMap p := by
  obtain ⟨hoperands, hqueries⟩ := hevaluates
  cases p with
  | IsNull e =>
      obtain ⟨x, hx⟩ := hoperands e (List.mem_singleton_self e)
      exact iff_of_true (dual_isNull hx) trivial
  | IsUnknown e =>
      obtain ⟨x, hx⟩ := hoperands e (List.mem_singleton_self e)
      have hdual : env.Dual convertExpr convertQuery row colMap (.IsNull e) := dual_isNull hx
      exact iff_of_true hdual trivial
  | IsTrue e =>
      obtain ⟨x, hx⟩ := hoperands e (List.mem_singleton_self e)
      exact (dual_isTrue_iff hx).trans (exists_operand_iff (Q := fun x => x.isTruthValue = true) hx).symm
  | IsFalse e =>
      obtain ⟨x, hx⟩ := hoperands e (List.mem_singleton_self e)
      exact (dual_isFalse_iff hx).trans
        (exists_operand_iff (Q := fun x => x ≠ .Null ∧ x ≠ .Text "" ∧ x ≠ .Blob []) hx).symm
  | IsDistinctFrom l r =>
      obtain ⟨⟨x, hx⟩, hrest⟩ := List.forall_mem_cons.mp hoperands
      obtain ⟨y, hy⟩ := hrest r (List.mem_singleton_self r)
      exact iff_of_true (dual_isDistinctFrom hx hy) trivial
  | InList e list =>
      obtain ⟨⟨x, hx⟩, hlist⟩ := List.forall_mem_cons.mp hoperands
      exact iff_of_true (dual_inList hx hlist) trivial
  | InSubquery e query =>
      obtain ⟨x, hx⟩ := hoperands e (List.mem_singleton_self e)
      obtain ⟨rows, hrows⟩ := hqueries query (List.mem_singleton_self query)
      exact iff_of_true (dual_inSubquery hx hrows) trivial
  | Between e low high =>
      obtain ⟨⟨x, hx⟩, hrest⟩ := List.forall_mem_cons.mp hoperands
      obtain ⟨⟨y, hy⟩, hrest⟩ := List.forall_mem_cons.mp hrest
      obtain ⟨z, hz⟩ := hrest high (List.mem_singleton_self high)
      exact iff_of_true (dual_between hx hy hz) trivial
  | Exists query =>
      obtain ⟨rows, hrows⟩ := hqueries query (List.mem_singleton_self query)
      exact iff_of_true (dual_exists hrows) trivial
  | Like e pattern escapeChar =>
      obtain ⟨⟨x, hx⟩, hrest⟩ := List.forall_mem_cons.mp hoperands
      obtain ⟨y, hy⟩ := hrest pattern (List.mem_singleton_self pattern)
      obtain ⟨expr, hexpr, heval⟩ := exists_operand hx
      obtain ⟨pat, hpat, hpv⟩ := exists_operand hy
      refine (dual_of_like (p := .Like e pattern escapeChar) (escapeCharOf escapeChar) false (fun negated => ?_)
        fun _ _ => trivial).trans (exists_operands_iff
          (Q := fun x y => x = .Null ∨ y = .Null ∨ (x.isText = true ∧ y.isText = true)) hx hy).symm
      simp only [predicateValue, convertPredicate, hexpr, hpat, heval, hpv, evalExpr, bind, Except.bind, pure,
        Except.pure]
  | ILike e pattern escapeChar =>
      obtain ⟨⟨x, hx⟩, hrest⟩ := List.forall_mem_cons.mp hoperands
      obtain ⟨y, hy⟩ := hrest pattern (List.mem_singleton_self pattern)
      obtain ⟨expr, hexpr, heval⟩ := exists_operand hx
      obtain ⟨pat, hpat, hpv⟩ := exists_operand hy
      refine (dual_of_like (p := .ILike e pattern escapeChar) (escapeCharOf escapeChar) true (fun negated => ?_)
        fun _ _ => trivial).trans (exists_operands_iff
          (Q := fun x y => x = .Null ∨ y = .Null ∨ (x.isText = true ∧ y.isText = true)) hx hy).symm
      simp only [predicateValue, convertPredicate, hexpr, hpat, heval, hpv, evalExpr, bind, Except.bind, pure,
        Except.pure]
  | InUnnest e arrayExpr | SimilarTo e arrayExpr | RLike e arrayExpr | PGRegexMatch e arrayExpr
  | PGRegexIMatch e arrayExpr =>
      obtain ⟨⟨x, hx⟩, hrest⟩ := List.forall_mem_cons.mp hoperands
      obtain ⟨y, hy⟩ := hrest arrayExpr (List.mem_singleton_self arrayExpr)
      obtain ⟨expr, hexpr, -⟩ := exists_operand hx
      obtain ⟨array, harray, -⟩ := exists_operand hy
      exact iff_of_false (not_dual_of_call (by rw [convertPredicate, hexpr, harray]; rfl)) not_false

end Duality

end ScalarEnv

section Samples

theorem dual_iff_between : literalEnv.Dual .ok .ok [] []
      (.Between (.IntegerLiteral 2) (.IntegerLiteral 1) (.IntegerLiteral 3)) ↔
    literalEnv.DualWhen .ok [] []
      (.Between (.IntegerLiteral 2) (.IntegerLiteral 1) (.IntegerLiteral 3) : Predicate Expr SelectStmt) :=
  ScalarEnv.dual_iff ⟨by simp [Predicate.operands, ScalarEnv.operandValue, ScalarEnv.evalExpr, bind,
    Except.bind],
    fun _ hmem => nomatch hmem⟩

-- `NULL IS TRUE` is null, and `'a' NOT RLIKE 'b'` is a call of an unknown function.
theorem null_is_true_null : ¬literalEnv.Dual .ok .ok [] [] (.IsTrue .Null : Predicate Expr SelectStmt) ∧
    ¬literalEnv.Dual .ok .ok [] [] (.RLike (.StringLiteral "a")
      (.StringLiteral "b") : Predicate Expr SelectStmt) := by
  constructor
  · rintro ⟨v, w, hv, -, -, hne, -⟩
    exact hne (Except.ok.inj hv).symm
  · rintro ⟨v, w, -, hw, -⟩
    cases hw

end Samples

end Kkdb
