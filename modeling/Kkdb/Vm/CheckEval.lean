import Kkdb.Lib.Casing
import Kkdb.Vm.Check

namespace Kkdb

open Lib

structure RealOps extends FloatOps where
  divide : UInt64 → UInt64 → UInt64

namespace EvalEnv

-- The integers wrap around.
def arithmetic (intOp : Int64 → Int64 → Int64) (floatOp : UInt64 → UInt64 → UInt64) : Value → Value → Value
  | .Integer a, .Integer b => .Integer (intOp a b)
  | .Real a, .Real b => .Real (floatOp a b)
  | .Integer a, .Real b => .Real (floatOp (Double.ofInt64 a) b)
  | .Real a, .Integer b => .Real (floatOp a (Double.ofInt64 b))
  | _, _ => .Null

def division (ops : RealOps) : Value → Value → Value
  | .Integer a, .Integer b => if b = 0 then .Null else .Integer (a / b)
  | .Real a, .Real b => if Double.eq b 0 then .Null else .Real (ops.divide a b)
  | .Integer a, .Real b => if Double.eq b 0 then .Null else .Real (ops.divide (Double.ofInt64 a) b)
  | .Real a, .Integer b => if b = 0 then .Null else .Real (ops.divide a (Double.ofInt64 b))
  | _, _ => .Null

def modulo : Value → Value → Value
  | .Integer a, .Integer b => if b = 0 then .Null else .Integer (a % b)
  | _, _ => .Null

-- The operators of `apply_binary_op` that are neither comparisons nor connectives. Those on texts and bits
-- are `rest`.
def arithmeticOp (ops : RealOps) (rest : BinaryOperator → Value → Value → Res Value) (op : BinaryOperator)
    (l r : Value) : Res Value :=
  match op with
  | .Add => .ok (arithmetic (· + ·) ops.add l r)
  | .Subtract => .ok (arithmetic (· - ·) ops.subtract l r)
  | .Multiply => .ok (arithmetic (· * ·) ops.multiply l r)
  | .Divide => .ok (division ops l r)
  | .Modulo => .ok (modulo l r)
  | op => rest op l r

structure Outside where
  ops : RealOps
  params : List Value
  rest : BinaryOperator → Value → Value → Res Value
  other : Expr → Row → ColMap → Res Value

def Outside.env (o : Outside) : EvalEnv where
  params := o.params
  outerRows := []
  operator := arithmeticOp o.ops o.rest
  other := o.other

def columnIndex (table : Option String) (column : String) (colMap : ColMap) : Option Nat :=
  match (table.map fun t => lowerBytes t ++ '.' :: lowerBytes column).bind fun name => colMap.lookup name with
  | some i => some i
  | none => [column.toList, toAsciiLowercase column].findSome? fun name => colMap.lookup name

end EvalEnv

namespace Check

-- `a.to_lowercase() == b.to_lowercase()`
def sameLowercase [Casing] (a b : String) : Bool := Casing.lowercase a.toList = Casing.lowercase b.toList

def InRange (v : Int) : Prop := Int64.minValue.toInt ≤ v ∧ v ≤ Int64.maxValue.toInt

-- Where the operator takes two integers, the result is one.
def Fits (intOp : Int → Int → Int) (l r : Value) : Prop :=
  ∀ a b, l = .Integer a → r = .Integer b → InRange (intOp a.toInt b.toInt)

-- Two numbers or two texts, and no NaN.
def Ordered (l r : Value) : Prop :=
  l.tag = r.tag ∧ l.tag ≠ Value.tag (.Blob []) ∧ l.isNaN = false ∧ r.isNaN = false

-- Of the values that are not true, it is none but zero and NULL.
def PlainTruth (v : Value) : Prop := v.isTruthy = false → v = .Null ∨ v = .Integer 0

-- The operator gives the two values the same result in both evaluators.
def OpPlain (op : BinaryOperator) (l r : Value) : Prop :=
  match op with
  | .Equal => True
  | .NotEqual => True
  | .LessThan => l = .Null ∨ r = .Null ∨ Ordered l r
  | .LessThanOrEqual => l = .Null ∨ r = .Null ∨ Ordered l r
  | .GreaterThan => l = .Null ∨ r = .Null ∨ Ordered l r
  | .GreaterThanOrEqual => l = .Null ∨ r = .Null ∨ Ordered l r
  | .Add => Fits (· + ·) l r
  | .Subtract => Fits (· - ·) l r
  | .Multiply => Fits (· * ·) l r
  | .Divide => (∀ bits, l ≠ .Real bits ∧ r ≠ .Real bits) ∧ Fits Int.tdiv l r
  | .And => PlainTruth l ∧ PlainTruth r ∧ (l ≠ .Null ∧ r ≠ .Null ∨ l = .Integer 0 ∨ r = .Integer 0)
  | .Or => PlainTruth l ∧ PlainTruth r ∧ (l ≠ .Null ∧ r ≠ .Null ∨ l.isTruthy = true ∨ r.isTruthy = true)
  | _ => False

section Operators

variable {ops : FloatOps} {l r : Value}

theorem checkedInt_eq {v : Int} (h : InRange v) : checkedInt v = .ok (.Integer (Int64.ofInt v)) := if_pos h

theorem checkedInt_neg {i : Int64} (h : i ≠ Int64.minValue) : checkedInt (-i.toInt) = .ok (.Integer (-i)) := by
  have hlo := i.le_toInt
  have hhi := i.toInt_le
  have hne : i.toInt ≠ Int64.minValue.toInt := fun heq => h (Int64.toInt_inj.mp heq)
  have hmin : Int64.minValue.toInt = -2 ^ 63 := by decide
  have hmax : Int64.maxValue.toInt = 2 ^ 63 - 1 := by decide
  rw [checkedInt_eq ⟨by omega, by omega⟩]
  simp

theorem chkArith_eq {intOp : Int → Int → Int} {wrapping : Int64 → Int64 → Int64}
    {floatOp : UInt64 → UInt64 → UInt64} (hop : ∀ a b : Int64, Int64.ofInt (intOp a.toInt b.toInt) =
      wrapping a b)
    (hfits : Fits intOp l r) : chkArith l r intOp floatOp = .ok (EvalEnv.arithmetic wrapping floatOp l r) := by
  cases l <;> cases r
  case Integer.Integer a b =>
    rw [chkArith, checkedInt_eq (hfits a b rfl rfl), hop, EvalEnv.arithmetic]
  all_goals rfl

theorem chkTruthy_eq (h : PlainTruth l) : chkTruthy l = l.isTruthy := by
  cases l with
  | Null => rfl
  | Integer v => simp [chkTruthy, Value.isTruthy]
  | Real bits =>
      cases htrue : Value.isTruthy (.Real bits) with
      | true => rfl
      | false => exact absurd (h htrue) (by simp)
  | Text s =>
      cases htrue : Value.isTruthy (.Text s) with
      | true => rfl
      | false => exact absurd (h htrue) (by simp)
  | Blob b =>
      cases htrue : Value.isTruthy (.Blob b) with
      | true => rfl
      | false => exact absurd (h htrue) (by simp)

theorem chkCmp_eq (h : Ordered l r) : ∃ o, l.partialCmp r = some o ∧ chkCmp l r = orderingSign o := by
  obtain ⟨htag, hblob, hl, hr⟩ := h
  obtain ⟨o, ho⟩ := Option.isSome_iff_exists.mp (Value.isSome_partialCmp hl hr)
  have hdouble : ∀ a b : UInt64, Double.partialCmp a b = some o → doubleSign a b = orderingSign o := by
    intro a b hab
    rw [doubleSign, hab]
    cases o <;> rfl
  refine ⟨o, ho, ?_⟩
  cases l <;> cases r
  case Null.Null =>
    obtain rfl := Option.some.inj ho
    rfl
  case Integer.Integer =>
    obtain rfl := Option.some.inj ho
    rfl
  case Text.Text =>
    obtain rfl := Option.some.inj ho
    rfl
  case Integer.Real => exact hdouble _ _ ho
  case Real.Integer => exact hdouble _ _ ho
  case Real.Real => exact hdouble _ _ ho
  case Blob.Blob => exact absurd rfl hblob
  all_goals exact absurd htag (by simp [Value.tag])

theorem arithmetic_null {wrapping : Int64 → Int64 → Int64} {floatOp : UInt64 → UInt64 → UInt64}
    (h : l = .Null ∨ r = .Null) : EvalEnv.arithmetic wrapping floatOp l r = .Null := by
  rcases h with rfl | rfl
  · rfl
  · cases l <;> rfl

theorem division_eq {ops : RealOps} (hreal : ∀ bits, l ≠ .Real bits ∧ r ≠ .Real bits)
    (hfits : Fits Int.tdiv l r) :
    chkBinary ops.toFloatOps .Divide l r = .ok (EvalEnv.division ops l r) := by
  cases l with
  | Real bits => exact absurd rfl (hreal bits).1
  | Integer a =>
      cases r with
      | Real bits => exact absurd rfl (hreal bits).2
      | Integer b =>
          have hdiv : Int64.ofInt (a.toInt.tdiv b.toInt) = a / b := by
            rw [← Int64.toInt_inj, Int64.toInt_ofInt, Int64.toInt_div]
          by_cases hb : b = 0
          · simp [chkBinary, isComparison, EvalEnv.division, hb]
          · simp [chkBinary, isComparison, EvalEnv.division, hb, checkedInt_eq (hfits a b rfl rfl), hdiv]
      | Null | Text s | Blob b => rfl
  | Null | Text s | Blob b =>
      cases r with
      | Real bits => exact absurd rfl (hreal bits).2
      | Null | Integer v | Text s | Blob b => rfl

theorem comparison_eq (h : Ordered l r) :
    decide (chkCmp l r < 0) = decide (l.partialCmp r = some .lt) ∧
    decide (chkCmp l r ≤ 0) = (l.partialCmp r).any (· ≠ .gt) ∧
    decide (chkCmp l r > 0) = decide (l.partialCmp r = some .gt) ∧
    decide (chkCmp l r ≥ 0) = (l.partialCmp r).any (· ≠ .lt) := by
  obtain ⟨o, ho, hsign⟩ := chkCmp_eq h
  rw [ho, hsign]
  cases o <;> decide

theorem chkBinary_comparison_null {op : BinaryOperator} (hop : isComparison op = true)
    (h : l = .Null ∨ r = .Null) :
    chkBinary ops op l r = .ok .Null := if_pos ⟨hop, h⟩

section Same

variable (o : EvalEnv.Outside) {op : BinaryOperator}

theorem connective_eq (hl : PlainTruth l) (hr : PlainTruth r) :
    chkBinary ops .And l r = .ok (EvalEnv.ofBool (l.isTruthy && r.isTruthy)) ∧
    chkBinary ops .Or l r = .ok (EvalEnv.ofBool (l.isTruthy || r.isTruthy)) := by
  rw [← chkTruthy_eq hl, ← chkTruthy_eq hr]
  exact ⟨rfl, rfl⟩

theorem and_eq (h : OpPlain .And l r) : chkBinary ops .And l r = o.env.applyBinaryOp .And l r := by
  obtain ⟨hl, hr, hknown⟩ := h
  rw [(connective_eq hl hr).1]
  by_cases hnull : l = .Null ∨ r = .Null
  · have hzero : l = .Integer 0 ∨ r = .Integer 0 := hknown.resolve_left fun hne => hnull.elim hne.1 hne.2
    unfold EvalEnv.applyBinaryOp
    rw [if_pos hnull]
    rcases hzero with rfl | rfl
    · simp [Value.isTruthy, EvalEnv.ofBool]
    · simp [Value.isTruthy, EvalEnv.ofBool]
  · unfold EvalEnv.applyBinaryOp
    rw [if_neg hnull]

theorem or_eq (h : OpPlain .Or l r) : chkBinary ops .Or l r = o.env.applyBinaryOp .Or l r := by
  obtain ⟨hl, hr, hknown⟩ := h
  rw [(connective_eq hl hr).2]
  by_cases hnull : l = .Null ∨ r = .Null
  · have htrue : l.isTruthy = true ∨ r.isTruthy = true :=
      hknown.resolve_left fun hne => hnull.elim hne.1 hne.2
    have hor : (l.isTruthy || r.isTruthy) = true := Bool.or_eq_true_iff.mpr htrue
    unfold EvalEnv.applyBinaryOp
    rw [if_pos hnull, hor]
    simp only [if_pos htrue, EvalEnv.ofBool, if_true]
  · unfold EvalEnv.applyBinaryOp
    rw [if_neg hnull]

theorem comparison_op_eq (hop : isComparison op = true) (hnull : l = .Null ∨ r = .Null) :
    chkBinary ops op l r = o.env.applyBinaryOp op l r := by
  rw [chkBinary_comparison_null hop hnull]
  unfold EvalEnv.applyBinaryOp
  rw [if_pos hnull]
  cases op with
  | And | Or => cases hop
  | _ => rfl

theorem arithmetic_op_eq {v : Value} (hchk : chkBinary ops op l r = .ok v)
    (hop : o.env.operator op l r = .ok v) (hconnective : op ≠ .And ∧ op ≠ .Or ∧ isComparison op = false)
    (hnull : l = .Null ∨ r = .Null → v = .Null) : chkBinary ops op l r = o.env.applyBinaryOp op l r := by
  rw [hchk]
  unfold EvalEnv.applyBinaryOp
  by_cases h : l = .Null ∨ r = .Null
  · rw [if_pos h, hnull h]
    cases op with
    | And => exact absurd rfl hconnective.1
    | Or => exact absurd rfl hconnective.2.1
    | _ => rfl
  · rw [if_neg h]
    cases op with
    | And => exact absurd rfl hconnective.1
    | Or => exact absurd rfl hconnective.2.1
    | Equal | NotEqual | LessThan | LessThanOrEqual | GreaterThan | GreaterThanOrEqual => cases hconnective.2.2
    | _ => exact hop.symm

-- The operator gives both evaluators the same result.
theorem chkBinary_eq (h : OpPlain op l r) : chkBinary o.ops.toFloatOps op l r = o.env.applyBinaryOp op l r := by
  by_cases hnull : isComparison op = true ∧ (l = .Null ∨ r = .Null)
  · exact comparison_op_eq o hnull.1 hnull.2
  have hplain : isComparison op = true → ¬(l = .Null ∨ r = .Null) := fun hop hnull' => hnull ⟨hop, hnull'⟩
  cases op with
  | Equal | NotEqual =>
      have hne := hplain rfl
      unfold EvalEnv.applyBinaryOp
      rw [chkBinary, if_neg hnull, if_neg hne]
  | LessThan =>
      have hne := hplain rfl
      have hord : Ordered l r := (h.resolve_left fun hl => hne (.inl hl)).resolve_left fun hr => hne (.inr hr)
      unfold EvalEnv.applyBinaryOp
      rw [chkBinary, if_neg hnull, if_neg hne]
      simp only [(comparison_eq hord).1]
  | LessThanOrEqual =>
      have hne := hplain rfl
      have hord : Ordered l r := (h.resolve_left fun hl => hne (.inl hl)).resolve_left fun hr => hne (.inr hr)
      unfold EvalEnv.applyBinaryOp
      rw [chkBinary, if_neg hnull, if_neg hne]
      simp only [(comparison_eq hord).2.1]
  | GreaterThan =>
      have hne := hplain rfl
      have hord : Ordered l r := (h.resolve_left fun hl => hne (.inl hl)).resolve_left fun hr => hne (.inr hr)
      unfold EvalEnv.applyBinaryOp
      rw [chkBinary, if_neg hnull, if_neg hne]
      simp only [(comparison_eq hord).2.2.1]
  | GreaterThanOrEqual =>
      have hne := hplain rfl
      have hord : Ordered l r := (h.resolve_left fun hl => hne (.inl hl)).resolve_left fun hr => hne (.inr hr)
      unfold EvalEnv.applyBinaryOp
      rw [chkBinary, if_neg hnull, if_neg hne]
      simp only [(comparison_eq hord).2.2.2]
  | Add =>
      have hadd : ∀ a b : Int64, Int64.ofInt (a.toInt + b.toInt) = a + b := by simp
      exact arithmetic_op_eq o (chkArith_eq hadd h) rfl (by decide) arithmetic_null
  | Subtract =>
      have hsub : ∀ a b : Int64, Int64.ofInt (a.toInt - b.toInt) = a - b := by simp
      exact arithmetic_op_eq o (chkArith_eq hsub h) rfl (by decide) arithmetic_null
  | Multiply =>
      have hmul : ∀ a b : Int64, Int64.ofInt (a.toInt * b.toInt) = a * b := by simp
      exact arithmetic_op_eq o (chkArith_eq hmul h) rfl (by decide) arithmetic_null
  | Divide =>
      refine arithmetic_op_eq o (division_eq h.1 h.2) rfl (by decide) ?_
      rintro (rfl | rfl)
      · rfl
      · cases l <;> rfl
  | And => exact and_eq o h
  | Or => exact or_eq o h
  | Modulo | Concat | Xor | BitwiseOr | BitwiseAnd | BitwiseXor | ShiftLeft | ShiftRight | FtsMatch => cases h

theorem applyBinaryOp_ok (h : OpPlain op l r) : ∃ v, o.env.applyBinaryOp op l r = .ok v := by
  unfold EvalEnv.applyBinaryOp
  by_cases hnull : l = .Null ∨ r = .Null
  · rw [if_pos hnull]
    cases op with
    | And =>
        dsimp only
        split_ifs
        · exact ⟨_, rfl⟩
        · exact ⟨_, rfl⟩
    | Or =>
        dsimp only
        split_ifs
        · exact ⟨_, rfl⟩
        · exact ⟨_, rfl⟩
    | _ => exact ⟨_, rfl⟩
  · rw [if_neg hnull]
    cases op with
    | Modulo | Concat | Xor | BitwiseOr | BitwiseAnd | BitwiseXor | ShiftLeft | ShiftRight | FtsMatch => cases h
    | _ => exact ⟨_, rfl⟩

end Same

end Operators

section Reference

variable (o : EvalEnv.Outside) {row : Row} {colMap : ColMap}

theorem columnRef_eq {table : Option String} {column : String} {i : Nat}
    (h : EvalEnv.columnIndex table column colMap = some i) :
    o.env.columnRef table column row colMap = .ok (row.getD i .Null) := by
  unfold EvalEnv.columnIndex at h
  unfold EvalEnv.columnRef
  dsimp only
  have houter : ((table.map fun t => lowerBytes t ++ '.' :: lowerBytes column).bind fun name =>
      EvalEnv.findOuter [name] o.env.outerRows.reverse) = none := by
    cases table <;> rfl
  cases hq : (table.map fun t => lowerBytes t ++ '.' :: lowerBytes column).bind fun name =>
    colMap.lookup name with
  | some j =>
      rw [hq] at h
      obtain rfl := Option.some.inj h
      rfl
  | none =>
      rw [hq] at h
      simp only at h
      simp only [houter, h]

theorem connective_values (l r : Value) :
    ((if l ≠ .Null ∧ (!l.isTruthy) = true then .ok (.Integer 0)
      else if r ≠ .Null ∧ (!r.isTruthy) = true then .ok (.Integer 0)
      else if l = .Null ∨ r = .Null then .ok .Null else .ok (.Integer 1)) = o.env.applyBinaryOp .And l r) ∧
    ((if l ≠ .Null ∧ l.isTruthy = true then .ok (.Integer 1)
      else if r ≠ .Null ∧ r.isTruthy = true then .ok (.Integer 1)
      else if l = .Null ∨ r = .Null then .ok .Null else .ok (.Integer 0)) = o.env.applyBinaryOp .Or l r) := by
  have hnull : Value.isTruthy .Null = false := rfl
  unfold EvalEnv.applyBinaryOp
  dsimp only
  by_cases hl : l = .Null
  · subst hl
    by_cases hr : r = .Null
    · subst hr
      exact ⟨rfl, rfl⟩
    · cases htruth : r.isTruthy <;> simp [hr, hnull]
  · by_cases hr : r = .Null
    · subst hr
      cases htruth : l.isTruthy <;> simp [hl, hnull]
    · cases hleft : l.isTruthy <;> cases hright : r.isTruthy <;> simp [hl, hr, EvalEnv.ofBool]

-- Without their short ways out, the connectives are operators like the others.
theorem evalExpr_binary {left right : Expr} {op : BinaryOperator} {l r : Value} (hop : op ≠ .FtsMatch)
    (hl : o.env.evalExpr left row colMap = .ok l) (hr : o.env.evalExpr right row colMap = .ok r) :
    o.env.evalExpr (.BinaryOp left op right) row colMap = o.env.applyBinaryOp op l r := by
  cases op with
  | FtsMatch => exact absurd rfl hop
  | And =>
      simp only [EvalEnv.evalExpr, hl, hr, bind, Except.bind]
      exact (connective_values o l r).1
  | Or =>
      simp only [EvalEnv.evalExpr, hl, hr, bind, Except.bind]
      exact (connective_values o l r).2
  | _ =>
      simp only [EvalEnv.evalExpr, hl, hr]
      rfl

end Reference

section Expressions

variable [Casing] (o : EvalEnv.Outside) (row : Row) (colNames : List String) (colMap : ColMap)

-- The column is found at one position by both evaluators.
def Resolves (colNames : List String) (colMap : ColMap) (table : Option String) (column : String) : Prop :=
  ∃ i, (colNames.findIdx? fun n => sameLowercase n column) = some i ∧
    EvalEnv.columnIndex table column colMap = some i

-- An expression on which the evaluator of checks follows that of expressions, node by node.
def Plain : Expr → Prop
  | .IntegerLiteral _ => True
  | .RealLiteral _ => True
  | .StringLiteral _ => True
  | .Null => True
  | .ColumnRef table column => Resolves colNames colMap table column
  | .BinaryOp left op right =>
      Plain left ∧ Plain right ∧
        ∀ l r, o.env.evalExpr left row colMap = .ok l → o.env.evalExpr right row colMap = .ok r → OpPlain op l r
  | .IsNull inner _ => Plain inner
  | .UnaryOp .Not inner =>
      Plain inner ∧ ∀ v, o.env.evalExpr inner row colMap = .ok v → v ≠ .Null ∧ PlainTruth v
  | .UnaryOp .Minus inner =>
      Plain inner ∧ ∀ v, o.env.evalExpr inner row colMap = .ok v →
        v ≠ .Integer Int64.minValue ∧ v.tag ≤ Value.tag (.Integer 0)
  | _ => False

variable {o row colNames colMap}

theorem Plain.agrees {e : Expr} (h : Plain o row colNames colMap e) :
    ∃ v, evalCheckExprBy sameLowercase o.ops.toFloatOps row colNames e = .ok v ∧
      o.env.evalExpr e row colMap = .ok v := by
  induction e using evalCheckExprBy.induct sameLowercase colNames with
  | case1 v => exact ⟨.Integer v, by rw [evalCheckExprBy], by rw [EvalEnv.evalExpr]⟩
  | case2 bits => exact ⟨.Real bits, by rw [evalCheckExprBy], by rw [EvalEnv.evalExpr]⟩
  | case3 v => exact ⟨.Text v, by rw [evalCheckExprBy], by rw [EvalEnv.evalExpr]⟩
  | case4 => exact ⟨.Null, by rw [evalCheckExprBy], by rw [EvalEnv.evalExpr]⟩
  | case5 table column i hi =>
      obtain ⟨j, hj, hindex⟩ := h
      obtain rfl : j = i := Option.some.inj (hj.symm.trans hi)
      exact ⟨row.getD j .Null, by rw [evalCheckExprBy, hi], by rw [EvalEnv.evalExpr, columnRef_eq o hindex]⟩
  | case6 table column hnone =>
      obtain ⟨j, hj, -⟩ := h
      cases hj.symm.trans hnone
  | case7 left op right ihl ihr =>
      obtain ⟨hleft, hright, hop⟩ := h
      obtain ⟨l, hl, hl'⟩ := ihl hleft
      obtain ⟨r, hr, hr'⟩ := ihr hright
      have hplain := hop l r hl' hr'
      have hfts : op ≠ .FtsMatch := by
        rintro rfl
        exact hplain
      obtain ⟨v, hv⟩ := applyBinaryOp_ok o hplain
      refine ⟨v, ?_, (evalExpr_binary o hfts hl' hr').trans hv⟩
      rw [evalCheckExprBy, hl, hr]
      exact (chkBinary_eq o hplain).trans hv
  | case8 inner negated ih =>
      obtain ⟨v, hv, hv'⟩ := ih h
      exact ⟨_, by rw [evalCheckExprBy, hv]; rfl, by rw [EvalEnv.evalExpr, hv']; rfl⟩
  | case9 inner ih =>
      obtain ⟨v, hv, hv'⟩ := ih h.1
      obtain ⟨hnull, htruth⟩ := h.2 v hv'
      refine ⟨_, by rw [evalCheckExprBy, hv]; rfl, ?_⟩
      rw [EvalEnv.evalExpr, hv', chkTruthy_eq htruth]
      exact congrArg Except.ok (if_neg hnull)
  | case10 inner ih =>
      obtain ⟨v, hv, hv'⟩ := ih h.1
      obtain ⟨hmin, htag⟩ := h.2 v hv'
      cases v with
      | Null => exact ⟨.Null, by rw [evalCheckExprBy, hv]; rfl, by rw [EvalEnv.evalExpr, hv']; rfl⟩
      | Real bits => exact ⟨_, by rw [evalCheckExprBy, hv]; rfl, by rw [EvalEnv.evalExpr, hv']; rfl⟩
      | Integer i =>
          refine ⟨.Integer (-i), ?_, by rw [EvalEnv.evalExpr, hv']; rfl⟩
          rw [evalCheckExprBy, hv]
          exact checkedInt_neg fun heq => hmin (by rw [heq])
      | Text s => exact absurd htag (by simp [Value.tag])
      | Blob b => exact absurd htag (by simp [Value.tag])
  | case11 t h1 h2 h3 h4 h5 h6 h7 h8 h9 =>
      cases t with
      | IntegerLiteral v => exact (h1 v rfl).elim
      | RealLiteral bits => exact (h2 bits rfl).elim
      | StringLiteral v => exact (h3 v rfl).elim
      | Null => exact (h4 rfl).elim
      | ColumnRef table column => exact (h5 table column rfl).elim
      | BinaryOp left op right => exact (h6 left op right rfl).elim
      | IsNull inner negated => exact (h7 inner negated rfl).elim
      | UnaryOp op inner =>
          cases op with
          | Not => exact (h8 inner rfl).elim
          | Minus => exact (h9 inner rfl).elim
      | _ => exact h.elim

end Expressions

section Follows

variable [Casing] (o : EvalEnv.Outside) (tableName : String) (colNames : List String) (colMap : ColMap)
  (row : Row)

-- The evaluator of expressions finds the check false on the row.
def Violates (check : Option String × Expr) : Prop :=
  ∃ v, o.env.evalExpr check.2 row colMap = .ok v ∧ v ≠ .Null ∧ v.isTruthy = false

-- The row is rejected for the checks that are false on it, and for no others.
structure Follows (checks : List (Option String × Expr)) : Prop where
  noPanic : runChecksBy sameLowercase o.ops.toFloatOps tableName colNames row checks ≠ .error .Panic
  rejects_iff : (∃ name, runChecksBy sameLowercase o.ops.toFloatOps tableName colNames row checks =
    .error (checkFailed name tableName)) ↔ ∃ check ∈ checks, Violates o colMap row check

structure PlainCheck (check : Option String × Expr) : Prop where
  plain : Plain o row colNames colMap check.2
  truth : ∀ v, o.env.evalExpr check.2 row colMap = .ok v → PlainTruth v

variable {o colNames colMap row}

theorem PlainCheck.violates_iff {check : Option String × Expr} {v : Value}
    (h : PlainCheck o colNames colMap row check)
    (hv : o.env.evalExpr check.2 row colMap = .ok v) : Violates o colMap row check ↔ v = .Integer 0 := by
  constructor
  · rintro ⟨w, hw, hnull, hfalse⟩
    obtain rfl := Except.ok.inj (hw.symm.trans hv)
    exact (h.truth w hw hfalse).resolve_left hnull
  · rintro rfl
    exact ⟨_, hv, by simp, rfl⟩

theorem follows_of_plain {checks : List (Option String × Expr)}
    (h : ∀ check ∈ checks, PlainCheck o colNames colMap row check) :
    Follows o tableName colNames colMap row checks := by
  induction checks with
  | nil => exact ⟨by rw [runChecksBy]; exact nofun, by rw [runChecksBy]; simp⟩
  | cons check checks ih =>
      rw [List.forall_mem_cons] at h
      have hrest := ih h.2
      obtain ⟨v, hchk, hv⟩ := h.1.plain.agrees
      have hviolates := h.1.violates_iff hv
      obtain ⟨name, expr⟩ := check
      by_cases hzero : v = .Integer 0
      · have hrun : runChecksBy sameLowercase o.ops.toFloatOps tableName colNames row ((name, expr) :: checks) =
            .error (checkFailed name tableName) := by
          rw [runChecksBy, hchk]
          exact if_pos hzero
        exact ⟨by rw [hrun]; exact nofun, iff_of_true ⟨name, hrun⟩ ⟨_, List.mem_cons_self, hviolates.mpr hzero⟩⟩
      · have hrun : runChecksBy sameLowercase o.ops.toFloatOps tableName colNames row ((name, expr) :: checks) =
            runChecksBy sameLowercase o.ops.toFloatOps tableName colNames row checks := by
          rw [runChecksBy, hchk]
          exact if_neg hzero
        refine ⟨by rw [hrun]; exact hrest.noPanic, ?_⟩
        rw [hrun, hrest.rejects_iff, List.exists_mem_cons_iff]
        exact ⟨.inr, fun h => h.resolve_left fun hv => hzero (hviolates.mp hv)⟩

end Follows

section Example

attribute [local instance] fewLetters

def noFloats : EvalEnv.Outside where
  ops := { add := fun a _ => a, subtract := fun a _ => a, multiply := fun a _ => a, divide := fun a _ => a }
  params := []
  rest _ _ _ := .ok .Null
  other _ _ _ := .ok .Null

def bothPositive : Expr :=
  .BinaryOp (.BinaryOp (.ColumnRef none "a") .GreaterThan (.IntegerLiteral 0)) .And
    (.BinaryOp (.ColumnRef none "b") .GreaterThan (.IntegerLiteral 0))

theorem bothPositive_values :
    noFloats.env.evalExpr (.BinaryOp (.ColumnRef none "a") .GreaterThan (.IntegerLiteral 0))
      [.Integer 1, .Integer 2]
      (buildColMap ["a", "b"]) = .ok (.Integer 1) ∧
    noFloats.env.evalExpr (.BinaryOp (.ColumnRef none "b") .GreaterThan (.IntegerLiteral 0))
      [.Integer 1, .Integer 2]
      (buildColMap ["a", "b"]) = .ok (.Integer 1) ∧
    noFloats.env.evalExpr bothPositive [.Integer 1, .Integer 2] (buildColMap ["a", "b"]) = .ok (.Integer 1) :=
  ⟨rfl, rfl, rfl⟩

theorem follows_of_plain_bothPositive :
    Follows noFloats "t" ["a", "b"] (buildColMap ["a", "b"]) [.Integer 1, .Integer 2]
      [(none, bothPositive)] := by
  refine follows_of_plain "t" fun check hcheck => ?_
  obtain rfl := List.mem_singleton.mp hcheck
  obtain ⟨hleft, hright, hboth⟩ := bothPositive_values
  have hzero : PlainTruth (.Integer 1) := fun h => absurd h (by decide)
  have hgreater : ∀ v w : Int64, OpPlain .GreaterThan (.Integer v) (.Integer w) := fun v w =>
    .inr (.inr ⟨rfl, by simp [Value.tag], rfl, rfl⟩)
  refine ⟨⟨⟨⟨0, by decide, by decide⟩, trivial, ?_⟩, ⟨⟨1, by decide, by decide⟩, trivial, ?_⟩, ?_⟩, ?_⟩
  · intro l r hl hr
    cases hl
    cases hr
    exact hgreater _ _
  · intro l r hl hr
    cases hl
    cases hr
    exact hgreater _ _
  · intro l r hl hr
    obtain rfl := Except.ok.inj (hleft.symm.trans hl)
    obtain rfl := Except.ok.inj (hright.symm.trans hr)
    exact ⟨hzero, hzero, .inl ⟨by simp, by simp⟩⟩
  · intro v hv
    obtain rfl := Except.ok.inj (hboth.symm.trans hv)
    exact hzero

-- The check is unknown on the row, which is rejected.
theorem unknown_rejected :
    ¬Follows noFloats "t" ["a", "b"] (buildColMap ["a", "b"]) [.Null, .Integer 1] [(none, bothPositive)] := by
  intro h
  obtain ⟨check, hcheck, v, hv, hnull, -⟩ := h.rejects_iff.mp ⟨none, rfl⟩
  obtain rfl := List.mem_singleton.mp hcheck
  exact hnull (Except.ok.inj hv).symm

end Example

end Check

end Kkdb
