import Kkdb.Lib.State
import Kkdb.Vm.EvalExpr
import Kkdb.Vm.Schema

namespace Kkdb

open Lib

-- `exec_select` for the subqueries of a statement: the rows, under the given stack of outer rows.
abbrev QueryRunner := List (Row × ColMap) → SelectStmt → Res (List Row)

-- The names that a statement looks for in the outer rows are those of its columns that no source of its own has.
-- Nothing else of an outer row is read.
structure SubqueryEngine where
  query : QueryRunner
  freeNames : SelectStmt → List (List Char)
  frame : ∀ outer row colMap stmt, (∀ name ∈ freeNames stmt, colMap.lookup name = none) →
    query (outer ++ [(row, colMap)]) stmt = query outer stmt

namespace Subquery

mutual

def referencesCols (cols : List String) : Expr → Bool
  | .ColumnRef _ column => cols.any fun c => sameName c column
  | .BinaryOp left _ right => referencesCols cols left || referencesCols cols right
  | .UnaryOp _ e => referencesCols cols e
  | .Nested e => referencesCols cols e
  | .Function _ args _ => anyReferences cols args
  | .InList e list _ => referencesCols cols e || anyReferences cols list
  | _ => false

def anyReferences (cols : List String) : List Expr → Bool
  | [] => false
  | e :: es => referencesCols cols e || anyReferences cols es

end

def referencesOuter (subquery : SelectStmt) (outerCols : List String) : Bool :=
  match subquery.whereClause with
  | some e => referencesCols outerCols e
  | none => false

def firstColumn (rows : List Row) : List Value := rows.filterMap List.head?

def literal : Value → Expr
  | .Integer v => .IntegerLiteral v
  | .Real bits => .RealLiteral bits
  | .Text v => .StringLiteral v
  | _ => .Null

section Rewriting

variable (query : QueryRunner) (outer : List (Row × ColMap)) (outerCols : List String)

def rewrite : Expr → Res Expr
  | .InSubquery e subquery negated => do
      if referencesOuter subquery outerCols then return .InSubquery e subquery negated
      let rows ← query outer subquery
      return .InList e ((firstColumn rows).map literal) negated
  | .BinaryOp left op right => do
      let l ← rewrite left
      let r ← rewrite right
      return .BinaryOp l op r
  | .UnaryOp op e => do
      let e ← rewrite e
      return .UnaryOp op e
  | .Nested e => do
      let e ← rewrite e
      return .Nested e
  | e => return e

end Rewriting

-- The loop over the values of a subquery, which stops at the first equal one.
def inValues (v : Value) (negated hasNull : Bool) : List Value → Value
  | [] => if hasNull then .Null else EvalEnv.ofBool negated
  | w :: ws =>
      if w = .Null then inValues v negated true ws
      else if v.eq w then EvalEnv.ofBool (!negated)
      else inValues v negated hasNull ws

-- `InSubquery`, evaluated for one outer row, which is pushed for the time of the subquery.
def evalInSubquery (query : QueryRunner) (outer : List (Row × ColMap)) (v : Value) (subquery : SelectStmt)
    (negated : Bool) (row : Row) (colMap : ColMap) : Res Value := do
  if v = .Null then return .Null
  let rows ← query (outer ++ [(row, colMap)]) subquery
  return inValues v negated false (firstColumn rows)

-- `eval_expr` with the arms of subqueries behind IN and of full-text matches, which the evaluator leaves
-- to its environment. `fts` tells whether the texts of a row contain the words of a keyword.
def evalWhere (query : QueryRunner) (fts : String → Row → Bool) (env : EvalEnv) (row : Row)
    (colMap : ColMap) : Expr → Res Value
  | .BinaryOp left .And right => do
      let l ← evalWhere query fts env row colMap left
      if l ≠ .Null ∧ !l.isTruthy then return .Integer 0
      let r ← evalWhere query fts env row colMap right
      if r ≠ .Null ∧ !r.isTruthy then return .Integer 0
      if l = .Null ∨ r = .Null then return .Null
      return .Integer 1
  | .BinaryOp left .Or right => do
      let l ← evalWhere query fts env row colMap left
      if l ≠ .Null ∧ l.isTruthy then return .Integer 1
      let r ← evalWhere query fts env row colMap right
      if r ≠ .Null ∧ r.isTruthy then return .Integer 1
      if l = .Null ∨ r = .Null then return .Null
      return .Integer 0
  | .BinaryOp _ .FtsMatch right =>
      match evalWhere query fts env row colMap right with
      | .ok (.Text keyword) => .ok (EvalEnv.ofBool (fts keyword row))
      | _ => .ok (.Integer 0)
  | .BinaryOp left op right => do
      let l ← evalWhere query fts env row colMap left
      let r ← evalWhere query fts env row colMap right
      env.applyBinaryOp op l r
  | .UnaryOp op e => do
      let v ← evalWhere query fts env row colMap e
      match op with
      | .Minus => EvalEnv.negate v
      | .Not => return if v = .Null then .Null else EvalEnv.ofBool (!v.isTruthy)
  | .Nested e => evalWhere query fts env row colMap e
  | .InSubquery e subquery negated => do
      let v ← evalWhere query fts env row colMap e
      evalInSubquery query env.outerRows v subquery negated row colMap
  | .InList e list negated => do
      let v ← evalWhere query fts env row colMap e
      if v = .Null then return .Null
      env.evalInList v list negated false row colMap
  | e => env.evalExpr e row colMap

end Subquery

end Kkdb

namespace Kkdb

open Lib

namespace Subquery

def plain : Value → Value
  | .Blob _ => .Null
  | v => v

def found (v : Value) (ws : List Value) : Bool := ws.any fun w => w ≠ .Null && v.eq w

-- The list, read by `plain`, answers for the value as the rows of the subquery do.
def AnswersAlike (v : Value) (ws : List Value) : Prop :=
  (found v (ws.map plain) = found v ws) ∧ (found v ws = false → (.Null ∈ ws.map plain ↔ .Null ∈ ws))

-- There is no blob, or the value equals one that is none, or it equals none and there is a NULL anyway.
def BlobsHarmless (v : Value) (ws : List Value) : Prop :=
  (∀ bytes, .Blob bytes ∉ ws) ∨ (∃ w ∈ ws, w ≠ .Null ∧ (∀ bytes, w ≠ .Blob bytes) ∧ v.eq w = true) ∨
    (.Null ∈ ws ∧ ∀ bytes, .Blob bytes ∈ ws → v.eq (.Blob bytes) = false)

section Answers

variable {v : Value} {negated : Bool}

theorem inValues_eq (hasNull : Bool) (ws : List Value) : inValues v negated hasNull ws =
    if found v ws then EvalEnv.ofBool (!negated)
    else if hasNull = true ∨ .Null ∈ ws then .Null else EvalEnv.ofBool negated := by
  induction ws generalizing hasNull with
  | nil => simp [inValues, found]
  | cons w ws ih =>
      rw [inValues, ih, ih]
      by_cases hnull : w = .Null
      · simp [hnull, found]
      · rw [if_neg hnull]
        cases heq : v.eq w <;> simp [found, hnull, heq, Ne.symm hnull]

theorem ofBool_ne (b : Bool) : EvalEnv.ofBool (!b) ≠ EvalEnv.ofBool b := by
  cases b <;> decide

theorem ofBool_ne_null (b : Bool) : EvalEnv.ofBool b ≠ .Null := by
  cases b <;> decide

theorem inValues_eq_iff (ws : List Value) :
    inValues v negated false (ws.map plain) = inValues v negated false ws ↔ AnswersAlike v ws := by
  have hne := ofBool_ne negated
  have hnull := ofBool_ne_null negated
  have hnull' := ofBool_ne_null (!negated)
  rw [inValues_eq, inValues_eq, AnswersAlike]
  simp only [Bool.false_eq_true, false_or]
  cases found v (ws.map plain) <;> cases found v ws <;>
    by_cases h : Value.Null ∈ ws.map plain <;> by_cases h' : Value.Null ∈ ws <;>
      simp [h, h', hne, hne.symm, hnull, hnull.symm, hnull', hnull'.symm]

theorem found_plain_iff (ws : List Value) : found v (ws.map plain) = true ↔
    ∃ w ∈ ws, w ≠ .Null ∧ (∀ bytes, w ≠ .Blob bytes) ∧ v.eq w = true := by
  simp only [found, List.any_map, List.any_eq_true, Function.comp]
  refine exists_congr fun w => and_congr_right fun _ => ?_
  cases w <;> simp [plain]

theorem found_iff (ws : List Value) : found v ws = true ↔
    found v (ws.map plain) = true ∨ ∃ bytes, .Blob bytes ∈ ws ∧ v.eq (.Blob bytes) = true := by
  rw [found_plain_iff, found, List.any_eq_true]
  simp only [Bool.and_eq_true, decide_eq_true_eq]
  constructor
  · rintro ⟨w, hw, hnull, heq⟩
    by_cases hblob : ∃ bytes, w = .Blob bytes
    · obtain ⟨bytes, rfl⟩ := hblob
      exact .inr ⟨bytes, hw, heq⟩
    · exact .inl ⟨w, hw, hnull, fun bytes h => hblob ⟨bytes, h⟩, heq⟩
  · rintro (⟨w, hw, hnull, -, heq⟩ | ⟨bytes, hmem, heq⟩)
    · exact ⟨w, hw, hnull, heq⟩
    · exact ⟨_, hmem, by simp, heq⟩

theorem null_mem_plain_iff (ws : List Value) :
    .Null ∈ ws.map plain ↔ .Null ∈ ws ∨ ∃ bytes, .Blob bytes ∈ ws := by
  induction ws with
  | nil => simp
  | cons w ws ih => cases w <;> simp [plain, ih]

theorem answersAlike_iff (ws : List Value) : AnswersAlike v ws ↔ BlobsHarmless v ws := by
  have hfound := found_iff (v := v) ws
  rw [AnswersAlike, BlobsHarmless, ← found_plain_iff, null_mem_plain_iff]
  cases hplain : found v (ws.map plain) with
  | true => simp [hfound.mpr (.inl hplain)]
  | false =>
      have hnone : found v ws = false ↔ ∀ bytes, .Blob bytes ∈ ws → v.eq (.Blob bytes) = false := by
        rw [← Bool.not_eq_true, hfound, hplain]
        simp
      rw [← hnone]
      by_cases hblob : ∃ bytes, .Blob bytes ∈ ws
      · have hsome : ¬∀ bytes, .Blob bytes ∉ ws := fun h => hblob.elim h
        simp only [hblob, hsome, or_true, true_iff, false_or, Bool.false_eq_true]
        exact ⟨fun h => ⟨h.2 h.1.symm, h.1.symm⟩, fun h => ⟨h.2.symm, fun _ => h.1⟩⟩
      · have hfree : ∀ bytes, .Blob bytes ∉ ws := fun bytes h => hblob ⟨bytes, h⟩
        have hfalse := hnone.mpr fun bytes h => absurd h (hfree bytes)
        simp [hfree, hfalse]

theorem evalInList_literals (env : EvalEnv) (hasNull : Bool) (ws : List Value) (row : Row) (colMap : ColMap) :
    env.evalInList v (ws.map literal) negated hasNull row colMap =
      .ok (inValues v negated hasNull (ws.map plain)) := by
  have hliteral : ∀ w, env.evalExpr (literal w) row colMap = .ok (plain w) := by
    intro w
    cases w <;> rfl
  induction ws generalizing hasNull with
  | nil => rfl
  | cons w ws ih =>
      rw [List.map_cons, List.map_cons, EvalEnv.evalInList, hliteral, inValues]
      simp only [bind, Except.bind]
      by_cases hnull : plain w = .Null
      · rw [if_pos hnull, if_pos hnull, ih]
      · rw [if_neg hnull, if_neg hnull]
        split_ifs
        · rfl
        · exact ih hasNull

end Answers

-- Rewriting first and then evaluating for the row gives what evaluating gives.
def Preserved (query : QueryRunner) (fts : String → Row → Bool) (env : EvalEnv) (outerCols : List String)
    (row : Row) (colMap : ColMap) (e : Expr) : Prop :=
  (do
    let e ← rewrite query env.outerRows outerCols e
    evalWhere query fts env row colMap e) = evalWhere query fts env row colMap e

section Rewriting

variable (engine : SubqueryEngine) (fts : String → Row → Bool) (env : EvalEnv) (outerCols : List String)
  (row : Row) (colMap : ColMap)

-- No column of the subquery is looked for in the row.
def Uncorrelated (subquery : SelectStmt) : Prop := ∀ name ∈ engine.freeNames subquery, colMap.lookup name = none

-- The subquery fails where the row asks for it or fails alike, or it answers with blobs that do not matter.
def NodeHarmless (e : Expr) (subquery : SelectStmt) : Prop :=
  match engine.query env.outerRows subquery with
  | .ok rows => ∀ v, evalWhere engine.query fts env row colMap e = .ok v → v ≠ .Null →
      BlobsHarmless v (firstColumn rows)
  | .error f => (∃ v, evalWhere engine.query fts env row colMap e = .ok v ∧ v ≠ .Null) ∨
      evalWhere engine.query fts env row colMap e = .error f

-- Every subquery that is taken for uncorrelated answers.
def Runs : Expr → Prop
  | .InSubquery _ subquery _ =>
      referencesOuter subquery outerCols = false → ∃ rows, engine.query env.outerRows subquery = .ok rows
  | .BinaryOp left _ right => Runs left ∧ Runs right
  | .UnaryOp _ e => Runs e
  | .Nested e => Runs e
  | _ => True

-- The left operand has a value with which the right one is evaluated.
def PassesOn (left : Expr) (op : BinaryOperator) : Prop :=
  ∃ l, evalWhere engine.query fts env row colMap left = .ok l ∧
    (op = .And → l = .Null ∨ l.isTruthy = true) ∧ (op = .Or → l = .Null ∨ l.isTruthy = false)

-- The subqueries that are taken for uncorrelated are it, and harmless where the row asks for them. Those that it
-- does not ask for answer.
def Harmless : Expr → Prop
  | .InSubquery e subquery _ => referencesOuter subquery outerCols = false →
      Uncorrelated engine colMap subquery ∧ NodeHarmless engine fts env row colMap e subquery
  | .BinaryOp left .FtsMatch right =>
      Runs engine env outerCols left ∧ Runs engine env outerCols right ∧ Harmless right
  | .BinaryOp left op right => Harmless left ∧ (Runs engine env outerCols left →
      (PassesOn engine fts env row colMap left op → Harmless right) ∧
      (Runs engine env outerCols right ∨ PassesOn engine fts env row colMap left op))
  | .UnaryOp _ e => Harmless e
  | .Nested e => Harmless e
  | _ => True

variable {engine fts env outerCols row colMap}

theorem preserved_node_iff (e : Expr) {subquery : SelectStmt} (negated : Bool)
    (hfree : Uncorrelated engine colMap subquery) :
    Preserved engine.query fts env outerCols row colMap (.InSubquery e subquery negated) ↔
      (referencesOuter subquery outerCols = false → NodeHarmless engine fts env row colMap e subquery) := by
  have hframe := engine.frame env.outerRows row colMap subquery hfree
  unfold Preserved NodeHarmless
  simp only [rewrite]
  by_cases href : referencesOuter subquery outerCols = true
  · simp [href, bind, Except.bind, pure, Except.pure]
  · rw [Bool.not_eq_true] at href
    simp only [href, Bool.false_eq_true, if_false, true_implies]
    cases hlisted : engine.query env.outerRows subquery with
    | error f =>
        cases heval : evalWhere engine.query fts env row colMap e with
        | error g => simp [evalWhere, heval, bind, Except.bind, eq_comm]
        | ok v =>
            by_cases hnull : v = .Null
            · simp [evalWhere, heval, evalInSubquery, hnull, bind, Except.bind, pure, Except.pure]
            · simp [evalWhere, heval, evalInSubquery, hnull, hframe, hlisted, bind, Except.bind]
    | ok rows =>
        cases heval : evalWhere engine.query fts env row colMap e with
        | error g => simp [evalWhere, heval, bind, Except.bind, pure, Except.pure]
        | ok v =>
            by_cases hnull : v = .Null
            · simp [evalWhere, heval, evalInSubquery, hnull, bind, Except.bind, pure, Except.pure]
            · simp [evalWhere, heval, evalInSubquery, hnull, hframe, hlisted, bind, Except.bind, pure,
                Except.pure, evalInList_literals, inValues_eq_iff, answersAlike_iff]

theorem evalWhere_binary_congr {left left' right right' : Expr} (op : BinaryOperator)
    (hl : evalWhere engine.query fts env row colMap left' = evalWhere engine.query fts env row colMap left)
    (hr : evalWhere engine.query fts env row colMap right' = evalWhere engine.query fts env row colMap right) :
    evalWhere engine.query fts env row colMap (.BinaryOp left' op right') =
      evalWhere engine.query fts env row colMap (.BinaryOp left op right) := by
  cases op <;> simp only [evalWhere, hl, hr]

theorem evalWhere_left_error {left right : Expr} {op : BinaryOperator} {f : Fault} (hop : op ≠ .FtsMatch)
    (hl : evalWhere engine.query fts env row colMap left = .error f) :
    evalWhere engine.query fts env row colMap (.BinaryOp left op right) = .error f := by
  cases op <;> first | exact absurd rfl hop | (simp only [evalWhere, hl]; rfl)

theorem evalWhere_right_error {left right : Expr} {op : BinaryOperator} {f : Fault} (hop : op ≠ .FtsMatch)
    (hl : PassesOn engine fts env row colMap left op)
    (hr : evalWhere engine.query fts env row colMap right = .error f) :
    evalWhere engine.query fts env row colMap (.BinaryOp left op right) = .error f := by
  obtain ⟨l, hl, hand, hor⟩ := hl
  cases op with
  | FtsMatch => exact absurd rfl hop
  | And =>
      have hpass : ¬(l ≠ .Null ∧ (!l.isTruthy) = true) := by rcases hand rfl with h | h <;> simp [h]
      simp only [evalWhere, hl, hr, bind, Except.bind, if_neg hpass]
  | Or =>
      have hpass : ¬(l ≠ .Null ∧ l.isTruthy = true) := by rcases hor rfl with h | h <;> simp [h]
      simp only [evalWhere, hl, hr, bind, Except.bind, if_neg hpass]
  | _ => simp only [evalWhere, hl, hr, bind, Except.bind]

-- An operand that is not evaluated may be any.
theorem evalWhere_unreached {left left' right right' : Expr} {op : BinaryOperator} (hop : op ≠ .FtsMatch)
    (hl : evalWhere engine.query fts env row colMap left' = evalWhere engine.query fts env row colMap left)
    (hstop : ¬PassesOn engine fts env row colMap left op) :
    evalWhere engine.query fts env row colMap (.BinaryOp left' op right') =
      evalWhere engine.query fts env row colMap (.BinaryOp left op right) := by
  cases hleft : evalWhere engine.query fts env row colMap left with
  | error f => rw [evalWhere_left_error hop (hl.trans hleft), evalWhere_left_error hop hleft]
  | ok l =>
      cases op with
      | And =>
          have hstopped : l ≠ .Null ∧ (!l.isTruthy) = true := by
            by_contra h
            refine hstop ⟨l, hleft, fun _ => ?_, fun h => by cases h⟩
            by_cases hnull : l = .Null
            · exact .inl hnull
            · exact .inr (by simpa [hnull] using h)
          simp only [evalWhere, hl, hleft, bind, Except.bind, if_pos hstopped]
      | Or =>
          have hstopped : l ≠ .Null ∧ l.isTruthy = true := by
            by_contra h
            refine hstop ⟨l, hleft, (fun h => by cases h), fun _ => ?_⟩
            by_cases hnull : l = .Null
            · exact .inl hnull
            · exact .inr (by simpa [hnull] using h)
          simp only [evalWhere, hl, hleft, bind, Except.bind, if_pos hstopped]
      | _ => exact absurd ⟨l, hleft, (fun h => by cases h), fun h => by cases h⟩ hstop

theorem harmless_binary {left right : Expr} {op : BinaryOperator} (hop : op ≠ .FtsMatch) :
    Harmless engine fts env outerCols row colMap (.BinaryOp left op right) ↔
      Harmless engine fts env outerCols row colMap left ∧ (Runs engine env outerCols left →
        (PassesOn engine fts env row colMap left op → Harmless engine fts env outerCols row colMap right) ∧
        (Runs engine env outerCols right ∨ PassesOn engine fts env row colMap left op)) := by
  cases op <;> first | exact absurd rfl hop | exact Iff.rfl

theorem rewrite_runs {e : Expr} (h : Runs engine env outerCols e) :
    ∃ e', rewrite engine.query env.outerRows outerCols e = .ok e' := by
  fun_induction rewrite engine.query env.outerRows outerCols e with
  | case1 e subquery negated href => exact ⟨_, rfl⟩
  | case2 e subquery negated href =>
      obtain ⟨rows, hrows⟩ := h (by simpa using href)
      exact ⟨_, by rw [hrows]; rfl⟩
  | case3 left op right ihl ihr =>
      obtain ⟨l, hl⟩ := ihl h.1
      obtain ⟨r, hr⟩ := ihr h.2
      exact ⟨.BinaryOp l op r, by rw [hl, hr]; rfl⟩
  | case4 op e ih =>
      obtain ⟨e', he⟩ := ih h
      exact ⟨.UnaryOp op e', by rw [he]; rfl⟩
  | case5 e ih =>
      obtain ⟨e', he⟩ := ih h
      exact ⟨.Nested e', by rw [he]; rfl⟩
  | case6 e => exact ⟨e, rfl⟩

-- Where all subqueries answer the rewriting keeps the value, and else it fails as the row does.
theorem rewrite_sound (e : Expr) (h : Harmless engine fts env outerCols row colMap e) :
    (Runs engine env outerCols e → ∃ e', rewrite engine.query env.outerRows outerCols e = .ok e' ∧
      evalWhere engine.query fts env row colMap e' = evalWhere engine.query fts env row colMap e) ∧
    (¬Runs engine env outerCols e → ∃ f, rewrite engine.query env.outerRows outerCols e = .error f ∧
      evalWhere engine.query fts env row colMap e = .error f) := by
  fun_induction rewrite engine.query env.outerRows outerCols e with
  | case1 e subquery negated href =>
      exact ⟨fun _ => ⟨_, rfl, rfl⟩, fun hruns => absurd (fun hfalse => by simp [href] at hfalse) hruns⟩
  | case2 e subquery negated href =>
      rw [Bool.not_eq_true] at href
      have hnode : Preserved engine.query fts env outerCols row colMap (.InSubquery e subquery negated) :=
        (preserved_node_iff e negated (h href).1).mpr fun _ => (h href).2
      simp only [Preserved, rewrite, href] at hnode
      constructor
      · intro hruns
        obtain ⟨rows, hrows⟩ := hruns href
        simp only [hrows] at hnode
        exact ⟨_, by rw [hrows]; rfl, hnode⟩
      · intro hruns
        cases hrows : engine.query env.outerRows subquery with
        | ok rows => exact absurd (fun _ => ⟨rows, hrows⟩) hruns
        | error f =>
            simp only [hrows] at hnode
            exact ⟨f, rfl, hnode.symm⟩
  | case3 left op right ihl ihr =>
      by_cases hop : op = .FtsMatch
      · subst hop
        obtain ⟨hl, hr, hright⟩ := h
        obtain ⟨l, hrunl⟩ := rewrite_runs hl
        obtain ⟨r, hrunr, hevalr⟩ := (ihr hright).1 hr
        refine ⟨fun _ => ⟨.BinaryOp l .FtsMatch r, by rw [hrunl, hrunr]; rfl, ?_⟩, fun hruns => absurd ⟨hl, hr⟩ hruns⟩
        simp only [evalWhere, hevalr]
      · obtain ⟨hleft, hrest⟩ := (harmless_binary hop).mp h
        by_cases hl : Runs engine env outerCols left
        · obtain ⟨l, hrunl, hevall⟩ := (ihl hleft).1 hl
          obtain ⟨hright, hor⟩ := hrest hl
          by_cases hpass : PassesOn engine fts env row colMap left op
          · constructor
            · intro hruns
              obtain ⟨r, hrunr, hevalr⟩ := (ihr (hright hpass)).1 hruns.2
              exact ⟨.BinaryOp l op r, by rw [hrunl, hrunr]; rfl, evalWhere_binary_congr op hevall hevalr⟩
            · intro hruns
              obtain ⟨f, hrunr, hevalr⟩ := (ihr (hright hpass)).2 fun hr => hruns ⟨hl, hr⟩
              exact ⟨f, by rw [hrunl, hrunr]; rfl, evalWhere_right_error hop hpass hevalr⟩
          · have hr := hor.resolve_right hpass
            obtain ⟨r, hrunr⟩ := rewrite_runs hr
            refine ⟨fun _ => ⟨.BinaryOp l op r, by rw [hrunl, hrunr]; rfl, ?_⟩, fun hruns => absurd ⟨hl, hr⟩ hruns⟩
            exact evalWhere_unreached hop hevall hpass
        · obtain ⟨f, hrunl, hevall⟩ := (ihl hleft).2 hl
          refine ⟨fun hruns => absurd hruns.1 hl, fun _ => ⟨f, by rw [hrunl]; rfl, evalWhere_left_error hop hevall⟩⟩
  | case4 op e ih =>
      constructor
      · intro hruns
        obtain ⟨e', he, heval⟩ := (ih h).1 hruns
        exact ⟨.UnaryOp op e', by rw [he]; rfl, by simp only [evalWhere, heval]⟩
      · intro hruns
        obtain ⟨f, he, heval⟩ := (ih h).2 hruns
        exact ⟨f, by rw [he]; rfl, by simp only [evalWhere, heval]; rfl⟩
  | case5 e ih =>
      constructor
      · intro hruns
        obtain ⟨e', he, heval⟩ := (ih h).1 hruns
        exact ⟨.Nested e', by rw [he]; rfl, by simp only [evalWhere, heval]⟩
      · intro hruns
        obtain ⟨f, he, heval⟩ := (ih h).2 hruns
        exact ⟨f, by rw [he]; rfl, by simp only [evalWhere, heval]⟩
  | case6 e hsub hbin hunary hnested =>
      have hruns : Runs engine env outerCols e := by
        cases e with
        | InSubquery inner subquery negated => exact (hsub inner subquery negated rfl).elim
        | BinaryOp left op right => exact (hbin left op right rfl).elim
        | UnaryOp op inner => exact (hunary op inner rfl).elim
        | Nested inner => exact (hnested inner rfl).elim
        | _ => trivial
      exact ⟨fun _ => ⟨e, rfl, rfl⟩, fun h => absurd hruns h⟩

end Rewriting

section Free

def freeColumn (colMap : ColMap) (table : Option String) (column : String) : List (List Char) :=
  let qualified := table.map fun t => lowerBytes t ++ '.' :: lowerBytes column
  let names := [column.toList, toAsciiLowercase column]
  if (qualified.bind fun name => colMap.lookup name).isSome then []
  else qualified.toList ++ if (names.findSome? fun name => colMap.lookup name).isSome then [] else names

mutual

def freeOf (colMap : ColMap) : Expr → List (List Char)
  | .ColumnRef table column => freeColumn colMap table column
  | .BinaryOp _ .FtsMatch _ => []
  | .BinaryOp left _ right => freeOf colMap left ++ freeOf colMap right
  | .UnaryOp _ e => freeOf colMap e
  | .IsNull e _ => freeOf colMap e
  | .InList e list _ => freeOf colMap e ++ freeOfList colMap list
  | .Between e low high _ => freeOf colMap e ++ (freeOf colMap low ++ freeOf colMap high)
  | .Nested e => freeOf colMap e
  | _ => []

def freeOfList (colMap : ColMap) : List Expr → List (List Char)
  | [] => []
  | e :: es => freeOf colMap e ++ freeOfList colMap es

end

def under (env : EvalEnv) (outer : List (Row × ColMap)) : EvalEnv := { env with outerRows := outer }

variable {env : EvalEnv} {outer : List (Row × ColMap)} {p : Row × ColMap} {row : Row} {colMap : ColMap}

theorem findOuter_push {names : List (List Char)} (h : ∀ name ∈ names, p.2.lookup name = none) :
    EvalEnv.findOuter names (outer ++ [p]).reverse = EvalEnv.findOuter names outer.reverse := by
  have hnone : (names.findSome? fun name => p.2.lookup name) = none := List.findSome?_eq_none_iff.mpr h
  rw [List.reverse_append, List.reverse_singleton, List.singleton_append, EvalEnv.findOuter, hnone]

theorem columnRef_push {table : Option String} {column : String}
    (h : ∀ name ∈ freeColumn colMap table column, p.2.lookup name = none) :
    (under env (outer ++ [p])).columnRef table column row colMap =
      (under env outer).columnRef table column row colMap := by
  unfold freeColumn at h
  unfold EvalEnv.columnRef under
  generalize table.map (fun t => lowerBytes t ++ '.' :: lowerBytes column) = qualified at h ⊢
  generalize [column.toList, toAsciiLowercase column] = names at h ⊢
  cases hown : qualified.bind fun name => colMap.lookup name with
  | some index => simp only [hown]
  | none =>
      simp only [hown, Option.isSome_none, Bool.false_eq_true, if_false] at h
      have houter : (qualified.bind fun name => EvalEnv.findOuter [name] (outer ++ [p]).reverse) =
          qualified.bind fun name => EvalEnv.findOuter [name] outer.reverse := by
        cases qualified with
        | none => rfl
        | some name => exact findOuter_push fun other hmem => h other (List.mem_append_left _ hmem)
      simp only [houter]
      cases hcolumn : names.findSome? fun name => colMap.lookup name with
      | some index => rfl
      | none =>
          simp only [hcolumn, Option.isSome_none, Bool.false_eq_true, if_false] at h
          simp only [findOuter_push fun name hmem => h name (List.mem_append_right _ hmem)]

theorem applyBinaryOp_under (op : BinaryOperator) (l r : Value) :
    (under env outer).applyBinaryOp op l r = env.applyBinaryOp op l r := rfl

mutual

theorem evalExpr_push (e : Expr) (h : ∀ name ∈ freeOf colMap e, p.2.lookup name = none) :
    (under env (outer ++ [p])).evalExpr e row colMap = (under env outer).evalExpr e row colMap := by
  cases e with
  | ColumnRef table column => exact columnRef_push h
  | BinaryOp left op right =>
      cases op with
      | FtsMatch => rfl
      | _ =>
          have hl := evalExpr_push left fun name hmem => h name (List.mem_append_left _ hmem)
          have hr := evalExpr_push right fun name hmem => h name (List.mem_append_right _ hmem)
          simp only [EvalEnv.evalExpr, hl, hr, applyBinaryOp_under]
  | UnaryOp op e => simp only [EvalEnv.evalExpr, evalExpr_push e h]
  | IsNull e negated => simp only [EvalEnv.evalExpr, evalExpr_push e h]
  | InList e list negated =>
      have he := evalExpr_push e fun name hmem => h name (List.mem_append_left _ hmem)
      have hlist := evalInList_push list fun name hmem => h name (List.mem_append_right _ hmem)
      simp only [EvalEnv.evalExpr, he, hlist]
  | Between e low high negated =>
      have he := evalExpr_push e fun name hmem => h name (List.mem_append_left _ hmem)
      have hlow := evalExpr_push low fun name hmem =>
        h name (List.mem_append_right _ (List.mem_append_left _ hmem))
      have hhigh := evalExpr_push high fun name hmem =>
        h name (List.mem_append_right _ (List.mem_append_right _ hmem))
      simp only [EvalEnv.evalExpr, he, hlow, hhigh]
  | Nested e => exact evalExpr_push e h
  | _ => rfl

theorem evalInList_push (list : List Expr) (h : ∀ name ∈ freeOfList colMap list, p.2.lookup name = none)
    (v : Value) (negated hasNull : Bool) :
    (under env (outer ++ [p])).evalInList v list negated hasNull row colMap =
      (under env outer).evalInList v list negated hasNull row colMap := by
  cases list with
  | nil => rfl
  | cons item list =>
      have hitem := evalExpr_push item fun name hmem => h name (List.mem_append_left _ hmem)
      have hlist := evalInList_push list fun name hmem => h name (List.mem_append_right _ hmem)
      simp only [EvalEnv.evalInList, hitem, hlist]

end

end Free

def passesWhere (env : EvalEnv) (whereClause : Option Expr) (colMap : ColMap) (row : Row) : Res Bool :=
  match whereClause with
  | some e => do
      let v ← env.evalExpr e row colMap
      return v.isTruthy
  | none => return true

def evalColumn (env : EvalEnv) (colMap : ColMap) (row : Row) : SelectColumn → Res Value
  | .Expr e _ => env.evalExpr e row colMap
  | _ => .ok .Null

-- `exec_select` on statements that filter one table and project.
def tableQuery (tables : String → Option (ColMap × List Row)) (env : EvalEnv) : QueryRunner := fun outer stmt =>
  match stmt.fromClause with
  | some (.Table name _) =>
      match tables name with
      | some (colMap, rows) => do
          let kept ← rows.filterM (passesWhere (under env outer) stmt.whereClause colMap)
          kept.mapM fun row => stmt.columns.mapM (evalColumn (under env outer) colMap row)
      | none => .error (.Err (.TableNotFound name))
  | _ => .ok [[]]

def tableFreeNames (tables : String → Option (ColMap × List Row)) (stmt : SelectStmt) : List (List Char) :=
  match stmt.fromClause with
  | some (.Table name _) =>
      match tables name with
      | some (colMap, _) => stmt.whereClause.elim [] (freeOf colMap) ++ stmt.columns.flatMap fun column =>
          match column with
          | .Expr e _ => freeOf colMap e
          | _ => []
      | none => []
  | _ => []

theorem tableQuery_frame (tables : String → Option (ColMap × List Row)) (env : EvalEnv)
    (outer : List (Row × ColMap)) (p : Row × ColMap) (stmt : SelectStmt)
    (h : ∀ name ∈ tableFreeNames tables stmt, p.2.lookup name = none) :
    tableQuery tables env (outer ++ [p]) stmt = tableQuery tables env outer stmt := by
  unfold tableFreeNames at h
  unfold tableQuery
  cases hfrom : stmt.fromClause with
  | none => rfl
  | some fromClause =>
      cases fromClause with
      | Table name aliasName =>
          simp only [hfrom] at h ⊢
          cases htable : tables name with
          | none => rfl
          | some table =>
              simp only [htable] at h ⊢
              have hkept : passesWhere (under env (outer ++ [p])) stmt.whereClause table.1 =
                  passesWhere (under env outer) stmt.whereClause table.1 := by
                funext row
                cases hwhere : stmt.whereClause with
                | none => rfl
                | some e =>
                    rw [passesWhere, passesWhere, evalExpr_push e fun name hmem =>
                      h name (List.mem_append_left _ (by rw [hwhere]; exact hmem))]
              rw [hkept]
              refine bind_congr_ok fun kept _ => mapM_congr fun row _ => mapM_congr fun column hcolumn => ?_
              cases column with
              | Expr e aliasName =>
                  exact evalExpr_push e fun name hmem =>
                    h name (List.mem_append_right _ (List.mem_flatMap.mpr ⟨_, hcolumn, hmem⟩))
              | _ => rfl
      | _ => rfl

def tableEngine (tables : String → Option (ColMap × List Row)) (env : EvalEnv) : SubqueryEngine where
  query := tableQuery tables env
  freeNames := tableFreeNames tables
  frame outer row colMap stmt h := tableQuery_frame tables env outer (row, colMap) stmt h

def columnsOnly : EvalEnv where
  params := []
  outerRows := []
  operator _ _ _ := .ok .Null
  other _ _ _ := .ok .Null

def uTable (ys : List Value) (name : String) : Option (ColMap × List Row) :=
  if name = "u" then some (buildColMap ["y"], ys.map fun y => [y]) else none

def selectY (whereClause : Option Expr) : SelectStmt where
  distinct := false
  columns := [.Expr (.ColumnRef none "y") none]
  fromClause := some (.Table "u" none)
  whereClause := whereClause
  groupBy := []
  having := none
  orderBy := []
  limit := none
  offset := none
  ctes := []
  windowDefs := []
  forUpdate := false

end Subquery

end Kkdb
