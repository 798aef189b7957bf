import Kkdb.Error
import Kkdb.Lib.State
import Mathlib.Data.List.Lookmap

namespace Kkdb.QueryCompiler

open Lib

inductive CodeOp where
  | LoadConst (v : Int64)
  | LoadCol (idx : Nat)
  | Add
  | Sub
  | Mul
  | Div
  | Eq
  | Lt
  | Gt
  | And
  | Or
  | Not
  | Store (register : Nat)
  deriving DecidableEq, Repr

structure CompiledExpr where
  ops : List CodeOp
  outputRegister : Nat
  deriving DecidableEq, Repr

def checked (v : Int) : Res Int64 :=
  if Int64.minValue.toInt ≤ v ∧ v ≤ Int64.maxValue.toInt then .ok (Int64.ofInt v) else .error .Panic

def add (a b : Int64) : Res Int64 := checked (a.toInt + b.toInt)

def sub (a b : Int64) : Res Int64 := checked (a.toInt - b.toInt)

def mul (a b : Int64) : Res Int64 := checked (a.toInt * b.toInt)

def div (a b : Int64) : Res Int64 := checked (a.toInt.tdiv b.toInt)

def truth (p : Bool) : Int64 := if p then 1 else 0

-- Two values come off the stack, each zero if it is empty, and the result goes on it.
def binary (f : Int64 → Int64 → Res Int64) (stack : List Int64) : Res (List Int64) := do
  let b := stack.headD 0
  let a := stack.tail.headD 0
  let r ← f a b
  return r :: stack.tail.tail

-- One instruction of `eval`. The top of the stack is the head of the list.
def CodeOp.step (row stack : List Int64) : CodeOp → Res (List Int64)
  | LoadConst v => return v :: stack
  | LoadCol idx => return row.getD idx 0 :: stack
  | Add => binary add stack
  | Sub => binary sub stack
  | Mul => binary mul stack
  | Div => binary (fun a b => if b ≠ 0 then div a b else return 0) stack
  | Eq => binary (fun a b => return truth (a = b)) stack
  | Lt => binary (fun a b => return truth (a < b)) stack
  | Gt => binary (fun a b => return truth (a > b)) stack
  | And => binary (fun a b => return truth (a ≠ 0 ∧ b ≠ 0)) stack
  | Or => binary (fun a b => return truth (a ≠ 0 ∨ b ≠ 0)) stack
  | Not => return truth (stack.headD 0 = 0) :: stack.tail
  | Store _ => return stack

def runOps (row : List Int64) (ops : List CodeOp) (stack : List Int64) : Res (List Int64) :=
  ops.foldlM (CodeOp.step row) stack

def CompiledExpr.eval (e : CompiledExpr) (row : List Int64) : Res Int64 := do
  let stack ← runOps row e.ops []
  return stack.headD 0

-- A column whose value is known is loaded as a constant.
def CodeOp.specialize (constants : List (Nat × Int64)) : CodeOp → CodeOp
  | LoadCol idx =>
      match constants.lookup idx with
      | some v => LoadConst v
      | none => LoadCol idx
  | op => op

def specialize (e : CompiledExpr) (constants : List (Nat × Int64)) : CompiledExpr where
  ops := e.ops.map (CodeOp.specialize constants)
  outputRegister := e.outputRegister

-- What two constants and an instruction fold to. A quotient by zero is left to `eval`.
def foldWindow : CodeOp → CodeOp → CodeOp → Res (Option Int64)
  | .LoadConst a, .LoadConst b, .Add => (add a b).map some
  | .LoadConst a, .LoadConst b, .Sub => (sub a b).map some
  | .LoadConst a, .LoadConst b, .Mul => (mul a b).map some
  | .LoadConst a, .LoadConst b, .Div => if b ≠ 0 then (div a b).map some else .ok none
  | _, _, _ => .ok none

-- The inner loop of `peephole_fold` from a position on, and whether it changed something. A folded window is
-- looked at again, an earlier position is not.
def sweep : List CodeOp → Res (List CodeOp × Bool)
  | first :: second :: third :: rest =>
      match foldWindow first second third with
      | .error e => .error e
      | .ok (some r) => do
          let swept ← sweep (.LoadConst r :: rest)
          return (swept.1, true)
      | .ok none => do
          let swept ← sweep (second :: third :: rest)
          return (first :: swept.1, swept.2)
  | ops => .ok (ops, false)
termination_by ops => ops.length

section Sweeping

variable {row stack : List Int64} {first second third op : CodeOp} {ops rest : List CodeOp}
  {swept : List CodeOp × Bool} {r : Int64} {e : Fault}

theorem foldWindow_cases (h : foldWindow first second third ≠ .ok none) :
    ∃ (a b : Int64) (f : Int64 → Int64 → Res Int64), first = .LoadConst a ∧ second = .LoadConst b ∧
      foldWindow first second third = Except.map some (f a b) ∧
      ∀ row stack, third.step row (b :: a :: stack) = Except.map (· :: stack) (f a b) := by
  cases first with
  | LoadConst a =>
      cases second with
      | LoadConst b =>
          cases third with
          | Add =>
              refine ⟨a, b, add, rfl, rfl, rfl, fun row stack => ?_⟩
              rw [CodeOp.step, binary, List.headD_cons, List.tail_cons, List.headD_cons]
              cases add a b <;> rfl
          | Sub =>
              refine ⟨a, b, sub, rfl, rfl, rfl, fun row stack => ?_⟩
              rw [CodeOp.step, binary, List.headD_cons, List.tail_cons, List.headD_cons]
              cases sub a b <;> rfl
          | Mul =>
              refine ⟨a, b, mul, rfl, rfl, rfl, fun row stack => ?_⟩
              rw [CodeOp.step, binary, List.headD_cons, List.tail_cons, List.headD_cons]
              cases mul a b <;> rfl
          | Div =>
              have hb : b ≠ 0 := fun hzero => h (if_neg (not_not.mpr hzero))
              refine ⟨a, b, div, rfl, rfl, if_pos hb, fun row stack => ?_⟩
              rw [CodeOp.step, binary, List.headD_cons, List.tail_cons, List.headD_cons, if_pos hb]
              cases div a b <;> rfl
          | _ => exact absurd rfl h
      | _ => exact absurd rfl h
  | _ => exact absurd rfl h

theorem runOps_cons : runOps row (op :: ops) stack = (op.step row stack).bind (runOps row ops) := by
  rw [runOps, List.foldlM_cons]
  rfl

theorem runOps_window {a b : Int64} :
    runOps row (.LoadConst a :: .LoadConst b :: third :: rest) stack =
      (third.step row (b :: a :: stack)).bind (runOps row rest) := by
  rw [runOps_cons, CodeOp.step]
  exact runOps_cons.trans runOps_cons

theorem runOps_folded (h : foldWindow first second third = .ok (some r)) :
    runOps row (first :: second :: third :: rest) stack = runOps row (.LoadConst r :: rest) stack := by
  obtain ⟨a, b, f, rfl, rfl, hfold, hstep⟩ :=
    @foldWindow_cases first second third (by rw [h]; exact fun hnone => nomatch hnone)
  rw [h] at hfold
  rw [runOps_window, hstep]
  cases hr : f a b with
  | error e =>
      rw [hr] at hfold
      cases hfold
  | ok v =>
      rw [hr] at hfold
      obtain rfl := Option.some.inj (Except.ok.inj hfold)
      rfl

theorem runOps_unfoldable (h : foldWindow first second third = .error e) :
    runOps row (first :: second :: third :: rest) stack = .error e := by
  obtain ⟨a, b, f, rfl, rfl, hfold, hstep⟩ :=
    @foldWindow_cases first second third (by rw [h]; exact fun hnone => nomatch hnone)
  rw [h] at hfold
  rw [runOps_window, hstep]
  cases hr : f a b with
  | ok v =>
      rw [hr] at hfold
      cases hfold
  | error e' =>
      rw [hr] at hfold
      rw [Except.error.inj hfold]
      rfl

-- One pass changes nothing of what the instructions do, and a change makes them fewer.
theorem sweep_runs (h : sweep ops = .ok swept) :
    (∀ row stack, runOps row swept.1 stack = runOps row ops stack) ∧ swept.1.length ≤ ops.length ∧
      (swept.2 = true → swept.1.length < ops.length) := by
  fun_induction sweep ops generalizing swept with
  | case1 first second third rest e hfold => cases h
  | case2 first second third rest r hfold ih =>
      obtain ⟨inner, hinner, hswept⟩ := ok_of_bind h
      obtain rfl := Except.ok.inj hswept
      obtain ⟨hruns, hle, -⟩ := ih hinner
      refine ⟨fun row stack => (hruns row stack).trans (runOps_folded hfold).symm, ?_, fun _ => ?_⟩
      all_goals
        simp only [List.length_cons] at hle ⊢
        omega
  | case3 first second third rest hfold ih =>
      obtain ⟨inner, hinner, hswept⟩ := ok_of_bind h
      obtain rfl := Except.ok.inj hswept
      obtain ⟨hruns, hle, hless⟩ := ih hinner
      refine ⟨fun row stack => ?_, Nat.succ_le_succ hle, fun hchanged => Nat.succ_lt_succ (hless hchanged)⟩
      rw [runOps_cons, runOps_cons]
      cases first.step row stack with
      | error e => rfl
      | ok stack => exact hruns row stack
  | case4 ops hshort =>
      obtain rfl := Except.ok.inj h
      exact ⟨fun _ _ => rfl, Nat.le_refl _, fun hchanged => absurd hchanged Bool.false_ne_true⟩

-- Where the pass panics, so does the evaluation, at the window or before it.
theorem sweep_fails (h : sweep ops = .error e) (row stack : List Int64) :
    ∃ e', runOps row ops stack = .error e' := by
  fun_induction sweep ops generalizing stack with
  | case1 first second third rest e' hfold => exact ⟨e', runOps_unfoldable hfold⟩
  | case2 first second third rest r hfold ih =>
      rw [runOps_folded hfold]
      cases hinner : sweep (.LoadConst r :: rest) with
      | error e' => exact ih (hinner.trans (congrArg _ (by rw [hinner] at h; exact Except.error.inj h))) stack
      | ok inner =>
          rw [hinner] at h
          cases h
  | case3 first second third rest hfold ih =>
      rw [runOps_cons]
      cases hinner : sweep (second :: third :: rest) with
      | ok inner =>
          rw [hinner] at h
          cases h
      | error e' =>
          rw [hinner] at h
          cases first.step row stack with
          | error e'' => exact ⟨e'', rfl⟩
          | ok stack => exact ih (hinner.trans (congrArg _ (Except.error.inj h))) stack
  | case4 ops hshort => cases h

end Sweeping

-- The outer loop of `peephole_fold`.
def foldAll (ops : List CodeOp) : Res (List CodeOp) :=
  match _hswept : sweep ops with
  | .error e => .error e
  | .ok (swept, true) => foldAll swept
  | .ok (swept, false) => .ok swept
termination_by ops.length
decreasing_by exact (sweep_runs _hswept).2.2 rfl

def peepholeFold (e : CompiledExpr) : Res CompiledExpr := do
  let ops ← foldAll e.ops
  return { ops := ops, outputRegister := e.outputRegister }

section Passes

variable {row stack : List Int64} {ops folded : List CodeOp} {e : Fault}

theorem foldAll_runs (h : foldAll ops = .ok folded) (row stack : List Int64) :
    runOps row folded stack = runOps row ops stack := by
  fun_induction foldAll ops with
  | case1 ops e hswept => cases h
  | case2 ops swept hswept ih => exact (ih h).trans ((sweep_runs hswept).1 row stack)
  | case3 ops swept hswept =>
      obtain rfl := Except.ok.inj h
      exact (sweep_runs hswept).1 row stack

theorem foldAll_fails (h : foldAll ops = .error e) (row stack : List Int64) :
    ∃ e', runOps row ops stack = .error e' := by
  fun_induction foldAll ops with
  | case1 ops e' hswept => exact sweep_fails hswept row stack
  | case2 ops swept hswept ih =>
      obtain ⟨e', he'⟩ := ih h
      exact ⟨e', ((sweep_runs hswept).1 row stack).symm.trans he'⟩
  | case3 ops swept hswept => cases h

variable {constants : List (Nat × Int64)}

theorem specialize_step (hagrees : ∀ idx v, constants.lookup idx = some v → row.getD idx 0 = v) (op : CodeOp) :
    (op.specialize constants).step row stack = op.step row stack := by
  cases op with
  | LoadCol idx =>
      rw [CodeOp.specialize]
      cases hlookup : constants.lookup idx with
      | none => rfl
      | some v => rw [CodeOp.step, CodeOp.step, hagrees idx v hlookup]
  | _ => rfl

theorem specialize_runs (hagrees : ∀ idx v, constants.lookup idx = some v → row.getD idx 0 = v)
    (ops : List CodeOp) (stack : List Int64) :
    runOps row (ops.map (CodeOp.specialize constants)) stack = runOps row ops stack := by
  induction ops generalizing stack with
  | nil => rfl
  | cons op ops ih =>
      rw [List.map_cons, runOps_cons, runOps_cons, specialize_step hagrees]
      cases op.step row stack with
      | error e => rfl
      | ok stack => exact ih stack

end Passes

-- Folding and specializing leave what an expression evaluates to, failures included, and folding fails only
-- where the evaluation does.
theorem passes_eval (e : CompiledExpr) (row : List Int64) :
    (∀ folded, peepholeFold e = .ok folded → folded.eval row = e.eval row) ∧
      (∀ f, peepholeFold e = .error f → ∃ f', e.eval row = .error f') ∧
      ∀ constants : List (Nat × Int64),
        (∀ idx v, constants.lookup idx = some v → row.getD idx 0 = v) →
        (specialize e constants).eval row = e.eval row := by
  refine ⟨fun folded h => ?_, fun f h => ?_, fun constants hagrees => ?_⟩
  · obtain ⟨ops, hops, hfolded⟩ := ok_of_bind h
    obtain rfl := Except.ok.inj hfolded
    rw [CompiledExpr.eval, CompiledExpr.eval, foldAll_runs hops]
  · cases hops : foldAll e.ops with
    | ok ops =>
        rw [peepholeFold, hops] at h
        cases h
    | error f' =>
        obtain ⟨f'', hrun⟩ := foldAll_fails hops row []
        exact ⟨f'', by rw [CompiledExpr.eval, hrun]; rfl⟩
  · rw [CompiledExpr.eval, CompiledExpr.eval, specialize, specialize_runs hagrees]

def sumExpr : CompiledExpr where
  ops := [.LoadConst 3, .LoadConst 7, .Add, .LoadCol 1, .Mul]
  outputRegister := 0

theorem passes_eval_sum : (specialize sumExpr [(1, 42)]).eval [10, 42] = sumExpr.eval [10, 42] := by
  refine (passes_eval sumExpr [10, 42]).2.2 [(1, 42)] fun idx v hlookup => ?_
  by_cases hidx : idx = 1
  · subst hidx
    exact Option.some.inj hlookup
  · rw [List.lookup_cons, beq_eq_false_iff_ne.mpr hidx] at hlookup
    cases hlookup

end Kkdb.QueryCompiler
