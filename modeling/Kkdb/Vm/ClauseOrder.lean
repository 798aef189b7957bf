import Kkdb.Lib.State
import Kkdb.Vm.Pipeline

namespace Kkdb.Evaluator

open Lib

variable (ev : Evaluator)

section Reference

variable (q : SelectStmt) (windowFuncs : List Expr) (colMap : ColMap) (colNames : List String)

def plan : List Proj := (projectionPlan ev.realText colNames colMap q.columns).map (·.2)

def resultOf {α : Type} (x : EvalM α) (ctx : EvalCtx) : Option α :=
  match x ctx with
  | .ok a _ => some a
  | .error _ _ => none

def keysAt (ctx : EvalCtx) (row : Row) : Option (List Value) :=
  q.orderBy.mapM fun item => resultOf (ev.evalExpr item.expr row colMap) ctx

def windowsOf (rows : List (Int64 × Row)) : Option (List (List Value)) :=
  resultOf (ev.windowTable colMap windowFuncs q.windowDefs (rows.map (·.2))) ⟨0, none, 0⟩

-- The rows of the select list, each evaluated with its own id and its own window values.
def projectionOf (windows : List (List Value)) (rows : List (Int64 × Row)) : Option (List Row) :=
  if isIdentity colNames (ev.plan q colMap colNames) ∧ windowFuncs = [] then some (rows.map (·.2))
  else rows.zipIdx.mapM fun (p, i) =>
    (ev.plan q colMap colNames).mapM fun item =>
      resultOf (ev.evalProj colMap p.2 item) ⟨p.1, some windows, i⟩

def limited (limit : Option Nat) (skipped : Nat) (rows : List Row) : List Row :=
  match limit with
  | some count => (rows.drop skipped).take count
  | none => rows.drop skipped

-- The clauses in the order of their meaning, over the rows that pass WHERE. Each key of ORDER BY has a value, and
-- rows with equal keys may come in any order.
def Answers (kept : List (Int64 × Row)) (limit : Option Nat) (skipped : Nat) (result : List Row) : Prop :=
  ∃ (arranged : List (Int64 × Row)) (windows keys : List (List Value)) (projected : List Row),
    arranged.Perm kept ∧ (q.orderBy = [] → arranged = kept) ∧
    ev.windowsOf q windowFuncs colMap arranged = some windows ∧
    (arranged.zipIdx.mapM fun (p, i) => ev.keysAt q colMap ⟨p.1, some windows, i⟩ p.2) = some keys ∧
    (keys.Pairwise fun a b => compareKeys q.orderBy a b ≠ .gt) ∧
    ev.projectionOf q windowFuncs colMap colNames windows arranged = some projected ∧
    result = limited limit skipped (if q.distinct then projected.eraseDups else projected)

end Reference

section Condition

variable (q : SelectStmt) (windowFuncs : List Expr) (colMap : ColMap) (colNames : List String)
  (ids : List Int64) (kept : List (Int64 × Row))

def keyOf (p : Int64 × Row) : List Value := (ev.keysAt q colMap ⟨p.1, none, 0⟩ p.2).getD []

-- The keys are expressions over the source: none is a position or the alias of another expression.
def KeysOverSource : Prop :=
  ∀ item ∈ q.orderBy, (∀ n, item.expr ≠ .IntegerLiteral n) ∧ ∀ column e aliasName,
    item.expr = .ColumnRef none column → .Expr e (some aliasName) ∈ q.columns →
      toAsciiLowercase aliasName = toAsciiLowercase column → e = item.expr

def AtRow (windows : List (List Value)) (i : Nat) (ctx : EvalCtx) : Prop :=
  ctx.windowResults = some windows ∧ ctx.currentWindowRowIdx = i

abbrev Constant {α : Type} (x : EvalM α) (a : α) : Prop := Settles (fun _ => True) x a

-- Each ORDER BY key has a value, and none depends on the context; or none depends on more than the row id, and
-- WHERE has removed no row before another, so that the ids of the source rows are those of the rows.
def KeysSettle : Prop :=
  (∀ p ∈ kept, ∀ item ∈ q.orderBy, ∃ v, Constant (ev.evalExpr item.expr p.2 colMap) v) ∨
    (∀ (i : Nat) p, kept[i]? = some p → ids.getD i 0 = p.1) ∧
      ∀ p ∈ kept, ∀ item ∈ q.orderBy, ∃ v,
        Settles (fun ctx => ctx.currentRowid = p.1) (ev.evalExpr item.expr p.2 colMap) v

-- No item of the select list depends on the context; or none depends on more than the window values, and none
-- changes them.
def ItemsSettle : Prop :=
  (∀ p ∈ kept, ∀ item ∈ ev.plan q colMap colNames, ∃ v, Constant (ev.evalProj colMap p.2 item) v) ∨
    windowFuncs ≠ [] ∧ ∀ (arranged : List (Int64 × Row)) windows, arranged.Perm kept →
      ev.windowsOf q windowFuncs colMap arranged = some windows →
      ∀ (i : Nat) p, arranged[i]? = some p → ∀ item ∈ ev.plan q colMap colNames, ∃ v,
        Settles (AtRow windows i) (ev.evalProj colMap p.2 item) v

structure InOrder (limit : Option Nat) (skipped : Nat) : Prop where
  limits : Constant (ev.rowLimit q.limit) limit
  offsets : Constant (ev.skippedRows q.offset) skipped
  windows : ∀ arranged : List (Int64 × Row), arranged.Perm kept → ∃ windows,
    Constant (ev.windowTable colMap windowFuncs q.windowDefs (arranged.map (·.2))) windows
  source : KeysOverSource q
  keys : ev.KeysSettle q colMap ids kept
  items : ev.ItemsSettle q windowFuncs colMap colNames kept
  -- the keys have no NaN and no numbers that compare in a circle
  total : TotalOn (fun a b => compareKeys q.orderBy (ev.keyOf q colMap a) (ev.keyOf q colMap b)) kept
  -- the sort keeps all rows, or neither windows nor duplicates need the others
  cut : ∀ count, limit = some count → q.orderBy ≠ [] → count + skipped < kept.length →
    0 < count + skipped → windowFuncs = [] ∧ q.distinct = false
  -- no two different rows have one key
  distinct : q.distinct = true → ∀ (arranged : List (Int64 × Row)) windows projected, arranged.Perm kept →
    ev.windowsOf q windowFuncs colMap arranged = some windows →
    ev.projectionOf q windowFuncs colMap colNames windows arranged = some projected →
    ∀ r ∈ projected, ∀ r' ∈ projected, ev.rowKey r = ev.rowKey r' → r = r'

end Condition

section Settling

variable {ev} {q : SelectStmt} {windowFuncs : List Expr} {colMap : ColMap} {colNames : List String}
  {ids : List Int64} {kept : List (Int64 × Row)} {adm : EvalCtx → Prop}

theorem resultOf_settles {α : Type} {x : EvalM α} {a : α} {ctx : EvalCtx} (h : Settles adm x a)
    (hadm : adm ctx) :
    resultOf x ctx = some a := by
  obtain ⟨ctx', hrun, -⟩ := h ctx hadm
  rw [resultOf, hrun]

theorem settles_evalOrNull {e : Expr} {row : Row} {v : Value} (h : Settles adm (ev.evalExpr e row colMap) v) :
    Settles adm (ev.evalOrNull e row colMap) v := by
  intro ctx hadm
  obtain ⟨ctx', hrun, hadm'⟩ := h ctx hadm
  exact ⟨ctx', by rw [evalOrNull, hrun], hadm'⟩

theorem settles_sortKeys {row : Row} {items : List OrderByItem} {ctx : EvalCtx} (hadm : adm ctx)
    (h : ∀ item ∈ items, ∃ v, Settles adm (ev.evalExpr item.expr row colMap) v) :
    ∃ keys, items.mapM (fun item => resultOf (ev.evalExpr item.expr row colMap) ctx) = some keys ∧
      Settles adm (ev.sortKeys colMap row items) keys := by
  induction items with
  | nil => exact ⟨[], rfl, Settles.pure []⟩
  | cons item items ih =>
      obtain ⟨v, hv⟩ := h item List.mem_cons_self
      obtain ⟨keys, hkeys, hrest⟩ := ih fun other hmem => h other (List.mem_cons_of_mem _ hmem)
      refine ⟨v :: keys, ?_, (settles_evalOrNull hv).bind (hrest.bind (Settles.pure _))⟩
      rw [List.mapM_cons, resultOf_settles hv hadm, hkeys]
      rfl

-- The contexts in which the keys of a row are evaluated, here and in the arrangement, agree on them.
theorem keys_context (h : ev.KeysSettle q colMap ids kept) {i : Nat} {p : Int64 × Row}
    (hp : kept[i]? = some p) :
    ∃ adm : EvalCtx → Prop, (∀ ctx : EvalCtx, adm { ctx with currentRowid := ids.getD i 0 }) ∧
      (∀ windows k, adm ⟨p.1, windows, k⟩) ∧
      ∀ item ∈ q.orderBy, ∃ v, Settles adm (ev.evalExpr item.expr p.2 colMap) v := by
  rcases h with hfree | ⟨haligned, hkeys⟩
  · exact ⟨fun _ => True, fun _ => trivial, fun _ _ => trivial, hfree p (List.mem_of_getElem? hp)⟩
  · refine ⟨fun ctx => ctx.currentRowid = p.1, fun _ => haligned i p hp, fun _ _ => rfl, ?_⟩
    exact hkeys p (List.mem_of_getElem? hp)

theorem keysAt_eq_keyOf (h : ev.KeysSettle q colMap ids kept) {p : Int64 × Row} (hp : p ∈ kept)
    (windows : Option (List (List Value))) (k : Nat) :
    ev.keysAt q colMap ⟨p.1, windows, k⟩ p.2 = some (ev.keyOf q colMap p) := by
  obtain ⟨i, hi⟩ := List.mem_iff_getElem?.mp hp
  obtain ⟨adm, -, hown, hsettle⟩ := keys_context h hi
  obtain ⟨keys, hkeys, hrun⟩ := settles_sortKeys (hown windows k) hsettle
  obtain ⟨keys', hkeys', hrun'⟩ := settles_sortKeys (hown none 0) hsettle
  obtain ⟨ctx₁, h₁, -⟩ := hrun _ (hown none 0)
  obtain ⟨ctx₂, h₂, -⟩ := hrun' _ (hown none 0)
  rw [h₁] at h₂
  cases h₂
  rw [keyOf, keysAt, keysAt, hkeys, hkeys', Option.getD_some]

theorem constant_keyedRows (h : ev.KeysSettle q colMap ids kept) (before ps : List (Int64 × Row))
    (hkept : kept = before ++ ps) :
    Constant (ev.keyedRows colMap q.orderBy ids before.length (ps.map (·.2)))
      (ps.map fun p => (ev.keyOf q colMap p, p.2)) := by
  induction ps generalizing before with
  | nil => exact Settles.pure []
  | cons p ps ih =>
      have hp : kept[before.length]? = some p := by rw [hkept]; simp
      obtain ⟨adm, hset, hown, hsettle⟩ := keys_context h hp
      have hrest := ih (before ++ [p]) (by rw [hkept, List.append_assoc]; rfl)
      rw [List.length_append, List.length_singleton] at hrest
      obtain ⟨keys, hkeys, hsort⟩ := settles_sortKeys (hown none 0) hsettle
      have hkey : ev.keyOf q colMap p = keys := by rw [keyOf, keysAt, hkeys, Option.getD_some]
      intro ctx _
      obtain ⟨ctx₁, hrun, -⟩ := hsort { ctx with currentRowid := ids.getD before.length 0 } (hset ctx)
      obtain ⟨ctx₂, hrun', -⟩ := hrest ctx₁ trivial
      refine ⟨ctx₂, ?_, trivial⟩
      rw [← hkey] at hrun
      rw [List.map_cons, keyedRows, setRowid, modify_bind, bind_ok hrun, bind_ok hrun']
      rfl

end Settling

section Counts

theorem limitOf_le {v : Value} {count : Nat} (h : SelectStmt.limitOf v = some count) : count < 2 ^ 63 := by
  cases v with
  | Integer n =>
      rw [SelectStmt.limitOf] at h
      split_ifs at h
      cases h
      have := n.toInt_lt
      omega
  | _ => cases h

theorem offsetCount_le (v : Value) : SelectStmt.offsetCount v < 2 ^ 63 := by
  cases v with
  | Integer n =>
      have := n.toInt_lt
      rw [SelectStmt.offsetCount]
      omega
  | _ => exact Nat.two_pow_pos 63

variable {ev} {limit offset : Option Expr} {count : Option Nat} {skipped : Nat}

theorem rowLimit_le {ctx ctx' : EvalCtx} (h : ev.rowLimit limit ctx = .ok count ctx') :
    ∀ n, count = some n → n < 2 ^ 63 := by
  cases limit with
  | none =>
      cases h
      intro n hn
      cases hn
  | some e =>
      cases hv : ev.evalConst e ctx with
      | ok v ctx₁ =>
          rw [rowLimit, bind_ok hv] at h
          cases h
          exact fun n hn => limitOf_le hn
      | error fault ctx₁ =>
          rw [rowLimit, bind_error hv] at h
          cases h

theorem skippedRows_le {ctx ctx' : EvalCtx} (h : ev.skippedRows offset ctx = .ok skipped ctx') :
    skipped < 2 ^ 63 := by
  cases offset with
  | none =>
      cases h
      exact Nat.two_pow_pos 63
  | some e =>
      cases hv : ev.evalConst e ctx with
      | ok v ctx₁ =>
          rw [skippedRows, bind_ok hv] at h
          cases h
          exact offsetCount_le v
      | error fault ctx₁ =>
          rw [skippedRows, bind_error hv] at h
          cases h

-- Counts of rows are too small for their sum to saturate.
theorem constant_topNLimit (hlimit : Constant (ev.rowLimit limit) count)
    (hoffset : Constant (ev.skippedRows offset) skipped) :
    Constant (ev.topNLimit limit offset) (count.map (· + skipped)) := by
  apply hlimit.bind
  cases count with
  | none => exact Settles.pure none
  | some n =>
      apply hoffset.bind
      obtain ⟨_, hl, -⟩ := hlimit ⟨0, none, 0⟩ trivial
      obtain ⟨_, ho, -⟩ := hoffset ⟨0, none, 0⟩ trivial
      have hn := rowLimit_le hl n rfl
      have hskipped := skippedRows_le ho
      have hmin : min (n + skipped) SelectStmt.usizeMax = n + skipped := by
        rw [SelectStmt.usizeMax]
        omega
      rw [hmin]
      exact Settles.pure _

end Counts

section Sorting

variable {ev} {q : SelectStmt} {windowFuncs : List Expr} {colMap : ColMap} {colNames : List String}
  {ids : List Int64} {kept : List (Int64 × Row)} {limit : Option Nat} {skipped : Nat}

-- What the sort leaves begins an arrangement of all rows that the keys allow.
structure Arrangement (ev : Evaluator) (q : SelectStmt) (colMap : ColMap) (kept arranged : List (Int64 × Row))
    (limit : Option Nat) (skipped n : Nat) : Prop where
  perm : arranged.Perm kept
  source : q.orderBy = [] → arranged = kept
  sorted : (arranged.map (ev.keyOf q colMap)).Pairwise fun a b => compareKeys q.orderBy a b ≠ .gt
  whole : n = kept.length ∨ ∃ count, limit = some count ∧ q.orderBy ≠ [] ∧ n = count + skipped ∧ n < kept.length

theorem preSort_arranges (h : ev.InOrder q windowFuncs colMap colNames ids kept limit skipped) :
    ∃ arranged n, Arrangement ev q colMap kept arranged limit skipped n ∧
      Constant (ev.preSort colMap q ids (kept.map (·.2))) ((arranged.take n).map (·.2)) := by
  by_cases horder : q.orderBy = []
  · refine ⟨kept, kept.length, ⟨List.Perm.refl kept, fun _ => rfl, ?_, .inl rfl⟩, ?_⟩
    · rw [horder]
      exact List.pairwise_of_forall fun a b => by simp [compareKeys]
    · rw [preSort, if_pos horder, List.take_length]
      exact Settles.pure _
  · have hcount := constant_topNLimit h.limits h.offsets
    have hkeyed := constant_keyedRows h.keys [] kept rfl
    have htotal : TotalOn (compareKeyed q.orderBy) (kept.map fun p => (ev.keyOf q colMap p, p.2)) :=
      TotalOn.map (f := fun p : Int64 × Row => (ev.keyOf q colMap p, p.2)) h.total
    obtain ⟨ys, rest, htop, hperm, hsorted, hlen⟩ := topN_prefix ev.sort htotal (limit.map (· + skipped))
    -- the rows behind the sorted keys, with their ids
    obtain ⟨arranged, heq, hperm⟩ : ∃ arranged : List (Int64 × Row),
        ys ++ rest = arranged.map (fun p => (ev.keyOf q colMap p, p.2)) ∧ arranged.Perm kept := by
      have hcomp : (fun xs ys => xs.Perm (ys.map fun p : Int64 × Row => (ev.keyOf q colMap p, p.2)))
          (ys ++ rest) kept := hperm
      rw [← List.eq_map_comp_perm] at hcomp
      exact hcomp
    rw [List.length_map] at hlen
    have hfront : ys = (arranged.take ys.length).map fun p => (ev.keyOf q colMap p, p.2) := by
      rw [List.map_take, ← heq, List.take_left]
    refine ⟨arranged, ys.length, ⟨hperm, fun he => absurd he horder, ?_, ?_⟩, ?_⟩
    · rw [Sorted, heq, List.pairwise_map] at hsorted
      exact List.pairwise_map.mpr hsorted
    · cases limit with
      | none => exact .inl hlen
      | some count =>
          by_cases hcut : count + skipped < kept.length
          · exact .inr ⟨count, rfl, horder, by rw [hlen]; exact Nat.min_eq_right hcut.le,
              by rw [hlen]; exact Nat.lt_of_le_of_lt (Nat.min_le_right _ _) hcut⟩
          · exact .inl (hlen.trans (Nat.min_eq_left (Nat.le_of_not_lt hcut)))
    · rw [preSort, if_neg horder]
      apply hcount.bind
      apply hkeyed.bind
      rw [htop]
      have hrows : (arranged.take ys.length).map (·.2) = ys.map (·.2) := by
        conv_rhs => rw [hfront]
        rw [List.map_map]
        rfl
      rw [hrows]
      exact Settles.pure _

end Sorting

section Projecting

variable {ev} {q : SelectStmt} {windowFuncs : List Expr} {colMap : ColMap} {colNames : List String}
  {ids : List Int64} {kept : List (Int64 × Row)} {limit : Option Nat} {skipped : Nat}

theorem settles_projectRow {adm : EvalCtx → Prop} {row : Row} {items : List Proj} {ctx : EvalCtx}
    (hadm : adm ctx)
    (h : ∀ item ∈ items, ∃ v, Settles adm (ev.evalProj colMap row item) v) :
    ∃ out, items.mapM (fun item => resultOf (ev.evalProj colMap row item) ctx) = some out ∧
      Settles adm (ev.projectRow colMap row items) out := by
  induction items with
  | nil => exact ⟨[], rfl, Settles.pure []⟩
  | cons item items ih =>
      obtain ⟨v, hv⟩ := h item List.mem_cons_self
      obtain ⟨out, hout, hrest⟩ := ih fun other hmem => h other (List.mem_cons_of_mem _ hmem)
      refine ⟨v :: out, ?_, hv.bind (hrest.bind (Settles.pure _))⟩
      rw [List.mapM_cons, resultOf_settles hv hadm, hout]
      rfl

-- The contexts in which the select list is evaluated for a row settle its items. Between two rows the contexts
-- are those of the base.
def RowSettles (ev : Evaluator) (colMap : ColMap) (items : List Proj) (base : EvalCtx → Prop)
    (windows : List (List Value)) (i : Nat) (p : Int64 × Row) : Prop :=
  ∃ adm : EvalCtx → Prop, (∀ ctx : EvalCtx, base ctx → adm { ctx with currentWindowRowIdx := i }) ∧
    (∀ ctx, adm ctx → base ctx) ∧ adm ⟨p.1, some windows, i⟩ ∧
    ∀ item ∈ items, ∃ v, Settles adm (ev.evalProj colMap p.2 item) v

theorem settles_projectRows (base : EvalCtx → Prop) (windows : List (List Value)) (items : List Proj)
    (start : Nat)
    (ps : List (Int64 × Row))
    (h : ∀ (i : Nat) p, ps[i]? = some p → RowSettles ev colMap items base windows (start + i) p) :
    ∃ outs, (ps.zipIdx start).mapM (fun (p, i) => items.mapM fun item =>
        resultOf (ev.evalProj colMap p.2 item) ⟨p.1, some windows, i⟩) = some outs ∧ outs.length = ps.length ∧
      ∀ n, Settles base (ev.projectRows colMap items start ((ps.take n).map (·.2))) (outs.take n) := by
  induction ps generalizing start with
  | nil => exact ⟨[], rfl, rfl, fun n => by rw [List.take_nil, List.take_nil]; exact Settles.pure []⟩
  | cons p ps ih =>
      have hhead := h 0 p rfl
      rw [Nat.add_zero] at hhead
      obtain ⟨adm, hset, hback, hown, hitems⟩ := hhead
      obtain ⟨out, hout, hrow⟩ := settles_projectRow hown hitems
      obtain ⟨outs, houts, hlen, hrows⟩ := ih (start + 1) fun i p' hp' => by
        rw [Nat.add_right_comm]
        exact h (i + 1) p' hp'
      refine ⟨out :: outs, ?_, by rw [List.length_cons, List.length_cons, hlen], fun n => ?_⟩
      · rw [List.zipIdx_cons, List.mapM_cons, houts]
        simp only [hout]
        rfl
      · cases n with
        | zero => exact Settles.pure []
        | succ n =>
            intro ctx hbase
            obtain ⟨ctx₁, hrun, hadm⟩ := hrow _ (hset ctx hbase)
            obtain ⟨ctx₂, hrun', hbase'⟩ := hrows n ctx₁ (hback ctx₁ hadm)
            refine ⟨ctx₂, ?_, hbase'⟩
            rw [List.take_succ_cons, List.map_cons, projectRows, modify_bind, bind_ok hrun, bind_ok hrun']
            rfl

-- Whether some of the rows may be cut off before the projection.
def CutAllowed (windowFuncs : List Expr) (n length : Nat) : Prop := windowFuncs = [] ∨ n = 0 ∨ length ≤ n

-- The windows of the rows before the cut are those of all rows, unless there are none to compute.
theorem windows_of_front {arranged : List (Int64 × Row)} {n : Nat}
    (hcut : CutAllowed windowFuncs n arranged.length)
    {windows : List (List Value)}
    (hwindows : Constant (ev.windowTable colMap windowFuncs q.windowDefs (arranged.map (·.2))) windows) :
    ∃ front, Constant (ev.windowTable colMap windowFuncs q.windowDefs ((arranged.take n).map (·.2))) front ∧
      (windowFuncs ≠ [] → n = 0 ∨ front = windows) := by
  by_cases hfuncs : windowFuncs = []
  · refine ⟨((arranged.take n).map (·.2)).map fun _ => [], ?_, fun hne => absurd hfuncs hne⟩
    rw [windowTable, if_pos hfuncs]
    exact Settles.pure _
  · rcases hcut with hnone | hzero | hle
    · exact absurd hnone hfuncs
    · refine ⟨[], ?_, fun _ => .inl hzero⟩
      rw [windowTable, if_neg hfuncs, hzero]
      exact Settles.pure []
    · exact ⟨windows, by rw [List.take_of_length_le hle]; exact hwindows, fun _ => .inr rfl⟩

theorem constant_projectColumns {arranged : List (Int64 × Row)} {n : Nat} (hperm : arranged.Perm kept)
    {windows : List (List Value)}
    (hwindows : Constant (ev.windowTable colMap windowFuncs q.windowDefs (arranged.map (·.2))) windows)
    (hitems : ev.ItemsSettle q windowFuncs colMap colNames kept)
    (hcut : CutAllowed windowFuncs n arranged.length) :
    ∃ projected, ev.projectionOf q windowFuncs colMap colNames windows arranged = some projected ∧
      projected.length = arranged.length ∧
      Constant (ev.projectColumns colMap windowFuncs q.windowDefs colNames (ev.plan q colMap colNames)
        ((arranged.take n).map (·.2))) (projected.take n) := by
  have hof : ev.windowsOf q windowFuncs colMap arranged = some windows := resultOf_settles hwindows trivial
  by_cases hid : isIdentity colNames (ev.plan q colMap colNames) = true ∧ windowFuncs = []
  · refine ⟨arranged.map Prod.snd, if_pos hid, List.length_map _, ?_⟩
    rw [projectColumns, if_pos hid, ← List.map_take]
    exact Settles.pure _
  · obtain ⟨front, hfront, hsame⟩ := windows_of_front hcut hwindows
    simp only [projectionOf, projectColumns, if_neg hid]
    rcases hitems with hfree | ⟨hfuncs, hquiet⟩
    · obtain ⟨outs, houts, hlen, hrows⟩ := settles_projectRows (fun _ => True) windows
        (ev.plan q colMap colNames) 0 arranged fun i p hp =>
          ⟨fun _ => True, fun _ _ => trivial, fun _ _ => trivial, trivial,
            hfree p (hperm.mem_iff.mp (List.mem_of_getElem? hp))⟩
      refine ⟨outs, houts, hlen, hfront.bind ?_⟩
      intro ctx _
      exact hrows n { ctx with windowResults := some front } trivial
    · obtain ⟨outs, houts, hlen, hrows⟩ :=
          settles_projectRows (fun ctx => ctx.windowResults = some windows) windows
        (ev.plan q colMap colNames) 0 arranged fun i p hp =>
          ⟨AtRow windows (0 + i), fun _ hbase => ⟨hbase, rfl⟩, fun _ hat => hat.1, ⟨rfl, rfl⟩,
            by rw [Nat.zero_add]; exact hquiet arranged windows hperm hof i p hp⟩
      refine ⟨outs, houts, hlen, hfront.bind ?_⟩
      intro ctx _
      rcases hsame hfuncs with rfl | rfl
      · exact ⟨_, rfl, trivial⟩
      · obtain ⟨ctx', hrun, -⟩ := hrows n { ctx with windowResults := some front } rfl
        exact ⟨ctx', hrun, trivial⟩

end Projecting

section Result

variable {ev} {q : SelectStmt} {windowFuncs : List Expr} {colMap : ColMap} {colNames : List String}
  {ids : List Int64} {kept : List (Int64 × Row)} {limit : Option Nat} {skipped : Nat}

theorem retainNew_eq (seen : List (List UInt8)) {rows : List Row}
    (h : ∀ r ∈ rows, ∀ r' ∈ rows, ev.rowKey r = ev.rowKey r' → r = r') :
    ev.retainNew seen rows = (rows.filter fun r => decide (ev.rowKey r ∉ seen)).eraseDups := by
  induction rows generalizing seen with
  | nil => rfl
  | cons row rows ih =>
      have htail : ∀ r ∈ rows, ∀ r' ∈ rows, ev.rowKey r = ev.rowKey r' → r = r' :=
        fun r hr r' hr' => h r (List.mem_cons_of_mem _ hr) r' (List.mem_cons_of_mem _ hr')
      rw [retainNew_cons]
      split_ifs with hseen
      · rw [ih seen htail, List.filter_cons_of_neg (by simpa using hseen)]
      · rw [ih _ htail, List.filter_cons_of_pos (by simpa using hseen), List.eraseDups_cons, List.filter_filter]
        congr 2
        apply List.filter_congr
        intro r hr
        have hkey : ev.rowKey r = ev.rowKey row ↔ r = row :=
          ⟨h r (List.mem_cons_of_mem _ hr) row List.mem_cons_self, fun heq => by rw [heq]⟩
        simp [hkey, not_or, beq_eq_decide]

theorem applyDistinct_eq (h : ev.InOrder q windowFuncs colMap colNames ids kept limit skipped)
    {arranged : List (Int64 × Row)} {windows : List (List Value)} {projected : List Row}
    (hperm : arranged.Perm kept) (hwindows : ev.windowsOf q windowFuncs colMap arranged = some windows)
    (hprojected : ev.projectionOf q windowFuncs colMap colNames windows arranged = some projected) :
    ev.applyDistinct q.distinct projected = if q.distinct then projected.eraseDups else projected := by
  rw [applyDistinct]
  split_ifs with hdistinct
  · rw [retainNew_eq [] (h.distinct hdistinct arranged windows projected hperm hwindows hprojected)]
    simp
  · rfl

theorem cutAllowed_of_inOrder (h : ev.InOrder q windowFuncs colMap colNames ids kept limit skipped)
    {arranged : List (Int64 × Row)} {n : Nat} (harr : Arrangement ev q colMap kept arranged limit skipped n) :
    CutAllowed windowFuncs n arranged.length := by
  rcases harr.whole with hwhole | ⟨count, hlimit, horder, rfl, hlt⟩
  · exact .inr (.inr (by rw [harr.perm.length_eq, hwhole]))
  · rcases Nat.eq_zero_or_pos (count + skipped) with hzero | hpos
    · exact .inr (.inl hzero)
    · exact .inl (h.cut count hlimit horder hlt hpos).1

theorem limited_take (count skipped : Nat) (rows : List Row) :
    limited (some count) skipped (rows.take (count + skipped)) = limited (some count) skipped rows := by
  simp only [limited, List.drop_take, Nat.add_sub_cancel, List.take_take, Nat.min_self]

theorem limited_front (h : ev.InOrder q windowFuncs colMap colNames ids kept limit skipped)
    {arranged : List (Int64 × Row)} {n : Nat} (harr : Arrangement ev q colMap kept arranged limit skipped n)
    {projected : List Row} (hlen : projected.length = arranged.length) :
    limited limit skipped (ev.applyDistinct q.distinct (projected.take n)) =
      limited limit skipped (ev.applyDistinct q.distinct projected) := by
  rcases harr.whole with hwhole | ⟨count, rfl, horder, rfl, hlt⟩
  · rw [hwhole, ← harr.perm.length_eq, ← hlen, List.take_length]
  · rcases Nat.eq_zero_or_pos (count + skipped) with hzero | hpos
    · have hcount : count = 0 := by omega
      simp only [hcount, limited, List.take_zero]
    · have hplain := (h.cut count rfl horder hlt hpos).2
      simp only [applyDistinct, hplain, Bool.false_eq_true, if_false]
      exact limited_take count skipped projected

theorem constant_limited (hlimit : Constant (ev.rowLimit q.limit) limit)
    (hoffset : Constant (ev.skippedRows q.offset) skipped) (rows : List Row) (names : List String) :
    Constant (do
      let output ← ev.applyOffset q.offset rows
      let output ← ev.applyLimit q.limit output
      return ({ rows := output, cols := names } : Source)) { rows := limited limit skipped rows, cols :=
        names } := by
  have hdrop : Constant (ev.applyOffset q.offset rows) (rows.drop skipped) := hoffset.bind (Settles.pure _)
  have htake : Constant (ev.applyLimit q.limit (rows.drop skipped)) (limited limit skipped rows) := by
    apply hlimit.bind
    cases limit <;> exact Settles.pure _
  exact hdrop.bind (htake.bind (Settles.pure _))

theorem keys_arranged (h : ev.KeysSettle q colMap ids kept) {arranged : List (Int64 × Row)}
    (hmem : ∀ p ∈ arranged, p ∈ kept) (windows : List (List Value)) (start : Nat) :
    ((arranged.zipIdx start).mapM fun (p, i) => ev.keysAt q colMap ⟨p.1, some windows, i⟩ p.2) =
      some (arranged.map (ev.keyOf q colMap)) := by
  induction arranged generalizing start with
  | nil => rfl
  | cons p arranged ih =>
      have hrest := ih (fun p' hp' => hmem p' (List.mem_cons_of_mem _ hp')) (start + 1)
      rw [List.zipIdx_cons, List.mapM_cons, hrest]
      simp only [keysAt_eq_keyOf h (hmem p List.mem_cons_self) (some windows) start]
      rfl

theorem selectRows_inOrder {source : Source} {ctx ctx₁ : EvalCtx}
    (hwhere : ev.whereRows colMap q.whereClause (withIds ids source.rows) ctx = .ok kept ctx₁)
    (h : ev.InOrder q windowFuncs colMap source.cols ids kept limit skipped) :
    ∃ result ctx', ev.selectRows q windowFuncs colMap ids source ctx = .ok result ctx' ∧
      ev.Answers q windowFuncs colMap source.cols kept limit skipped result.rows := by
  obtain ⟨arranged, n, harr, hsorted⟩ := preSort_arranges h
  obtain ⟨windows, hwindows⟩ := h.windows arranged harr.perm
  have hof : ev.windowsOf q windowFuncs colMap arranged = some windows := resultOf_settles hwindows trivial
  obtain ⟨projected, hprojected, hlen, hrows⟩ :=
    constant_projectColumns harr.perm hwindows h.items (cutAllowed_of_inOrder h harr)
  have hlimited := constant_limited h.limits h.offsets (ev.applyDistinct q.distinct (projected.take n))
    ((projectionPlan ev.realText source.cols colMap q.columns).map (·.1))
  have hkept : Constant (ev.selectKept q windowFuncs colMap ids source.cols (kept.map (·.2)))
      { rows := limited limit skipped (ev.applyDistinct q.distinct (projected.take n))
        cols := (projectionPlan ev.realText source.cols colMap q.columns).map (·.1) } := by
    apply hsorted.bind
    apply hrows.bind
    exact hlimited
  obtain ⟨ctx', hrun, -⟩ := hkept ctx₁ trivial
  refine ⟨_, ctx', by rw [selectRows, bind_ok hwhere, hrun], arranged, windows, _, projected, harr.perm,
    harr.source, hof, keys_arranged h.keys (fun p hp => harr.perm.mem_iff.mp hp) windows 0, harr.sorted,
    hprojected, ?_⟩
  rw [limited_front h harr hlen, applyDistinct_eq h harr.perm hof hprojected]

-- A statement without grouping and aggregates answers with its clauses in order.
theorem execPlain_inOrder (ev : Evaluator) (q : SelectStmt) (colMap : ColMap) (ids : List Int64)
    (source : Source)
    (kept : List (Int64 × Row)) (limit : Option Nat) (skipped : Nat) (ctx ctx₁ : EvalCtx)
    (hwhere : ev.whereRows colMap q.whereClause (withIds ids source.rows) ctx = .ok kept ctx₁)
    (h : ev.InOrder q.extractWindows.1 q.extractWindows.2 colMap source.cols ids kept limit skipped) :
    ∃ result ctx', ev.execPlain q colMap ids source ctx = .ok result ctx' ∧
      ev.Answers q.extractWindows.1 q.extractWindows.2 colMap source.cols kept limit skipped result.rows :=
  selectRows_inOrder hwhere h

end Result

section OneColumn

def columns : Evaluator where
  evalExpr e row colMap := fun ctx =>
    match columnsEnv.evalExpr e row colMap with
    | .ok v => .ok v ctx
    | .error fault => .error fault ctx
  evalWindowFunctions _ rows _ _ := return rows.map fun _ => []
  realText _ := "r"
  keyText := oneText
  sort := SortOps.sorting _

-- `SELECT * FROM t ORDER BY v LIMIT 2`, for a table with the single column `v`.
def leastTwo (distinct : Bool) : SelectStmt where
  distinct := distinct
  columns := [.AllColumns]
  fromClause := some (.Table "t" none)
  whereClause := none
  groupBy := []
  having := none
  orderBy := [⟨.ColumnRef none "v", true, none⟩]
  limit := some (.IntegerLiteral 2)
  offset := none
  ctes := []
  windowDefs := []
  forUpdate := false

def startCtx : EvalCtx := ⟨0, none, 0⟩

def vSource (vs : List Int64) : Source := { rows := vs.map fun v => [.Integer v], cols := ["v"] }

theorem execPlain_inOrder_leastTwo :
    ∃ result ctx', columns.execPlain (leastTwo false) (buildColMap ["v"]) [1, 2, 3]
      (vSource [3, 1, 2]) startCtx =
        .ok result ctx' ∧
      columns.Answers (leastTwo false).extractWindows.1 (leastTwo false).extractWindows.2
        (buildColMap ["v"]) ["v"]
        (withIds [1, 2, 3] (vSource [3, 1, 2]).rows) (some 2) 0 result.rows := by
  apply execPlain_inOrder columns (leastTwo false) (buildColMap ["v"]) [1, 2, 3] (vSource [3, 1, 2])
    (withIds [1, 2, 3] (vSource [3, 1, 2]).rows) (some 2) 0 startCtx startCtx rfl
  exact
    { limits := fun ctx _ => ⟨ctx, rfl, trivial⟩
      offsets := fun ctx _ => ⟨ctx, rfl, trivial⟩
      windows := fun arranged _ => ⟨_, fun ctx _ => ⟨ctx, rfl, trivial⟩⟩
      source := fun item hitem => by
        cases List.mem_singleton.mp hitem
        refine ⟨fun n h => (by cases h), fun column e aliasName _ hcolumn => ?_⟩
        cases List.mem_singleton.mp hcolumn
      keys := .inl fun p _ item hitem => by
        cases List.mem_singleton.mp hitem
        exact ⟨p.2.getD 0 .Null, fun ctx _ => ⟨ctx, rfl, trivial⟩⟩
      items := .inl fun p _ item hitem => by
        cases List.mem_singleton.mp hitem
        exact ⟨p.2.getD 0 .Null, Settles.pure _⟩
      total := ⟨by decide, by decide, by decide⟩
      cut := fun _ _ _ _ _ => ⟨rfl, rfl⟩
      distinct := fun h => by cases h }

-- `SELECT DISTINCT * FROM t ORDER BY v LIMIT 2` has both values of three rows for an answer. The sort keeps two
-- rows of one value.
theorem topN_before_distinct :
    ∃ result ctx', columns.execPlain (leastTwo true) (buildColMap ["v"]) [1, 2, 3]
      (vSource [1, 1, 2]) startCtx =
        .ok result ctx' ∧
      ¬columns.Answers (leastTwo true).extractWindows.1 (leastTwo true).extractWindows.2
        (buildColMap ["v"]) ["v"]
        (withIds [1, 2, 3] (vSource [1, 1, 2]).rows) (some 2) 0 result.rows := by
  refine ⟨{ rows := [[.Integer 1]], cols := ["v"] }, ⟨3, none, 0⟩, rfl, ?_⟩
  rintro ⟨arranged, windows, keys, projected, hperm, -, -, -, -, hprojected, hresult⟩
  have hrows : projected = arranged.map (·.2) := Option.some.inj (hprojected.symm.trans (if_pos ⟨rfl, rfl⟩))
  have hmem : ∀ row ∈ (vSource [1, 1, 2]).rows, row ∈ projected.eraseDups := by
    intro row hrow
    have hkept : row ∈ (withIds [1, 2, 3] (vSource [1, 1, 2]).rows).map (·.2) := hrow
    rw [List.mem_eraseDups, hrows]
    exact (hperm.map (·.2)).mem_iff.mpr hkept
  have h1 := hmem [.Integer 1] (by decide)
  have h2 := hmem [.Integer 2] (by decide)
  have htake : [[.Integer 1]] = (projected.eraseDups.drop 0).take 2 := hresult
  -- two different rows are in the list, of which the first two are one
  match hdups : projected.eraseDups with
  | [] => rw [hdups] at h1; cases h1
  | [row] =>
      rw [hdups, List.mem_singleton] at h1 h2
      rw [← h1] at h2
      exact absurd h2 (by decide)
  | _ :: _ :: _ => rw [hdups] at htake; simp at htake

end OneColumn

end Kkdb.Evaluator
