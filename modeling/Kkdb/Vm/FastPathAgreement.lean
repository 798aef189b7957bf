import Kkdb.Vm.FastPaths

namespace Kkdb.Names

open Lib Evaluator

section Matched

variable {ε σ τ α β γ δ : Type}

-- Both calls answer, and alike, or both fail with the same error.
def Matched (Q : α → β → σ → τ → Prop) (r : EStateM.Result ε σ α) (r' : EStateM.Result ε τ β) : Prop :=
  (∃ a s b t, r = .ok a s ∧ r' = .ok b t ∧ Q a b s t) ∨ ∃ e s t, r = .error e s ∧ r' = .error e t

theorem Matched.refl {Q : α → α → σ → σ → Prop} {r : EStateM.Result ε σ α} (h : ∀ a s, Q a a s s) :
    Matched Q r r := by
  cases r with
  | ok a s => exact .inl ⟨a, s, a, s, rfl, rfl, h a s⟩
  | error e s => exact .inr ⟨e, s, s, rfl, rfl⟩

theorem Matched.mono {Q R : α → β → σ → τ → Prop} {r : EStateM.Result ε σ α} {r' : EStateM.Result ε τ β}
    (h : Matched Q r r') (hqr : ∀ a s b t, Q a b s t → R a b s t) : Matched R r r' := by
  rcases h with ⟨a, s, b, t, hr, hr', hq⟩ | hfail
  · exact .inl ⟨a, s, b, t, hr, hr', hqr a s b t hq⟩
  · exact .inr hfail

theorem Matched.bind {x : EStateM ε σ α} {y : EStateM ε τ β} {f : α → EStateM ε σ γ} {g : β → EStateM ε τ δ}
    {Q : α → β → σ → τ → Prop} {R : γ → δ → σ → τ → Prop} {s : σ} {t : τ} (h : Matched Q (x s) (y t))
    (hf : ∀ a s' b t', Q a b s' t' → Matched R (f a s') (g b t')) : Matched R ((x >>= f) s) ((y >>= g) t) := by
  rcases h with ⟨a, s', b, t', hx, hy, hq⟩ | ⟨e, s', t', hx, hy⟩
  · rw [bind_ok hx, bind_ok hy]
    exact hf a s' b t' hq
  · exact .inr ⟨e, s', t', bind_error hx, bind_error hy⟩

end Matched

section Evaluation

def Fixed {α : Type} (x : EvalM α) (a : α) : Prop := ∀ ctx, x ctx = .ok a ctx

theorem Fixed.constant {α : Type} {x : EvalM α} {a : α} (h : Fixed x a) : Evaluator.Constant x a :=
  fun ctx _ => ⟨ctx, h ctx, trivial⟩

-- The contexts are the same but for the window values after the first rows.
def SameFront (n : Nat) (c c' : EvalCtx) : Prop :=
  c.currentRowid = c'.currentRowid ∧
    ∀ i < n, (c.windowResults.map fun windows => windows[i]?) = c'.windowResults.map fun windows => windows[i]?

def AgreeTo (n : Nat) (c c' : EvalCtx) : Prop :=
  c = c' ∨ SameFront n c c' ∧ c.currentWindowRowIdx = c'.currentWindowRowIdx ∧ c.currentWindowRowIdx < n

-- `__win` reads the window values of the current row only.
def ReadsCurrentRow (ev : Evaluator) : Prop :=
  ∀ n e row colMap c c', AgreeTo n c c' →
    Matched (fun v v' c₁ c₁' => v = v' ∧ AgreeTo n c₁ c₁') (ev.evalExpr e row colMap c) (ev.evalExpr e row colMap c')

-- The call does not fail, whatever the context.
def Evaluates {α : Type} (x : EvalM α) : Prop := ∀ ctx, ∃ a ctx', x ctx = .ok a ctx'

def SameOutcome {α : Type} (x y : EvalM α) (ctx : EvalCtx) : Prop := Matched (fun a b _ _ => a = b) (x ctx) (y ctx)

variable {ev : Evaluator} {q : SelectStmt} {windowFuncs : List Expr} {colMap : ColMap} {colNames : List String}
  {limit : Option Nat} {skipped : Nat}

theorem SameFront.at_row {n i : Nat} {c c' : EvalCtx} (h : SameFront n c c') (hi : i < n) :
    AgreeTo n { c with currentWindowRowIdx := i } { c' with currentWindowRowIdx := i } :=
  .inr ⟨h, rfl, hi⟩

theorem AgreeTo.sameFront {n : Nat} {c c' : EvalCtx} (h : AgreeTo n c c') : SameFront n c c' := by
  rcases h with rfl | ⟨hfront, -⟩
  · exact ⟨rfl, fun _ _ => rfl⟩
  · exact hfront

theorem projectRow_agrees (hev : ReadsCurrentRow ev) {n : Nat} {row : Row} {items : List Proj} {c c' : EvalCtx}
    (hagree : AgreeTo n c c') :
    Matched (fun out out' c₁ c₁' => out = out' ∧ AgreeTo n c₁ c₁') (ev.projectRow colMap row items c)
      (ev.projectRow colMap row items c') := by
  induction items generalizing c c' with
  | nil => exact .inl ⟨[], c, [], c', rfl, rfl, rfl, hagree⟩
  | cons item items ih =>
      have hitem : Matched (fun v v' c₁ c₁' => v = v' ∧ AgreeTo n c₁ c₁') (ev.evalProj colMap row item c)
          (ev.evalProj colMap row item c') := by
        cases item with
        | Index i => exact .inl ⟨_, c, _, c', rfl, rfl, rfl, hagree⟩
        | Expr e => exact hev n e row colMap c c' hagree
      rw [projectRow]
      refine hitem.bind fun v c₁ v' c₁' h => (ih h.2).bind fun vs c₂ vs' c₂' h' => ?_
      exact .inl ⟨_, c₂, _, c₂', rfl, rfl, by rw [h.1, h'.1], h'.2⟩

theorem evaluates_projectRows {items : List Proj} {rows : List Row}
    (h : ∀ row ∈ rows, ∀ item ∈ items, Evaluates (ev.evalProj colMap row item)) (start : Nat) :
    Evaluates (ev.projectRows colMap items start rows) := by
  have hrow : ∀ row ∈ rows, Evaluates (ev.projectRow colMap row items) := by
    intro row hmem
    have hitems := h row hmem
    clear h
    induction items with
    | nil => exact fun ctx => ⟨[], ctx, rfl⟩
    | cons item items ih =>
        intro ctx
        obtain ⟨v, ctx₁, hv⟩ := hitems item List.mem_cons_self ctx
        obtain ⟨vs, ctx₂, hvs⟩ := ih (fun item hitem => hitems item (List.mem_cons_of_mem _ hitem)) ctx₁
        exact ⟨v :: vs, ctx₂, by rw [projectRow, bind_ok hv, bind_ok hvs]; rfl⟩
  clear h
  induction rows generalizing start with
  | nil => exact fun ctx => ⟨[], ctx, rfl⟩
  | cons row rows ih =>
      intro ctx
      obtain ⟨out, ctx₁, hout⟩ := hrow row List.mem_cons_self { ctx with currentWindowRowIdx := start }
      obtain ⟨outs, ctx₂, houts⟩ := ih (start + 1) (fun row hmem => hrow row (List.mem_cons_of_mem _ hmem)) ctx₁
      exact ⟨out :: outs, ctx₂, by rw [projectRows, modify_bind, bind_ok hout, bind_ok houts]; rfl⟩

theorem projectRows_take (hev : ReadsCurrentRow ev) {items : List Proj} (n start : Nat) {rows : List Row}
    {c c' : EvalCtx} (hfront : SameFront (start + n) c c')
    (hrest : ∀ row ∈ rows.drop n, ∀ item ∈ items, Evaluates (ev.evalProj colMap row item)) :
    Matched (fun outs outs' _ _ => outs' = outs.take n) (ev.projectRows colMap items start rows c)
      (ev.projectRows colMap items start (rows.take n) c') := by
  induction rows generalizing n start c c' with
  | nil => exact .inl ⟨[], c, [], c', rfl, by rw [List.take_nil]; rfl, List.take_nil.symm⟩
  | cons row rows ih =>
      cases n with
      | zero =>
          have hall : ∀ r ∈ row :: rows, ∀ item ∈ items, Evaluates (ev.evalProj colMap r item) := hrest
          obtain ⟨outs, c₁, hrun⟩ := evaluates_projectRows hall start c
          exact .inl ⟨outs, c₁, [], c', hrun, rfl, rfl⟩
      | succ n =>
          rw [List.take_succ_cons, projectRows, projectRows, modify_bind, modify_bind]
          refine (projectRow_agrees hev (hfront.at_row (i := start) (by omega))).bind fun out c₁ out' c₁' h => ?_
          have hnext : SameFront (start + 1 + n) c₁ c₁' := by
            rw [Nat.add_right_comm, Nat.add_assoc]
            exact h.2.sameFront
          refine (ih n (start + 1) hnext hrest).bind fun outs c₂ outs' c₂' h' => ?_
          exact .inl ⟨_, c₂, _, c₂', rfl, rfl, by rw [h.1, h']; rfl⟩

-- LIMIT and OFFSET cut off no row; or rows on which the select list does not fail, without window functions;
-- or all rows, on which nothing fails.
def CutHarmless (ev : Evaluator) (q : SelectStmt) (windowFuncs : List Expr) (colMap : ColMap) (source : Source)
    (n : Nat) (ctx : EvalCtx) : Prop :=
  source.rows.length ≤ n ∨
    (windowFuncs = [] ∧ ∀ row ∈ source.rows.drop n, ∀ item ∈ ev.plan q colMap source.cols,
      Evaluates (ev.evalProj colMap row item)) ∨
    n = 0 ∧ ∃ outs ctx', ev.projectColumns colMap windowFuncs q.windowDefs source.cols
      (ev.plan q colMap source.cols) source.rows ctx = .ok outs ctx'

-- What is cut off before the projection is not missed after LIMIT and OFFSET.
theorem projectColumns_take (hev : ReadsCurrentRow ev) {count skipped : Nat} {source : Source} {ctx : EvalCtx}
    (hcut : CutHarmless ev q windowFuncs colMap source (count + skipped) ctx) :
    Matched (fun outs outs' _ _ => limited (some count) skipped outs = limited (some count) skipped outs')
      (ev.projectColumns colMap windowFuncs q.windowDefs source.cols (ev.plan q colMap source.cols) source.rows ctx)
      (ev.projectColumns colMap windowFuncs q.windowDefs source.cols (ev.plan q colMap source.cols)
        (source.rows.take (count + skipped)) ctx) := by
  rcases hcut with hle | ⟨hnone, hrest⟩ | ⟨hzero, outs, ctx', hrun⟩
  · rw [List.take_of_length_le hle]
    exact Matched.refl fun _ _ => rfl
  · by_cases hid : isIdentity source.cols (ev.plan q colMap source.cols) = true ∧ windowFuncs = []
    · rw [projectColumns, projectColumns, if_pos hid, if_pos hid]
      exact .inl ⟨_, ctx, _, ctx, rfl, rfl, (limited_take count skipped source.rows).symm⟩
    · rw [projectColumns, projectColumns, if_neg hid, if_neg hid, windowTable, windowTable, if_pos hnone, if_pos hnone]
      have hfront : SameFront (0 + (count + skipped)) { ctx with windowResults := some (source.rows.map fun _ => []) }
          { ctx with windowResults := some ((source.rows.take (count + skipped)).map fun _ => []) } := by
        refine ⟨rfl, fun i hi => ?_⟩
        have hlt : i < count + skipped := by omega
        rw [Option.map_some, Option.map_some, List.getElem?_map, List.getElem?_map,
          List.getElem?_take_of_lt hlt]
      refine (projectRows_take hev (count + skipped) 0 hfront hrest).mono fun outs _ outs' _ h => ?_
      rw [h, limited_take]
  · obtain ⟨rfl, rfl⟩ : count = 0 ∧ skipped = 0 := by omega
    obtain ⟨ctx'', hnil⟩ : ∃ ctx'', ev.projectColumns colMap windowFuncs q.windowDefs source.cols
        (ev.plan q colMap source.cols) [] ctx = .ok [] ctx'' := by
      rw [projectColumns, windowTable, if_pos (c := ([] : List Row) = []) rfl]
      split_ifs <;> exact ⟨_, rfl⟩
    exact .inl ⟨outs, ctx', [], ctx'', hrun, hnil, by simp [limited]⟩

theorem length_withIds (ids : List Int64) (rows : List Row) : (withIds ids rows).length = rows.length := by
  rw [withIds]
  split_ifs with h
  · rw [List.length_zip, h, Nat.min_self]
  · rw [List.length_map]

theorem map_snd_withIds (ids : List Int64) (rows : List Row) : (withIds ids rows).map (·.2) = rows := by
  rw [withIds]
  split_ifs with h
  · exact List.map_snd_zip (Nat.le_of_eq h.symm)
  · rw [List.map_map]
    exact List.map_id rows

theorem fixed_limited (hlimit : Fixed (ev.rowLimit q.limit) limit)
    (hoffset : Fixed (ev.skippedRows q.offset) skipped) (rows : List Row) (cols : List String) :
    Fixed (do
      let output ← ev.applyOffset q.offset rows
      let output ← ev.applyLimit q.limit output
      return ({ rows := output, cols := cols } : Source)) { rows := limited limit skipped rows, cols :=
        cols } := by
  intro ctx
  have hdrop : ev.applyOffset q.offset rows ctx = .ok (rows.drop skipped) ctx := by
    rw [applyOffset, bind_ok (hoffset ctx)]
    rfl
  have htake : ev.applyLimit q.limit (rows.drop skipped) ctx = .ok (limited limit skipped rows) ctx := by
    rw [applyLimit, bind_ok (hlimit ctx)]
    cases limit <;> rfl
  rw [bind_ok hdrop, bind_ok htake]
  rfl

-- Without WHERE, ORDER BY and DISTINCT the result is the projection up to LIMIT and OFFSET.
theorem selectRows_plain {ids : List Int64} {source : Source} (hwhere : q.whereClause = none)
    (horder : q.orderBy = []) (hdistinct : q.distinct = false) (hlimit : Fixed (ev.rowLimit q.limit) limit)
    (hoffset : Fixed (ev.skippedRows q.offset) skipped) (ctx : EvalCtx) :
    ev.selectRows q windowFuncs colMap ids source ctx =
      (ev.projectColumns colMap windowFuncs q.windowDefs source.cols
      (ev.plan q colMap source.cols) source.rows >>=
        fun output => pure
          { rows := limited limit skipped output
            cols := (projectionPlan ev.realText source.cols colMap q.columns).map (·.1) }) ctx := by
  have hkept : ev.whereRows colMap q.whereClause (withIds ids source.rows) ctx =
      .ok (withIds ids source.rows) ctx := by
    rw [hwhere]
    rfl
  have hsorted : ev.preSort colMap q ids source.rows ctx = .ok source.rows ctx := by
    rw [preSort, if_pos horder]
    rfl
  rw [selectRows, bind_ok hkept, selectKept, map_snd_withIds, bind_ok hsorted]
  show (ev.projectColumns colMap windowFuncs q.windowDefs source.cols
      (ev.plan q colMap source.cols) source.rows >>=
    _) ctx = _
  cases houtput : ev.projectColumns colMap windowFuncs q.windowDefs source.cols (ev.plan q colMap source.cols)
      source.rows ctx with
  | ok output ctx₁ =>
      rw [bind_ok houtput, bind_ok houtput, applyDistinct, if_neg (by rw [hdistinct]; decide)]
      exact fixed_limited hlimit hoffset output _ ctx₁
  | error fault ctx₁ => rw [bind_error houtput, bind_error houtput]

theorem selectRows_take (hev : ReadsCurrentRow ev) {ids ids' : List Int64} {source : Source} {count : Nat}
    {ctx : EvalCtx} (hwhere : q.whereClause = none) (horder : q.orderBy = []) (hdistinct : q.distinct = false)
    (hlimit : Fixed (ev.rowLimit q.limit) (some count)) (hoffset : Fixed (ev.skippedRows q.offset) skipped)
    (hcut : CutHarmless ev q windowFuncs colMap source (count + skipped) ctx) :
    SameOutcome (ev.selectRows q windowFuncs colMap ids source)
      (ev.selectRows q windowFuncs colMap ids'
        { rows := source.rows.take (count + skipped), cols := source.cols }) ctx := by
  rw [SameOutcome, selectRows_plain hwhere horder hdistinct hlimit hoffset,
    selectRows_plain hwhere horder hdistinct hlimit hoffset]
  refine (projectColumns_take hev hcut).bind fun outs ctx₁ outs' ctx₁' h => ?_
  exact .inl ⟨_, ctx₁, _, ctx₁', rfl, rfl, by rw [h]⟩

end Evaluation

section SingleRow

theorem compareValuePair_self (v : Value) (nullsFirst : Option Bool) (ascending : Bool) :
    compareValuePair v v nullsFirst ascending = .eq := by
  rw [compareValuePair]
  by_cases hnull : v = .Null
  · simp [hnull]
  · have hswap := Value.partialCmp_swap v v
    rw [if_neg (by simpa using hnull)]
    cases hcmp : v.partialCmp v with
    | none => rfl
    | some o =>
        rw [hcmp] at hswap
        cases o with
        | eq => rfl
        | lt => cases hswap
        | gt => cases hswap

theorem compareKeys_self (items : List OrderByItem) (keys : List Value) : compareKeys items keys keys =
    .eq := by
  induction items generalizing keys with
  | nil => rfl
  | cons item items ih =>
      cases keys with
      | nil => rfl
      | cons v vs => rw [compareKeys, compareValuePair_self, ih vs]; rfl

theorem totalOn_single (items : List OrderByItem) (keys : List Value) (row : Row) :
    TotalOn (compareKeyed items) [(keys, row)] := by
  have hself : compareKeyed items (keys, row) (keys, row) = .eq := compareKeys_self items keys
  constructor <;> simp [hself]

theorem limited_one {limit : Option Nat} {skipped : Nat} {row row' : Row} :
    limited limit skipped [row] = [row'] ↔ row = row' ∧ skipped = 0 ∧ limit ≠ some 0 := by
  cases skipped with
  | zero =>
      cases limit with
      | none => simp [limited]
      | some count => cases count <;> simp [limited]
  | succ skipped => cases limit <;> simp [limited]

variable {names : Names} {ev : Evaluator} {q : SelectStmt} {limit : Option Nat} {skipped : Nat}

theorem limited_postSort {cols : List String} {row : Row} {rows : List Row} {ctx ctx' : EvalCtx}
    (hlimit : Fixed (ev.rowLimit q.limit) limit) (hoffset : Fixed (ev.skippedRows q.offset) skipped)
    (hrun : names.postSort ev q cols row ctx = .ok rows ctx') :
    limited limit skipped rows = limited limit skipped [row] := by
  rw [postSort] at hrun
  split_ifs at hrun with horder
  · cases hrun
    rfl
  · obtain ⟨keys, ctx₁, -, hrun⟩ := ok_of_bind_state hrun
    obtain ⟨ctx₂, hcount, -⟩ := constant_topNLimit hlimit.constant hoffset.constant ctx₁ trivial
    rw [bind_ok hcount] at hrun
    obtain ⟨ys, rest, htop, hperm, -, hlen⟩ :=
      topN_prefix ev.sort (totalOn_single q.orderBy keys row) (limit.map (· + skipped))
    have hone : ys ++ rest = [(keys, row)] := List.perm_singleton.mp hperm
    rw [htop] at hrun
    cases hrun
    match ys, hone with
    | [], _ =>
        cases limit with
        | none => cases hlen
        | some count =>
            have hzero : count + skipped = 0 := by
              simp only [List.length_nil, Option.map_some, Option.elim, List.length_singleton] at hlen
              omega
            have hcount : count = 0 := by omega
            simp only [limited, hcount, List.take_zero]
    | [y], hone =>
        cases hone
        rfl
    | y :: y' :: ys, hone => cases hone

theorem postSort_ok {cols : List String} {row : Row} (hlimit : Fixed (ev.rowLimit q.limit) limit)
    (hoffset : Fixed (ev.skippedRows q.offset) skipped)
    (hkeys : Evaluates (names.outputKeys ev cols row q.orderBy)) : Evaluates (names.postSort ev q cols row) := by
  intro ctx
  rw [postSort]
  split_ifs with horder
  · exact ⟨[row], ctx, rfl⟩
  · obtain ⟨keys, ctx₁, hrun⟩ := hkeys ctx
    obtain ⟨ctx₂, hcount, -⟩ := constant_topNLimit hlimit.constant hoffset.constant ctx₁ trivial
    obtain ⟨ys, rest, htop, -⟩ := topN_prefix ev.sort (totalOn_single q.orderBy keys row) (limit.map (· + skipped))
    exact ⟨ys.map (·.2), ctx₂, by rw [bind_ok hrun, bind_ok hcount, htop]; rfl⟩

end SingleRow

section Count

variable {names : Names} {ev : Evaluator} {q : SelectStmt} {windowFuncs : List Expr}
  {fromClause : FromClause} {name : String} {source answer : Source} {limit : Option Nat} {skipped : Nat}
  {ctx ctx₁ ctx' : EvalCtx}

theorem whereClause_of_isCountStar (h : q.isCountStar = true) : q.whereClause = none := by
  simp only [SelectStmt.isCountStar, Bool.and_eq_true, Option.isNone_iff_eq_none] at h
  exact h.1.1.1.1

theorem withPolicies_eq (hrls : names.rlsEnabled name = false) : names.withPolicies q name = q := by
  rw [withPolicies, hrls, if_neg Bool.false_ne_true]
  cases q
  rfl

theorem ask_ok {α : Type} {read : Nat → PagerM α} {a : α} :
    (∃ ctx', names.ask name read ctx = .ok a ctx') ↔
      BTree.Returns (read (names.tree name).root) (names.tree name).pager a := by
  rw [ask, BTree.Returns]
  cases read (names.tree name).root (names.tree name).pager <;> simp

theorem ask_state {α : Type} {read : Nat → PagerM α} {a : α} (h : names.ask name read ctx = .ok a ctx') :
    ctx' = ctx := by
  rw [ask] at h
  cases hread : read (names.tree name).root (names.tree name).pager <;> rw [hread] at h <;> cases h
  rfl

theorem getTable_ok {table : TableSchema} :
    names.getTable name ctx = .ok table ctx' ↔ ctx = ctx' ∧ names.schema.getTable name = some table := by
  rw [getTable]
  cases names.schema.getTable name with
  | none => simp
  | some table' => simp [and_comm]

variable [Lz4Flex]

-- The name stands for a table, and the snapshot sees of it what is stored.
structure Plain (names : Names) (name : String) (table : TableSchema) : Prop where
  notCte : names.cteCache (Cte.key name) = none
  notView : names.viewSelect name = none
  stored : names.schema.getTable name = some table
  chain : BTree.ChainExact (names.tree name)
  current : ∀ undoLog snapshot, names.snapshot = some (undoLog, snapshot) →
    computeVisibilityDelta undoLog snapshot name = (∅, [])

theorem Plain.scans (h : Plain names name table) (ctx : EvalCtx) :
    ∃ source, names.evalTable name ctx = .ok source ctx ∧ source.cols = table.colNames ∧
      BTree.Returns (BTree.countRows (names.tree name).root) (names.tree name).pager source.rows.length ∧
      ∀ n, BTree.ROW_SIZE * n ≤ BTree.ISIZE_MAX →
        BTree.Returns (BTree.scanRowsLimit (names.tree name).root n) (names.tree name).pager
          (source.rows.take n) := by
  obtain ⟨entries, hall, -, hrows, hcount, hlimit⟩ := h.chain.scans
  obtain ⟨s, hall⟩ := hall
  obtain ⟨s', hrows⟩ := hrows
  have hvisible : names.visibleRows name ctx = .ok (entries.map Prod.snd) ctx := by
    rw [visibleRows]
    cases hsnapshot : names.snapshot with
    | none => simp only [ask, hrows]
    | some p =>
        have hask : names.ask name BTree.scanAll ctx = .ok entries ctx := by simp only [ask, hall]
        have hdelta := h.current p.1 p.2 hsnapshot
        simp only
        rw [bind_ok hask, hdelta]
        simp
  refine ⟨{ rows := entries.map Prod.snd, cols := table.colNames }, ?_, rfl, by simpa using hcount,
    fun n hn => (hlimit n hn).1⟩
  rw [evalTable, h.notCte, h.notView]
  simp only
  rw [bind_ok (getTable_ok.mpr ⟨rfl, h.stored⟩), bind_ok hvisible]
  rfl

-- The window functions and the keys of ORDER BY, which are asked for the one row only, do not fail.
def OrderEvaluates (names : Names) (ev : Evaluator) (q : SelectStmt) (windowFuncs : List Expr)
    (fromClause : FromClause) (source : Source) : Prop :=
  Evaluates (names.aggregateWindows q windowFuncs (names.colMap fromClause source.cols) source.rows) ∧
    Evaluates (names.outputKeys ev [countLabel ev q.columns] [.Integer (Int64.ofNat source.rows.length)] q.orderBy)

-- The pipeline counts the rows of the name, and LIMIT and OFFSET apply to the one row of the result.
theorem countPipeline_answer (hsource : names.evalTable name ctx = .ok source ctx₁)
    (hrls : names.rlsEnabled name = false) (hwhere : q.whereClause = none)
    (hlimit : Fixed (ev.rowLimit q.limit) limit) (hoffset : Fixed (ev.skippedRows q.offset) skipped)
    (hrun : names.countPipeline ev q windowFuncs fromClause name ctx = .ok answer ctx') :
    answer =
      { rows := limited limit skipped [[.Integer (Int64.ofNat source.rows.length)]]
        cols := [countLabel ev q.columns] } := by
  rw [countPipeline, bind_ok hsource, withPolicies_eq hrls, hwhere] at hrun
  obtain ⟨kept, ctx₂, hkept, hrun⟩ := ok_of_bind_state hrun
  cases hkept
  obtain ⟨windows, ctx₃, -, hrun⟩ := ok_of_bind_state hrun
  rw [modify_bind, length_withIds] at hrun
  obtain ⟨rows, ctx₄, hsort, hrun⟩ := ok_of_bind_state hrun
  have hrest := fixed_limited hlimit hoffset rows [countLabel ev q.columns] ctx₄
  rw [limited_postSort hlimit hoffset hsort] at hrest
  have hsame := hrun.symm.trans hrest
  cases hsame
  rfl

theorem countPipeline_ok (hsource : names.evalTable name ctx = .ok source ctx₁)
    (hrls : names.rlsEnabled name = false) (hwhere : q.whereClause = none)
    (hlimit : Fixed (ev.rowLimit q.limit) limit) (hoffset : Fixed (ev.skippedRows q.offset) skipped)
    (horder : OrderEvaluates names ev q windowFuncs fromClause source) :
    ∃ ctx', names.countPipeline ev q windowFuncs fromClause name ctx = .ok
      { rows := limited limit skipped [[.Integer (Int64.ofNat source.rows.length)]]
        cols := [countLabel ev q.columns] } ctx' := by
  have hkept : ev.whereRows (names.colMap fromClause source.cols) none
      (withIds (names.rowIds name source.rows) source.rows) ctx₁ =
        .ok (withIds (names.rowIds name source.rows) source.rows) ctx₁ := rfl
  obtain ⟨windows, ctx₂, hwindows⟩ := horder.1 ctx₁
  have hsorts : Evaluates (names.postSort ev q [countLabel ev q.columns] _) :=
    postSort_ok hlimit hoffset horder.2
  obtain ⟨rows, ctx₃, hsort⟩ := hsorts
    { ctx₂ with windowResults := some windows, currentWindowRowIdx := 0 }
  have hrest := fixed_limited hlimit hoffset rows [countLabel ev q.columns] ctx₃
  rw [limited_postSort hlimit hoffset hsort] at hrest
  refine ⟨ctx₃, ?_⟩
  rw [countPipeline, bind_ok hsource, withPolicies_eq hrls, hwhere, bind_ok hkept, map_snd_withIds, bind_ok hwindows,
    modify_bind, length_withIds, bind_ok hsort]
  exact hrest

theorem countShortcut_ok :
    (∃ ctx', names.countShortcut name ctx = .ok answer ctx') ↔
      (names.schema.getTable name).isSome ∧
        ∃ count, BTree.Returns (BTree.countRows (names.tree name).root) (names.tree name).pager count ∧
          answer = { rows := [[.Integer (Int64.ofNat count)]], cols := ["COUNT(*)"] } := by
  rw [Option.isSome_iff_exists]
  constructor
  · rintro ⟨ctx', hrun⟩
    obtain ⟨table, ctx₁, htable, hrun⟩ := ok_of_bind_state hrun
    obtain ⟨count, ctx₂, hcount, hrun⟩ := ok_of_bind_state hrun
    cases hrun
    exact ⟨⟨table, (getTable_ok.mp htable).2⟩, count, ask_ok.mp ⟨_, hcount⟩, rfl⟩
  · rintro ⟨⟨table, htable⟩, count, hcount, rfl⟩
    obtain ⟨ctx₁, hask⟩ := ask_ok.mpr hcount
    exact ⟨ctx₁, by rw [countShortcut, bind_ok (getTable_ok.mpr ⟨rfl, htable⟩), bind_ok hask]; rfl⟩

-- The statement has policies to obey; or the name stands for a stored table, the column has no name of its own,
-- LIMIT and OFFSET leave the row, and ORDER BY does not fail.
def CountAgrees (names : Names) (ev : Evaluator) (q : SelectStmt) (windowFuncs : List Expr) (fromClause : FromClause)
    (name : String) (limit : Option Nat) (skipped : Nat) (ctx : EvalCtx) : Prop :=
  names.rlsEnabled name = true ∨
    (∃ table source, Plain names name table ∧ names.evalTable name ctx = .ok source ctx ∧
      OrderEvaluates names ev q windowFuncs fromClause source) ∧
      countLabel ev q.columns = "COUNT(*)" ∧ skipped = 0 ∧ limit ≠ some 0

theorem execCountStar_agrees (hcount : q.extractWindows.1.isCountStar = true)
    (hlimit : Fixed (ev.rowLimit q.limit) limit) (hoffset : Fixed (ev.skippedRows q.offset) skipped)
    (hagrees : CountAgrees names ev q.extractWindows.1 q.extractWindows.2 fromClause name limit skipped ctx) :
    SameOutcome (names.countPipeline ev q.extractWindows.1 q.extractWindows.2 fromClause name)
      (names.execCountStar ev q fromClause name) ctx := by
  rw [SameOutcome, execCountStar]
  by_cases hrls : names.rlsEnabled name = true
  · rw [if_pos hrls]
    exact Matched.refl fun _ _ => rfl
  · rw [if_neg hrls]
    obtain ⟨⟨table, source, hplain, hsource, horder⟩, hlabel, rfl, hlimited⟩ := hagrees.resolve_left hrls
    rw [Bool.not_eq_true] at hrls
    obtain ⟨source', hsource', -, hrows, -⟩ := hplain.scans ctx
    obtain rfl : source' = source := by
      have hsame := hsource'.symm.trans hsource
      cases hsame
      rfl
    obtain ⟨ctx₁, hpipeline⟩ := countPipeline_ok hsource hrls (whereClause_of_isCountStar hcount) hlimit hoffset horder
    obtain ⟨ctx₂, hshortcut⟩ := countShortcut_ok.mpr ⟨by rw [hplain.stored]; rfl, _, hrows, rfl⟩
    refine .inl ⟨_, ctx₁, _, ctx₂, hpipeline, hshortcut, ?_⟩
    rw [limited_one.mpr ⟨rfl, rfl, hlimited⟩, hlabel]

-- Where both have the same answer, a table of that name has as many rows as the name.
theorem countAgrees_of_execCountStar (hcount : q.extractWindows.1.isCountStar = true)
    (hlimit : Fixed (ev.rowLimit q.limit) limit) (hoffset : Fixed (ev.skippedRows q.offset) skipped)
    (hsource : names.evalTable name ctx = .ok source ctx₁)
    (hpipeline : names.countPipeline ev q.extractWindows.1 q.extractWindows.2 fromClause name ctx = .ok answer ctx')
    (hrun : ∃ ctx'', names.execCountStar ev q fromClause name ctx = .ok answer ctx'') :
    names.rlsEnabled name = true ∨ (names.schema.getTable name).isSome ∧
      (∃ count, BTree.Returns (BTree.countRows (names.tree name).root) (names.tree name).pager count ∧
        Int64.ofNat count = Int64.ofNat source.rows.length) ∧
      countLabel ev q.extractWindows.1.columns = "COUNT(*)" ∧ skipped = 0 ∧ limit ≠ some 0 := by
  by_cases hrls : names.rlsEnabled name = true
  · exact .inl hrls
  · rw [execCountStar, if_neg hrls, countShortcut_ok] at hrun
    rw [Bool.not_eq_true] at hrls
    have hanswer := countPipeline_answer hsource hrls (whereClause_of_isCountStar hcount) hlimit hoffset hpipeline
    obtain ⟨htable, count, hreturns, heq⟩ := hrun
    rw [hanswer, Source.mk.injEq, limited_one] at heq
    obtain ⟨⟨hrow, hrest⟩, hlabel⟩ := heq
    simp only [List.cons.injEq, Value.Integer.injEq, and_true] at hrow hlabel
    exact .inr ⟨htable, ⟨count, hreturns, hrow.symm⟩, hlabel, hrest⟩

end Count

section Limit

variable {names : Names} {ev : Evaluator} {q : SelectStmt} {windowFuncs : List Expr}
  {fromClause : FromClause} {name : String} {source answer : Source} {table : TableSchema} {limit : Option Nat}
  {skipped : Nat} {ctx ctx₁ ctx' : EvalCtx}

theorem clauses_of_limitPushdown (h : q.limitPushdown = true) :
    q.whereClause = none ∧ q.orderBy = [] ∧ q.distinct = false := by
  simp only [SelectStmt.limitPushdown, Bool.and_eq_true, Option.isNone_iff_eq_none, List.isEmpty_iff,
    Bool.not_eq_true'] at h
  exact ⟨h.1.1.1.1.1.1, h.1.1.1.1.1.2, h.1.1.1.2⟩

-- The rows that the shortcut asks for fit into a vector. A negative LIMIT asks for too many.
def LimitFits (limit : Option Nat) (skipped : Nat) : Prop :=
  BTree.ROW_SIZE * needed limit skipped ≤ BTree.ISIZE_MAX

theorem LimitFits.counted (h : LimitFits limit skipped) : ∃ count, limit = some count ∧
    needed limit skipped = count + skipped := by
  rw [LimitFits, needed, BTree.ROW_SIZE, BTree.ISIZE_MAX, SelectStmt.usizeMax] at *
  cases limit with
  | none =>
      rw [Option.getD_none] at h
      omega
  | some count =>
      rw [Option.getD_some] at h ⊢
      exact ⟨count, rfl, by omega⟩

variable [Lz4Flex]

theorem scanRowsLimit_fits {root n : Nat} {s : Pager} {rows : List Row}
    (h : BTree.Returns (BTree.scanRowsLimit root n) s rows) : BTree.ROW_SIZE * n ≤ BTree.ISIZE_MAX := by
  obtain ⟨s', hrun⟩ := h
  obtain ⟨first, s₁, -, hrun⟩ := ok_of_bind_state hrun
  obtain ⟨_, s₂, hreserve, -⟩ := ok_of_bind_state hrun
  rw [BTree.reserveRows] at hreserve
  split_ifs at hreserve with hover
  · cases hreserve
  · exact Nat.le_of_not_lt hover

theorem limitShortcut_ok (hlimit : Fixed (ev.rowLimit q.limit) limit)
    (hoffset : Fixed (ev.skippedRows q.offset) skipped) :
    names.limitShortcut ev q name ctx = .ok source ctx' ↔ ctx' = ctx ∧
      ∃ table, names.schema.getTable name = some table ∧ source.cols = table.colNames ∧
        BTree.Returns (BTree.scanRowsLimit (names.tree name).root (needed limit skipped))
          (names.tree name).pager
          source.rows := by
  rw [limitShortcut, bind_ok (hlimit ctx), bind_ok (hoffset ctx)]
  constructor
  · intro hrun
    obtain ⟨table, ctx₁, htable, hrun⟩ := ok_of_bind_state hrun
    obtain ⟨rfl, hstored⟩ := getTable_ok.mp htable
    obtain ⟨rows, ctx₂, hrows, hrun⟩ := ok_of_bind_state hrun
    cases hrun
    exact ⟨ask_state hrows, table, hstored, rfl, ask_ok.mp ⟨_, hrows⟩⟩
  · rintro ⟨rfl, table, hstored, hcols, hrows⟩
    obtain ⟨ctx₂, hask⟩ : ∃ ctx₂, names.ask name (fun root => BTree.scanRowsLimit root
        (needed limit skipped)) ctx' =
        .ok source.rows ctx₂ := ask_ok.mpr hrows
    rw [bind_ok (getTable_ok.mpr ⟨rfl, hstored⟩), bind_ok hask, ask_state hask, ← hcols]
    rfl

-- The statement has policies to obey; or the name stands for a stored table, LIMIT is not negative, and the rows
-- that it cuts off are not missed.
def LimitAgrees (names : Names) (ev : Evaluator) (q : SelectStmt) (windowFuncs : List Expr) (fromClause : FromClause)
    (name : String) (limit : Option Nat) (skipped : Nat) (ctx : EvalCtx) : Prop :=
  names.rlsEnabled name = true ∨
    LimitFits limit skipped ∧ ∃ table source, Plain names name table ∧ names.evalTable name ctx = .ok source ctx ∧
      CutHarmless ev q windowFuncs (names.colMap fromClause source.cols) source (needed limit skipped) ctx

theorem execLimit_agrees (hev : ReadsCurrentRow ev) (hpush : q.extractWindows.1.limitPushdown = true)
    (hlimit : Fixed (ev.rowLimit q.limit) limit) (hoffset : Fixed (ev.skippedRows q.offset) skipped)
    (hagrees : LimitAgrees names ev q.extractWindows.1 q.extractWindows.2 fromClause name limit skipped ctx) :
    SameOutcome (names.limitPipeline ev q.extractWindows.1 q.extractWindows.2 fromClause name)
      (names.execLimit ev q fromClause name) ctx := by
  rw [SameOutcome, execLimit]
  by_cases hrls : names.rlsEnabled name = true
  · rw [if_pos hrls]
    exact Matched.refl fun _ _ => rfl
  · rw [if_neg hrls]
    obtain ⟨hfits, table, source, hplain, hsource, hcut⟩ := hagrees.resolve_left hrls
    rw [Bool.not_eq_true] at hrls
    obtain ⟨source', hsource', hcols, -, hscan⟩ := hplain.scans ctx
    obtain rfl : source' = source := by
      have hsame := hsource'.symm.trans hsource
      cases hsame
      rfl
    obtain ⟨count, rfl, hneeded⟩ := hfits.counted
    obtain ⟨hwhere, horder, hdistinct⟩ := clauses_of_limitPushdown hpush
    have hshortcut : names.limitShortcut ev q.extractWindows.1 name ctx =
        .ok { rows := source'.rows.take (count + skipped), cols := source'.cols } ctx :=
      (limitShortcut_ok hlimit hoffset).mpr
        ⟨rfl, table, hplain.stored, hcols, by rw [hneeded]; exact hscan _ (by rw [← hneeded]; exact hfits)⟩
    rw [limitPipeline, bind_ok hsource, bind_ok hshortcut, finishRows, finishRows, withPolicies_eq hrls]
    rw [hneeded] at hcut
    exact selectRows_take hev hwhere horder hdistinct hlimit hoffset hcut

-- The shortcut has an answer only where LIMIT fits and the name has a table.
theorem limitAgrees_of_execLimit (hlimit : Fixed (ev.rowLimit q.limit) limit)
    (hoffset : Fixed (ev.skippedRows q.offset) skipped)
    (hrun : names.execLimit ev q fromClause name ctx = .ok answer ctx') :
    names.rlsEnabled name = true ∨ (names.schema.getTable name).isSome ∧ LimitFits limit skipped := by
  by_cases hrls : names.rlsEnabled name = true
  · exact .inl hrls
  · rw [execLimit, if_neg hrls] at hrun
    obtain ⟨source, ctx₁, hshortcut, -⟩ := ok_of_bind_state hrun
    obtain ⟨-, table, hstored, -, hrows⟩ :=
        (limitShortcut_ok (q := q.extractWindows.1) hlimit hoffset).mp hshortcut
    exact .inr ⟨by rw [hstored]; rfl, scanRowsLimit_fits hrows⟩

end Limit

section Both

variable [Lz4Flex]

end Both

section Samples

attribute [local instance] Lz4Flex.incompressible

def storedTable : TableSchema where
  name := "t"
  columns := []
  colNames := ["v"]
  nextRowid := 0
  foreignKeys := []
  checkConstraints := []

def storedTree : BTree.Table :=
  (run BTree.TableOp.step BTree.mixedRun (BTree.Table.start (Pager.openMemory Buf.zero))).1

theorem storedTree_exact : BTree.ChainExact storedTree := by
  have hholding := BTree.run_holding BTree.mixedRun (Pager.ready_openMemory Buf.zero) rfl (by decide)
    BTree.mixedRun_sound
  rw [storedTree]
  generalize run BTree.TableOp.step BTree.mixedRun (BTree.Table.start (Pager.openMemory Buf.zero)) =
    p at hholding ⊢
  exact BTree.chainExact_of_holding hholding

def storedNames (tree : BTree.Table) : Names where
  schema := { tables := [("t".toList, storedTable)], indexes := [], triggers := [] }
  cteCache key := if key = Cte.key "c" then some { rows := [[.Integer 1], [.Integer 2]], cols :=
    ["v"] } else none
  viewSelect _ := none
  rlsEnabled _ := false
  usingExprs _ := []
  tree _ := tree
  snapshot := none
  execSelect _ := throw .Panic
  groupWindows _ rows _ _ := return rows.map fun _ => []
  toLowercase := String.toLower

-- `SELECT columns FROM name`.
def fromName (columns : List SelectColumn) (name : String) (limit : Option Expr) : SelectStmt where
  distinct := false
  columns := columns
  fromClause := some (.Table name none)
  whereClause := none
  groupBy := []
  having := none
  orderBy := []
  limit := limit
  offset := none
  ctes := []
  windowDefs := []
  forUpdate := false

-- `SELECT COUNT(*) AS "COUNT(*)" FROM name`.
def countRows (name : String) : SelectStmt :=
  fromName [.Expr (.Function "COUNT" [] false) (some "COUNT(*)")] name none

-- `SELECT * FROM name LIMIT count`.
def firstRows (name : String) (count : Int64) : SelectStmt :=
  fromName [.AllColumns] name (some (.IntegerLiteral count))

theorem storedNames_plain {tree : BTree.Table} (h : BTree.ChainExact tree) :
    Plain (storedNames tree) "t" storedTable where
  notCte := by
    have hkey : Cte.key "t" ≠ Cte.key "c" := by decide
    simp only [storedNames, if_neg hkey]
  notView := rfl
  stored := rfl
  chain := h
  current _ _ h := by cases h

theorem columns_readsCurrentRow : ReadsCurrentRow columns := by
  intro n e row colMap c c' hagree
  simp only [columns]
  cases columnsEnv.evalExpr e row colMap with
  | ok value => exact .inl ⟨value, c, value, c', rfl, rfl, rfl, hagree⟩
  | error fault => exact .inr ⟨_, c, c', rfl, rfl⟩

end Samples

end Kkdb.Names
