import Kkdb.Vm.JoinPaths

namespace Kkdb

open Lib

section NestedLoop

variable {env : EvalEnv} {colMap : ColMap} {on : Option Expr} {as bs : List Row}

theorem matching_ok {combine : Row → Row} {p : Row → Bool}
    (h : ∀ b ∈ bs, onHolds env colMap on (combine b) = .ok (p b)) :
    matching env colMap on combine bs = .ok ((bs.filter p).map combine) := by
  have hrow : ∀ b ∈ bs, (do
      let holds ← onHolds env colMap on (combine b)
      return if holds then [combine b] else []) =
        Except.ok (ε := Fault) (if p b then [combine b] else []) := by
    intro b hb
    rw [h b hb]
    rfl
  rw [matching, mapM_ok hrow]
  refine congrArg Except.ok ?_
  clear hrow h
  induction bs with
  | nil => rfl
  | cons b bs ih =>
      rw [List.map_cons, List.flatten_cons, ih, List.filter_cons]
      split_ifs <;> rfl

theorem anyMatching_ok {combine : Row → Row} {p : Row → Bool}
    (h : ∀ b ∈ bs, onHolds env colMap on (combine b) = .ok (p b)) :
    anyMatching env colMap on combine bs = .ok (bs.any p) := by
  induction bs with
  | nil => rfl
  | cons b bs ih =>
      rw [anyMatching, h b List.mem_cons_self]
      simp only [bind, Except.bind]
      rw [ih fun b' hb' => h b' (List.mem_cons_of_mem b hb'), List.any_cons]
      cases p b <;> rfl

theorem padded_filter (pad : Row) (combine : Row → Row) (p : Row → Bool) :
    padded pad ((bs.filter p).map combine) =
      if bs.any p then (bs.filter p).map combine else [pad] := by
  unfold padded
  by_cases hany : bs.any p = true
  · obtain ⟨b, hb, hp⟩ := List.any_eq_true.mp hany
    have hmem : combine b ∈ (bs.filter p).map combine := List.mem_map_of_mem (List.mem_filter.mpr ⟨hb, hp⟩)
    rw [if_pos hany, if_neg (List.ne_nil_of_mem hmem)]
  · have hnil : bs.filter p = [] := by
      apply List.filter_eq_nil_iff.mpr
      simpa using hany
    rw [if_neg hany, hnil]
    rfl

theorem loop_ok (combine : Row → Row → Row) {p : Row → Row → Bool} (pad : Row → List Row)
    (body : Row → List Row → List Row)
    (hbody : ∀ a, body a ((bs.filter (p a)).map (combine a)) =
      if bs.any (p a) then (bs.filter (p a)).map (combine a) else pad a)
    (h : ∀ a ∈ as, ∀ b ∈ bs, onHolds env colMap on (combine a b) = .ok (p a b)) :
    (do
      let found ← as.mapM fun a => do
        let found ← matching env colMap on (combine a) bs
        return body a found
      return found.flatten) = Except.ok (joinOn pad combine p as bs) := by
  have hrow : ∀ a ∈ as, (do
      let found ← matching env colMap on (combine a) bs
      return body a found) = Except.ok (ε := Fault)
        (if bs.any (p a) then (bs.filter (p a)).map (combine a) else pad a) := by
    intro a ha
    rw [matching_ok (h a ha), ← hbody a]
    rfl
  rw [mapM_ok hrow]
  rfl

theorem semiLoop_ok {combine : Row → Row → Row} {p : Row → Row → Bool}
    (h : ∀ a ∈ as, ∀ b ∈ bs, onHolds env colMap on (combine a b) = .ok (p a b)) :
    (do
      let found ← as.mapM fun a => do
        let holds ← anyMatching env colMap on (combine a) bs
        return if holds then [a] else []
      return found.flatten) = Except.ok (semiJoin p as bs) := by
  have hrow : ∀ a ∈ as, (do
      let holds ← anyMatching env colMap on (combine a) bs
      return if holds then [a] else []) = Except.ok (ε := Fault) (if bs.any (p a) then [a] else []) := by
    intro a ha
    rw [anyMatching_ok (h a ha)]
    rfl
  rw [mapM_ok hrow]
  exact congrArg Except.ok (flatten_map_ite _)

theorem inner_filter (p : Row → Bool) (combine : Row → Row) :
    (bs.filter p).map combine = if bs.any p then (bs.filter p).map combine else [] := by
  split_ifs with hany
  · rfl
  · have hnil : bs.filter p = [] := by
      apply List.filter_eq_nil_iff.mpr
      simpa using hany
    rw [hnil]
    rfl

variable {joinType : JoinType} {left right : Source}

theorem nestedLoop_ok {p : Row → Row → Bool}
    (h : ∀ l ∈ left.rows, ∀ r ∈ right.rows, onHolds env colMap on (l ++ r) = .ok (p l r)) :
    nestedLoop env colMap on joinType left right = .ok (joined joinType p left right) := by
  have h' : ∀ r ∈ right.rows, ∀ l ∈ left.rows, onHolds env colMap on (l ++ r) = .ok (p l r) :=
    fun r hr l hl => h l hl r hr
  have hinner := loop_ok (· ++ ·) (fun _ => []) (fun _ found => found)
    (fun a => inner_filter (p a) (a ++ ·)) h
  rw [joined.eq_def, nestedLoop.eq_def]
  cases joinType
  case Left =>
    exact loop_ok (· ++ ·) _ (fun l => padded (l ++ right.nulls))
      (fun l => padded_filter (l ++ right.nulls) (l ++ ·) (p l)) h
  case Right =>
    exact loop_ok (fun r l => l ++ r) _ (fun r => padded (left.nulls ++ r))
      (fun r => padded_filter (left.nulls ++ r) (· ++ r) fun l => p l r) h'
  case LeftSemi => exact semiLoop_ok h
  case RightSemi => exact semiLoop_ok h'
  all_goals
    simp only [bind_pure] at hinner
    exact hinner

theorem nestedLoop_error {e : Fault} (h : ∀ c, onHolds env colMap on c = .error e)
    (hleft : left.rows ≠ []) (hright : right.rows ≠ []) :
    nestedLoop env colMap on joinType left right = .error e := by
  have hmatching : ∀ (combine : Row → Row) (bs : List Row), bs ≠ [] →
      matching env colMap on combine bs = .error e := by
    intro combine bs hbs
    obtain ⟨b, bs, rfl⟩ := List.exists_cons_of_ne_nil hbs
    rw [matching, List.mapM_cons, h]
    rfl
  have hany : ∀ (combine : Row → Row) (bs : List Row), bs ≠ [] →
      anyMatching env colMap on combine bs = .error e := by
    intro combine bs hbs
    obtain ⟨b, bs, rfl⟩ := List.exists_cons_of_ne_nil hbs
    rw [anyMatching, h]
    rfl
  obtain ⟨l, ls, hl⟩ := List.exists_cons_of_ne_nil hleft
  obtain ⟨r, rs, hr⟩ := List.exists_cons_of_ne_nil hright
  rw [nestedLoop.eq_def]
  cases joinType
  case Right => simp only [hr, List.mapM_cons, hmatching _ _ hleft]; rfl
  case LeftSemi => simp only [hl, List.mapM_cons, hany _ _ hright]; rfl
  case RightSemi => simp only [hr, List.mapM_cons, hany _ _ hleft]; rfl
  all_goals simp only [hl, List.mapM_cons, hmatching _ _ hright]; rfl

end NestedLoop

section References

variable (env : EvalEnv)

-- Where `eval_expr` finds a column: a place in the row, or a value of an outer row.
def EvalEnv.resolve (table : Option String) (column : String) (colMap : ColMap) : Res (Nat ⊕ Value) :=
  let qualified := table.map fun t => NameMap.qualify t column
  match qualified.bind fun name => colMap.lookup name with
  | some index => .ok (.inl index)
  | none =>
      match qualified.bind fun name => EvalEnv.findOuter [name] env.outerRows.reverse with
      | some v => .ok (.inr v)
      | none =>
          match [column.toList, toAsciiLowercase column].findSome? fun name => colMap.lookup name with
          | some index => .ok (.inl index)
          | none =>
              match EvalEnv.findOuter [column.toList, toAsciiLowercase column] env.outerRows.reverse with
              | some v => .ok (.inr v)
              | none => .error (.Err (.ColumnNotFound column))

def resolved (row : Row) : Nat ⊕ Value → Value
  | .inl index => cell row index
  | .inr v => v

def equalHolds (v w : Value) : Bool := v ≠ .Null && w ≠ .Null && v.eq w

variable {env} {colMap : ColMap}

theorem columnRef_eq (table : Option String) (column : String) (row : Row) :
    env.columnRef table column row colMap = (env.resolve table column colMap).map (resolved row) := by
  unfold EvalEnv.columnRef EvalEnv.resolve NameMap.qualify
  dsimp only
  cases hindex : (table.map fun t => lowerBytes t ++ '.' :: lowerBytes column).bind fun name =>
      colMap.lookup name with
  | some index => rfl
  | none =>
      cases houter : (table.map fun t => lowerBytes t ++ '.' :: lowerBytes column).bind fun name =>
          EvalEnv.findOuter [name] env.outerRows.reverse with
      | some v => rfl
      | none =>
          cases hplain : [column.toList, toAsciiLowercase column].findSome? fun name => colMap.lookup name with
          | some index => rfl
          | none =>
              cases hlast : EvalEnv.findOuter [column.toList,
                toAsciiLowercase column] env.outerRows.reverse with
              | some v => rfl
              | none => rfl

theorem resolve_error {table : Option String} {column : String} {e : Fault}
    (h : env.resolve table column colMap = .error e) : e = .Err (.ColumnNotFound column) := by
  unfold EvalEnv.resolve at h
  dsimp only at h
  split at h
  · cases h
  · split at h
    · cases h
    · split at h
      · cases h
      · split at h
        · cases h
        · cases h
          rfl

theorem applyBinaryOp_equal (v w : Value) : env.applyBinaryOp .Equal v w =
    .ok (if v = .Null ∨ w = .Null then .Null else EvalEnv.ofBool (v.eq w)) := by
  unfold EvalEnv.applyBinaryOp
  split_ifs <;> rfl

theorem isTruthy_equal (v w : Value) :
    (if v = .Null ∨ w = .Null then Value.Null else EvalEnv.ofBool (v.eq w)).isTruthy = equalHolds v w := by
  unfold equalHolds
  by_cases hnull : v = .Null ∨ w = .Null
  · rw [if_pos hnull]
    rcases hnull with h | h <;> simp [h, Value.isTruthy]
  · rw [if_neg hnull]
    rw [not_or] at hnull
    cases heq : v.eq w <;> simp [hnull, EvalEnv.ofBool, Value.isTruthy]

theorem onHolds_equal (lt rt : Option String) (lc rc : String) (row : Row) :
    onHolds env colMap (some (.BinaryOp (.ColumnRef lt lc) .Equal (.ColumnRef rt rc))) row = (do
      let x ← env.resolve lt lc colMap
      let y ← env.resolve rt rc colMap
      return equalHolds (resolved row x) (resolved row y)) := by
  simp only [onHolds, EvalEnv.evalExpr, columnRef_eq]
  cases env.resolve lt lc colMap with
  | error e => rfl
  | ok x =>
      cases env.resolve rt rc colMap with
      | error e => rfl
      | ok y =>
          simp only [Except.map, bind, Except.bind, applyBinaryOp_equal]
          exact congrArg Except.ok (isTruthy_equal _ _)

variable (env) in
-- The condition of a hash join has a truth value on every row, or fails on every row.
theorem onHolds_static {on : Option Expr} {leftCols : Nat} {keys : Nat × Nat}
    (h : detectEquiJoin on colMap leftCols = some keys) :
    (∃ p : Row → Bool, ∀ c, onHolds env colMap on c = .ok (p c)) ∨
      ∃ column, ∀ c, onHolds env colMap on c = .error (.Err (.ColumnNotFound column)) := by
  unfold detectEquiJoin at h
  split at h
  case h_2 => cases h
  case h_1 lt lc rt rc =>
      simp only [onHolds_equal]
      cases hl : env.resolve lt lc colMap with
      | error e =>
          rw [resolve_error hl]
          exact .inr ⟨lc, fun _ => rfl⟩
      | ok x =>
          cases hr : env.resolve rt rc colMap with
          | error e =>
              rw [resolve_error hr]
              exact .inr ⟨rc, fun _ => rfl⟩
          | ok y => exact .inl ⟨fun c => equalHolds (resolved c x) (resolved c y), fun _ => rfl⟩

end References

section Agreement

-- The same rows, in whatever order, under the same columns; or the same failure.
def SameRows : Res Source → Res Source → Prop
  | .ok a, .ok b => a.rows.Perm b.rows ∧ a.cols = b.cols
  | .error e, .error e' => e = e'
  | _, _ => False

variable (fmt : RealText) (env : EvalEnv) (colMap : ColMap) (on : Option Expr) (joinType : JoinType)
  (left right : Source)

-- `eval_from` gives what it would give without hash joins.
def HashAgrees : Prop :=
  SameRows (evalJoin fmt env colMap on joinType left right)
    (joinSources fmt env colMap on none joinType left right)

-- A row has a partner by the keys when it has one by the condition.
def PartnersAlike (combine : Row → Row) (byKey : Row → Bool) (others : List Row) : Prop :=
  (∀ other ∈ others, ∃ holds, onHolds env colMap on (combine other) = .ok holds) ∧
    (others.any byKey = true ↔ ∃ other ∈ others, onHolds env colMap on (combine other) = .ok true)

-- The keys decide the pairs as the condition does. A semi join only asks whether there is a partner.
def MatchesAlike (leftIndex rightIndex : Nat) : Prop :=
  match joinType with
  | .LeftSemi => ∀ l ∈ left.rows,
      PartnersAlike env colMap on (l ++ ·) (keyMatch fmt leftIndex rightIndex l) right.rows
  | .RightSemi => ∀ r ∈ right.rows,
      PartnersAlike env colMap on (· ++ r) (keyMatch fmt leftIndex rightIndex · r) left.rows
  | _ => ∀ l ∈ left.rows, ∀ r ∈ right.rows,
      onHolds env colMap on (l ++ r) = .ok (keyMatch fmt leftIndex rightIndex l r)

structure Concordant (leftIndex rightIndex : Nat) : Prop where
  leftKeys : Reaches leftIndex left.rows
  rightKeys : Reaches rightIndex right.rows
  alike : MatchesAlike fmt env colMap on joinType left right leftIndex rightIndex

-- The condition reads the key columns, and no row is longer than its list of columns. Only outer joins
-- ask for it, where a padded row could otherwise be taken for a joined one.
structure Regular (leftIndex rightIndex : Nat) : Prop where
  holds : ∀ c, onHolds env colMap on c =
    .ok (equalHolds (cell c leftIndex) (cell c (left.width + rightIndex)))
  leftRows : ∀ l ∈ left.rows, l.length ≤ left.width
  rightRows : ∀ r ∈ right.rows, r.length ≤ right.width

variable {fmt env colMap on joinType left right} {leftIndex rightIndex : Nat}

theorem cell_append (a b : Row) (index : Nat) :
    cell (a ++ b) index = if index < a.length then cell a index else cell b (index - a.length) := by
  unfold cell
  split_ifs with h
  · rw [List.getD_append _ _ _ _ h]
  · rw [List.getD_append_right _ _ _ _ (not_lt.mp h)]

theorem cell_nulls (s : Source) (index : Nat) : cell s.nulls index = .Null := by
  unfold cell Source.nulls
  rw [List.getD_eq_getElem?_getD, List.getElem?_replicate]
  split_ifs <;> rfl

theorem equalHolds_left {v w : Value} (h : v = .Null) : equalHolds v w = false := by
  simp [equalHolds, h]

theorem equalHolds_right {v w : Value} (h : w = .Null) : equalHolds v w = false := by
  simp [equalHolds, h]

theorem keyMatch_cells {i j : Nat} {a b : Row} (h : keyMatch fmt i j a b = true) :
    cell a i ≠ .Null ∧ cell b j ≠ .Null := by
  simp only [keyMatch, Bool.and_eq_true, decide_eq_true_eq, hasKey_iff] at h
  exact ⟨h.1, h.2.1⟩

theorem lt_of_cell {row : Row} {index : Nat} (h : cell row index ≠ .Null) : index < row.length := by
  by_contra hge
  exact h (List.getD_eq_default _ _ (not_lt.mp hge))

-- A padded row of a LEFT JOIN never meets the condition and never reads like a joined row.
theorem left_perm_iff (hreg : Regular env colMap on left right leftIndex rightIndex) :
    (joined .Left (keyMatch fmt leftIndex rightIndex) left right).Perm
        (joined .Left (fun l r => equalHolds (cell (l ++ r) leftIndex)
          (cell (l ++ r) (left.width + rightIndex))) left right) ↔
      ∀ l ∈ left.rows, ∀ r ∈ right.rows, keyMatch fmt leftIndex rightIndex l r =
        equalHolds (cell (l ++ r) leftIndex) (cell (l ++ r) (left.width + rightIndex)) := by
  apply joinOn_perm_iff (r := fun c => equalHolds (cell c leftIndex) (cell c (left.width + rightIndex)))
  · intro l hl c hc
    rw [List.mem_singleton.mp hc]
    apply equalHolds_right
    have hlen := hreg.leftRows l hl
    rw [cell_append, if_neg (by omega), cell_nulls]
  · intro l hl r hr hmatch _ l' hl' hmem
    have heq := List.mem_singleton.mp hmem
    obtain ⟨-, hcell⟩ := keyMatch_cells hmatch
    have hlen := congrArg List.length heq
    have hshort := hreg.rightRows r hr
    have hread := congrArg (cell · (l.length + rightIndex)) heq
    simp only [List.length_append, Source.nulls, List.length_replicate, Source.width] at hlen hshort
    simp only [cell_append] at hread
    rw [if_neg (by omega), Nat.add_sub_cancel_left, if_neg (by omega), cell_nulls] at hread
    exact hcell hread

theorem right_perm_iff (hlt : leftIndex < left.width) :
    (joined .Right (keyMatch fmt leftIndex rightIndex) left right).Perm
        (joined .Right (fun l r => equalHolds (cell (l ++ r) leftIndex)
          (cell (l ++ r) (left.width + rightIndex))) left right) ↔
      ∀ r ∈ right.rows, ∀ l ∈ left.rows, keyMatch fmt leftIndex rightIndex l r =
        equalHolds (cell (l ++ r) leftIndex) (cell (l ++ r) (left.width + rightIndex)) := by
  apply joinOn_perm_iff (r := fun c => equalHolds (cell c leftIndex) (cell c (left.width + rightIndex)))
  · intro r _ c hc
    rw [List.mem_singleton.mp hc]
    apply equalHolds_left
    rw [cell_append, if_pos (by simpa [Source.nulls] using hlt), cell_nulls]
  · intro r _ l _ hmatch _ r' _ hmem
    have heq := List.mem_singleton.mp hmem
    obtain ⟨hcell, -⟩ := keyMatch_cells hmatch
    have hread := congrArg (cell · leftIndex) heq
    simp only [cell_append] at hread
    rw [if_pos (lt_of_cell hcell), if_pos (by simpa [Source.nulls] using hlt), cell_nulls] at hread
    exact hcell hread

theorem lt_of_detect (hkeys : detectEquiJoin on colMap left.width = some (leftIndex, rightIndex)) :
    leftIndex < left.width := by
  unfold detectEquiJoin at hkeys
  split at hkeys
  case h_2 => cases hkeys
  case h_1 =>
      simp only [Option.bind_eq_bind, Option.bind_eq_some_iff] at hkeys
      obtain ⟨li, -, ri, -, hkeys⟩ := hkeys
      split_ifs at hkeys with hlr hrl
      · cases hkeys
        exact hlr.1
      · cases hkeys
        exact hrl.1

theorem inner_perm_iff (p : Row → Bool) (hleft : joinType ≠ .Left) (hright : joinType ≠ .Right)
    (hleftSemi : joinType ≠ .LeftSemi) (hrightSemi : joinType ≠ .RightSemi) :
    (joined joinType (keyMatch fmt leftIndex rightIndex) left right).Perm
        (joined joinType (fun l r => p (l ++ r)) left right) ↔
      ∀ l ∈ left.rows, ∀ r ∈ right.rows, keyMatch fmt leftIndex rightIndex l r = p (l ++ r) := by
  have hinner : (joinOn (fun _ => []) (· ++ ·) (keyMatch fmt leftIndex rightIndex) left.rows right.rows).Perm
      (joinOn (fun _ => []) (· ++ ·) (fun l r => p (l ++ r)) left.rows right.rows) ↔
        ∀ l ∈ left.rows, ∀ r ∈ right.rows, keyMatch fmt leftIndex rightIndex l r = p (l ++ r) :=
    joinOn_perm_iff (by simp) (by simp)
  cases joinType <;> first | contradiction | exact hinner

theorem partnersAlike_iff {combine : Row → Row} {byKey p : Row → Bool} {others : List Row}
    (hp : ∀ c, onHolds env colMap on c = .ok (p c)) :
    PartnersAlike env colMap on combine byKey others ↔
      others.any byKey = others.any fun o => p (combine o) := by
  have hex : (∃ o ∈ others, onHolds env colMap on (combine o) = .ok true) ↔
      (others.any fun o => p (combine o)) = true := by simp [hp]
  rw [PartnersAlike, hex, ← Bool.eq_iff_iff]
  simp only [hp, and_iff_right_iff_imp]
  exact fun _ o _ => ⟨p (combine o), rfl⟩

-- When the condition has a truth value, the two joins give the same rows exactly if it goes with the keys.
theorem joined_perm_iff (hkeys : detectEquiJoin on colMap left.width = some (leftIndex, rightIndex))
    {p : Row → Bool} (hp : ∀ c, onHolds env colMap on c = .ok (p c))
    (hreg : joinType = .Left ∨ joinType = .Right →
      Regular env colMap on left right leftIndex rightIndex) :
    (joined joinType (keyMatch fmt leftIndex rightIndex) left right).Perm
        (joined joinType (fun l r => p (l ++ r)) left right) ↔
      MatchesAlike fmt env colMap on joinType left right leftIndex rightIndex := by
  have hpairs : (∀ l ∈ left.rows, ∀ r ∈ right.rows,
      onHolds env colMap on (l ++ r) = .ok (keyMatch fmt leftIndex rightIndex l r)) ↔
      ∀ l ∈ left.rows, ∀ r ∈ right.rows, keyMatch fmt leftIndex rightIndex l r = p (l ++ r) := by
    simp only [hp, Except.ok.injEq, eq_comm]
  have hfun : ∀ hr : Regular env colMap on left right leftIndex rightIndex,
      p = fun c => equalHolds (cell c leftIndex) (cell c (left.width + rightIndex)) := by
    intro hr
    funext c
    exact Except.ok.inj ((hp c).symm.trans (hr.holds c))
  cases joinType
  case Left =>
    refine Iff.trans ?_ hpairs.symm
    rw [hfun (hreg (.inl rfl))]
    exact left_perm_iff (hreg (.inl rfl))
  case Right =>
    refine Iff.trans ?_ hpairs.symm
    rw [hfun (hreg (.inr rfl))]
    refine (right_perm_iff (lt_of_detect hkeys)).trans ?_
    exact ⟨fun h l hl r hr => h r hr l hl, fun h r hr l hl => h l hl r hr⟩
  case LeftSemi =>
    simp only [MatchesAlike, partnersAlike_iff hp]
    exact semiJoin_perm_iff
  case RightSemi =>
    simp only [MatchesAlike, partnersAlike_iff hp]
    exact semiJoin_perm_iff
  all_goals
    refine Iff.trans ?_ hpairs.symm
    exact inner_perm_iff p (by decide) (by decide) (by decide) (by decide)

theorem nestedLoop_noPairs (h : left.rows = [] ∨ right.rows = []) (p : Row → Row → Bool) :
    nestedLoop env colMap on joinType left right = .ok (joined joinType p left right) := by
  apply nestedLoop_ok
  intro l hl r hr
  rcases h with h | h
  · rw [h] at hl
    cases hl
  · rw [h] at hr
    cases hr

theorem matchesAlike_noPairs (h : left.rows = [] ∨ right.rows = []) :
    MatchesAlike fmt env colMap on joinType left right leftIndex rightIndex := by
  have hpairs : ∀ l ∈ left.rows, ∀ r ∈ right.rows,
      onHolds env colMap on (l ++ r) = .ok (keyMatch fmt leftIndex rightIndex l r) := by
    rcases h with h | h <;> simp [h]
  cases joinType
  case LeftSemi => rcases h with h | h <;> simp [MatchesAlike, PartnersAlike, h]
  case RightSemi => rcases h with h | h <;> simp [MatchesAlike, PartnersAlike, h]
  all_goals exact hpairs

theorem not_matchesAlike {e : Fault} (he : ∀ c, onHolds env colMap on c = .error e)
    (hleft : left.rows ≠ []) (hright : right.rows ≠ []) :
    ¬MatchesAlike fmt env colMap on joinType left right leftIndex rightIndex := by
  obtain ⟨l, hl⟩ := List.exists_mem_of_ne_nil _ hleft
  obtain ⟨r, hr⟩ := List.exists_mem_of_ne_nil _ hright
  intro h
  cases joinType
  case LeftSemi =>
    obtain ⟨_, hok⟩ := (h l hl).1 r hr
    rw [he] at hok
    cases hok
  case RightSemi =>
    obtain ⟨_, hok⟩ := (h r hr).1 l hl
    rw [he] at hok
    cases hok
  all_goals
    have hok := h l hl r hr
    rw [he] at hok
    cases hok

theorem sameRows_iff (hfull : joinType ≠ .Full) (hnatural : joinType ≠ .Natural) :
    SameRows (joinSources fmt env colMap on (some (leftIndex, rightIndex)) joinType left right)
        (joinSources fmt env colMap on none joinType left right) ↔
      match hashJoin fmt joinType left right leftIndex rightIndex,
        nestedLoop env colMap on joinType left right with
      | .ok a, .ok b => a.Perm b
      | .error e, .error e' => e = e'
      | _, _ => False := by
  cases joinType <;> first | contradiction | skip
  all_goals
    simp only [joinSources]
    cases hashJoin fmt _ left right leftIndex rightIndex <;>
      cases nestedLoop env colMap on _ left right <;>
        simp [SameRows, bind, Except.bind, pure, Except.pure]

theorem hashAgrees_iff (hkeys : detectEquiJoin on colMap left.width = some (leftIndex, rightIndex))
    (hfull : joinType ≠ .Full) (hnatural : joinType ≠ .Natural)
    (hreg : joinType = .Left ∨ joinType = .Right →
      Regular env colMap on left right leftIndex rightIndex) :
    HashAgrees fmt env colMap on joinType left right ↔
      Concordant fmt env colMap on joinType left right leftIndex rightIndex := by
  rw [HashAgrees, evalJoin, hkeys, sameRows_iff hfull hnatural]
  by_cases hreach : Reaches leftIndex left.rows ∧ Reaches rightIndex right.rows
  · have hconcordant : Concordant fmt env colMap on joinType left right leftIndex rightIndex ↔
        MatchesAlike fmt env colMap on joinType left right leftIndex rightIndex :=
      ⟨fun h => h.alike, fun h => ⟨hreach.1, hreach.2, h⟩⟩
    rw [hashJoin_ok hreach.1 hreach.2, hconcordant]
    by_cases hpairs : left.rows = [] ∨ right.rows = []
    · rw [nestedLoop_noPairs hpairs (keyMatch fmt leftIndex rightIndex)]
      exact iff_of_true (List.Perm.refl _) (matchesAlike_noPairs hpairs)
    · rw [not_or] at hpairs
      rcases onHolds_static env hkeys with ⟨p, hp⟩ | ⟨column, he⟩
      · rw [nestedLoop_ok fun l _ r _ => hp (l ++ r)]
        exact joined_perm_iff hkeys hp hreg
      · rw [nestedLoop_error he hpairs.1 hpairs.2]
        exact iff_of_false id (not_matchesAlike he hpairs.1 hpairs.2)
  · rw [hashJoin_panic hreach]
    refine iff_of_false ?_ fun h => hreach ⟨h.leftKeys, h.rightKeys⟩
    by_cases hpairs : left.rows = [] ∨ right.rows = []
    · rw [nestedLoop_noPairs hpairs (keyMatch fmt leftIndex rightIndex)]
      exact id
    · rw [not_or] at hpairs
      rcases onHolds_static env hkeys with ⟨p, hp⟩ | ⟨column, he⟩
      · rw [nestedLoop_ok fun l _ r _ => hp (l ++ r)]
        exact id
      · rw [nestedLoop_error he hpairs.1 hpairs.2]
        intro h
        cases h

theorem sameRows_refl (x : Res Source) : SameRows x x := by
  cases x with
  | ok a => exact ⟨List.Perm.refl _, rfl⟩
  | error e => rfl

-- Where the condition compares the two key columns, it goes with the typed keys except on some pairs.
theorem pair_alike_iff (hkeys : detectEquiJoin on colMap left.width = some (leftIndex, rightIndex))
    (hreg : Regular env colMap on left right leftIndex rightIndex) {l : Row} (hl : l.length = left.width)
    (r : Row) : onHolds env colMap on (l ++ r) = .ok (keyMatch fmt leftIndex rightIndex l r) ↔
      ¬KeyMismatch (cell l leftIndex) (cell r rightIndex) := by
  have hlt := lt_of_detect hkeys
  have hright : ¬left.width + rightIndex < l.length := by omega
  rw [hreg.holds, cell_append, if_pos (by omega), cell_append, if_neg hright, hl, Nat.add_sub_cancel_left,
    Except.ok.injEq, Bool.eq_iff_iff]
  simp only [equalHolds, keyMatch, Bool.and_eq_true, decide_eq_true_eq, hasKey_iff]
  rw [← typedKey_eq_iff_eq fmt]
  generalize cell l leftIndex = v
  generalize cell r rightIndex = w
  by_cases hv : v = .Null
  · subst hv
    cases w <;> simp [typedKey, Value.eq]
  · by_cases hw : w = .Null
    · subst hw
      cases v <;> simp [typedKey, Value.eq]
    · rw [@eq_comm _ (typedKey fmt w)]
      simp only [hv, hw, ne_eq, not_false_eq_true, true_and]
      exact ⟨Iff.symm, Iff.symm⟩

variable (fmt env colMap on joinType left right) in
-- The condition under which a hash join may stand for the nested loops.
def Concords : Prop :=
  ∀ leftIndex rightIndex, detectEquiJoin on colMap left.width = some (leftIndex, rightIndex) →
    joinType ≠ .Full → joinType ≠ .Natural →
      Concordant fmt env colMap on joinType left right leftIndex rightIndex

theorem hashAgrees_of_noKeys (h : detectEquiJoin on colMap left.width = none ∨ joinType = .Full ∨
    joinType = .Natural) : HashAgrees fmt env colMap on joinType left right := by
  rw [HashAgrees, evalJoin]
  rcases h with h | h | h
  · rw [h]
    exact sameRows_refl _
  · subst h
    exact sameRows_refl _
  · subst h
    exact sameRows_refl _

theorem hashAgrees_of_concordant (hkeys : detectEquiJoin on colMap left.width = some (leftIndex, rightIndex))
    (hfull : joinType ≠ .Full) (hnatural : joinType ≠ .Natural)
    (h : Concordant fmt env colMap on joinType left right leftIndex rightIndex) :
    HashAgrees fmt env colMap on joinType left right := by
  by_cases houter : joinType = .Left ∨ joinType = .Right
  · rw [HashAgrees, evalJoin, hkeys, sameRows_iff hfull hnatural, hashJoin_ok h.leftKeys h.rightKeys]
    have hpairs : ∀ l ∈ left.rows, ∀ r ∈ right.rows,
        onHolds env colMap on (l ++ r) = .ok (keyMatch fmt leftIndex rightIndex l r) := by
      have halike := h.alike
      rcases houter with rfl | rfl <;> exact halike
    rw [nestedLoop_ok hpairs]
  · exact (hashAgrees_iff hkeys hfull hnatural fun h' => absurd h' houter).mpr h

-- A hash join gives the rows of the nested loops when its keys go with the condition, and, with rows no
-- longer than their columns where outer joins pad, only then.
theorem evalJoin_agrees :
    (Concords fmt env colMap on joinType left right → HashAgrees fmt env colMap on joinType left right) ∧
      ((∀ leftIndex rightIndex, detectEquiJoin on colMap left.width = some (leftIndex, rightIndex) →
        joinType = .Left ∨ joinType = .Right → Regular env colMap on left right leftIndex rightIndex) →
        HashAgrees fmt env colMap on joinType left right →
          Concords fmt env colMap on joinType left right) := by
  constructor
  · intro h
    by_cases hjoin : joinType = .Full ∨ joinType = .Natural
    · exact hashAgrees_of_noKeys (.inr hjoin)
    · rw [not_or] at hjoin
      cases hkeys : detectEquiJoin on colMap left.width with
      | none => exact hashAgrees_of_noKeys (.inl hkeys)
      | some keys =>
          exact hashAgrees_of_concordant hkeys hjoin.1 hjoin.2 (h _ _ hkeys hjoin.1 hjoin.2)
  · intro hreg h leftIndex rightIndex hkeys hfull hnatural
    exact (hashAgrees_iff hkeys hfull hnatural (hreg _ _ hkeys)).mp h

end Agreement

-- `t` with the single column `x` and `u` with the single column `y`.
def twoTables : Schema where
  tables :=
    [("t".toList, ⟨"t", [⟨"x", .Integer, false, false, 0⟩], ["x"], 2, [], []⟩),
      ("u".toList, ⟨"u", [⟨"y", .Real, false, false, 0⟩], ["y"], 2, [], []⟩)]
  indexes := []
  triggers := []

def xEqualsY : Option Expr := some (.BinaryOp (.ColumnRef none "x") .Equal (.ColumnRef none "y"))

def tuColMap : ColMap := combinedColMap twoTables (.Table "t" none) (.Table "u" none) ["x", "y"]

-- The integer 1 and the real 1.0 are equal and have different keys.
theorem hashJoin_misses_real : ¬HashAgrees oneText columnsEnv tuColMap xEqualsY .Inner
    ⟨[[.Integer 1]], ["x"]⟩ ⟨[[.Real 0x3FF0000000000000]], ["y"]⟩ := by
  intro h
  have hhash : evalJoin oneText columnsEnv tuColMap xEqualsY .Inner ⟨[[.Integer 1]], ["x"]⟩
      ⟨[[.Real 0x3FF0000000000000]], ["y"]⟩ = .ok ⟨[], ["x", "y"]⟩ := by decide
  have hloop : joinSources oneText columnsEnv tuColMap xEqualsY none .Inner ⟨[[.Integer 1]], ["x"]⟩
      ⟨[[.Real 0x3FF0000000000000]], ["y"]⟩ =
        .ok ⟨[[.Integer 1, .Real 0x3FF0000000000000]], ["x", "y"]⟩ := by decide
  rw [HashAgrees, hhash, hloop] at h
  exact absurd h.1.length_eq (by decide)

end Kkdb
