import Kkdb.Lib.Grouping
import Kkdb.Lib.State
import Kkdb.Vm.TypedKey

namespace Kkdb

open Lib

def groupKey (fmt : RealText) (vs : List Value) : List UInt8 := vs.flatMap fun v => typedKey fmt v ++ [0]

section Groups

variable {α : Type}

def evalAll (exprs : List (α → Res Value)) (row : α) : Res (List Value) := exprs.mapM fun e => e row

-- The loops of `apply_group_by` and of the partitions of the window functions.
def groupRows (fmt : RealText) (exprs : List (α → Res Value)) (rows : List α) :
    Res (List (List UInt8 × List α)) :=
  rows.foldlM (fun groups row => do
    let vs ← evalAll exprs row
    return addToGroup (groupKey fmt vs) row groups) []

-- The loop of `SELECT DISTINCT`.
def distinctRows (fmt : RealText) (rows : List Row) : List Row := distinctBy (groupKey fmt) [] rows

-- `COUNT(DISTINCT e)`, whose keys have no NUL at the end.
def countDistinct (fmt : RealText) (values : List Value) : Nat :=
  (distinctBy (typedKey fmt) [] (values.filter fun v => v ≠ .Null)).length

-- What a value shows between the NUL characters in it.
def pieces (fmt : RealText) (v : Value) : List (List UInt8) := (typedKey fmt v).splitOn 0

-- Two lists of values that NUL characters make look alike, or NaNs that all look alike.
def Blurred (fmt : RealText) (vs ws : List Value) : Prop :=
  vs ≠ ws ∧ vs.flatMap (pieces fmt) = ws.flatMap (pieces fmt)

variable {fmt : RealText} {vs ws : List Value}

theorem splitOn_groupKey (fmt : RealText) (vs : List Value) :
    (groupKey fmt vs).splitOn 0 = vs.flatMap (pieces fmt) ++ [[]] := by
  induction vs with
  | nil => rfl
  | cons v vs ih =>
      rw [groupKey, List.flatMap_cons, List.append_assoc, List.singleton_append,
        List.splitOn_append_cons_self, List.flatMap_cons, List.append_assoc, ← ih]
      rfl

theorem groupKey_eq_iff : groupKey fmt vs = groupKey fmt ws ↔ vs.flatMap (pieces fmt) = ws.flatMap
    (pieces fmt) := by
  constructor
  · intro h
    have hsplit := congrArg (List.splitOn 0) h
    rwa [splitOn_groupKey, splitOn_groupKey, List.append_left_inj] at hsplit
  · intro h
    have hsplit : (groupKey fmt vs).splitOn 0 = (groupKey fmt ws).splitOn 0 := by
      rw [splitOn_groupKey, splitOn_groupKey, h]
    have hjoin := congrArg (List.intercalate [0]) hsplit
    rwa [List.intercalate_splitOn, List.intercalate_splitOn] at hjoin

theorem groupKey_inj_iff : (groupKey fmt vs = groupKey fmt ws → vs = ws) ↔ ¬Blurred fmt vs ws := by
  rw [groupKey_eq_iff, Blurred, not_and, not_imp_not]

def valuesOf (exprs : List (α → Res Value)) (row : α) : List Value := (evalAll exprs row).toOption.getD []

theorem foldlM_addToGroup {exprs : List (α → Res Value)} {rows : List α}
    {start groups : List (List UInt8 × List α)} :
    rows.foldlM (fun groups row => do
      let vs ← evalAll exprs row
      return addToGroup (groupKey fmt vs) row groups) start = .ok groups ↔
    (∀ row ∈ rows, evalAll exprs row = .ok (valuesOf exprs row)) ∧
      groups = rows.foldl (fun groups row => addToGroup
        (groupKey fmt (valuesOf exprs row)) row groups) start := by
  induction rows generalizing start with
  | nil =>
      rw [List.foldlM_nil, List.foldl_nil]
      constructor
      · intro h
        cases h
        exact ⟨fun _ h => (by cases h), rfl⟩
      · rintro ⟨-, rfl⟩
        rfl
  | cons row rows ih =>
      rw [List.foldlM_cons, List.foldl_cons, List.forall_mem_cons]
      cases heval : evalAll exprs row with
      | error fault =>
          constructor
          · intro h
            cases h
          · rintro ⟨⟨h, -⟩, -⟩
            cases h
      | ok vs =>
          have hvs : valuesOf exprs row = vs := by rw [valuesOf, heval]; rfl
          rw [hvs]
          exact ih.trans ⟨fun h => ⟨⟨rfl, h.1⟩, h.2⟩, fun h => ⟨h.1.2, h.2⟩⟩

theorem exists_valuesGroup_iff (fmt : RealText) (exprs : List (α → Res Value)) {rows : List α} {a b : α}
    (ha : a ∈ rows) (hb : b ∈ rows) :
    (∃ g ∈ groupBy (fun row => groupKey fmt (valuesOf exprs row)) rows, a ∈ g.2 ∧ b ∈ g.2) ↔
      groupKey fmt (valuesOf exprs a) = groupKey fmt (valuesOf exprs b) :=
  exists_group_iff ha hb

-- Rows are in one group exactly when their values are the same.
def GroupedByValue (fmt : RealText) (exprs : List (α → Res Value)) (rows : List α) : Prop :=
  ∀ groups, groupRows fmt exprs rows = .ok groups → ∀ a ∈ rows, ∀ b ∈ rows,
    ((∃ g ∈ groups, a ∈ g.2 ∧ b ∈ g.2) ↔ evalAll exprs a = evalAll exprs b)

-- Of no two rows the values look alike and are not the same.
def Distinguished (fmt : RealText) (exprs : List (α → Res Value)) (rows : List α) : Prop :=
  (∀ row ∈ rows, ∃ vs, evalAll exprs row = .ok vs) → ∀ a ∈ rows, ∀ b ∈ rows, ∀ vs ws,
    evalAll exprs a = .ok vs → evalAll exprs b = .ok ws → ¬Blurred fmt vs ws

theorem groupedByValue_iff {exprs : List (α → Res Value)} {rows : List α} :
    GroupedByValue fmt exprs rows ↔ Distinguished fmt exprs rows := by
  constructor
  · intro h hall a ha b hb vs ws hvs hws
    have hvalues : ∀ row ∈ rows, evalAll exprs row = .ok (valuesOf exprs row) := by
      intro row hrow
      obtain ⟨vs, hvs⟩ := hall row hrow
      rw [valuesOf, hvs]
      rfl
    have hgroups := h _ (foldlM_addToGroup.mpr ⟨hvalues, rfl⟩) a ha b hb
    have hsame := exists_valuesGroup_iff fmt exprs ha hb
    rw [← groupKey_inj_iff]
    intro hkey
    have hva : valuesOf exprs a = vs := by rw [valuesOf, hvs]; rfl
    have hvb : valuesOf exprs b = ws := by rw [valuesOf, hws]; rfl
    rw [← hva, ← hvb] at hkey
    have heval := hgroups.mp (hsame.mpr hkey)
    rw [hvs, hws] at heval
    exact Except.ok.inj heval
  · intro h groups hgroups a ha b hb
    obtain ⟨hvalues, rfl⟩ := foldlM_addToGroup.mp hgroups
    have hsame := exists_valuesGroup_iff fmt exprs ha hb
    have hblur := h (fun row hrow => ⟨_, hvalues row hrow⟩) a ha b hb _ _ (hvalues a ha) (hvalues b hb)
    refine hsame.trans ?_
    rw [hvalues a ha, hvalues b hb, Except.ok.injEq]
    exact ⟨groupKey_inj_iff.mpr hblur, congrArg (groupKey fmt)⟩

theorem distinctRows_eq_iff {rows : List Row} :
    distinctRows fmt rows = distinctBy id [] rows ↔ ∀ a ∈ rows, ∀ b ∈ rows, ¬Blurred fmt a b := by
  simp only [distinctRows, distinctBy_eq_iff, groupKey_inj_iff]

theorem countDistinct_eq_iff {values : List Value} :
    countDistinct fmt values = (distinctBy id [] (values.filter fun v => v ≠ .Null)).length ↔
      ∀ v ∈ values, ∀ w ∈ values, v.isNaN = true → w.isNaN = true → v = w := by
  have hnull : ∀ v : Value, v.isNaN = true → v ≠ .Null := by
    rintro v hv rfl
    cases hv
  rw [countDistinct, length_distinctBy_eq_iff]
  simp only [List.mem_filter, decide_eq_true_eq, typedKey_eq_iff]
  constructor
  · intro h v hv w hw hvn hwn
    exact h v ⟨hv, hnull v hvn⟩ w ⟨hw, hnull w hwn⟩ (.inr ⟨hvn, hwn⟩)
  · rintro h v ⟨hv, -⟩ w ⟨hw, -⟩ (rfl | ⟨hvn, hwn⟩)
    · rfl
    · exact h v hv w hw hvn hwn

-- Without NUL characters only NaNs look alike.
theorem Blurred.cause (h : Blurred fmt vs ws) :
    (∃ v ∈ vs ++ ws, 0 ∈ typedKey fmt v) ∨ ∃ v ∈ vs, v.isNaN = true := by
  by_contra hno
  rw [not_or, not_exists, not_exists] at hno
  obtain ⟨hnul, hnan⟩ := hno
  have hpieces : ∀ us ⊆ vs ++ ws, us.flatMap (pieces fmt) = us.map (typedKey fmt) := by
    intro us hus
    rw [List.map_eq_flatMap]
    refine List.flatMap_congr fun v hv => ?_
    exact List.splitOn_eq_singleton fun hmem => hnul v ⟨hus hv, hmem⟩
  have hkeys := h.2
  rw [hpieces vs (List.subset_append_left _ _), hpieces ws (List.subset_append_right _ _)] at hkeys
  apply h.1
  clear h hpieces hnul
  induction vs generalizing ws with
  | nil => exact (List.map_eq_nil_iff.mp hkeys.symm).symm
  | cons v vs ih =>
      cases ws with
      | nil => cases hkeys
      | cons w ws =>
          rw [List.map_cons, List.map_cons, List.cons.injEq] at hkeys
          have hvw : v = w := (typedKey_eq_iff.mp hkeys.1).resolve_right fun hnans =>
            hnan v ⟨List.mem_cons_self, hnans.1⟩
          rw [hvw, ih (fun u hu => hnan u ⟨List.mem_cons_of_mem v hu.1, hu.2⟩) hkeys.2]

-- GROUP BY and PARTITION BY, DISTINCT and COUNT(DISTINCT) go by the values exactly when their keys do, which they
-- do where there is neither a NUL character nor a NaN.
theorem grouping_iff (fmt : RealText) (exprs : List (α → Res Value)) (rows : List α) (results : List Row)
    (values : List Value) :
    (GroupedByValue fmt exprs rows ↔ Distinguished fmt exprs rows) ∧
      (distinctRows fmt results = distinctBy id [] results ↔
        ∀ a ∈ results, ∀ b ∈ results, ¬Blurred fmt a b) ∧
      (countDistinct fmt values = (distinctBy id [] (values.filter fun v => v ≠ .Null)).length ↔
        ∀ v ∈ values, ∀ w ∈ values, v.isNaN = true → w.isNaN = true → v = w) ∧
      ∀ vs ws, Blurred fmt vs ws →
        (∃ v ∈ vs ++ ws, 0 ∈ typedKey fmt v) ∨ ∃ v ∈ vs, v.isNaN = true :=
  ⟨groupedByValue_iff, distinctRows_eq_iff, countDistinct_eq_iff, fun _ _ => Blurred.cause⟩

-- `SELECT DISTINCT` of two rows of two texts with NUL characters keeps one of them.
theorem distinctRows_nul :
    ([.Text "a\x00Tb", .Text "c"] : Row) ≠ [.Text "a", .Text "b\x00Tc"] ∧
      groupKey oneText [.Text "a\x00Tb", .Text "c"] = groupKey oneText [.Text "a", .Text "b\x00Tc"] ∧
      distinctRows oneText [[.Text "a\x00Tb", .Text "c"], [.Text "a", .Text "b\x00Tc"]] =
        [[.Text "a\x00Tb", .Text "c"]] := by
  decide

end Groups

end Kkdb
