import Kkdb.Vm.JoinAgreement

namespace Kkdb

open Lib

section Common

variable {l r : Row} {common : List (Nat × Nat)}

-- Every column is there when the rows agree in all the columns before it.
def Comparable (l r : Row) : List (Nat × Nat) → Prop
  | [] => True
  | (li, ri) :: common =>
      li < l.length ∧ ri < r.length ∧ ((cell l li).eq (cell r ri) = true → Comparable l r common)

def agree (l r : Row) (common : List (Nat × Nat)) : Bool := common.all fun p => (cell l p.1).eq (cell r p.2)

theorem allEqual_ok (h : Comparable l r common) : allEqual l r common = .ok (agree l r common) := by
  induction common with
  | nil => rfl
  | cons p common ih =>
      obtain ⟨hl, hr, hrest⟩ := h
      rw [allEqual, keyAt_ok hl, keyAt_ok hr, agree, List.all_cons]
      simp only [bind, Except.bind]
      cases heq : (cell l p.1).eq (cell r p.2) with
      | false => rfl
      | true =>
          rw [if_pos rfl, ih (hrest heq), Bool.true_and]
          rfl

theorem allEqual_panic (h : ¬Comparable l r common) : allEqual l r common = .error .Panic := by
  induction common with
  | nil => exact absurd trivial h
  | cons p common ih =>
      rw [allEqual]
      by_cases hl : p.1 < l.length
      · by_cases hr : p.2 < r.length
        · rw [keyAt_ok hl, keyAt_ok hr]
          simp only [bind, Except.bind]
          cases heq : (cell l p.1).eq (cell r p.2) with
          | false =>
              refine absurd ⟨hl, hr, fun htrue => ?_⟩ h
              rw [heq] at htrue
              cases htrue
          | true =>
              rw [if_pos rfl]
              exact ih fun hrest => h ⟨hl, hr, fun _ => hrest⟩
        · rw [keyAt_ok hl, keyAt_panic (not_lt.mp hr)]
          rfl
      · rw [keyAt_panic (not_lt.mp hl)]
        rfl

end Common

section Meaning

variable (left right : Source)

def sharedPairs : List (Nat × Nat) :=
  left.cols.zipIdx.flatMap fun (name, li) =>
    (right.cols.zipIdx.filter fun (other, _) => sameName other name).map fun (_, ri) => (li, ri)

def ownItems {α : Type} (items : List α) : List α :=
  (items.zipIdx.filter fun (_, i) => !(sharedPairs left right).any (·.2 = i)).map (·.1)

-- SQL equality on all the columns of one name: no null is equal to anything.
def equiMatch (l r : Row) : Bool := (sharedPairs left right).all fun p => equalHolds (cell l p.1) (cell r p.2)

structure IsNaturalJoin (joined : Source) : Prop where
  cols : joined.cols = left.cols ++ ownItems left right right.cols
  once : ∀ name ∈ left.cols, (∃ other ∈ right.cols, sameName other name = true) →
    joined.cols.countP (sameName name) = 1
  rows : joined.rows.Perm
    (joinOn (fun _ => []) (fun l r => l ++ ownItems left right r) (equiMatch left right) left.rows right.rows)
  cross : sharedPairs left right = [] →
    joined.rows.Perm (left.rows.flatMap fun l => right.rows.map fun r => l ++ r)

-- No column that both sides have is there twice on one of them.
def OnceEach : Prop :=
  ∀ name ∈ left.cols, ∀ other ∈ right.cols, sameName other name = true →
    left.cols.countP (sameName name) = 1 ∧ right.cols.countP (sameName name) = 1

end Meaning

section Names

variable {left right : Source} {name other : String}

theorem sameName_iff : sameName name other = true ↔ toAsciiLowercase name = toAsciiLowercase other := by
  rw [sameName, decide_eq_true_iff]

theorem sameName_congr (h : sameName other name = true) (x : String) : sameName x other = sameName x name := by
  rw [sameName, sameName, sameName_iff.mp h]

theorem sameName_comm (name other : String) : sameName name other = sameName other name := by
  rw [sameName, sameName, decide_eq_decide]
  exact eq_comm

theorem zipIdx_filter_of_countP_le {α : Type} {p : α → Bool} {xs : List α} (h : xs.countP p ≤ 1) (k : Nat) :
    ((xs.zipIdx k).filter fun e => p e.1).map Prod.snd = ((xs.findIdx? p).map (· + k)).toList := by
  induction xs generalizing k with
  | nil => rfl
  | cons x xs ih =>
      rw [List.zipIdx_cons, List.findIdx?_cons]
      by_cases hx : p x = true
      · rw [List.countP_cons_of_pos hx] at h
        have hnone : ∀ e ∈ xs.zipIdx (k + 1), ¬p e.1 = true := fun e he hp =>
          List.countP_eq_zero.mp (Nat.le_zero.mp (Nat.le_of_succ_le_succ h)) e.1
            (List.fst_mem_of_mem_zipIdx he) hp
        have hfilter : ((x, k) :: xs.zipIdx (k + 1)).filter (fun e => p e.1) = [(x, k)] := by
          rw [List.filter_cons, if_pos hx, List.filter_eq_nil_iff.mpr hnone]
        rw [hfilter, if_pos hx, Option.map_some, Nat.zero_add]
        rfl
      · rw [List.countP_cons_of_neg hx] at h
        rw [List.filter_cons, if_neg hx, ih h (k + 1), if_neg hx, Option.map_map]
        cases xs.findIdx? p with
        | none => rfl
        | some i => exact congrArg (fun n => [n]) (Nat.add_right_comm i k 1)

theorem countP_le_one_of_findIdx {α : Type} {p : α → Bool} {xs : List α}
    (h : ∀ i, (hi : i < xs.length) → p xs[i] = true → xs.findIdx? p = some i) : xs.countP p ≤ 1 := by
  induction xs with
  | nil => exact Nat.zero_le 1
  | cons x xs ih =>
      by_cases hx : p x = true
      · have hnone : xs.countP p = 0 := List.countP_eq_zero.mpr fun y hy hp => by
          obtain ⟨i, hi, rfl⟩ := List.getElem_of_mem hy
          have hfind := h (i + 1) (Nat.succ_lt_succ hi) hp
          rw [List.findIdx?_cons, if_pos hx] at hfind
          cases hfind
        rw [List.countP_cons_of_pos hx, hnone]
      · rw [List.countP_cons_of_neg hx]
        refine ih fun i hi hp => ?_
        have hfind := h (i + 1) (Nat.succ_lt_succ hi) hp
        rw [List.findIdx?_cons, if_neg hx] at hfind
        obtain ⟨j, hj, heq⟩ := Option.map_eq_some_iff.mp hfind
        rw [hj, Nat.succ.inj heq]

-- Where no name that both sides have is repeated, the columns compared are the ones of one name.
theorem commonCols_eq (h : OnceEach left right) : commonCols left right = sharedPairs left right := by
  rw [commonCols, sharedPairs, List.filterMap_eq_flatMap_toList]
  refine List.flatMap_congr fun e he => ?_
  obtain ⟨name, li⟩ := e
  have hname : name ∈ left.cols := List.fst_mem_of_mem_zipIdx he
  have hle : right.cols.countP (fun other => sameName other name) ≤ 1 := by
    by_cases hex : ∃ other ∈ right.cols, sameName other name = true
    · obtain ⟨other, hother, hsame⟩ := hex
      have hone := (h name hname other hother hsame).2
      rw [← hone]
      exact Nat.le_of_eq (List.countP_congr fun x _ => by rw [sameName_comm])
    · exact (List.countP_eq_zero.mpr fun x hx hp => hex ⟨x, hx, hp⟩).le.trans (Nat.zero_le 1)
  have hidx := zipIdx_filter_of_countP_le hle 0
  dsimp only
  have hmap : (right.cols.zipIdx.filter fun e => sameName e.1 name).map (fun e => (li, e.2)) =
      ((right.cols.zipIdx.filter fun e => sameName e.1 name).map Prod.snd).map fun ri => (li, ri) :=
    List.map_map.symm
  rw [hmap, hidx]
  cases right.cols.findIdx? fun other => sameName other name with
  | none => rfl
  | some ri => rfl

theorem unshared_eq {α : Type} (h : OnceEach left right) (items : List α) :
    unshared (commonCols left right) items = ownItems left right items := by
  rw [unshared, ownItems, commonCols_eq h]

theorem mem_sharedPairs {li ri : Nat} : (li, ri) ∈ sharedPairs left right ↔
    ∃ name other, left.cols[li]? = some name ∧ right.cols[ri]? = some other ∧ sameName other name = true := by
  rw [sharedPairs, List.mem_flatMap]
  constructor
  · rintro ⟨⟨name, i⟩, he, hpair⟩
    obtain ⟨⟨other, j⟩, hf, heq⟩ := List.mem_map.mp hpair
    obtain ⟨hmem, hsame⟩ := List.mem_filter.mp hf
    obtain ⟨rfl, rfl⟩ := Prod.mk.inj heq
    exact ⟨name, other, List.mem_zipIdx_iff_getElem?.mp he, List.mem_zipIdx_iff_getElem?.mp hmem, hsame⟩
  · rintro ⟨name, other, hli, hri, hsame⟩
    refine ⟨(name, li), List.mem_zipIdx_iff_getElem?.mpr hli, List.mem_map.mpr ⟨(other, ri), ?_, rfl⟩⟩
    exact List.mem_filter.mpr ⟨List.mem_zipIdx_iff_getElem?.mpr hri, hsame⟩

theorem mem_unshared {α : Type} {common : List (Nat × Nat)} {items : List α} {x : α} :
    x ∈ unshared common items ↔ ∃ i, items[i]? = some x ∧ ∀ p ∈ common, p.2 ≠ i := by
  rw [unshared, List.mem_map]
  constructor
  · rintro ⟨⟨y, i⟩, he, rfl⟩
    obtain ⟨hmem, hnone⟩ := List.mem_filter.mp he
    refine ⟨i, List.mem_zipIdx_iff_getElem?.mp hmem, fun p hp heq => ?_⟩
    simp only [Bool.not_eq_true', List.any_eq_false, decide_eq_true_eq] at hnone
    exact hnone p hp heq
  · rintro ⟨i, hx, hnone⟩
    refine ⟨(x, i), List.mem_filter.mpr ⟨List.mem_zipIdx_iff_getElem?.mpr hx, ?_⟩, rfl⟩
    simpa using fun a b hp => hnone (a, b) hp

theorem sameName_self (name : String) : sameName name name = true := sameName_iff.mpr rfl

theorem once_of_onceEach (h : OnceEach left right) (hname : name ∈ left.cols)
    (hex : ∃ other ∈ right.cols, sameName other name = true) :
    (left.cols ++ ownItems left right right.cols).countP (sameName name) = 1 := by
  obtain ⟨other, hother, hsame⟩ := hex
  rw [List.countP_append, (h name hname other hother hsame).1, ← unshared_eq h]
  refine Nat.add_eq_left.mpr (List.countP_eq_zero.mpr fun x hx hp => ?_)
  obtain ⟨i, hi, hnone⟩ := mem_unshared.mp hx
  obtain ⟨li, hli⟩ := List.getElem?_of_mem hname
  rw [commonCols_eq h] at hnone
  exact hnone (li, i) (mem_sharedPairs.mpr ⟨name, x, hli, hi, by rw [sameName_comm, hp]⟩) rfl

-- A name that is repeated on one side is there twice in the result.
theorem onceEach_of_once (h : ∀ name ∈ left.cols, (∃ other ∈ right.cols, sameName other name = true) →
    (left.cols ++ unshared (commonCols left right) right.cols).countP (sameName name) =
      1) : OnceEach left right := by
  intro name hname other hother hsame
  have hone := h name hname ⟨other, hother, hsame⟩
  rw [List.countP_append] at hone
  have hleft : 0 < left.cols.countP (sameName name) := List.countP_pos_iff.mpr ⟨name, hname, sameName_self name⟩
  have hright : 0 < right.cols.countP (sameName name) :=
    List.countP_pos_iff.mpr ⟨other, hother, by rw [sameName_comm, hsame]⟩
  have hgone : (unshared (commonCols left right) right.cols).countP (sameName name) = 0 := by omega
  refine ⟨by omega, Nat.le_antisymm (countP_le_one_of_findIdx fun i hi hp => ?_) hright⟩
  -- every column of the name must have been paired, and only the first one is
  have hpaired : ∃ p ∈ commonCols left right, p.2 = i := by
    by_contra hno
    have hmem : right.cols[i] ∈ unshared (commonCols left right) right.cols :=
      mem_unshared.mpr ⟨i, List.getElem?_eq_getElem hi, fun p hp heq => hno ⟨p, hp, heq⟩⟩
    exact List.countP_eq_zero.mp hgone _ hmem hp
  obtain ⟨⟨li, ri⟩, hpair, rfl⟩ := hpaired
  obtain ⟨⟨name', i'⟩, -, hfound⟩ := List.mem_filterMap.mp hpair
  obtain ⟨j, hj, heq⟩ := Option.map_eq_some_iff.mp hfound
  obtain ⟨rfl, rfl⟩ := Prod.mk.inj heq
  have hsame' : sameName right.cols[j] name' = true := (List.findIdx?_eq_some_iff_getElem.mp hj).2.1
  have hclass : ∀ x, sameName x name' = sameName name x := fun x => by
    rw [← sameName_congr hsame' x, sameName_comm name x]
    exact (sameName_congr hp x).symm
  rw [← hj]
  exact congrArg (fun p => right.cols.findIdx? p) (funext fun x => (hclass x).symm)

end Names

section Rows

variable (left right : Source)

def NullsMeet (l r : Row) : Prop :=
  agree l r (commonCols left right) = true ∧
    ∃ p ∈ commonCols left right, cell l p.1 = .Null ∧ cell r p.2 = .Null

variable {left right}

theorem eq_null_iff {v : Value} : Value.eq .Null v = true ↔ v = .Null := by
  cases v <;> simp [Value.eq]

theorem equalHolds_iff {v w : Value} : equalHolds v w = true ↔ v.eq w = true ∧ ¬(v = .Null ∧ w = .Null) := by
  simp only [equalHolds, Bool.and_eq_true, decide_eq_true_eq]
  constructor
  · rintro ⟨⟨hv, _⟩, heq⟩
    exact ⟨heq, fun h => hv h.1⟩
  · rintro ⟨heq, hnulls⟩
    refine ⟨⟨fun hv => ?_, fun hw => ?_⟩, heq⟩
    · subst hv
      exact hnulls ⟨rfl, eq_null_iff.mp heq⟩
    · subst hw
      cases v with
      | Null => exact hnulls ⟨rfl, rfl⟩
      | Integer a | Real a | Text a | Blob a => cases heq

theorem equiMatch_iff (h : OnceEach left right) (l r : Row) :
    equiMatch left right l r = true ↔ agree l r (commonCols left right) = true ∧ ¬NullsMeet left right l r := by
  rw [NullsMeet, agree, equiMatch, ← commonCols_eq h]
  simp only [List.all_eq_true, equalHolds_iff]
  constructor
  · intro hall
    exact ⟨fun p hp => (hall p hp).1, fun ⟨_, p, hp, hnulls⟩ => (hall p hp).2 hnulls⟩
  · rintro ⟨hagree, hno⟩ p hp
    exact ⟨hagree p hp, fun hnulls => hno ⟨hagree, p, hp, hnulls⟩⟩

theorem naturalJoin_ok (h : ∀ l ∈ left.rows, ∀ r ∈ right.rows, Comparable l r (commonCols left right)) :
    naturalJoin left right = .ok (joinOn (fun _ => []) (fun l r => l ++ unshared (commonCols left right) r)
      (fun l r => agree l r (commonCols left right)) left.rows right.rows) := by
  have hrow : ∀ l ∈ left.rows, (do
      let found ← right.rows.mapM fun r => do
        let equal ← allEqual l r (commonCols left right)
        return if equal then [l ++ unshared (commonCols left right) r] else []
      return found.flatten) = Except.ok (ε := Fault)
        ((right.rows.filter (agree l · (commonCols left right))).map
        (l ++ unshared (commonCols left right) ·)) := by
    intro l hl
    have hcell : ∀ r ∈ right.rows, (do
        let equal ← allEqual l r (commonCols left right)
        return if equal then [l ++ unshared (commonCols left right) r] else []) = Except.ok (ε := Fault)
          (if agree l r (commonCols left right) then [l ++ unshared (commonCols left right) r] else []) := by
      intro r hr
      rw [allEqual_ok (h l hl r hr)]
      rfl
    rw [mapM_ok hcell]
    refine congrArg Except.ok ?_
    clear hcell
    induction right.rows with
    | nil => rfl
    | cons r rows ih =>
        rw [List.map_cons, List.flatten_cons, ih, List.filter_cons]
        split_ifs <;> rfl
  rw [naturalJoin, mapM_ok hrow]
  refine congrArg Except.ok ?_
  rw [joinOn, ← List.flatMap_def]
  refine List.flatMap_congr fun l _ => ?_
  by_cases hany : (right.rows.any fun r => agree l r (commonCols left right)) = true
  · rw [if_pos hany]
  · have hnil : right.rows.filter (agree l · (commonCols left right)) = [] := by
      apply List.filter_eq_nil_iff.mpr
      simpa using hany
    rw [if_neg hany, hnil]
    rfl

theorem comparable_of_ok {rows : List Row} (h : naturalJoin left right = .ok rows) :
    ∀ l ∈ left.rows, ∀ r ∈ right.rows, Comparable l r (commonCols left right) := by
  intro l hl r hr
  by_contra hno
  rw [naturalJoin] at h
  obtain ⟨found, hfound, -⟩ := ok_of_bind h
  obtain ⟨row, hrow⟩ := ok_of_mapM hfound hl
  obtain ⟨cells, hcells, -⟩ := ok_of_bind hrow
  obtain ⟨one, hone⟩ := ok_of_mapM hcells hr
  rw [allEqual_panic hno] at hone
  cases hone

-- Every pair of rows that SQL joins is joined, so as many rows are the same rows.
theorem rows_perm_iff (h : OnceEach left right) :
    (joinOn (fun _ => []) (fun l r => l ++ unshared (commonCols left right) r)
        (fun l r => agree l r (commonCols left right)) left.rows right.rows).Perm
      (joinOn (fun _ => []) (fun l r => l ++ ownItems left right r)
      (equiMatch left right) left.rows right.rows) ↔
      ∀ l ∈ left.rows, ∀ r ∈ right.rows, ¬NullsMeet left right l r := by
  have hcombine : (fun l r : Row => l ++ unshared (commonCols left right) r) = fun l r =>
      l ++ ownItems left right r := by
    funext l r
    rw [unshared_eq h]
  rw [hcombine]
  constructor
  · intro hperm l hl r hr hnulls
    have hpad : ∀ a ∈ left.rows, ∀ c ∈ ([] : List Row), (fun _ : Row => true) c = false :=
        fun _ _ _ hc => nomatch hc
    have hcount := hperm.countP_eq fun _ : Row => true
    rw [countP_joinOn hpad, countP_joinOn hpad] at hcount
    simp only [Bool.and_true] at hcount
    have himp : ∀ ab ∈ left.rows ×ˢ right.rows, equiMatch left right ab.1 ab.2 = true →
        agree ab.1 ab.2 (commonCols left right) = true := fun ab _ hmatch => ((equiMatch_iff h _ _).mp hmatch).1
    have hall := forall_of_countP_le himp (Nat.le_of_eq hcount) (l, r) (List.mem_product.mpr ⟨hl, hr⟩) hnulls.1
    exact ((equiMatch_iff h l r).mp hall).2 hnulls
  · intro hno
    refine List.Perm.of_eq (joinOn_congr fun l hl r hr => ?_)
    rw [Bool.eq_iff_iff, equiMatch_iff h]
    exact ⟨fun hagree => ⟨hagree, hno l hl r hr⟩, And.left⟩

theorem cross_of_noPairs (h : sharedPairs left right = []) :
    joinOn (fun _ => []) (fun l r => l ++ ownItems left right r) (equiMatch left right) left.rows right.rows =
      left.rows.flatMap fun l => right.rows.map fun r => l ++ r := by
  have hall : ∀ l r, equiMatch left right l r = true := fun l r => by
    rw [equiMatch, h]
    rfl
  have hown : ∀ r : Row, ownItems left right r = r := fun r => by
    have hkeep : r.zipIdx.filter (fun e => !([] : List (Nat × Nat)).any (·.2 = e.2)) = r.zipIdx :=
      List.filter_eq_self.mpr fun _ _ => rfl
    rw [ownItems, h]
    exact (congrArg (List.map Prod.fst) hkeep).trans (List.zipIdx_map_fst 0 r)
  rw [joinOn]
  refine List.flatMap_congr fun l _ => ?_
  cases hrows : right.rows with
  | nil => rfl
  | cons r rows =>
      rw [List.any_cons, hall l r, Bool.true_or, if_pos rfl, List.filter_eq_self.mpr fun x _ => hall l x]
      exact List.map_congr_left fun x _ => by rw [hown]

end Rows

theorem evalJoin_natural_iff (fmt : RealText) (env : EvalEnv) (colMap : ColMap) (on : Option Expr)
    (left right : Source) :
    (∃ joined, evalJoin fmt env colMap on .Natural left right = .ok joined ∧ IsNaturalJoin left right joined) ↔
      OnceEach left right ∧ ∀ l ∈ left.rows, ∀ r ∈ right.rows,
        Comparable l r (commonCols left right) ∧ ¬NullsMeet left right l r := by
  constructor
  · rintro ⟨joined, hjoin, hnatural⟩
    obtain ⟨rows, hrows, hjoined⟩ := ok_of_bind (show _ = Except.ok joined from hjoin)
    obtain rfl := Except.ok.inj hjoined
    have hcomparable := comparable_of_ok hrows
    have honce := onceEach_of_once hnatural.once
    rw [naturalJoin_ok hcomparable] at hrows
    obtain rfl := Except.ok.inj hrows
    have hno := (rows_perm_iff honce).mp hnatural.rows
    exact ⟨honce, fun l hl r hr => ⟨hcomparable l hl r hr, hno l hl r hr⟩⟩
  · rintro ⟨honce, hrows⟩
    have hok := naturalJoin_ok fun l hl r hr => (hrows l hl r hr).1
    have hperm := (rows_perm_iff honce).mpr fun l hl r hr => (hrows l hl r hr).2
    refine ⟨_, by rw [evalJoin, joinSources, hok]; rfl, ⟨?_, ?_, hperm, ?_⟩⟩
    · exact congrArg (left.cols ++ ·) (unshared_eq honce right.cols)
    · intro name hname hex
      have hcols : left.cols ++ unshared (commonCols left right) right.cols =
          left.cols ++ ownItems left right right.cols := by rw [unshared_eq honce]
      exact (congrArg (List.countP (sameName name)) hcols).trans (once_of_onceEach honce hname hex)
    · intro hnone
      rw [← cross_of_noPairs hnone]
      exact hperm

def nullTable : Source := { rows := [[.Null]], cols := ["a"] }

-- Two rows whose only shared column is null on both sides are joined.
theorem natural_join_pairs_nulls :
    ¬∀ (fmt : RealText) (env : EvalEnv) (colMap : ColMap) (left right : Source),
      (∀ row ∈ left.rows, row.length = left.cols.length) →
      (∀ row ∈ right.rows, row.length = right.cols.length) →
        ∃ joined, evalJoin fmt env colMap none .Natural left right = .ok joined ∧
          IsNaturalJoin left right joined := by
  intro h
  have hwide : ∀ row ∈ nullTable.rows, row.length = nullTable.cols.length := by decide
  obtain ⟨joined, hjoin, hnatural⟩ := h oneText columnsEnv [] nullTable nullTable hwide hwide
  have hrun : evalJoin oneText columnsEnv [] none .Natural nullTable nullTable =
      .ok { rows := [[.Null]], cols := ["a"] } := by decide
  obtain rfl := Except.ok.inj (hjoin.symm.trans hrun)
  exact absurd hnatural.rows.length_eq (by decide)

end Kkdb
