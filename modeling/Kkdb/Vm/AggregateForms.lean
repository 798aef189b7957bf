import Kkdb.Lib.TopN
import Kkdb.Vm.SortOrder
import Kkdb.Vm.Window

namespace Kkdb

open Lib

inductive AggregateCall where
  | CountStar
  | Count
  | CountDistinct
  | Sum
  | SumDistinct
  | Min
  | Max

namespace AggregateCall

def name : AggregateCall → String
  | CountStar | Count | CountDistinct => "COUNT"
  | Sum | SumDistinct => "SUM"
  | Min => "MIN"
  | Max => "MAX"

def distinct : AggregateCall → Bool
  | CountDistinct | SumDistinct => true
  | _ => false

def groupArgs (arg : Expr) : AggregateCall → List Expr
  | CountStar => [.IntegerLiteral 1]
  | _ => [arg]

def windowArgs (arg : Expr) : AggregateCall → List Expr
  | CountStar => []
  | _ => [arg]

end AggregateCall

def nonNull (values : List Value) : List Value := values.filter fun v => v ≠ .Null

-- Neither a real number nor a text that is read as one.
def Value.isWhole (ops : SumOps) : Value → Bool
  | .Real _ => false
  | .Text s => (ops.ofText s).isNone
  | _ => true

def Value.integer? : Value → Option Int64
  | .Integer v => some v
  | _ => none

def integersOf (values : List Value) : List Int64 := values.filterMap Value.integer?

def total (ints : List Int64) : Int := ints.foldr (fun x sum => x.toInt + sum) 0

def InRange (x : Int) : Prop := Int64.minValue.toInt ≤ x ∧ x ≤ Int64.maxValue.toInt

-- The sum of the integers, which is not an integer value when it does not fit.
def IsSum (ints : List Int64) (result : Value) : Prop :=
  if ints = [] then result = .Null
  else (InRange (total ints) → ∃ v : Int64, result = .Integer v ∧ v.toInt = total ints) ∧
    (¬InRange (total ints) → ∀ v : Int64, result ≠ .Integer v)

-- A value that no other one is beyond, or NULL if there is no value.
def IsExtreme (beyond : Ordering) (values : List Value) (result : Value) : Prop :=
  (values = [] ∧ result = .Null) ∨ (result ∈ values ∧ ∀ v ∈ values, v.partialCmp result ≠ some beyond)

-- What mathematics says of the aggregate.
def IsAggregate (call : AggregateCall) (rows : List Row) (values : List Value) (result : Value) : Prop :=
  match call with
  | .CountStar => result = .Integer (Int64.ofNat rows.length)
  | .Count => result = .Integer (Int64.ofNat (nonNull values).length)
  | .CountDistinct => result = .Integer (Int64.ofNat (distinctBy id [] (nonNull values)).length)
  | .Sum => IsSum (integersOf values) result
  | .SumDistinct => IsSum (integersOf (distinctBy id [] (nonNull values))) result
  | .Min => IsExtreme .lt (nonNull values) result
  | .Max => IsExtreme .gt (nonNull values) result

def SumFits (ints : List Int64) : Prop := ∀ k, InRange (total (ints.take k))

-- An argument with its values on the rows. A vector has no more elements than `isize::MAX`.
structure Argument (env : ScalarEnv) (ops : SumOps) (colMap : ColMap) where
  expr : Expr
  rows : List Row
  values : List Value
  length_le : rows.length ≤ 9223372036854775807
  plain : env.argValues expr rows colMap = .ok values
  grouped : rows.map (fun row => env.groupValue ops colMap expr [row]) = values
  whole : ∀ v ∈ values, v.isWhole ops = true

namespace Argument

variable {env : ScalarEnv} {ops : SumOps} {colMap : ColMap} (arg : Argument env ops colMap)

def groupForm (call : AggregateCall) : Res Value :=
  env.evalAggregate ops call.name (call.groupArgs arg.expr) call.distinct arg.rows colMap

def windowForm (call : AggregateCall) : Value :=
  env.frameValue ops colMap (.Aggregate call.name (call.windowArgs arg.expr) call.distinct)
    (arg.rows.map fun row => [row])

def Agree (call : AggregateCall) : Prop :=
  arg.groupForm call = .ok (arg.windowForm call) ∧ IsAggregate call arg.rows arg.values (arg.windowForm call)

def AgreesWhen : AggregateCall → Prop
  | .CountStar => arg.rows = []
  | .CountDistinct => (nonNull arg.values).Nodup
  | .Sum => SumFits (integersOf arg.values)
  | .SumDistinct => SumFits (integersOf arg.values) ∧
      total (integersOf arg.values) = total (integersOf (distinctBy id [] (nonNull arg.values)))
  | .Count | .Min | .Max => True

end Argument

section Sums

variable {ops : SumOps} {s : Summing} {x : Int64} {xs : List Int64} {values : List Value}

theorem inRange_toInt (v : Int64) : InRange v.toInt := ⟨v.le_toInt, v.toInt_le⟩

theorem checkedAdd_fits {a b : Int64} (h : InRange (a.toInt + b.toInt)) :
    checkedAdd a b = some (a + b) ∧ (a + b).toInt = a.toInt + b.toInt := by
  refine ⟨if_pos h, ?_⟩
  rw [Int64.toInt_add]
  apply Int.bmod_eq_of_le
  · exact h.1
  · exact Int.lt_add_one_of_le h.2

-- No running sum from a number on leaves the range.
def FitsFrom (a : Int) (ints : List Int64) : Prop := ∀ k, InRange (a + total (ints.take k))

theorem fitsFrom_cons {a : Int} (ha : InRange a) :
    FitsFrom a (x :: xs) ↔ InRange (a + x.toInt) ∧ FitsFrom (a + x.toInt) xs := by
  have hstep : ∀ k, a + total ((x :: xs).take (k + 1)) = a + x.toInt + total (xs.take k) := by
    intro k
    rw [List.take_succ_cons, Int.add_assoc]
    rfl
  constructor
  · intro h
    have hrest : FitsFrom (a + x.toInt) xs := fun k => by rw [← hstep k]; exact h (k + 1)
    have hfirst := hrest 0
    rw [List.take_zero, total, List.foldr_nil, Int.add_zero] at hfirst
    exact ⟨hfirst, hrest⟩
  · rintro ⟨-, hrest⟩ k
    cases k with
    | zero =>
        rw [List.take_zero, total, List.foldr_nil, Int.add_zero]
        exact ha
    | succ k =>
        rw [hstep]
        exact hrest k

-- What the two loops do with an integer, the one that checks the sum and the one that does not.
def Summing.wrapInteger (s : Summing) (v : Int64) : Summing :=
  { s with intSum := s.intSum + v, hasValue := true }

theorem foldl_addValue (hwhole : ∀ v ∈ values, v.isWhole ops = true) :
    values.foldl (Summing.addValue ops) s = (integersOf values).foldl (Summing.addInteger ops) s := by
  induction values generalizing s with
  | nil => rfl
  | cons v values ih =>
      obtain ⟨hv, hvalues⟩ := List.forall_mem_cons.mp hwhole
      rw [List.foldl_cons, ih hvalues]
      cases v with
      | Integer x => rfl
      | Null => rfl
      | Real bits => cases hv
      | Text t =>
          have hnone : ops.ofText t = none := Option.isNone_iff_eq_none.mp hv
          have hstep : s.addValue ops (.Text t) = s := by
            unfold Summing.addValue
            dsimp only [Value.toF64]
            rw [hnone]
          rw [hstep]
          rfl
      | Blob b => rfl

theorem foldl_addWrapping (hwhole : ∀ v ∈ values, v.isWhole ops = true) (hs : s.isInt = true) :
    values.foldl (Summing.addWrapping ops) s = (integersOf values).foldl Summing.wrapInteger s := by
  induction values generalizing s with
  | nil => rfl
  | cons v values ih =>
      obtain ⟨hv, hvalues⟩ := List.forall_mem_cons.mp hwhole
      rw [List.foldl_cons]
      cases v with
      | Integer x =>
          have hstep : s.addWrapping ops (.Integer x) = s.wrapInteger x := if_pos hs
          rw [hstep]
          exact ih hvalues hs
      | Real bits => cases hv
      | _ => exact ih hvalues hs

theorem foldl_wrapInteger (s : Summing) (xs : List Int64) :
    (xs.foldl Summing.wrapInteger s).isInt = s.isInt ∧
      (xs.foldl Summing.wrapInteger s).hasValue = (s.hasValue || !xs.isEmpty) := by
  induction xs generalizing s with
  | nil => exact ⟨rfl, (Bool.or_false _).symm⟩
  | cons x xs ih =>
      obtain ⟨hint, hvalue⟩ := ih (s.wrapInteger x)
      refine ⟨hint, hvalue.trans ?_⟩
      rw [List.isEmpty_cons, Bool.not_false, Bool.or_true]
      rfl

-- While the sums fit the two loops do the same, and they add up.
theorem foldl_addInteger_fits (hs : s.isInt = true) (hfits : FitsFrom s.intSum.toInt xs) :
    xs.foldl (Summing.addInteger ops) s = xs.foldl Summing.wrapInteger s ∧
      (xs.foldl Summing.wrapInteger s).intSum.toInt = s.intSum.toInt + total xs := by
  induction xs generalizing s with
  | nil => exact ⟨rfl, (Int.add_zero _).symm⟩
  | cons x xs ih =>
      obtain ⟨hx, hrest⟩ := (fitsFrom_cons (inRange_toInt _)).mp hfits
      obtain ⟨hadd, hsum⟩ := checkedAdd_fits hx
      have hstep : s.addInteger ops x = s.wrapInteger x := by
        simp only [Summing.addInteger, Summing.wrapInteger, if_pos hs, hadd]
      have hnext : (s.wrapInteger x).intSum.toInt = s.intSum.toInt + x.toInt := hsum
      rw [← hnext] at hrest
      obtain ⟨hsame, htotal⟩ := ih (s := s.wrapInteger x) hs hrest
      rw [List.foldl_cons, List.foldl_cons, hstep]
      refine ⟨hsame, htotal.trans ?_⟩
      rw [hnext, Int.add_assoc]
      rfl

theorem foldl_addInteger_real (hs : s.isInt = false) (hvalue : s.hasValue = true) :
    (xs.foldl (Summing.addInteger ops) s).isInt = false ∧ (xs.foldl (Summing.addInteger ops) s).hasValue =
      true := by
  induction xs generalizing s with
  | nil => exact ⟨hs, hvalue⟩
  | cons x xs ih =>
      have hstep : s.addInteger ops x = s.addReal ops (Double.ofInt64 x) := by
        rw [Summing.addInteger, hs]
        rfl
      rw [List.foldl_cons, hstep]
      exact ih rfl rfl

theorem foldl_addInteger_overflows (hs : s.isInt = true) (hfits : ¬FitsFrom s.intSum.toInt xs) :
    (xs.foldl (Summing.addInteger ops) s).isInt = false ∧ (xs.foldl (Summing.addInteger ops) s).hasValue =
      true := by
  induction xs generalizing s with
  | nil =>
      refine absurd (fun k => ?_) hfits
      rw [List.take_nil, total, List.foldr_nil, Int.add_zero]
      exact inRange_toInt _
  | cons x xs ih =>
      rw [fitsFrom_cons (inRange_toInt _), not_and] at hfits
      rw [List.foldl_cons]
      by_cases hx : InRange (s.intSum.toInt + x.toInt)
      · obtain ⟨hadd, hsum⟩ := checkedAdd_fits hx
        have hstep : s.addInteger ops x = s.wrapInteger x := by
          simp only [Summing.addInteger, Summing.wrapInteger, if_pos hs, hadd]
        have hnext : (s.wrapInteger x).intSum.toInt = s.intSum.toInt + x.toInt := hsum
        rw [hstep]
        exact ih (s := s.wrapInteger x) hs (by rw [hnext]; exact hfits hx)
      · have hnone : checkedAdd s.intSum x = none := if_neg hx
        have hstep : s.addInteger ops x = s.addReal ops (Double.ofInt64 x) := by
          simp only [Summing.addInteger, if_pos hs, hnone]
        rw [hstep]
        exact foldl_addInteger_real rfl rfl

end Sums

namespace Argument

variable {env : ScalarEnv} {ops : SumOps} {colMap : ColMap} {arg : Argument env ops colMap}

theorem windowForm_eq {call : AggregateCall} (h : call.windowArgs arg.expr = [arg.expr]) :
    arg.windowForm call = windowAggregateValue ops call.name arg.values := by
  have hvals : env.frameVals ops colMap [arg.expr] (arg.rows.map fun row => [row]) = arg.values := by
    rw [ScalarEnv.frameVals, List.map_map]
    exact arg.grouped
  rw [windowForm, ScalarEnv.frameValue, h, hvals]

theorem length_values : arg.values.length = arg.rows.length := by
  rw [← arg.grouped, List.length_map]

theorem ofNat_inj {n m : Nat} (hn : n ≤ 9223372036854775807) (hm : m ≤ 9223372036854775807) :
    Value.Integer (Int64.ofNat n) = .Integer (Int64.ofNat m) ↔ n = m := by
  constructor
  · intro h
    have hint := congrArg Int64.toInt (Value.Integer.inj h)
    rw [Int64.toInt_ofNat_of_lt (by omega), Int64.toInt_ofNat_of_lt (by omega)] at hint
    exact_mod_cast hint
  · rintro rfl
    rfl

theorem values_of_countsRows (h : countsRows [arg.expr] = true) : nonNull arg.values = arg.values := by
  have hone : arg.expr = .IntegerLiteral 1 := by
    unfold countsRows at h
    split at h
    · contradiction
    · next v _ heq =>
        rw [(List.cons.inj heq).1, of_decide_eq_true h]
    · cases h
  have hmap := map_of_mapM arg.plain
  rw [nonNull, List.filter_eq_self]
  intro v hv
  have hmem : Except.ok v ∈ arg.values.map (Except.ok (ε := Fault)) := List.mem_map_of_mem hv
  rw [← hmap] at hmem
  obtain ⟨row, -, hrow⟩ := List.mem_map.mp hmem
  rw [hone] at hrow
  obtain rfl := Except.ok.inj hrow
  rfl

theorem groupForm_count {call : AggregateCall} (hname : call.name = "COUNT")
    (hargs : call.groupArgs arg.expr = [arg.expr]) : arg.groupForm call =
      .ok (.Integer (Int64.ofNat (if countsRows [arg.expr] then arg.rows.length
        else if call.distinct then countDistinct ops.shown arg.values else (nonNull arg.values).length))) := by
  rw [groupForm, ScalarEnv.evalAggregate.eq_def, hname, if_pos (by decide), hargs]
  by_cases hrows : countsRows [arg.expr] = true
  · rw [if_pos hrows, if_pos hrows]
  · rw [if_neg hrows, if_neg hrows, List.headD_cons, arg.plain]
    rfl

theorem windowForm_count {call : AggregateCall} (hname : call.name = "COUNT")
    (hargs : call.windowArgs arg.expr = [arg.expr]) :
    arg.windowForm call = .Integer (Int64.ofNat (nonNull arg.values).length) := by
  rw [windowForm_eq hargs, windowAggregateValue, hname, if_neg (by decide), if_pos (by decide)]
  rfl

variable (arg) in
theorem values_bound : (nonNull arg.values).length ≤ arg.values.length ∧ arg.values.length ≤
    9223372036854775807 := by
  rw [length_values]
  exact ⟨by rw [← length_values]; exact List.length_filter_le _ _, arg.length_le⟩

theorem agree_count : arg.Agree .Count := by
  have hform : arg.groupForm .Count = .ok (.Integer (Int64.ofNat (nonNull arg.values).length)) := by
    rw [groupForm_count rfl rfl]
    by_cases hrows : countsRows [arg.expr] = true
    · rw [if_pos hrows, values_of_countsRows hrows, length_values]
    · rw [if_neg hrows]
      rfl
  rw [Agree, hform, windowForm_count rfl rfl]
  exact ⟨rfl, rfl⟩

theorem countDistinct_whole (hwhole : ∀ v ∈ arg.values, v.isWhole ops = true) :
    countDistinct ops.shown arg.values = (distinctBy id [] (nonNull arg.values)).length := by
  refine countDistinct_eq_iff.mpr fun v hv w _ hnan => ?_
  cases v with
  | Real bits => cases hwhole _ hv
  | _ => cases hnan

theorem agree_countDistinct : arg.Agree .CountDistinct ↔ (nonNull arg.values).Nodup := by
  obtain ⟨hle, hbound⟩ := values_bound arg
  have hdistinct := length_distinct_le (nonNull arg.values)
  rw [Agree, groupForm_count rfl rfl, windowForm_count rfl rfl, IsAggregate, ofNat_inj (by omega) (by omega),
    ← length_distinct_iff]
  constructor
  · exact fun h => h.2.symm
  · intro h
    refine ⟨?_, h.symm⟩
    by_cases hrows : countsRows [arg.expr] = true
    · rw [if_pos hrows, values_of_countsRows hrows, length_values]
    · rw [if_neg hrows, countDistinct_whole arg.whole, h]
      rfl

theorem agree_countStar : arg.Agree .CountStar ↔ arg.rows = [] := by
  have hwindow : arg.windowForm .CountStar = .Integer (Int64.ofNat 0) := rfl
  have hgroup : arg.groupForm .CountStar = .ok (.Integer (Int64.ofNat arg.rows.length)) := rfl
  have hlen := arg.length_le
  rw [Agree, hwindow, hgroup, IsAggregate, Except.ok.injEq, ofNat_inj (by omega) (by omega),
    ofNat_inj (by omega) (by omega), List.length_eq_zero_iff]
  constructor
  · exact And.left
  · intro h
    exact ⟨h, by rw [h]; rfl⟩

theorem groupForm_sum {call : AggregateCall} (hname : call.name = "SUM")
    (hargs : call.groupArgs arg.expr = [arg.expr]) :
    arg.groupForm call =
      .ok ((integersOf arg.values).foldl (Summing.addInteger ops) Summing.start).result := by
  rw [groupForm, ScalarEnv.evalAggregate.eq_def, hname, if_neg (by decide), if_pos (by decide), hargs]
  dsimp only
  rw [arg.plain, ← foldl_addValue arg.whole]
  rfl

theorem windowForm_sum {call : AggregateCall} (hname : call.name = "SUM")
    (hargs : call.windowArgs arg.expr = [arg.expr]) :
    arg.windowForm call = ((integersOf arg.values).foldl Summing.wrapInteger Summing.start).result := by
  rw [windowForm_eq hargs, windowAggregateValue, hname, if_pos (by decide), foldl_addWrapping arg.whole rfl]

end Argument

theorem sumFits_iff {ints : List Int64} : SumFits ints ↔ FitsFrom Summing.start.intSum.toInt ints := by
  have hzero : ∀ k, Summing.start.intSum.toInt + total (ints.take k) = total (ints.take k) :=
      fun k => Int.zero_add _
  simp only [SumFits, FitsFrom, hzero]

theorem wrapped_of_fits {ints : List Int64} (hne : ints ≠ []) (h : SumFits ints) :
    ∃ v : Int64, (ints.foldl Summing.wrapInteger Summing.start).result = .Integer v ∧ v.toInt = total ints := by
  obtain ⟨hint, hvalue⟩ := foldl_wrapInteger Summing.start ints
  obtain ⟨-, htotal⟩ := @foldl_addInteger_fits wholeOps Summing.start ints rfl (sumFits_iff.mp h)
  refine ⟨(ints.foldl Summing.wrapInteger Summing.start).intSum, ?_, htotal.trans (Int.zero_add _)⟩
  have hsome : (ints.foldl Summing.wrapInteger Summing.start).hasValue = true := by
    rw [hvalue]
    cases ints with
    | nil => exact absurd rfl hne
    | cons x xs => rfl
  rw [Summing.result, hsome, hint]
  rfl

theorem sum_agrees_iff {ops : SumOps} {ints : List Int64} :
    (ints.foldl (Summing.addInteger ops) Summing.start).result =
      (ints.foldl Summing.wrapInteger Summing.start).result ↔ SumFits ints := by
  constructor
  · intro h
    by_contra hfits
    rw [sumFits_iff] at hfits
    obtain ⟨hint, hvalue⟩ := @foldl_addInteger_overflows ops Summing.start ints rfl hfits
    obtain ⟨hwrapped, -⟩ := foldl_wrapInteger Summing.start ints
    rw [Summing.result, hint, hvalue, Summing.result, hwrapped] at h
    cases hnone : (ints.foldl Summing.wrapInteger Summing.start).hasValue with
    | false =>
        rw [hnone] at h
        cases h
    | true =>
        rw [hnone] at h
        cases h
  · intro h
    rw [(foldl_addInteger_fits rfl (sumFits_iff.mp h)).1]

namespace Argument

variable {env : ScalarEnv} {ops : SumOps} {colMap : ColMap} {arg : Argument env ops colMap}

theorem agree_sum : arg.Agree .Sum ↔ SumFits (integersOf arg.values) := by
  rw [Agree, groupForm_sum rfl rfl, windowForm_sum rfl rfl, Except.ok.injEq, sum_agrees_iff]
  refine ⟨And.left, fun h => ⟨h, ?_⟩⟩
  rw [IsAggregate, IsSum]
  by_cases hne : integersOf arg.values = []
  · rw [if_pos hne, hne]
    rfl
  · rw [if_neg hne]
    obtain ⟨v, hv, htotal⟩ := wrapped_of_fits hne h
    have hrange : InRange (total (integersOf arg.values)) := by
      rw [← htotal]
      exact inRange_toInt v
    exact ⟨fun _ => ⟨v, hv, htotal⟩, fun hout => absurd hrange hout⟩

theorem integersOf_distinct_nil {values : List Value} :
    integersOf (distinctBy id [] (nonNull values)) = [] ↔ integersOf values = [] := by
  have hmem : ∀ v, v ∈ distinctBy id [] (nonNull values) ↔ v ∈ values ∧ v ≠ .Null := by
    intro v
    rw [mem_distinct, nonNull, List.mem_filter, decide_eq_true_eq]
  simp only [integersOf, List.filterMap_eq_nil_iff, hmem]
  constructor
  · intro h v hv
    by_cases hnull : v = .Null
    · rw [hnull]
      rfl
    · exact h v ⟨hv, hnull⟩
  · exact fun h v hv => h v hv.1

theorem agree_sumDistinct : arg.Agree .SumDistinct ↔ SumFits (integersOf arg.values) ∧
    total (integersOf arg.values) = total (integersOf (distinctBy id [] (nonNull arg.values))) := by
  rw [Agree, groupForm_sum rfl rfl, windowForm_sum rfl rfl, Except.ok.injEq, sum_agrees_iff]
  refine and_congr_right fun hfits => ?_
  rw [IsAggregate, IsSum]
  by_cases hne : integersOf arg.values = []
  · have hnil := integersOf_distinct_nil.mpr hne
    rw [if_pos hnil, hne, hnil]
    exact iff_of_true rfl rfl
  · rw [if_neg fun h => hne (integersOf_distinct_nil.mp h)]
    obtain ⟨v, hv, htotal⟩ := wrapped_of_fits hne hfits
    rw [hv, ← htotal]
    constructor
    · rintro ⟨hin, hout⟩
      by_cases hrange : InRange (total (integersOf (distinctBy id [] (nonNull arg.values))))
      · obtain ⟨w, hw, hwtotal⟩ := hin hrange
        rw [Value.Integer.inj hw, hwtotal]
      · exact absurd rfl (hout hrange v)
    · intro heq
      exact ⟨fun _ => ⟨v, rfl, heq⟩, fun hout => absurd (heq ▸ inRange_toInt v) hout⟩

end Argument

section Extremes

variable {ops : SumOps} {values : List Value}

theorem foldl_keepBetter (wanted : Ordering) (values : List Value) :
    values.foldl (keepBetter wanted) none =
      best (fun v c => decide (v.partialCmp c = some wanted)) (nonNull values) := by
  rw [best, nonNull, List.foldl_filter]
  congr 1
  funext kept v
  by_cases hnull : v = .Null
  · rw [keepBetter.eq_def, if_pos hnull, if_neg (by rw [hnull]; decide)]
  · rw [keepBetter.eq_def, if_neg hnull, if_pos (decide_eq_true hnull)]
    cases kept with
    | none => rfl
    | some c =>
        by_cases hbetter : v.partialCmp c = some wanted
        · rw [pick, if_pos (decide_eq_true hbetter)]
          exact if_pos hbetter
        · rw [pick, if_neg (by rw [decide_eq_true_eq]; exact hbetter)]
          exact if_neg hbetter

theorem foldl_minBy (xs : List Value) : xs.foldl minBy none =
    best (fun v c => decide (c.orderOf v = .gt)) xs := by
  rw [best]
  congr 1
  funext kept v
  cases kept with
  | none => rfl
  | some c =>
      by_cases hgt : c.orderOf v = .gt
      · rw [pick, if_pos (decide_eq_true hgt)]
        exact if_pos hgt
      · rw [pick, if_neg (by rw [decide_eq_true_eq]; exact hgt)]
        exact if_neg hgt

theorem foldl_maxBy (xs : List Value) : xs.foldl maxBy none =
    best (fun v c => decide (c.orderOf v ≠ .gt)) xs := by
  rw [best]
  congr 1
  funext kept v
  cases kept with
  | none => rfl
  | some c =>
      by_cases hgt : c.orderOf v = .gt
      · rw [pick, if_neg (by rw [decide_eq_true_eq]; exact not_not.mpr hgt)]
        exact if_pos hgt
      · rw [pick, if_pos (decide_eq_true hgt)]
        exact if_neg hgt

theorem not_nan_of_whole {v : Value} (h : v.isWhole ops = true) : v.isNaN = false := by
  cases v with
  | Real bits => cases h
  | _ => rfl

theorem totalOn_whole (hwhole : ∀ v ∈ values, v.isWhole ops = true) : TotalOn Value.orderOf values := by
  refine (Value.totalOn_orderOf_iff fun v hv => not_nan_of_whole (hwhole v hv)).mpr ?_
  rintro ⟨a, b, r, -, -, hr, -⟩
  cases hwhole _ hr

theorem eq_of_orderOf_eq {v w : Value} (hv : v.isWhole ops = true) (hw : w.isWhole ops = true)
    (h : v.orderOf w = .eq) : v = w := by
  have hcmp := Value.partialCmp_eq_some (not_nan_of_whole hv) (not_nan_of_whole hw)
  rw [h, ← Value.eq_iff_partialCmp (not_nan_of_whole hv) (not_nan_of_whole hw)] at hcmp
  cases v <;> cases w
  case Real.Real => cases hv
  case Integer.Real => cases hw
  case Real.Integer => cases hv
  all_goals simp_all [Value.eq]

-- What the loop keeps when going beyond a value is being smaller in a total order.
theorem isExtreme_best {xs : List Value} {beyond : Ordering} {cmp : Value → Value → Ordering}
    (htotal : TotalOn cmp xs)
    (hcmp : ∀ v ∈ xs, ∀ c ∈ xs, v.partialCmp c = some beyond ↔ cmp v c = .lt) :
    IsExtreme beyond xs ((best (fun v c => decide (v.partialCmp c = some beyond)) xs).getD .Null) := by
  by_cases hne : xs = []
  · rw [hne]
    exact .inl ⟨rfl, rfl⟩
  · obtain ⟨m, hm⟩ := @exists_best Value (fun v c => decide (v.partialCmp c = some beyond)) xs hne
    have hbetter : ∀ v ∈ xs, ∀ c ∈ xs, decide (v.partialCmp c = some beyond) = true ↔ cmp v c = .lt := by
      intro v hv c hc
      rw [decide_eq_true_eq, hcmp v hv c hc]
    obtain ⟨hmem, hleast⟩ := best_least htotal hbetter hm
    rw [hm, Option.getD_some]
    refine .inr ⟨hmem, fun v hv => ?_⟩
    rw [Ne, hcmp v hv m hmem, htotal.swap m hmem v hv]
    exact fun h => hleast v hv (Ordering.swap_eq_lt.mp h)

theorem whole_nonNull (hwhole : ∀ v ∈ values, v.isWhole ops = true) : ∀ v ∈ nonNull values,
    v.isWhole ops = true :=
  fun v hv => hwhole v (List.mem_of_mem_filter hv)

theorem partialCmp_whole {v c : Value} (hv : v.isWhole ops = true) (hc : c.isWhole ops = true) (o : Ordering) :
    v.partialCmp c = some o ↔ v.orderOf c = o := by
  rw [Value.partialCmp_eq_some (not_nan_of_whole hv) (not_nan_of_whole hc), Option.some.injEq]

theorem min_agrees (hwhole : ∀ v ∈ values, v.isWhole ops = true) :
    values.foldl (keepBetter .lt) none = (nonNull values).foldl minBy none ∧
      IsExtreme .lt (nonNull values) ((values.foldl (keepBetter .lt) none).getD .Null) := by
  have hnonNull := whole_nonNull hwhole
  rw [foldl_keepBetter, foldl_minBy]
  constructor
  · refine best_congr fun v hv c hc => .inl ?_
    rw [decide_eq_decide, partialCmp_whole (hnonNull v hv) (hnonNull c hc), Value.orderOf_swap c v]
    exact Ordering.swap_eq_lt
  · exact isExtreme_best (totalOn_whole hnonNull) fun v hv c hc => partialCmp_whole (hnonNull v hv)
      (hnonNull c hc) _

theorem max_agrees (hwhole : ∀ v ∈ values, v.isWhole ops = true) :
    values.foldl (keepBetter .gt) none = (nonNull values).foldl maxBy none ∧
      IsExtreme .gt (nonNull values) ((values.foldl (keepBetter .gt) none).getD .Null) := by
  have hnonNull := whole_nonNull hwhole
  rw [foldl_keepBetter, foldl_maxBy]
  constructor
  · refine best_congr fun v hv c hc => ?_
    rw [decide_eq_decide, partialCmp_whole (hnonNull v hv) (hnonNull c hc), Value.orderOf_swap c v]
    cases hcmp : c.orderOf v with
    | lt => exact .inl (iff_of_true rfl fun h => nomatch h)
    | eq => exact .inr (eq_of_orderOf_eq (hnonNull c hc) (hnonNull v hv) hcmp).symm
    | gt => exact .inl (iff_of_false (fun h => nomatch h) fun h => h rfl)
  · refine isExtreme_best (totalOn_whole hnonNull).flip fun v hv c hc => ?_
    rw [partialCmp_whole (hnonNull v hv) (hnonNull c hc), Value.orderOf_swap c v]
    exact Ordering.swap_eq_gt

end Extremes

namespace Argument

variable {env : ScalarEnv} {ops : SumOps} {colMap : ColMap} {arg : Argument env ops colMap}

theorem agree_min : arg.Agree .Min := by
  obtain ⟨hsame, hextreme⟩ := min_agrees arg.whole
  have hgroup : arg.groupForm .Min = .ok ((arg.values.foldl (keepBetter .lt) none).getD .Null) := by
    rw [groupForm, ScalarEnv.evalAggregate.eq_def]
    change (do
      let values ← env.argValues arg.expr arg.rows colMap
      return (values.foldl (keepBetter .lt) none).getD .Null) = _
    rw [arg.plain]
    rfl
  have hwindow : arg.windowForm .Min = ((nonNull arg.values).foldl minBy none).getD .Null := by
    rw [windowForm_eq rfl]
    rfl
  rw [Agree, hgroup, hwindow, ← hsame]
  exact ⟨rfl, hextreme⟩

theorem agree_max : arg.Agree .Max := by
  obtain ⟨hsame, hextreme⟩ := max_agrees arg.whole
  have hgroup : arg.groupForm .Max = .ok ((arg.values.foldl (keepBetter .gt) none).getD .Null) := by
    rw [groupForm, ScalarEnv.evalAggregate.eq_def]
    change (do
      let values ← env.argValues arg.expr arg.rows colMap
      return (values.foldl (keepBetter .gt) none).getD .Null) = _
    rw [arg.plain]
    rfl
  have hwindow : arg.windowForm .Max = ((nonNull arg.values).foldl maxBy none).getD .Null := by
    rw [windowForm_eq rfl]
    rfl
  rw [Agree, hgroup, hwindow, ← hsame]
  exact ⟨rfl, hextreme⟩

-- The two forms agree with each other and with mathematics exactly when the condition of the call holds.
variable (arg) in
theorem aggregates_agree_iff (call : AggregateCall) : arg.Agree call ↔ arg.AgreesWhen call := by
  cases call with
  | CountStar => exact agree_countStar
  | Count => exact iff_of_true agree_count trivial
  | CountDistinct => exact agree_countDistinct
  | Sum => exact agree_sum
  | SumDistinct => exact agree_sumDistinct
  | Min => exact iff_of_true agree_min trivial
  | Max => exact iff_of_true agree_max trivial

end Argument

section Columns

variable {env : ScalarEnv} {ops : SumOps} {colMap : ColMap} {column : String} {index : Nat}

theorem evalExpr_column (h : colMap.lookup column.toList = some index) (row : Row) :
    env.evalExpr (.ColumnRef none column) row colMap = .ok (row.getD index .Null) := by
  simp only [ScalarEnv.evalExpr, EvalEnv.columnRef, Option.map_none, Option.bind_none, List.findSome?_cons, h]

def columnArgument (env : ScalarEnv) (ops : SumOps) (colMap : ColMap) (column : String) (index : Nat)
    (h : colMap.lookup column.toList = some index) (rows : List Row) (hlen : rows.length ≤ 9223372036854775807)
    (hwhole : ∀ row ∈ rows, (row.getD index .Null).isWhole ops = true) : Argument env ops colMap where
  expr := .ColumnRef none column
  rows := rows
  values := rows.map fun row => row.getD index .Null
  length_le := hlen
  plain := mapM_ok fun row _ => evalExpr_column h row
  grouped := by
    refine List.map_congr_left fun row _ => ?_
    have hvalue : env.evalExprWithAggregates ops [row] (.ColumnRef none column) row colMap =
        .ok (row.getD index .Null) := evalExpr_column h row
    rw [ScalarEnv.groupValue, List.headD_cons, hvalue]
    rfl
  whole := by
    intro v hv
    obtain ⟨row, hrow, rfl⟩ := List.mem_map.mp hv
    exact hwhole row hrow

def twoNumbers : Argument literalEnv wholeOps [(['a'], 0)] :=
  columnArgument literalEnv wholeOps [(['a'], 0)] "a" 0 (by decide)
    [[.Integer Int64.maxValue], [.Integer 1]] (by decide) (by decide)

-- `SUM(a) OVER ()` of the largest integer and one is the smallest integer.
theorem window_sum_wraps :
    twoNumbers.windowForm .Sum = .Integer Int64.minValue ∧ ¬twoNumbers.Agree .Sum := by
  have hwindow : twoNumbers.windowForm .Sum = .Integer Int64.minValue := rfl
  have hgroup : twoNumbers.groupForm .Sum = .ok (.Real (Double.ofInt64 Int64.maxValue)) := rfl
  refine ⟨hwindow, fun h => ?_⟩
  have hsame := h.1
  rw [hwindow, hgroup] at hsame
  cases hsame

end Columns

end Kkdb
