import Kkdb.Vm.WindowFrame
import Mathlib.Algebra.Order.Ring.Nat
import Mathlib.Order.Interval.Finset.Nat

namespace Kkdb

section Dealing

variable {size larger buckets p j k l : Nat}

-- The first position behind `j` buckets, the first ones of which have one position more than `size`.
def bucketStart (size larger j : Nat) : Nat := j * size + min j larger

theorem bucketStart_succ (j : Nat) : bucketStart size larger (j + 1) =
    bucketStart size larger j + size + if j < larger then 1 else 0 := by
  rw [bucketStart, bucketStart, Nat.succ_mul]
  split_ifs with hj
  · rw [Nat.min_eq_left hj, Nat.min_eq_left hj.le]
    omega
  · rw [Nat.min_eq_right (not_lt.mp hj), Nat.min_eq_right (by omega)]
    omega

theorem bucketStart_mono (h : k ≤ l) : bucketStart size larger k ≤ bucketStart size larger l :=
  Nat.add_le_add (Nat.mul_le_mul_right size h) (min_le_min_right larger h)

def bucketIndex (size larger p : Nat) : Nat :=
  if p < larger * (size + 1) then p / (size + 1) else (p - larger * (size + 1)) / max size 1 + larger

theorem bucketIndex_bounds (hlarger : larger < buckets) (hp : p < buckets * size + larger) :
    bucketIndex size larger p < buckets ∧ bucketStart size larger (bucketIndex size larger p) ≤ p ∧
      p < bucketStart size larger (bucketIndex size larger p + 1) := by
  rw [bucketStart_succ]
  by_cases hlarge : p < larger * (size + 1)
  · have hpos : 0 < size + 1 := Nat.succ_pos size
    have hlow := Nat.div_mul_le_self p (size + 1)
    have hhigh := Nat.lt_div_mul_add (a := p) hpos
    have hj : p / (size + 1) < larger := (Nat.div_lt_iff_lt_mul hpos).mpr hlarge
    rw [Nat.mul_succ] at hlow hhigh
    rw [bucketIndex, if_pos hlarge, if_pos hj, bucketStart, Nat.min_eq_left hj.le]
    generalize p / (size + 1) = j at *
    omega
  · have hsize : 0 < size := by
      refine Nat.pos_of_ne_zero fun hzero => ?_
      subst hzero
      omega
    obtain ⟨rest, hrest⟩ := Nat.exists_eq_add_of_le (not_lt.mp hlarge)
    rw [bucketIndex, if_neg hlarge, hrest, Nat.add_sub_cancel_left, Nat.max_eq_left hsize, 
      if_neg (not_lt.mpr (Nat.le_add_left _ _)),
      bucketStart, Nat.min_eq_right (Nat.le_add_left _ _), Nat.add_mul]
    have hlow := Nat.div_mul_le_self rest size
    have hhigh := Nat.lt_div_mul_add (a := rest) hsize
    have hj : rest / size < buckets - larger := by
      rw [Nat.div_lt_iff_lt_mul hsize, Nat.sub_mul]
      rw [hrest, Nat.mul_succ] at hp
      omega
    rw [Nat.mul_succ]
    generalize rest / size = j at *
    omega

theorem bucketIndex_le (size larger p : Nat) : bucketIndex size larger p ≤ p := by
  unfold bucketIndex
  split_ifs with hlarge
  · exact Nat.div_le_self p _
  · have hrest := Nat.div_le_self (p - larger * (size + 1)) (max size 1)
    have hpart : larger ≤ larger * (size + 1) := Nat.le_mul_of_pos_right larger (Nat.succ_pos size)
    omega

theorem bucketIndex_eq_iff (hlarger : larger < buckets) (hp : p < buckets * size + larger) :
    bucketIndex size larger p = j ↔ bucketStart size larger j ≤ p ∧ p < bucketStart size larger (j + 1) := by
  obtain ⟨-, hlow, hhigh⟩ := bucketIndex_bounds hlarger hp
  constructor
  · rintro rfl
    exact ⟨hlow, hhigh⟩
  · rintro ⟨hlow', hhigh'⟩
    rcases Nat.lt_trichotomy (bucketIndex size larger p) j with hlt | heq | hgt
    · exact absurd (hhigh.trans_le (bucketStart_mono hlt)) (not_lt.mpr hlow')
    · exact heq
    · exact absurd (hhigh'.trans_le (bucketStart_mono hgt)) (not_lt.mpr hlow)

end Dealing

-- The buckets of a partition of `count` rows: they ascend, the larger ones come first and none is larger by
-- more than one row, and there are as many as asked for, or as there are rows.
def bucketSize (count : Nat) (bucket : Nat → Nat) (k : Nat) : Nat :=
  ((Finset.range count).filter fun p => bucket p = k).card

structure Deals (count : Nat) (n : Int) (bucket : Nat → Nat) : Prop where
  ascending : ∀ p q, p ≤ q → q < count → bucket p ≤ bucket q
  bounded : ∀ p < count, 1 ≤ bucket p ∧ (bucket p : Int) ≤ max 1 n
  even : ∀ k l : Nat, 1 ≤ k → k ≤ l → (l : Int) ≤ max 1 n →
    bucketSize count bucket l ≤ bucketSize count bucket k ∧
      bucketSize count bucket k ≤ bucketSize count bucket l + 1
  used : (((Finset.range count).image bucket).card : Int) = min (count : Int) n

section Buckets

variable {part : Partition} {buckets p j k l : Nat}

theorem lt_split (hp : p < part.groups.length) :
    p < buckets * (part.groups.length / buckets) + part.groups.length % buckets := by
  rwa [Nat.div_add_mod]

theorem ntileAt_eq (hb : 0 < buckets) (hp : p < part.groups.length) : ScalarEnv.ntileAt part buckets p =
    bucketIndex (part.groups.length / buckets) (part.groups.length % buckets) p + 1 := by
  have hlt := (bucketIndex_bounds (Nat.mod_lt _ hb) (lt_split hp)).1
  have happ : ScalarEnv.ntileAt part buckets p =
      min (bucketIndex (part.groups.length / buckets) (part.groups.length % buckets) p + 1) buckets := by
    rw [ScalarEnv.ntileAt, bucketIndex]
    split_ifs <;> rfl
  rw [happ, Nat.min_eq_left hlt]

theorem ntileAt_eq_iff (hb : 0 < buckets) (hp : p < part.groups.length) :
    ScalarEnv.ntileAt part buckets p = j + 1 ↔
      bucketStart (part.groups.length / buckets) (part.groups.length % buckets) j ≤ p ∧
        p < bucketStart (part.groups.length / buckets) (part.groups.length % buckets) (j + 1) := by
  rw [ntileAt_eq hb hp, Nat.succ_inj]
  exact bucketIndex_eq_iff (Nat.mod_lt _ hb) (lt_split hp)

theorem bucketStart_buckets (hb : 0 < buckets) :
    bucketStart (part.groups.length / buckets) (part.groups.length % buckets) buckets = part.groups.length := by
  rw [bucketStart, Nat.min_eq_right (Nat.mod_lt _ hb).le, Nat.div_add_mod]

theorem bucketSize_ntileAt (hb : 0 < buckets) (hj : j < buckets) :
    bucketSize part.groups.length (ScalarEnv.ntileAt part buckets) (j + 1) =
      part.groups.length / buckets + if j < part.groups.length % buckets then 1 else 0 := by
  have hlast : bucketStart (part.groups.length / buckets) (part.groups.length % buckets) (j + 1) ≤
      bucketStart (part.groups.length / buckets) (part.groups.length % buckets) buckets := bucketStart_mono hj
  rw [bucketStart_buckets hb] at hlast
  have hinterval : ((Finset.range part.groups.length).filter fun p =>
      ScalarEnv.ntileAt part buckets p = j + 1) =
      Finset.Ico (bucketStart (part.groups.length / buckets) (part.groups.length % buckets) j)
        (bucketStart (part.groups.length / buckets) (part.groups.length % buckets) (j + 1)) := by
    ext p
    rw [Finset.mem_filter, Finset.mem_range, Finset.mem_Ico]
    constructor
    · exact fun h => (ntileAt_eq_iff hb h.1).mp h.2
    · intro h
      have hp := h.2.trans_le hlast
      exact ⟨hp, (ntileAt_eq_iff hb hp).mpr h⟩
  rw [bucketSize, hinterval, Nat.card_Ico, bucketStart_succ, Nat.add_assoc, Nat.add_sub_cancel_left]

theorem image_ntileAt (hb : 0 < buckets) :
    (Finset.range part.groups.length).image (ScalarEnv.ntileAt part buckets) =
      Finset.Icc 1 (min part.groups.length buckets) := by
  ext k
  rw [Finset.mem_image, Finset.mem_Icc, le_min_iff]
  constructor
  · rintro ⟨p, hp, rfl⟩
    rw [Finset.mem_range] at hp
    rw [ntileAt_eq hb hp]
    have hlt := (bucketIndex_bounds (Nat.mod_lt _ hb) (lt_split hp)).1
    exact ⟨Nat.succ_pos _, (Nat.succ_le_succ (bucketIndex_le _ _ p)).trans hp, hlt⟩
  · rintro ⟨hpos, hcount, hk⟩
    obtain ⟨j, rfl⟩ := Nat.exists_eq_add_of_le' hpos
    have hsome : 0 < bucketSize part.groups.length (ScalarEnv.ntileAt part buckets) (j + 1) := by
      rw [bucketSize_ntileAt hb hk]
      by_cases hless : part.groups.length < buckets
      · rw [Nat.mod_eq_of_lt hless, if_pos (Nat.lt_of_succ_le hcount)]
        exact Nat.succ_pos _
      · exact Nat.add_pos_left (Nat.div_pos (not_lt.mp hless) hb) _
    obtain ⟨p, hp⟩ := Finset.card_pos.mp hsome
    rw [Finset.mem_filter] at hp
    exact ⟨p, hp⟩

theorem deals_ntileAt (hb : 0 < buckets) {n : Int} (hn : (buckets : Int) = n) :
    Deals part.groups.length n (ScalarEnv.ntileAt part buckets) where
  ascending := by
    intro p q hpq hq
    rw [ntileAt_eq hb (hpq.trans_lt hq), ntileAt_eq hb hq]
    refine Nat.succ_le_succ (not_lt.mp fun hless => ?_)
    have hlow := (bucketIndex_bounds (Nat.mod_lt _ hb) (lt_split (hpq.trans_lt hq))).2.1
    have hhigh := (bucketIndex_bounds (Nat.mod_lt _ hb) (lt_split hq)).2.2
    exact absurd (hhigh.trans_le (bucketStart_mono hless)) (not_lt.mpr (hlow.trans hpq))
  bounded := by
    intro p hp
    have hlt := (bucketIndex_bounds (Nat.mod_lt _ hb) (lt_split hp)).1
    rw [ntileAt_eq hb hp]
    omega
  even := by
    intro k l hk hkl hl
    obtain ⟨i, rfl⟩ := Nat.exists_eq_add_of_le' hk
    obtain ⟨j, rfl⟩ := Nat.exists_eq_add_of_le' (hk.trans hkl)
    rw [bucketSize_ntileAt hb (by omega), bucketSize_ntileAt hb (by omega)]
    split_ifs <;> omega
  used := by
    rw [image_ntileAt hb, Nat.card_Icc, ← hn]
    omega

theorem pos_of_deals {count : Nat} {n : Int} {bucket : Nat → Nat} (h : Deals count n bucket)
    (hcount : 0 < count) : 1 ≤ n := by
  have hsome : 0 < ((Finset.range count).image bucket).card :=
    Finset.card_pos.mpr ((Finset.nonempty_range_iff.mpr hcount.ne').image bucket)
  have hused := h.used
  omega

end Buckets

theorem asUsize_cast (v : Int64) :
    (asUsize v : Int) = if 0 ≤ v.toInt then v.toInt else v.toInt + 18446744073709551616 := by
  have hcond := BitVec.toInt_eq_toNat_cond v.toBitVec
  have hint : v.toBitVec.toInt = v.toInt := rfl
  have hnat : v.toBitVec.toNat = asUsize v := rfl
  rw [hint, hnat] at hcond
  split_ifs at hcond ⊢ <;> omega

namespace ScalarEnv

variable (env : ScalarEnv) (ops : SumOps) (colMap : ColMap) (orderBy : List OrderByItem) (part : Partition)
  (frame : Option WindowFrame)

-- NTILE numbers the positions with the buckets that they are dealt to.
def NtileDeals (buckets : Expr) (n : Int) : Prop :=
  ∃ bucket : Nat → Nat, (∀ p < part.groups.length,
      env.windowFuncValue ops colMap orderBy part (.Ntile buckets) frame p =
        .Integer (Int64.ofNat (bucket p))) ∧
    Deals part.groups.length n bucket

def valueAt (e : Expr) (default : Option Expr) (place : Int) : Value :=
  if 0 ≤ place ∧ place < part.groups.length then
    env.groupValue ops colMap e (part.groups.getD place.toNat [])
  else env.defaultOf default

-- LAG and LEAD read the places behind and in front of a position, and the place of LEAD is a `usize`.
structure ReadsOffset (p : Nat) (offset : Expr) (w : Int) : Prop where
  lag : ∀ e default, env.windowFuncValue ops colMap orderBy part (.Lag e (some offset) default) frame p =
    env.valueAt ops colMap part e default (p - w)
  lead : ∀ e default, env.windowFuncValue ops colMap orderBy part (.Lead e (some offset) default) frame p =
    env.valueAt ops colMap part e default (p + w)
  fits : p + env.offsetOf (some offset) < usizeCount

variable {env ops colMap orderBy part frame} {buckets offset : Expr} {n w : Int64} {p : Nat}

theorem ntileDeals_iff (hn : env.evalConstantExpr buckets = some (.Integer n)) (hp : p < part.groups.length) :
    env.NtileDeals ops colMap orderBy part frame buckets n.toInt ↔ 1 ≤ n.toInt := by
  constructor
  · rintro ⟨bucket, -, hdeals⟩
    exact pos_of_deals hdeals (Nat.zero_lt_of_lt hp)
  · intro hpos
    have hcount : (asUsize n : Int) = n.toInt := by rw [asUsize_cast, if_pos (by omega)]
    have hlt : 0 < n := Int64.lt_iff_toInt_lt.mpr hpos
    refine ⟨ntileAt part (asUsize n), fun p hp => ?_, deals_ntileAt (by omega) hcount⟩
    simp only [windowFuncValue, constantOr_eq hn, if_pos hlt]

theorem valueAt_of_lt (e : Expr) (default : Option Expr) (hp : p < part.groups.length) :
    env.valueAt ops colMap part e default p = env.groupValue ops colMap e (part.groups.getD p []) := by
  rw [valueAt, if_pos ⟨Int.natCast_nonneg p, Int.ofNat_lt.mpr hp⟩, Int.toNat_natCast]

theorem valueAt_outside (e : Expr) (default : Option Expr) {place : Int}
    (h : place < 0 ∨ (part.groups.length : Int) ≤ place) :
    env.valueAt ops colMap part e default place = env.defaultOf default :=
  if_neg fun hin => by omega

theorem lag_value (ho : env.evalConstantExpr offset = some (.Integer w)) (e : Expr) (default : Option Expr) :
    env.windowFuncValue ops colMap orderBy part (.Lag e (some offset) default) frame p =
      if asUsize w ≤ p then env.groupValue ops colMap e (part.groups.getD (p - asUsize w) [])
      else env.defaultOf default := by
  simp only [windowFuncValue, offsetOf, constantOr_eq ho]

theorem lead_value (ho : env.evalConstantExpr offset = some (.Integer w)) (e : Expr) (default : Option Expr)
    (hfits : p + asUsize w < usizeCount) :
    env.windowFuncValue ops colMap orderBy part (.Lead e (some offset) default) frame p =
      env.valueAt ops colMap part e default (p + asUsize w : Nat) := by
  have hoffset : env.offsetOf (some offset) = asUsize w := by simp only [offsetOf, constantOr_eq ho]
  by_cases hin : p + asUsize w < part.groups.length
  · have hget := List.getElem?_eq_getElem hin
    rw [valueAt_of_lt e default hin]
    simp only [windowFuncValue, hoffset, Nat.mod_eq_of_lt hfits, hget, List.getD_eq_getElem?_getD,
      Option.getD_some]
  · have hget := List.getElem?_eq_none (not_lt.mp hin)
    rw [valueAt_outside e default (.inr (Int.ofNat_le.mpr (not_lt.mp hin)))]
    simp only [windowFuncValue, hoffset, Nat.mod_eq_of_lt hfits, hget]

-- A literal is worth itself at every place, and nothing outside of the partition.
theorem place_of_valueAt {place : Int}
    (h : env.valueAt ops colMap part (.IntegerLiteral 1) none place = .Null) :
    place < 0 ∨ (part.groups.length : Int) ≤ place := by
  by_contra hin
  rw [valueAt, if_pos (by omega)] at h
  cases h

theorem readsOffset_iff (ho : env.evalConstantExpr offset = some (.Integer w))
    (hp : p < part.groups.length) :
    env.ReadsOffset ops colMap orderBy part frame p offset w.toInt ↔
      0 ≤ w.toInt ∨ (p + w.toInt < 0 ∧ part.groups.length ≤ p - w.toInt) := by
  have hcast := asUsize_cast w
  have hlen := part.length_le
  have hmax : w.toInt ≤ 9223372036854775807 := Int64.toInt_le w
  have hmin : -9223372036854775808 ≤ w.toInt := Int64.le_toInt w
  have hoffset : env.offsetOf (some offset) = asUsize w := by simp only [offsetOf, constantOr_eq ho]
  constructor
  · intro h
    by_cases hw : 0 ≤ w.toInt
    · exact .inl hw
    · rw [if_neg hw] at hcast
      have hfits := h.fits
      rw [hoffset, usizeCount] at hfits
      have hlag := h.lag (.IntegerLiteral 1) none
      rw [lag_value ho, if_neg (by omega)] at hlag
      have hplace := place_of_valueAt hlag.symm
      omega
  · intro hplace
    have hfits : p + asUsize w < usizeCount := by
      rw [usizeCount]
      split_ifs at hcast <;> omega
    refine ⟨fun e default => ?_, fun e default => ?_, by rwa [hoffset]⟩
    · rw [lag_value ho]
      by_cases hback : asUsize w ≤ p
      · have heq : (p : Int) - w.toInt = (p - asUsize w : Nat) := by split_ifs at hcast <;> omega
        rw [if_pos hback, heq, valueAt_of_lt e default (by omega)]
      · rw [if_neg hback, valueAt_outside e default]
        split_ifs at hcast <;> omega
    · rw [lead_value ho e default hfits]
      by_cases hw : 0 ≤ w.toInt
      · rw [if_pos hw] at hcast
        rw [Int.natCast_add, hcast]
      · rw [if_neg hw] at hcast
        rw [valueAt_outside e default (by omega), valueAt_outside e default (by omega)]

-- NTILE, LAG and LEAD do what they are asked for exactly when the number of buckets is positive, and the offset
-- is not negative or leaves the partition on both sides.
theorem offsets_iff (hn : env.evalConstantExpr buckets = some (.Integer n))
    (ho : env.evalConstantExpr offset = some (.Integer w)) (hp : p < part.groups.length) :
    env.NtileDeals ops colMap orderBy part frame buckets n.toInt ∧
        env.ReadsOffset ops colMap orderBy part frame p offset w.toInt ↔
      1 ≤ n.toInt ∧ (0 ≤ w.toInt ∨ (p + w.toInt < 0 ∧ part.groups.length ≤ p - w.toInt)) :=
  and_congr (ntileDeals_iff hn hp) (readsOffset_iff ho hp)

end ScalarEnv

def twoRows : Partition where
  groups := [[[.Integer 10]], [[.Integer 20]]]
  length_le := by decide

theorem offsets_iff_twoRows :
    literalEnv.NtileDeals wholeOps [] [] twoRows none (.IntegerLiteral 3) 3 ∧
        literalEnv.ReadsOffset wholeOps [] [] twoRows none 0 (.IntegerLiteral 1) 1 ↔
      1 ≤ (3 : Int) ∧
        (0 ≤ (1 : Int) ∨ ((0 : Nat) + (1 : Int) < 0 ∧ twoRows.groups.length ≤ (0 : Nat) - (1 : Int))) :=
  ScalarEnv.offsets_iff (n := 3) (w := 1) rfl rfl (by decide)

-- `LAG(x, -1)` does not see the next row.
theorem lag_misses_next :
    ¬literalEnv.ReadsOffset wholeOps [] [] twoRows none 0 (.IntegerLiteral (-1)) (-1) := by
  intro h
  have hreads := (ScalarEnv.readsOffset_iff (w := -1) rfl (by decide)).mp h
  exact absurd hreads (by decide)

end Kkdb
