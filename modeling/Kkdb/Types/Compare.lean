import Kkdb.Lib.Double
import Kkdb.Types.Row

namespace Kkdb

open Lib

namespace Value

-- `partial_cmp`. Strings are compared by their bytes, as the slices of bytes are.
def partialCmp : Value → Value → Option Ordering
  | Null, Null => some .eq
  | Null, _ => some .lt
  | _, Null => some .gt
  | Integer a, Integer b => some (compare a.toInt b.toInt)
  | Real a, Real b => Double.partialCmp a b
  | Integer a, Real b => Double.partialCmp (Double.ofInt64 a) b
  | Real a, Integer b => Double.partialCmp a (Double.ofInt64 b)
  | Text a, Text b => some (compare (textBytes a) (textBytes b))
  | Blob a, Blob b => some (compare a b)
  | Integer _, Text _ | Integer _, Blob _ | Real _, Text _ | Real _, Blob _ => some .lt
  | Text _, Integer _ | Text _, Real _ | Blob _, Integer _ | Blob _, Real _ => some .gt
  | Text _, Blob _ => some .lt
  | Blob _, Text _ => some .gt

-- `==` of two values.
def eq : Value → Value → Bool
  | Null, Null => true
  | Integer a, Integer b => a = b
  | Real a, Real b => Double.eq a b
  | Integer a, Real b => Double.eq (Double.ofInt64 a) b
  | Real a, Integer b => Double.eq a (Double.ofInt64 b)
  | Text a, Text b => a = b
  | Blob a, Blob b => a = b
  | _, _ => false

def isTruthy : Value → Bool
  | Null => false
  | Integer v => v ≠ 0
  | Real bits => Double.isNaN bits ∨ Double.magnitude bits ≠ 0
  | Text v => v ≠ ""
  | Blob v => v ≠ []

def isNaN : Value → Bool
  | Real bits => Double.isNaN bits
  | _ => false

def tag : Value → Nat
  | Null => 0
  | Integer _ | Real _ => 1
  | Text _ => 2
  | Blob _ => 3

section Order

variable {v w x : Value}

theorem partialCmp_swap (v w : Value) : partialCmp w v = (partialCmp v w).map Ordering.swap := by
  have hreal : ∀ a b, Double.partialCmp b a = (Double.partialCmp a b).map Ordering.swap := by
    intro a b
    unfold Double.partialCmp
    by_cases h : Double.isNaN a ∨ Double.isNaN b
    · rw [if_pos h, if_pos h.symm]
      rfl
    · rw [if_neg h, if_neg (fun h' => h h'.symm), Option.map_some, Std.OrientedOrd.eq_swap]
  cases v <;> cases w
  case Integer.Integer => exact congrArg some Std.OrientedOrd.eq_swap
  case Text.Text => exact congrArg some Std.OrientedOrd.eq_swap
  case Blob.Blob => exact congrArg some Std.OrientedOrd.eq_swap
  all_goals first | exact hreal _ _ | rfl

theorem partialCmp_of_tag_lt (h : v.tag < w.tag) : partialCmp v w = some .lt := by
  cases v <;> cases w <;> first | rfl | (simp only [tag] at h; omega)

theorem partialCmp_of_tag_gt (h : w.tag < v.tag) : partialCmp v w = some .gt := by
  rw [partialCmp_swap w v, partialCmp_of_tag_lt h]
  rfl

theorem isSome_partialCmp (hv : v.isNaN = false) (hw : w.isNaN = false) :
    (partialCmp v w).isSome := by
  have hreal : ∀ a b, Double.isNaN a = false → Double.isNaN b = false →
      (Double.partialCmp a b).isSome := by
    intro a b ha hb
    rw [Double.partialCmp, ha, hb]
    rfl
  cases v <;> cases w
  case Integer.Real => exact hreal _ _ (Double.isNaN_ofInt64 _) hw
  case Real.Integer => exact hreal _ _ hv (Double.isNaN_ofInt64 _)
  case Real.Real => exact hreal _ _ hv hw
  all_goals rfl

theorem partialCmp_self (hv : v.isNaN = false) : partialCmp v v = some .eq := by
  have h := partialCmp_swap v v
  obtain ⟨o, ho⟩ := Option.isSome_iff_exists.mp (isSome_partialCmp hv hv)
  rw [ho] at h ⊢
  cases o with
  | eq => rfl
  | lt => cases h
  | gt => cases h

theorem eq_iff_partialCmp (hv : v.isNaN = false) (hw : w.isNaN = false) :
    v.eq w = true ↔ partialCmp v w = some .eq := by
  have hreal : ∀ a b, Double.isNaN a = false → Double.isNaN b = false →
      (Double.eq a b = true ↔ Double.partialCmp a b = some .eq) := by
    intro a b ha hb
    rw [Double.eq, Double.partialCmp, ha, hb]
    simp
  cases v <;> cases w
  case Integer.Integer => simp [eq, partialCmp, Int64.toInt_inj]
  case Text.Text v w =>
    rw [eq, partialCmp, decide_eq_true_iff, Option.some_inj, Std.LawfulEqOrd.compare_eq_iff_eq,
      textBytes_inj]
  case Blob.Blob => simp [eq, partialCmp]
  case Integer.Real => exact hreal _ _ (Double.isNaN_ofInt64 _) hw
  case Real.Integer => exact hreal _ _ hv (Double.isNaN_ofInt64 _)
  case Real.Real => exact hreal _ _ hv hw
  all_goals simp [eq, partialCmp]

-- The rank of a number as a double, to which an integer may be rounded.
def rank : Value → Int
  | Integer v => Double.rank (Double.ofInt64 v)
  | Real bits => Double.rank bits
  | _ => 0

theorem partialCmp_real {a b : UInt64} {o : Ordering} (h : Double.partialCmp a b = some o) :
    compare (Double.rank a) (Double.rank b) = o := by
  unfold Double.partialCmp at h
  split_ifs at h
  exact Option.some.inj h

theorem number_of_tag (h : v.tag = 1) : (∃ a, v = Integer a) ∨ ∃ a, v = Real a := by
  cases v with
  | Integer a => exact .inl ⟨a, rfl⟩
  | Real a => exact .inr ⟨a, rfl⟩
  | _ => exact absurd h (by simp [tag])

theorem shape_of_tags (hv : v.tag ≠ 1) (hvw : v.tag = w.tag) (hwx : w.tag = x.tag) :
    (v = Null ∧ w = Null ∧ x = Null) ∨ (∃ a b c, v = Text a ∧ w = Text b ∧ x = Text c) ∨
      ∃ a b c, v = Blob a ∧ w = Blob b ∧ x = Blob c := by
  cases v <;> cases w <;> simp [tag] at hv hvw <;> cases x <;> simp [tag] at hwx <;> simp

theorem rank_le_of_partialCmp {o : Ordering} (hv : v.tag = 1) (hw : w.tag = 1)
    (h : partialCmp v w = some o) (ho : o ≠ .gt) : v.rank ≤ w.rank := by
  have hreal : ∀ a b, Double.partialCmp a b = some o → Double.rank a ≤ Double.rank b := fun a b hab => by
    rw [← compare_le_iff_le, partialCmp_real hab]
    exact ho
  rcases number_of_tag hv with ⟨a, rfl⟩ | ⟨a, rfl⟩ <;> rcases number_of_tag hw with ⟨b, rfl⟩ | ⟨b, rfl⟩
  · refine Double.rank_ofInt64_mono (compare_le_iff_le.mp ?_)
    rw [Option.some.inj h]
    exact ho
  all_goals exact hreal _ _ h

-- The comparison is not transitive: two integers may be rounded to one double. It has no
-- cycle with a strict step, though.
theorem partialCmp_ne_gt_of_lt {o o' : Ordering} (hvw : partialCmp v w = some .lt)
    (hwx : partialCmp w x = some o) (ho : o ≠ .gt) (hvx : partialCmp v x = some o') : o' ≠ .gt := by
  rintro rfl
  have hvw' : v.tag ≤ w.tag := by
    by_contra hgt
    rw [partialCmp_of_tag_gt (not_le.mp hgt)] at hvw
    cases hvw
  have hwx' : w.tag ≤ x.tag := by
    by_contra hgt
    rw [partialCmp_of_tag_gt (not_le.mp hgt)] at hwx
    exact ho (Option.some.inj hwx).symm
  have hxv' : x.tag ≤ v.tag := by
    by_contra hlt
    rw [partialCmp_of_tag_lt (not_le.mp hlt)] at hvx
    cases hvx
  have hvweq : v.tag = w.tag := by omega
  have hwxeq : w.tag = x.tag := by omega
  by_cases hnum : v.tag = 1
  · have hrank : v.rank = w.rank ∧ w.rank = x.rank := by
      have h1 := rank_le_of_partialCmp hnum (hvweq ▸ hnum) hvw (by decide)
      have h2 := rank_le_of_partialCmp (hvweq ▸ hnum) (hwxeq ▸ hvweq ▸ hnum) hwx ho
      have h3 : x.rank ≤ v.rank := by
        refine rank_le_of_partialCmp (hwxeq ▸ hvweq ▸ hnum) hnum (show _ = some .lt from ?_) (by decide)
        rw [partialCmp_swap v x, hvx]
        rfl
      omega
    -- the ranks agree, so the strict steps are between integers, and so is the middle one
    have hreal : ∀ a b o, Double.rank a = Double.rank b → Double.partialCmp a b = some o → o = .eq := by
      intro a b o heq hab
      rw [← partialCmp_real hab]
      exact compare_eq_iff_eq.mpr heq
    rcases number_of_tag hnum with ⟨a, rfl⟩ | ⟨a, rfl⟩ <;>
      rcases number_of_tag (hvweq ▸ hnum) with ⟨b, rfl⟩ | ⟨b, rfl⟩ <;>
      rcases number_of_tag (hwxeq ▸ hvweq ▸ hnum) with ⟨c, rfl⟩ | ⟨c, rfl⟩
    · have h1 := compare_lt_iff_lt.mp (Option.some.inj hvw)
      have h2 := compare_gt_iff_gt.mp (Option.some.inj hvx)
      have h3 : b.toInt ≤ c.toInt := by
        rw [← compare_le_iff_le, Option.some.inj hwx]
        exact ho
      omega
    · exact absurd (hreal _ _ _ (hrank.1.trans hrank.2) hvx) (by decide)
    all_goals exact absurd (hreal _ _ _ hrank.1 hvw) (by decide)
  · have hbytes : ∀ a b c : List UInt8, compare a b = .lt → compare b c = o → compare a c ≠ .gt := by
      intro a b c hab hbc hac
      have hle : (compare b c).isLE = true := by
        rw [hbc]
        cases o <;> first | rfl | exact absurd rfl ho
      rw [Std.TransCmp.lt_of_lt_of_isLE hab hle] at hac
      cases hac
    rcases shape_of_tags hnum hvweq hwxeq with ⟨rfl, rfl, rfl⟩ | ⟨a, b, c, rfl, rfl, rfl⟩ |
      ⟨a, b, c, rfl, rfl, rfl⟩
    · exact absurd hvw (by decide)
    · exact hbytes _ _ _ (Option.some.inj hvw) (Option.some.inj hwx) (Option.some.inj hvx)
    · exact hbytes _ _ _ (Option.some.inj hvw) (Option.some.inj hwx) (Option.some.inj hvx)

end Order

end Value

end Kkdb
