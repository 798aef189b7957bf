import Mathlib.Algebra.Order.Ring.Int
import Mathlib.Data.Int.SuccPred
import Mathlib.Tactic.Ring

namespace Lib.Calendar

-- The proleptic Gregorian calendar, in which the rule of leap years holds for all years.
def Leap (y : Int) : Prop := y % 4 = 0 ∧ (y % 100 ≠ 0 ∨ y % 400 = 0)

instance (y : Int) : Decidable (Leap y) := inferInstanceAs (Decidable (_ ∧ _))

def leapDay (y : Int) : Int := if Leap y then 1 else 0

def monthLength (y : Int) : Nat → Int
  | 2 => 28 + leapDay y
  | 4 => 30
  | 6 => 30
  | 9 => 30
  | 11 => 30
  | _ => 31

def daysOfMonths (y : Int) : Nat → Int
  | 0 => 0
  | m + 1 => daysOfMonths y m + monthLength y (m + 1)

def daysBeforeYear (y : Int) : Int := 365 * (y - 1) + (y - 1) / 4 - (y - 1) / 100 + (y - 1) / 400

@[ext] structure Date where
  year : Int
  month : Nat
  day : Nat
  month_pos : 1 ≤ month
  month_le : month ≤ 12
  day_pos : 1 ≤ day
  day_le : day ≤ monthLength year month

def Date.dayNumber (d : Date) : Int :=
  daysBeforeYear d.year + daysOfMonths d.year (d.month - 1) + (d.day - 1) - daysBeforeYear 1970

@[ext] structure DateTime where
  date : Date
  hour : Nat
  minute : Nat
  second : Nat
  hour_lt : hour < 24
  minute_lt : minute < 60
  second_lt : second < 60

def DateTime.seconds (t : DateTime) : Int :=
  t.date.dayNumber * 86400 + (t.hour * 3600 + t.minute * 60 + t.second : Nat)

section Counting

variable {y x : Int} {m : Nat}

theorem leapDay_bounds (y : Int) : 0 ≤ leapDay y ∧ leapDay y ≤ 1 := by
  unfold leapDay
  split_ifs <;> decide

theorem leapDay_eq (y : Int) : leapDay y = (y / 4 - (y - 1) / 4) - (y / 100 - (y - 1) / 100) +
    (y / 400 - (y - 1) / 400) := by
  unfold leapDay Leap
  split_ifs <;> omega

theorem daysBeforeYear_succ (y : Int) : daysBeforeYear (y + 1) = daysBeforeYear y + 365 + leapDay y := by
  rw [daysBeforeYear, daysBeforeYear, leapDay_eq, Int.add_sub_cancel]
  omega

theorem monthLength_one (y : Int) : monthLength y 1 = 31 := rfl

theorem one_le_january (y : Int) : ((1 : Nat) : Int) ≤ monthLength y 1 := by
  rw [monthLength_one]
  decide

theorem monthLength_two (y : Int) : monthLength y 2 = 28 + leapDay y := rfl

theorem monthLength_bounds (y : Int) (m : Nat) : 28 ≤ monthLength y m ∧ monthLength y m ≤ 31 := by
  have hleap := leapDay_bounds y
  unfold monthLength
  split <;> omega

theorem daysOfMonths_year (y : Int) : daysOfMonths y 12 = 365 + leapDay y := by
  simp only [daysOfMonths, monthLength]
  ring

theorem daysOfMonths_mono (y : Int) {m n : Nat} (h : m ≤ n) : daysOfMonths y m ≤ daysOfMonths y n := by
  induction h with
  | refl => exact Int.le_refl _
  | @step n _ ih =>
      have hlength := monthLength_bounds y (n + 1)
      rw [daysOfMonths]
      omega

theorem daysBeforeYear_mono {y y' : Int} (h : y ≤ y') : daysBeforeYear y ≤ daysBeforeYear y' := by
  rw [daysBeforeYear, daysBeforeYear]
  omega

-- A monotone sequence has one place for each number.
theorem eq_of_between {ι : Type} [LinearOrder ι] [One ι] [Add ι] [SuccAddOrder ι] {f : ι → Int}
    (hf : ∀ {a b : ι}, a ≤ b → f a ≤ f b) {a b : ι} (ha : f a ≤ x ∧ x < f (a + 1)) (hb : f b ≤ x ∧ x < f (b + 1)) : a = b := by
  rcases lt_trichotomy a b with hlt | heq | hgt
  · have hle := hf (Order.add_one_le_of_lt hlt)
    omega
  · exact heq
  · have hle := hf (Order.add_one_le_of_lt hgt)
    omega

end Counting

namespace Date

variable {d d' : Date}

def dayOfYear (d : Date) : Int := daysOfMonths d.year (d.month - 1) + (d.day - 1)

theorem month_bounds (d : Date) : daysOfMonths d.year (d.month - 1) ≤ d.dayOfYear ∧
    d.dayOfYear < daysOfMonths d.year (d.month - 1 + 1) := by
  have hday := d.day_le
  have hpos := d.day_pos
  rw [dayOfYear, daysOfMonths, Nat.sub_add_cancel d.month_pos]
  omega

theorem dayNumber_eq (d : Date) : d.dayNumber = daysBeforeYear d.year + d.dayOfYear - daysBeforeYear 1970 := by
  rw [dayNumber, dayOfYear]
  ring

theorem dayOfYear_bounds (d : Date) : 0 ≤ d.dayOfYear ∧ d.dayOfYear < 365 + leapDay d.year := by
  obtain ⟨hlow, hhigh⟩ := d.month_bounds
  have hstart := daysOfMonths_mono d.year (Nat.zero_le (d.month - 1))
  have hstop := daysOfMonths_mono d.year (show d.month - 1 + 1 ≤ 12 by have := d.month_le; omega)
  rw [daysOfMonths_year] at hstop
  rw [daysOfMonths] at hstart
  omega

theorem year_bounds (d : Date) : daysBeforeYear d.year ≤ d.dayNumber + daysBeforeYear 1970 ∧
    d.dayNumber + daysBeforeYear 1970 < daysBeforeYear (d.year + 1) := by
  have hday := d.dayOfYear_bounds
  rw [daysBeforeYear_succ, dayNumber_eq]
  omega

theorem dayNumber_inj (h : d.dayNumber = d'.dayNumber) : d = d' := by
  have hyear := eq_of_between daysBeforeYear_mono d.year_bounds (h ▸ d'.year_bounds)
  have hdays : d.dayOfYear = d'.dayOfYear := by
    rw [dayNumber_eq, dayNumber_eq, hyear] at h
    omega
  have hmonth : d.month = d'.month := by
    have hbounds := d'.month_bounds
    rw [← hdays, ← hyear] at hbounds
    have hplace := eq_of_between (daysOfMonths_mono d.year) d.month_bounds hbounds
    have hpos := d.month_pos
    have hpos' := d'.month_pos
    omega
  refine Date.ext hyear hmonth ?_
  rw [dayOfYear, dayOfYear, ← hyear, ← hmonth] at hdays
  omega

end Date

theorem DateTime.seconds_inj {t t' : DateTime} (h : t.seconds = t'.seconds) : t = t' := by
  obtain ⟨d, hour, minute, second, hhour, hminute, hsecond⟩ := t
  obtain ⟨d', hour', minute', second', hhour', hminute', hsecond'⟩ := t'
  rw [seconds, seconds] at h
  dsimp only at h
  have hday : d.dayNumber = d'.dayNumber := by omega
  obtain rfl := Date.dayNumber_inj hday
  refine DateTime.ext rfl ?_ ?_ ?_ <;> dsimp only <;> omega

-- The day after a day of some month is not that day of a month.
theorem Date.day_ne_of_next {d d' : Date} (h : d'.dayNumber = d.dayNumber + 1) : d'.day ≠ d.day := by
  have hpos := d.month_pos
  have hle := d.month_le
  have hday := d.day_pos
  have hlast := d.day_le
  have hlength := monthLength_bounds d.year d.month
  by_cases hmore : (d.day + 1 : Int) ≤ monthLength d.year d.month
  · have hnext : d' = ⟨d.year, d.month, d.day + 1, hpos, hle, by omega, by omega⟩ := by
      refine Date.dayNumber_inj ?_
      rw [h, dayNumber, dayNumber]
      dsimp only
      omega
    rw [hnext]
    dsimp only
    omega
  · have hfirst : d'.day = 1 := by
      have hmonth : daysOfMonths d.year d.month =
          daysOfMonths d.year (d.month - 1) + monthLength d.year d.month := by
        obtain ⟨m, hm⟩ := Nat.exists_eq_add_of_le' hpos
        rw [hm, Nat.add_sub_cancel, daysOfMonths]
      by_cases hyear : d.month < 12
      · have hnext : d' = ⟨d.year, d.month + 1, 1, by omega, by omega, le_rfl, by
            have := monthLength_bounds d.year (d.month + 1)
            omega⟩ := by
          refine Date.dayNumber_inj ?_
          rw [h, dayNumber, dayNumber]
          dsimp only
          rw [Nat.add_sub_cancel]
          omega
        rw [hnext]
      · have hdecember : d.month = 12 := by omega
        have hnext : d' = ⟨d.year + 1, 1, 1, by decide, by decide, le_rfl, one_le_january (d.year + 1)⟩ := by
          refine Date.dayNumber_inj ?_
          rw [h, dayNumber, dayNumber]
          dsimp only
          rw [hdecember, daysOfMonths_year] at hmonth
          rw [daysBeforeYear_succ, hdecember, daysOfMonths]
          rw [hdecember] at hmore hlast
          omega
        rw [hnext]
    omega

theorem Date.year_lt_iff (d : Date) (y : Int) :
    d.year < y ↔ d.dayNumber + daysBeforeYear 1970 < daysBeforeYear y := by
  obtain ⟨hlow, hhigh⟩ := d.year_bounds
  constructor
  · intro hlt
    exact hhigh.trans_le (daysBeforeYear_mono (Int.add_one_le_of_lt hlt))
  · intro hlt
    by_contra hle
    exact absurd (hlt.trans_le ((daysBeforeYear_mono (not_lt.mp hle)).trans hlow)) (lt_irrefl _)

theorem Date.year_mono {d d' : Date} (h : d.dayNumber ≤ d'.dayNumber) : d.year ≤ d'.year := by
  have hhigh := (d'.year_lt_iff (d'.year + 1)).mp (Int.lt_succ d'.year)
  exact Int.lt_add_one_iff.mp ((d.year_lt_iff (d'.year + 1)).mpr (by omega))

section March

variable {y doy : Int}

def marchStart (y : Int) : Int := daysBeforeYear y + 59 + leapDay y - daysBeforeYear 1970

theorem daysOfMonths_march {m : Nat} (h : m ≤ 10) (y : Int) :
    daysOfMonths y (m + 2) = 59 + leapDay y + (153 * m + 2) / 5 := by
  have hcases : m = 0 ∨ m = 1 ∨ m = 2 ∨ m = 3 ∨ m = 4 ∨ m = 5 ∨ m = 6 ∨ m = 7 ∨ m = 8 ∨ m = 9 ∨ m = 10 := by
    omega
  rcases hcases with rfl | rfl | rfl | rfl | rfl | rfl | rfl | rfl | rfl | rfl | rfl <;>
    simp [daysOfMonths, monthLength] <;> omega

theorem exists_of_month {m : Nat} (hpos : 1 ≤ m) (hle : m ≤ 12) {k : Int} (hk : 0 ≤ k)
    (hlt : k < monthLength y m) :
    ∃ d : Date, d.dayNumber = daysBeforeYear y + daysOfMonths y (m - 1) + k - daysBeforeYear 1970 ∧
      d.month = m ∧ (d.day : Int) = k + 1 ∧ d.year = y := by
  refine ⟨⟨y, m, (k + 1).toNat, hpos, hle, by omega, by omega⟩, ?_, rfl, by dsimp only; omega, rfl⟩
  rw [Date.dayNumber]
  dsimp only
  omega

theorem exists_date (hlow : 0 ≤ doy) (hhigh : doy < 365 + leapDay (y + 1)) {mp : Int}
    (hmp : mp = (5 * doy + 2) / 153) :
    ∃ d : Date, d.dayNumber = marchStart y + doy ∧ (d.month : Int) = (if mp < 10 then mp + 3 else mp - 9) ∧
      (d.day : Int) = doy - (153 * mp + 2) / 5 + 1 ∧ d.year = if d.month ≤ 2 then y + 1 else y := by
  have hleap := leapDay_bounds (y + 1)
  by_cases hmarch : mp < 10
  · obtain ⟨m, rfl⟩ := Int.eq_ofNat_of_zero_le (show 0 ≤ mp by omega)
    have hstart := daysOfMonths_march (show m ≤ 10 by omega) y
    have hstop := daysOfMonths_march (show m + 1 ≤ 10 by omega) y
    have hlength : monthLength y (m + 2 + 1) = (153 * (m + 1 : Nat) + 2) / 5 - (153 * m + 2) / 5 := by
      rw [show m + 1 + 2 = m + 2 + 1 from rfl, daysOfMonths, hstart] at hstop
      omega
    obtain ⟨d, hnumber, hmonth, hday, hyear⟩ := exists_of_month (y := y) (m := m + 2 + 1)
      (k := doy - (153 * m + 2) / 5) (by omega) (by omega) (by omega) (by rw [hlength]; omega)
    rw [Nat.add_sub_assoc (by decide), hstart] at hnumber
    refine ⟨d, ?_, ?_, hday, ?_⟩
    · rw [hnumber, marchStart]
      omega
    · rw [if_pos hmarch, hmonth]
      rfl
    · rw [hmonth, if_neg (by omega), hyear]
  · have hsucc := daysBeforeYear_succ y
    have hlate : mp = 10 ∨ mp = 11 := by omega
    rcases hlate with rfl | rfl
    · obtain ⟨d, hnumber, hmonth, hday, hyear⟩ := exists_of_month (y := y + 1) (m := 1) (k := doy - 306)
        (by omega) (by omega) (by omega) (by rw [monthLength_one]; omega)
      refine ⟨d, ?_, by rw [hmonth]; rfl, by omega, by rw [hmonth, hyear]; rfl⟩
      rw [hnumber, marchStart, hsucc, daysOfMonths]
      omega
    · obtain ⟨d, hnumber, hmonth, hday, hyear⟩ := exists_of_month (y := y + 1) (m := 2) (k := doy - 337)
        (by omega) (by omega) (by omega) (by rw [monthLength_two]; omega)
      refine ⟨d, ?_, by rw [hmonth]; rfl, by omega, by rw [hmonth, hyear]; rfl⟩
      rw [hnumber, marchStart, hsucc, daysOfMonths, daysOfMonths, monthLength_one]
      omega

-- A day of the 400 years from a first of March: whole centuries, spans of four years, years and days.
structure Cycles (c q k doy : Int) : Prop where
  century : 0 ≤ c ∧ c ≤ 3
  span : 0 ≤ q ∧ q ≤ 24
  year : 0 ≤ k ∧ k ≤ 3
  day : 0 ≤ doy ∧ doy ≤ 365
  leap : doy = 365 → k = 3 ∧ (q ≠ 24 ∨ c = 3)

theorem exists_cycles {doe : Int} (hlow : 0 ≤ doe) (hhigh : doe < 146097) :
    ∃ c q k doy, Cycles c q k doy ∧ doe = 36524 * c + 1461 * q + 365 * k + doy := by
  have hcentury : ∃ c r, 0 ≤ c ∧ c ≤ 3 ∧ 0 ≤ r ∧ r ≤ 36524 ∧ (r = 36524 → c = 3) ∧ doe = 36524 * c + r :=
    ⟨min (doe / 36524) 3, doe - 36524 * min (doe / 36524) 3, by omega⟩
  obtain ⟨c, r, hc, hc', hr, hr', hlast, rfl⟩ := hcentury
  have hyear : ∃ k s, 0 ≤ k ∧ k ≤ 3 ∧ 0 ≤ s ∧ s ≤ 365 ∧ (s = 365 → k = 3) ∧ r % 1461 = 365 * k + s :=
    ⟨min (r % 1461 / 365) 3, r % 1461 - 365 * min (r % 1461 / 365) 3, by omega⟩
  obtain ⟨k, doy, hk, hk', hdoy, hdoy', hleap, hrest⟩ := hyear
  exact ⟨c, r / 1461, k, doy, ⟨⟨hc, hc'⟩, by omega, ⟨hk, hk'⟩, ⟨hdoy, hdoy'⟩, by omega⟩, by omega⟩

theorem Cycles.marchStart {c q k : Int} (h : Cycles c q k doy) (era : Int) :
    marchStart (100 * c + 4 * q + k + era * 400) = era * 146097 + 36524 * c + 1461 * q + 365 * k - 719468 := by
  have hepoch : daysBeforeYear 1970 = 719162 := rfl
  obtain ⟨hc, hq, hk, -, -⟩ := h
  rw [Calendar.marchStart, leapDay_eq, daysBeforeYear, hepoch]
  omega

theorem Cycles.doy_lt {c q k : Int} (h : Cycles c q k doy) (era : Int) :
    doy < 365 + leapDay (100 * c + 4 * q + k + era * 400 + 1) := by
  obtain ⟨hc, hq, hk, hdoy, hleap⟩ := h
  rw [leapDay_eq]
  omega

theorem exists_dayNumber (n : Int) : ∃ d : Date, d.dayNumber = n := by
  obtain ⟨c, q, k, doy, hcycles, hdoe⟩ := exists_cycles (Int.emod_nonneg (n + 719468) (by decide))
    (Int.emod_lt_of_pos (n + 719468) (by decide))
  obtain ⟨d, hnumber, -, -, -⟩ := exists_date hcycles.day.1 (hcycles.doy_lt ((n + 719468) / 146097)) rfl
  exact ⟨d, by rw [hnumber, hcycles.marchStart]; omega⟩

end March

theorem exists_time (date : Date) {v : Int} (hlow : 0 ≤ v) (hhigh : v < 86400) :
    ∃ t : DateTime, t.date = date ∧ t.seconds = date.dayNumber * 86400 + v ∧ (t.hour : Int) = v / 3600 ∧
      (t.minute : Int) = v % 3600 / 60 ∧ (t.second : Int) = v % 60 := by
  have hfits : (v / 3600).toNat < 24 ∧ (v % 3600 / 60).toNat < 60 ∧ (v % 60).toNat < 60 := by omega
  refine ⟨⟨date, (v / 3600).toNat, (v % 3600 / 60).toNat, (v % 60).toNat, hfits.1, hfits.2.1, hfits.2.2⟩, rfl,
    ?_, ?_⟩
  · rw [DateTime.seconds]
    dsimp only
    omega
  · dsimp only
    omega

theorem exists_seconds (ts : Int) : ∃ t : DateTime, t.seconds = ts := by
  obtain ⟨date, hdate⟩ := exists_dayNumber (ts / 86400)
  obtain ⟨t, -, ht, -⟩ := exists_time date (Int.emod_nonneg ts (by decide)) (Int.emod_lt_of_pos ts (by decide))
  exact ⟨t, by rw [ht, hdate]; omega⟩

end Lib.Calendar
