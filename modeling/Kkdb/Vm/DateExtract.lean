import Kkdb.Lib.Calendar
import Kkdb.Types.Row
import Kkdb.Vm.Unnest

namespace Kkdb.DateExtract

open Lib Lib.Calendar JsonPath Unnest

section Arithmetic

def checkedIn (low high v : Int) : Res Int := if low ≤ v ∧ v ≤ high then .ok v else .error .Panic

def checkedI64 : Int → Res Int := checkedIn (-9223372036854775808) 9223372036854775807

def checkedU64 : Int → Res Int := checkedIn 0 18446744073709551615

def checkedU32 : Int → Res Int := checkedIn 0 4294967295

def asU32 (v : Int) : Int := v % 4294967296

-- What the two copies of the conversion share, with the arithmetic of their type.
variable (ck : Int → Res Int)

def yearOfEra (doe : Int) : Res Int := do
  let days ← ck (doe - doe.tdiv 1460)
  let days ← ck (days + doe.tdiv 36524)
  let days ← ck (days - doe.tdiv 146096)
  return days.tdiv 365

def dayOfYear (doe yoe : Int) : Res Int := do
  let days ← ck (365 * yoe)
  let days ← ck (days + yoe.tdiv 4)
  let days ← ck (days - yoe.tdiv 100)
  ck (doe - days)

def monthDay (doy : Int) : Res (Int × Int) := do
  let scaled ← ck (5 * doy)
  let scaled ← ck (scaled + 2)
  let mp := scaled.tdiv 153
  let before ← ck (153 * mp)
  let before ← ck (before + 2)
  let d ← ck (doy - before.tdiv 5)
  let d ← ck (d + 1)
  let m ← if mp < 10 then ck (mp + 3) else ck (mp - 9)
  return (m, d)

def calendarYear (m y : Int) : Res Int := if m ≤ 2 then ck (y + 1) else .ok y

def eraDate (nDays era : Int) : Res (Int × Int × Int) := do
  let start ← ck (era * 146097)
  let doe ← ck (nDays - start)
  let yoe ← yearOfEra ck doe
  let years ← ck (era * 400)
  let y ← ck (yoe + years)
  let doy ← dayOfYear ck doe yoe
  let (m, d) ← monthDay ck doy
  return (y, m, d)

end Arithmetic

structure Fields where
  y : Int
  m : Int
  d : Int
  h : Int
  min : Int
  s : Int
  deriving DecidableEq, Repr

def floorEra (nDays : Int) : Res Int :=
  if 0 ≤ nDays then .ok (nDays.tdiv 146097) else do return (← checkedI64 (nDays - 146096)).tdiv 146097

-- The fields of an integer that `DATE_EXTRACT` takes for seconds since the epoch.
def timestampFields (ts : Int) : Res Fields := do
  let epochDays := ts.tdiv 86400
  let daySecs := ts % 86400
  let nDays ← checkedI64 (epochDays + 719468)
  let era ← floorEra nDays
  let (y, m, d) ← eraDate checkedI64 nDays era
  let y ← calendarYear checkedI64 m y
  return {
    y := y, m := m, d := d, h := daySecs.tdiv 3600, min := (daySecs.tmod 3600).tdiv 60, s := daySecs.tmod 60 }

-- The numbers of the date are cut to 32 bits.
def epochSecsToDatetime (secs : UInt64) : Res Fields := do
  let secs : Int := secs.toNat
  let s := secs.tmod 86400
  let days := secs.tdiv 86400
  let z ← checkedU64 (days + 719468)
  let (y, m, d) ← eraDate checkedU64 z (z.tdiv 146097)
  let m := asU32 m
  let y ← calendarYear checkedU32 m (asU32 y)
  return {
    y := y, m := m, d := asU32 d
    h := asU32 (s.tdiv 3600), min := asU32 ((s.tmod 3600).tdiv 60), s := asU32 (s.tmod 60) }

section Text

-- `{:0width}`, where a sign counts for the width.
def padded (width n : Nat) : Text :=
  List.replicate (width - (Nat.toDigits 10 n).length) '0' ++ Nat.toDigits 10 n

def paddedInt (width : Nat) (v : Int) : Text :=
  if v < 0 then '-' :: padded (width - 1) v.natAbs else padded width v.natAbs

def Fields.pieces (f : Fields) : List Text :=
  [paddedInt 4 f.y, ['-'], paddedInt 2 f.m, ['-'], paddedInt 2 f.d, [' '], paddedInt 2 f.h, [':'],
    paddedInt 2 f.min, [':'], paddedInt 2 f.s]

def Fields.text (f : Fields) : Text := f.pieces.flatten

def fieldRange (field : Text) : Option (Nat × Nat) :=
  if field = "YEAR".toList then some (0, 4)
  else if field = "MONTH".toList then some (5, 7)
  else if field = "DAY".toList then some (8, 10)
  else if field = "HOUR".toList then some (11, 13)
  else if field = "MINUTE".toList then some (14, 16)
  else if field = "SECOND".toList then some (17, 19)
  else none

def extractText (field t : Text) : Value :=
  match (fieldRange field).bind fun range => (byteSlice t range.1 range.2).bind parseI64 with
  | some v => .Integer v
  | none => .Null

inductive Field where
  | Year
  | Month
  | Day
  | Hour
  | Minute
  | Second
  deriving DecidableEq, Repr

def Field.name : Field → String
  | Year => "YEAR"
  | Month => "MONTH"
  | Day => "DAY"
  | Hour => "HOUR"
  | Minute => "MINUTE"
  | Second => "SECOND"

def Field.of : Field → Fields → Int
  | Year, f => f.y
  | Month, f => f.m
  | Day, f => f.d
  | Hour, f => f.h
  | Minute, f => f.min
  | Second, f => f.s

def dateExtract : List Value → Res Value
  | .Text field :: val :: _ =>
      let field := field.toList.map Char.toUpper
      match val with
      | .Text s => .ok (extractText field s.toList)
      | .Integer ts => do
          let fields ← timestampFields ts.toInt
          return extractText field fields.text
      | _ => .ok .Null
  | _ => .ok .Null

end Text

section Algorithm

variable {low high v c q k doy era nDays : Int}

theorem ok_bind {α β : Type} (a : α) (next : α → Res β) : ((.ok a : Res α) >>= next) = next a := rfl

theorem checkedIn_ok (hlow : low ≤ v) (hhigh : v ≤ high) : checkedIn low high v = .ok v :=
  if_pos ⟨hlow, hhigh⟩

theorem yearOfEra_eq (h : Cycles c q k doy) (hlow : low ≤ 0) (hhigh : 146097 ≤ high) :
    yearOfEra (checkedIn low high) (36524 * c + 1461 * q + 365 * k + doy) = .ok (100 * c + 4 * q + k) := by
  obtain ⟨hc, hq, hk, hdoy, hleap⟩ := h
  generalize hdoe : 36524 * c + 1461 * q + 365 * k + doy = doe
  have hpos : 0 ≤ doe := by omega
  have hlt : doe < 146097 := by omega
  rw [yearOfEra, Int.tdiv_eq_ediv_of_nonneg hpos, Int.tdiv_eq_ediv_of_nonneg hpos,
    Int.tdiv_eq_ediv_of_nonneg hpos, checkedIn_ok (by omega) (by omega), ok_bind,
    checkedIn_ok (by omega) (by omega), ok_bind,
    checkedIn_ok (by omega) (by omega), ok_bind, Int.tdiv_eq_ediv_of_nonneg (by omega)]
  -- The days that a whole number of years is short of its leap days.
  have hspans : doe / 1460 = 25 * c + q + (24 * c + q + 365 * k + doy) / 1460 := by omega
  have hcenturies : doe / 36524 = c + doe / 146096 := by
    have hcentury : 1461 * q + 365 * k + doy ≤ 36523 ∨ c = 3 ∧ 1461 * q + 365 * k + doy = 36524 := by omega
    rcases hcentury with hinside | ⟨rfl, hlast⟩
    · have hcases : c = 0 ∨ c = 1 ∨ c = 2 ∨ c = 3 := by omega
      rcases hcases with rfl | rfl | rfl | rfl <;> omega
    · omega
  have hrest : (24 * c + q + 365 * k + doy) / 1460 = 0 ∧ doy ≤ 364 ∨
      (24 * c + q + 365 * k + doy) / 1460 = 1 ∧ 1 ≤ doy := by omega
  refine congrArg Except.ok ?_
  rw [hspans, hcenturies]
  rcases hrest with ⟨hzero, hday⟩ | ⟨hone, hday⟩
  · rw [hzero]
    omega
  · rw [hone]
    omega

theorem dayOfYear_eq (h : Cycles c q k doy) (hlow : low ≤ 0) (hhigh : 146097 ≤ high) :
    dayOfYear (checkedIn low high) (36524 * c + 1461 * q + 365 * k + doy) (100 * c + 4 * q + k) = .ok doy := by
  obtain ⟨hc, hq, hk, hdoy, hleap⟩ := h
  rw [dayOfYear, Int.tdiv_eq_ediv_of_nonneg (show 0 ≤ 100 * c + 4 * q + k by omega),
    Int.tdiv_eq_ediv_of_nonneg (show 0 ≤ 100 * c + 4 * q + k by omega),
    checkedIn_ok (by omega) (by omega), ok_bind, checkedIn_ok (by omega) (by omega), ok_bind,
    checkedIn_ok (by omega) (by omega), ok_bind, checkedIn_ok (by omega) (by omega)]
  refine congrArg Except.ok ?_
  omega

theorem monthDay_eq (hpos : 0 ≤ doy) (hle : doy ≤ 365) (hlow : low ≤ 0) (hhigh : 146097 ≤ high) {mp : Int}
    (hmp : mp = (5 * doy + 2) / 153) :
    monthDay (checkedIn low high) doy =
      .ok (if mp < 10 then mp + 3 else mp - 9, doy - (153 * mp + 2) / 5 + 1) := by
  rw [monthDay, checkedIn_ok (by omega) (by omega), ok_bind, checkedIn_ok (by omega) (by omega), ok_bind,
    Int.tdiv_eq_ediv_of_nonneg (show 0 ≤ 5 * doy + 2 by omega), ← hmp]
  dsimp only
  rw [checkedIn_ok (by omega) (by omega), ok_bind, checkedIn_ok (by omega) (by omega), ok_bind,
    Int.tdiv_eq_ediv_of_nonneg (show 0 ≤ 153 * mp + 2 by omega), checkedIn_ok (by omega) (by omega), ok_bind,
    checkedIn_ok (by omega) (by omega), ok_bind]
  split_ifs with hearly
  · rw [checkedIn_ok (by omega) (by omega), ok_bind]
    rfl
  · rw [checkedIn_ok (by omega) (by omega), ok_bind]
    rfl

theorem eraDate_eq (hlow : low ≤ 0) (hhigh : 146097 ≤ high) (hera : era = nDays / 146097)
    (hstart : low ≤ era * 146097) (hdays : nDays ≤ high) :
    ∃ y, ∃ date : Date, eraDate (checkedIn low high) nDays era = .ok (y, date.month, date.day) ∧
      date.dayNumber = nDays - 719468 ∧ date.year = if date.month ≤ 2 then y + 1 else y := by
  obtain ⟨c, q, k, doy, hcycles, hdoe⟩ := exists_cycles (show 0 ≤ nDays - era * 146097 by omega) (by omega)
  obtain ⟨date, hnumber, hmonth, hday, hyear⟩ := exists_date hcycles.day.1 (hcycles.doy_lt era) rfl
  refine ⟨100 * c + 4 * q + k + era * 400, date, ?_, ?_, hyear⟩
  · have hspan := hcycles.span
    have hcentury := hcycles.century
    have hyears := hcycles.year
    rw [eraDate, checkedIn_ok hstart (by omega), ok_bind, checkedIn_ok (by omega) (by omega), ok_bind, hdoe,
      yearOfEra_eq hcycles hlow hhigh, ok_bind, checkedIn_ok (by omega) (by omega), ok_bind,
      checkedIn_ok (by omega) (by omega), ok_bind, dayOfYear_eq hcycles hlow hhigh, ok_bind,
      monthDay_eq hcycles.day.1 hcycles.day.2 hlow hhigh rfl, ok_bind, ← hmonth, ← hday]
    rfl
  · rw [hnumber, hcycles.marchStart]
    omega

end Algorithm

section Fields

variable {low high nDays : Int}

def fieldsOf (t : DateTime) : Fields where
  y := t.date.year
  m := t.date.month
  d := t.date.day
  h := t.hour
  min := t.minute
  s := t.second

-- The truncating division, with the distance that makes it the floor.
theorem floorEra_eq (hlow : -9223372036854775808 ≤ nDays - 146096) (hhigh : nDays ≤ 9223372036854775807) :
    floorEra nDays = .ok (nDays / 146097) := by
  rw [floorEra]
  split_ifs with hpos
  · rw [Int.tdiv_eq_ediv_of_nonneg hpos]
  · have hneg : nDays - 146096 = -(146096 - nDays) := by omega
    rw [checkedI64, checkedIn_ok hlow (by omega), ok_bind, hneg, Int.neg_tdiv,
      Int.tdiv_eq_ediv_of_nonneg (by omega)]
    refine congrArg Except.ok ?_
    omega

theorem calendarYear_eq {m y : Int} (hlow : low ≤ y) (hhigh : y + 1 ≤ high) :
    calendarYear (checkedIn low high) m y = .ok (if m ≤ 2 then y + 1 else y) := by
  rw [calendarYear]
  split_ifs
  · exact checkedIn_ok (by omega) hhigh
  · rfl

theorem eq_calendarYear {date : Date} {y : Int} (h : date.year = if date.month ≤ 2 then y + 1 else y) :
    date.year = if (date.month : Int) ≤ 2 then y + 1 else y := by
  rw [h]
  exact if_congr (by omega) rfl rfl

theorem year_range (date : Date) (hlow : -300000000000000 ≤ date.dayNumber)
    (hhigh : date.dayNumber ≤ 300000000000000) : -999999999999 ≤ date.year ∧ date.year ≤ 999999999999 := by
  have hyears := date.year_bounds
  simp only [daysBeforeYear] at hyears
  omega

theorem tdiv_bounds (ts : Int64) :
    -106751991167301 ≤ ts.toInt.tdiv 86400 ∧ ts.toInt.tdiv 86400 ≤ 106751991167301 := by
  have hlow := ts.le_toInt
  have hhigh := ts.toInt_lt
  by_cases hpos : 0 ≤ ts.toInt
  · rw [Int.tdiv_eq_ediv_of_nonneg hpos]
    omega
  · have hneg : ts.toInt = -(-ts.toInt) := by omega
    rw [hneg, Int.neg_tdiv, Int.tdiv_eq_ediv_of_nonneg (by omega)]
    omega

theorem timestampFields_eq (ts : Int64) : ∃ t : DateTime, timestampFields ts.toInt = .ok (fieldsOf t) ∧
    t.seconds = ts.toInt.tdiv 86400 * 86400 + ts.toInt % 86400 := by
  have hdays := tdiv_bounds ts
  have hsecs := Int.emod_nonneg ts.toInt (show (86400 : Int) ≠ 0 by decide)
  have hsecs' := Int.emod_lt_of_pos ts.toInt (show (0 : Int) < 86400 by decide)
  rw [timestampFields]
  dsimp only
  generalize ts.toInt.tdiv 86400 = days at *
  generalize ts.toInt % 86400 = secs at *
  obtain ⟨y, date, hdate, hnumber, hyear⟩ := eraDate_eq (show (-9223372036854775808 : Int) ≤ 0 by decide)
    (show (146097 : Int) ≤ 9223372036854775807 by decide) (Eq.refl ((days + 719468) / 146097)) (by omega)
    (by omega)
  have hy : -1000000000000 ≤ y ∧ y ≤ 1000000000000 := by
    have hrange := year_range date (by omega) (by omega)
    split_ifs at hyear <;> omega
  obtain ⟨t, rfl, ht, hhour, hminute, hsecond⟩ := exists_time date hsecs hsecs'
  refine ⟨t, ?_, by rw [ht, hnumber]; omega⟩
  rw [checkedI64, checkedIn_ok (by omega) (by omega), ok_bind, floorEra_eq (by omega) (by omega), ok_bind,
    hdate, ok_bind]
  dsimp only
  rw [calendarYear_eq (by omega) (by omega), ok_bind, ← eq_calendarYear hyear, Int.tmod_eq_emod_of_nonneg hsecs,
    Int.tmod_eq_emod_of_nonneg hsecs, Int.tdiv_eq_ediv_of_nonneg hsecs, Int.tdiv_eq_ediv_of_nonneg (by omega),
    ← hhour, ← hminute, ← hsecond]
  rfl

theorem asU32_eq {v : Int} (hlow : 0 ≤ v) (hhigh : v < 4294967296) : asU32 v = v := Int.emod_eq_of_lt hlow hhigh

theorem epochSecsToDatetime_eq {secs : UInt64} (h : secs.toNat ≤ 253402300799) :
    ∃ t : DateTime, epochSecsToDatetime secs = .ok (fieldsOf t) ∧ t.seconds = secs.toNat := by
  have hpos : (0 : Int) ≤ secs.toNat := Int.natCast_nonneg _
  have hle : (secs.toNat : Int) ≤ 253402300799 := by omega
  rw [epochSecsToDatetime]
  dsimp only
  generalize (secs.toNat : Int) = v at *
  rw [Int.tmod_eq_emod_of_nonneg hpos, Int.tdiv_eq_ediv_of_nonneg hpos]
  obtain ⟨y, date, hdate, hnumber, hyear⟩ := eraDate_eq (show (0 : Int) ≤ 0 by decide)
    (show (146097 : Int) ≤ 18446744073709551615 by decide) (Eq.refl ((v / 86400 + 719468) / 146097)) (by omega)
    (by omega)
  have hfirst : ¬date.year < 1970 := by
    rw [date.year_lt_iff]
    omega
  have hlast : date.year < 10000 := by
    have hnext : daysBeforeYear 10000 = daysBeforeYear 1970 + 2932897 := rfl
    rw [date.year_lt_iff, hnext]
    omega
  have hy : 0 ≤ y ∧ y ≤ 10000 := by
    split_ifs at hyear <;> omega
  have hmonth := date.month_le
  have hday := date.day_le
  have hlength := monthLength_bounds date.year date.month
  have hsecs := Int.emod_nonneg v (show (86400 : Int) ≠ 0 by decide)
  obtain ⟨t, rfl, ht, hhour, hminute, hsecond⟩ := exists_time date hsecs (Int.emod_lt_of_pos v (by decide))
  have hbounds := t.hour_lt
  have hbounds' := t.minute_lt
  have hbounds'' := t.second_lt
  refine ⟨t, ?_, by rw [ht, hnumber]; omega⟩
  rw [checkedU64, checkedIn_ok (by omega) (by omega), ok_bind, Int.tdiv_eq_ediv_of_nonneg (by omega), hdate,
    ok_bind]
  dsimp only
  rw [asU32_eq hy.1 (by omega), asU32_eq (Int.natCast_nonneg _) (by omega),
    asU32_eq (Int.natCast_nonneg _) (by omega), checkedU32, calendarYear_eq (by omega) (by omega), ok_bind,
    ← eq_calendarYear hyear, Int.tmod_eq_emod_of_nonneg hsecs, Int.tmod_eq_emod_of_nonneg hsecs,
    Int.tdiv_eq_ediv_of_nonneg hsecs, Int.tdiv_eq_ediv_of_nonneg (by omega), ← hhour, ← hminute, ← hsecond,
    asU32_eq (by omega) (by omega), asU32_eq (by omega) (by omega), asU32_eq (by omega) (by omega)]
  rfl

end Fields

section Digits

variable {s : Text} {width n : Nat} {v : Int} {f : Fields}

theorem decimal_zeros (k : Nat) (s : Text) : decimal (List.replicate k '0' ++ s) = decimal s := by
  induction k with
  | zero => rfl
  | succ k ih => exact ih

theorem decimal_padded (width n : Nat) : decimal (padded width n) = n := by
  rw [padded, decimal_zeros, decimal_eq, Nat.ofDigitChars_ten_toDigits]

theorem isDigit_padded {c : Char} (h : c ∈ padded width n) : c.isDigit = true := by
  rcases List.mem_append.mp h with hzero | hdigit
  · rw [List.eq_of_mem_replicate hzero]
    rfl
  · exact Nat.isDigit_of_mem_toDigits (by decide) (by decide) hdigit

theorem length_padded (h : (Nat.toDigits 10 n).length ≤ width) : (padded width n).length = width := by
  rw [padded, List.length_append, List.length_replicate, Nat.sub_add_cancel h]

theorem utf8Len_padded (h : (Nat.toDigits 10 n).length ≤ width) : utf8Len (padded width n) = width :=
  (utf8Len_digits fun _ => isDigit_padded).trans (length_padded h)

theorem padded_ne_nil (width n : Nat) : padded width n ≠ [] := fun h =>
  Nat.toDigits_ne_nil (List.append_eq_nil_iff.mp h).2

theorem parseI64_padded {k : Nat} (h : n ≤ 9999) : parseI64 (padded k n) = some (Int64.ofInt n) := by
  have hvalue := decimal_padded k n
  rw [parseI64_digits (padded_ne_nil k n) (fun _ => isDigit_padded) (by omega), hvalue]

theorem length_digits_le {k : Nat} (hk : 0 < k) (h : n < 10 ^ k) : (Nat.toDigits 10 n).length ≤ k :=
  (Nat.length_toDigits_le_iff (by decide) hk).mpr h

theorem parse_year (hlow : -999 ≤ v) (hhigh : v ≤ 9999) :
    parseI64 (paddedInt 4 v) = some (Int64.ofInt v) ∧ utf8Len (paddedInt 4 v) = 4 := by
  rw [paddedInt]
  split_ifs with hneg
  · have hlen := length_digits_le (n := v.natAbs) (k := 3) (by decide) (by omega)
    have hvalue := decimal_padded 3 v.natAbs
    have habs : (-(v.natAbs : Int)) = v := by omega
    refine ⟨?_, ?_⟩
    · have hfits : decimal (padded 3 v.natAbs) ≤ 9223372036854775808 := by omega
      rw [parseI64_minus (padded_ne_nil _ _) (fun _ => isDigit_padded) hfits, hvalue, habs]
    · rw [utf8Len_cons, utf8Len_padded hlen]
      rfl
  · have hlen := length_digits_le (n := v.natAbs) (k := 4) (by decide) (by omega)
    have habs : (v.natAbs : Int) = v := by omega
    exact ⟨by rw [parseI64_padded (by omega), habs], utf8Len_padded hlen⟩

theorem parse_two (hlow : 0 ≤ v) (hhigh : v ≤ 99) :
    parseI64 (paddedInt 2 v) = some (Int64.ofInt v) ∧ utf8Len (paddedInt 2 v) = 2 := by
  have hlen := length_digits_le (n := v.natAbs) (k := 2) (by decide) (by omega)
  have habs : (v.natAbs : Int) = v := by omega
  rw [paddedInt, if_neg (not_lt.mpr hlow)]
  exact ⟨by rw [parseI64_padded (by omega), habs], utf8Len_padded hlen⟩

theorem decimal_lt (h : ∀ c ∈ s, c.isDigit = true) : decimal s < 10 ^ s.length := by
  induction s using List.reverseRecOn with
  | nil => decide
  | append_singleton s c ih =>
      have hs := ih fun d hd => h d (List.mem_append_left [c] hd)
      have hc := h c (List.mem_append_right s List.mem_cons_self)
      rw [Char.isDigit, Bool.and_eq_true, decide_eq_true_eq, decide_eq_true_eq] at hc
      have hle : c.toNat ≤ 57 := hc.2
      have hstep : decimal (s ++ [c]) = decimal s * 10 + (c.toNat - 48) := List.foldl_append
      rw [hstep, List.length_append, List.length_singleton, Nat.pow_succ]
      omega

theorem parse_four {v : Int64} (h : parseI64 s = some v) (hlen : s.length ≤ 4) :
    -999 ≤ v.toInt ∧ v.toInt ≤ 9999 := by
  simp only [parseI64] at h
  split_ifs at h with hsign hparse hparse
  · obtain ⟨-, hdigits, -⟩ := hparse
    obtain ⟨t, rfl⟩ := List.head?_eq_some_iff.mp hsign
    have hdrop : dropSign ('-' :: t) = t := rfl
    rw [hdrop] at hdigits h
    have hlt := decimal_lt (List.all_eq_true.mp hdigits)
    have hshort : t.length ≤ 3 := Nat.le_of_succ_le_succ hlen
    have hpow := Nat.pow_le_pow_right (show 0 < 10 by decide) hshort
    obtain rfl := Option.some.inj h
    rw [Int64.toInt_ofInt_of_le (by omega) (by omega)]
    omega
  · obtain ⟨-, hdigits, -⟩ := hparse
    have hdrop : (dropSign s).length ≤ 4 := by
      rw [dropSign]
      split_ifs
      · rw [List.length_tail]
        omega
      · exact hlen
    have hlt := decimal_lt (List.all_eq_true.mp hdigits)
    have hpow := Nat.pow_le_pow_right (show 0 < 10 by decide) hdrop
    obtain rfl := Option.some.inj h
    rw [Int64.toInt_ofInt_of_le (by omega) (by omega)]
    omega

end Digits

section Extract

variable {f : Fields} {v : Int64}

def total (lens : List Nat) : Nat := lens.foldr (· + ·) 0

theorem utf8Len_flatten (ps : List Text) : utf8Len ps.flatten = total (ps.map utf8Len) := by
  induction ps with
  | nil => rfl
  | cons p ps ih => rw [List.flatten_cons, utf8Len_append, ih]; rfl

theorem extract_piece {ps : List Text} {lens : List Nat} {i : Nat} {p : Text} (hlens : ps.map utf8Len = lens)
    (hp : ps[i]? = some p) (hparse : parseI64 p = some v) :
    (byteSlice ps.flatten (total (lens.take i)) (total (lens.take (i + 1)))).bind parseI64 = some v := by
  have hlen : total (lens.take (i + 1)) = total (lens.take i) + utf8Len p := by
    rw [← hlens, ← List.map_take, ← List.map_take, ← utf8Len_flatten, ← utf8Len_flatten, List.take_add_one, hp,
      Option.toList_some, List.flatten_append, utf8Len_append, List.flatten_singleton]
  have hslice : byteSlice ps.flatten (total (lens.take i)) (total (lens.take (i + 1))) = some p := by
    refine byteSlice_eq_some_iff.mpr ⟨(ps.take i).flatten, (ps.drop (i + 1)).flatten, ?_, ?_, hlen⟩
    · obtain ⟨hi, rfl⟩ := List.getElem?_eq_some_iff.mp hp
      rw [List.append_assoc, ← List.flatten_cons, ← List.drop_eq_getElem_cons hi, ← List.flatten_append,
        List.take_append_drop]
    · rw [utf8Len_flatten, List.map_take, hlens]
  rw [hslice, Option.bind_some, hparse]

-- The numbers of a text that has each field in its place.
structure Placed (f : Fields) : Prop where
  y : -999 ≤ f.y ∧ f.y ≤ 9999
  m : 0 ≤ f.m ∧ f.m ≤ 99
  d : 0 ≤ f.d ∧ f.d ≤ 99
  h : 0 ≤ f.h ∧ f.h ≤ 99
  min : 0 ≤ f.min ∧ f.min ≤ 99
  s : 0 ≤ f.s ∧ f.s ≤ 99

theorem extractText_placed (hf : Placed f) (field : Field) :
    extractText field.name.toList f.text = .Integer (Int64.ofInt (field.of f)) := by
  obtain ⟨hy, hylen⟩ := parse_year hf.y.1 hf.y.2
  obtain ⟨hm, hmlen⟩ := parse_two hf.m.1 hf.m.2
  obtain ⟨hd, hdlen⟩ := parse_two hf.d.1 hf.d.2
  obtain ⟨hh, hhlen⟩ := parse_two hf.h.1 hf.h.2
  obtain ⟨hmin, hminlen⟩ := parse_two hf.min.1 hf.min.2
  obtain ⟨hs, hslen⟩ := parse_two hf.s.1 hf.s.2
  have hlens : f.pieces.map utf8Len = [4, 1, 2, 1, 2, 1, 2, 1, 2, 1, 2] := by
    simp only [Fields.pieces, List.map_cons, List.map_nil, hylen, hmlen, hdlen, hhlen, hminlen, hslen]
    decide
  have hfield : ∀ {range : Nat × Nat} {v : Int64}, fieldRange field.name.toList = some range →
      (byteSlice f.text range.1 range.2).bind parseI64 = some v →
        extractText field.name.toList f.text = .Integer v := by
    intro range v hrange hvalue
    rw [extractText, hrange, Option.bind_some, hvalue]
  cases field with
  | Year => exact hfield rfl (extract_piece (i := 0) hlens rfl hy)
  | Month => exact hfield rfl (extract_piece (i := 2) hlens rfl hm)
  | Day => exact hfield rfl (extract_piece (i := 4) hlens rfl hd)
  | Hour => exact hfield rfl (extract_piece (i := 6) hlens rfl hh)
  | Minute => exact hfield rfl (extract_piece (i := 8) hlens rfl hmin)
  | Second => exact hfield rfl (extract_piece (i := 10) hlens rfl hs)

theorem map_toUpper_name (field : Field) : field.name.toList.map Char.toUpper = field.name.toList := by
  cases field <;> decide

theorem dateExtract_integer {ts : Int64} (h : timestampFields ts.toInt = .ok f) (field : Field) :
    dateExtract [.Text field.name, .Integer ts] = .ok (extractText field.name.toList f.text) := by
  simp only [dateExtract]
  rw [h, ok_bind, map_toUpper_name]
  rfl

theorem placed_fieldsOf {t : DateTime} (hlow : -999 ≤ t.date.year) (hhigh : t.date.year ≤ 9999) :
    Placed (fieldsOf t) := by
  have hmonth := t.date.month_le
  have hday := t.date.day_le
  have hlength := monthLength_bounds t.date.year t.date.month
  have hhour := t.hour_lt
  have hminute := t.minute_lt
  have hsecond := t.second_lt
  constructor <;> simp only [fieldsOf] <;> omega

theorem dateExtract_placed {ts : Int64} {t : DateTime} (h : timestampFields ts.toInt = .ok (fieldsOf t))
    (hlow : -999 ≤ t.date.year) (hhigh : t.date.year ≤ 9999) (field : Field) :
    dateExtract [.Text field.name, .Integer ts] = .ok (.Integer (Int64.ofInt (field.of (fieldsOf t)))) := by
  rw [dateExtract_integer h, extractText_placed (placed_fieldsOf hlow hhigh)]

theorem extract_year {s : Text} (h : extractText Field.Year.name.toList s = .Integer v) :
    -999 ≤ v.toInt ∧ v.toInt ≤ 9999 := by
  have hrange : fieldRange Field.Year.name.toList = some (0, 4) := rfl
  rw [extractText, hrange, Option.bind_some] at h
  cases hslice : byteSlice s 0 4 with
  | none => rw [hslice] at h; cases h
  | some m =>
      rw [hslice, Option.bind_some] at h
      obtain ⟨a, b, -, -, hlen⟩ := byteSlice_eq_some_iff.mp hslice
      cases hparse : parseI64 m with
      | none => rw [hparse] at h; cases h
      | some w =>
          rw [hparse] at h
          obtain rfl := Value.Integer.inj h
          exact parse_four hparse ((length_le_utf8Len m).trans (by omega))

end Extract

section Agreement

variable {ts : Int64} {t : DateTime}

theorem seconds_bounds (t : DateTime) : t.date.dayNumber * 86400 ≤ t.seconds ∧
    t.seconds < (t.date.dayNumber + 1) * 86400 := by
  have hhour := t.hour_lt
  have hminute := t.minute_lt
  have hsecond := t.second_lt
  rw [DateTime.seconds]
  omega

theorem year_iff (t : DateTime) :
    (-999 ≤ t.date.year ∧ t.date.year ≤ 9999) ↔ -93692592000 ≤ t.seconds ∧ t.seconds ≤ 253402300799 := by
  have hfirst := t.date.year_lt_iff (-999)
  have hlast := t.date.year_lt_iff 10000
  have hbefore : daysBeforeYear (-999) = daysBeforeYear 1970 - 1084405 := rfl
  have hafter : daysBeforeYear 10000 = daysBeforeYear 1970 + 2932897 := rfl
  have hseconds := seconds_bounds t
  rw [hbefore] at hfirst
  rw [hafter] at hlast
  omega

-- The division finds the day unless it cuts off the part of a day before the epoch.
theorem tdiv_eq_floor {v : Int} (h : 0 ≤ v ∨ 86400 ∣ v) : v.tdiv 86400 = v / 86400 := by
  rcases h with hpos | hdvd
  · exact Int.tdiv_eq_ediv_of_nonneg hpos
  · exact Int.tdiv_eq_ediv_of_dvd hdvd

theorem tdiv_eq_next {v : Int} (h : ¬(0 ≤ v ∨ 86400 ∣ v)) : v.tdiv 86400 = v / 86400 + 1 := by
  have hneg : v = -(-v) := by omega
  have htdiv : v.tdiv 86400 = -(-v / 86400) := by
    rw [hneg, Int.neg_tdiv, Int.tdiv_eq_ediv_of_nonneg (by omega), Int.neg_neg]
  omega

theorem dayNumber_eq_div (t : DateTime) : t.date.dayNumber = t.seconds / 86400 := by
  have hseconds := seconds_bounds t
  omega

theorem ofInt_inj {v w : Int} (h : Int64.ofInt v = Int64.ofInt w) (hv : -1000000000000 ≤ v ∧ v ≤ 1000000000000)
    (hw : -1000000000000 ≤ w ∧ w ≤ 1000000000000) : v = w := by
  have hinj := congrArg Int64.toInt h
  rwa [Int64.toInt_ofInt_of_le (by omega) (by omega), Int64.toInt_ofInt_of_le (by omega) (by omega)] at hinj

theorem day_range (d : Date) : (-1000000000000 : Int) ≤ d.day ∧ (d.day : Int) ≤ 1000000000000 := by
  have hday := d.day_le
  have hlength := monthLength_bounds d.year d.month
  omega

theorem extract_seconds_iff (ht : t.seconds = ts.toInt) :
    (∀ field : Field, dateExtract [.Text field.name, .Integer ts] =
      .ok (.Integer (Int64.ofInt (field.of (fieldsOf t))))) ↔
      (0 ≤ ts.toInt ∨ 86400 ∣ ts.toInt) ∧ -93692592000 ≤ ts.toInt ∧ ts.toInt ≤ 253402300799 := by
  obtain ⟨t', hfields, hsecs⟩ := timestampFields_eq ts
  rw [← ht, ← year_iff]
  rw [← ht] at hsecs
  constructor
  · intro hall
    have hlow := ts.le_toInt
    have hhigh := ts.toInt_lt
    have hdays := dayNumber_eq_div t
    have hyear := hall .Year
    rw [dateExtract_integer hfields] at hyear
    obtain ⟨hfirst, hlast⟩ := extract_year (Except.ok.inj hyear)
    have hrange := year_range t.date (by omega) (by omega)
    have hof : Field.of .Year (fieldsOf t) = t.date.year := rfl
    rw [hof, Int64.toInt_ofInt_of_le (by omega) (by omega)] at hfirst hlast
    refine ⟨?_, hfirst, hlast⟩
    by_contra hcut
    -- The fields are those of the next day.
    have hnext : t'.date.dayNumber = t.date.dayNumber + 1 := by
      rw [tdiv_eq_next hcut] at hsecs
      rw [dayNumber_eq_div, dayNumber_eq_div, hsecs]
      omega
    have hmono := Date.year_mono (show t.date.dayNumber ≤ t'.date.dayNumber by omega)
    have hbefore : t'.date.year < 10000 := by
      have hafter : daysBeforeYear 10000 = daysBeforeYear 1970 + 2932897 := rfl
      rw [t'.date.year_lt_iff, hafter, hnext]
      omega
    have hday := (dateExtract_placed hfields (by omega) (by omega) .Day).symm.trans (hall .Day)
    have hsame := ofInt_inj (Value.Integer.inj (Except.ok.inj hday)) (day_range t'.date) (day_range t.date)
    exact Date.day_ne_of_next hnext (Int.ofNat.inj hsame)
  · rintro ⟨hfloor, hfirst, hlast⟩ field
    have hsame : t' = t := by
      refine DateTime.seconds_inj ?_
      rw [hsecs, tdiv_eq_floor hfloor]
      omega
    rw [← hsame] at hfirst hlast ⊢
    exact dateExtract_placed hfields hfirst hlast field

end Agreement

-- `EXTRACT` never overflows. It gives the fields of exactly the seconds that are not before the epoch, or start
-- a day, from the year -999 to the year 9999. The other conversion gives them for all seconds up to that year.
theorem extract_iff (ts : Int64) (secs : UInt64) :
    (∀ field : Field, ∃ v, dateExtract [.Text field.name, .Integer ts] = .ok v) ∧
      (∃ t : DateTime, t.seconds = ts.toInt ∧ (∀ t' : DateTime, t'.seconds = ts.toInt → t' = t) ∧
        ((∀ field : Field, dateExtract [.Text field.name, .Integer ts] =
          .ok (.Integer (Int64.ofInt (field.of (fieldsOf t))))) ↔
          (0 ≤ ts.toInt ∨ 86400 ∣ ts.toInt) ∧ -93692592000 ≤ ts.toInt ∧ ts.toInt ≤ 253402300799)) ∧
      (secs.toNat ≤ 253402300799 →
        ∃ t : DateTime, epochSecsToDatetime secs = .ok (fieldsOf t) ∧ t.seconds = secs.toNat ∧
          (∀ t' : DateTime, t'.seconds = secs.toNat → t' = t) ∧
          ∀ field : Field, dateExtract [.Text field.name, .Integer (Int64.ofInt secs.toNat)] =
            .ok (.Integer (Int64.ofInt (field.of (fieldsOf t))))) := by
  refine ⟨fun field => ?_, ?_, fun hsecs => ?_⟩
  · obtain ⟨t, hfields, -⟩ := timestampFields_eq ts
    exact ⟨_, dateExtract_integer hfields field⟩
  · obtain ⟨t, ht⟩ := exists_seconds ts.toInt
    exact ⟨t, ht, fun t' ht' => DateTime.seconds_inj (ht'.trans ht.symm), extract_seconds_iff ht⟩
  · obtain ⟨t, hfields, ht⟩ := epochSecsToDatetime_eq hsecs
    have hvalue : (Int64.ofInt secs.toNat).toInt = secs.toNat := Int64.toInt_ofInt_of_le (by omega) (by omega)
    refine ⟨t, hfields, ht, fun t' ht' => DateTime.seconds_inj (ht'.trans ht.symm), ?_⟩
    refine (extract_seconds_iff (ht.trans hvalue.symm)).mpr ?_
    rw [hvalue]
    omega

theorem extract_iff_epoch : ∃ t : DateTime, t.seconds = 0 ∧ epochSecsToDatetime 0 = .ok (fieldsOf t) := by
  obtain ⟨t, hfields, ht, -⟩ := (extract_iff 0 0).2.2 (by decide)
  exact ⟨t, ht, hfields⟩

def lastSecond : DateTime where
  date := ⟨1969, 12, 31, by decide, by decide, by decide, by decide⟩
  hour := 23
  minute := 59
  second := 59
  hour_lt := by decide
  minute_lt := by decide
  second_lt := by decide

theorem extract_lastSecond :
    ¬∀ (ts : Int64) (t : DateTime), t.seconds = ts.toInt → ∀ field : Field,
      dateExtract [.Text field.name, .Integer ts] = .ok (.Integer (Int64.ofInt (field.of (fieldsOf t)))) := by
  intro hall
  have hday := hall (-1) lastSecond (by decide) .Day
  exact absurd hday (by decide)

end Kkdb.DateExtract
