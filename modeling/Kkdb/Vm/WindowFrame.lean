import Kkdb.Vm.Window

namespace Kkdb

open Lib

inductive FrameBound where
  | unboundedPreceding
  | preceding (n : Nat)
  | currentRow
  | following (n : Nat)
  | unboundedFollowing

-- Where a bound is among the rows or the peer groups, which are numbered from zero.
def FrameBound.place (bound : FrameBound) (current last : Nat) : Int :=
  match bound with
  | unboundedPreceding => 0
  | preceding n => current - n
  | currentRow => current
  | following n => current + n
  | unboundedFollowing => last

-- What the last part of a frame clause says if it is left out.
def stopOf (wf : WindowFrame) : WindowBound := wf.stop.getD .CurrentRow

namespace ScalarEnv

section Denotation

variable (env : ScalarEnv) (ops : SumOps) (colMap : ColMap) (orderBy : List OrderByItem) (part : Partition)

-- The bound that a clause writes, whose number is a constant.
def Writes (bound : WindowBound) (written : FrameBound) : Prop :=
  match bound, written with
  | .UnboundedPreceding, .unboundedPreceding => True
  | .Preceding e, .preceding n => ∃ v : Int64, env.evalConstantExpr e = some (.Integer v) ∧ v.toInt = n
  | .CurrentRow, .currentRow => True
  | .Following e, .following n => ∃ v : Int64, env.evalConstantExpr e = some (.Integer v) ∧ v.toInt = n
  | .UnboundedFollowing, .unboundedFollowing => True
  | _, _ => False

-- The number of a position in the unit of the frame: its own, or that of its peers.
def unitIndex (unit : WindowFrameUnit) (q : Nat) : Nat :=
  match unit with
  | .Groups => Runs.index (env.changesAt ops colMap orderBy part) q
  | _ => q

-- The positions of the partition in the interval that the bounds denote.
def InInterval (unit : WindowFrameUnit) (start stop : FrameBound) (p q : Nat) : Prop :=
  let place := env.unitIndex ops colMap orderBy part unit
  q < part.groups.length ∧ start.place (place p) (place (part.groups.length - 1)) ≤ place q ∧
    place q ≤ stop.place (place p) (place (part.groups.length - 1))

def emptyValue : WindowFunc → Value
  | .Aggregate name _ _ => if eqIgnoreCase name "COUNT" then .Integer 0 else .Null
  | _ => .Null

def readsFrame : WindowFunc → Bool
  | .FirstValue _ | .LastValue _ | .NthValue _ _ => true
  | .Aggregate name _ _ => ["SUM", "MIN", "MAX", "COUNT"].any (eqIgnoreCase name)
  | _ => false

-- The frame is the interval, and the functions see that there is nothing in it when there is nothing.
def FrameAsWritten (wf : WindowFrame) (start stop : FrameBound) (p : Nat) : Prop :=
  (∀ q, q ∈ env.framePositions ops colMap orderBy part (some wf) p ↔
      env.InInterval ops colMap orderBy part wf.unit start stop p q) ∧
    ((∀ q, ¬env.InInterval ops colMap orderBy part wf.unit start stop p q) → ∀ func, readsFrame func = true →
      env.windowFuncValue ops colMap orderBy part func (some wf) p = emptyValue func)

end Denotation

section Frames

variable {env : ScalarEnv} {ops : SumOps} {colMap : ColMap} {orderBy : List OrderByItem} {part : Partition}
variable {p q k : Nat} {bound : WindowBound} {written : FrameBound}

theorem asUsize_eq {v : Int64} (h : v.toInt = k) : asUsize v = k := by
  have hpos : 0 ≤ v := by
    rw [Int64.le_iff_toInt_le, h]
    exact Int.natCast_nonneg k
  have hclamp : v.toNatClampNeg = v.toInt.toNat := rfl
  rw [asUsize, Int64.toNat_toUInt64_of_le hpos, hclamp, h, Int.toNat_natCast]

theorem constantOr_eq {e : Expr} {v default : Value} (h : env.evalConstantExpr e = some v) :
    env.constantOr default e = v := by
  rw [constantOr, h]
  rfl

-- The clamping does nothing to a frame with a position in the partition.
theorem mem_framePositions {wf : WindowFrame} {s e q₀ : Nat}
    (hbounds : env.frameBounds ops colMap orderBy part (some wf) p = (s, e))
    (hq₀ : q₀ < part.groups.length) (hs : s ≤ q₀) (he : q₀ ≤ e) :
    q ∈ env.framePositions ops colMap orderBy part (some wf) p ↔ q < part.groups.length ∧ s ≤ q ∧ q ≤ e := by
  rw [framePositions, hbounds, List.mem_range'_1]
  dsimp only
  omega

theorem rowsStart_le_iff (h : env.Writes bound written) (hq : q < part.groups.length) :
    env.rowsStart part.groups.length p bound ≤ q ↔ written.place p (part.groups.length - 1) ≤ q := by
  have hlen := part.length_le
  cases bound <;> cases written
  case Preceding.preceding e n =>
    obtain ⟨v, hv, hn⟩ := h
    simp only [rowsStart, constantOr_eq hv, asUsize_eq hn, FrameBound.place]
    omega
  case Following.following e n =>
    obtain ⟨v, hv, hn⟩ := h
    simp only [rowsStart, constantOr_eq hv, asUsize_eq hn, FrameBound.place, saturatingAdd, usizeCount]
    omega
  case UnboundedPreceding.unboundedPreceding => simp [rowsStart, FrameBound.place]
  case CurrentRow.currentRow => simp [rowsStart, FrameBound.place]
  case UnboundedFollowing.unboundedFollowing => simp only [rowsStart, FrameBound.place, Nat.cast_le]
  all_goals exact h.elim

theorem le_rowsEnd_iff (h : env.Writes bound written) (hq : q < part.groups.length)
    (hpos : 0 ≤ written.place p (part.groups.length - 1)) :
    q ≤ env.rowsEnd part.groups.length p bound ↔ q ≤ written.place p (part.groups.length - 1) := by
  have hlen := part.length_le
  cases bound <;> cases written
  case Preceding.preceding e n =>
    obtain ⟨v, hv, hn⟩ := h
    simp only [FrameBound.place] at hpos
    simp only [rowsEnd, constantOr_eq hv, asUsize_eq hn, FrameBound.place]
    omega
  case Following.following e n =>
    obtain ⟨v, hv, hn⟩ := h
    simp only [rowsEnd, constantOr_eq hv, asUsize_eq hn, FrameBound.place, saturatingAdd, usizeCount]
    omega
  case UnboundedPreceding.unboundedPreceding => simp [rowsEnd, FrameBound.place]
  case CurrentRow.currentRow => simp [rowsEnd, FrameBound.place]
  case UnboundedFollowing.unboundedFollowing => simp only [rowsEnd, FrameBound.place, Nat.cast_le]
  all_goals exact h.elim

theorem groupBound_le_iff {count current i : Nat} (h : env.Writes bound written) (hi : i < count)
    (hcurrent : current < count) (hcount : count ≤ 9223372036854775807)
    (hlast : written.place current (count - 1) ≤ (count - 1 : Nat)) :
    env.groupBound count current bound ≤ i ↔ written.place current (count - 1) ≤ i := by
  cases bound <;> cases written
  case Preceding.preceding e n =>
    obtain ⟨v, hv, hn⟩ := h
    simp only [groupBound, constantOr_eq hv, asUsize_eq hn, FrameBound.place]
    omega
  case Following.following e n =>
    obtain ⟨v, hv, hn⟩ := h
    simp only [FrameBound.place] at hlast
    simp only [groupBound, constantOr_eq hv, asUsize_eq hn, FrameBound.place, usizeCount]
    omega
  case UnboundedPreceding.unboundedPreceding => simp [groupBound, FrameBound.place]
  case CurrentRow.currentRow => simp [groupBound, FrameBound.place]
  case UnboundedFollowing.unboundedFollowing => simp only [groupBound, FrameBound.place, Nat.cast_le]
  all_goals exact h.elim

theorem le_groupBound_iff {count current i : Nat} (h : env.Writes bound written) (hi : i < count)
    (hcurrent : current < count) (hcount : count ≤ 9223372036854775807)
    (hpos : 0 ≤ written.place current (count - 1)) :
    i ≤ env.groupBound count current bound ↔ i ≤ written.place current (count - 1) := by
  cases bound <;> cases written
  case Preceding.preceding e n =>
    obtain ⟨v, hv, hn⟩ := h
    simp only [FrameBound.place] at hpos
    simp only [groupBound, constantOr_eq hv, asUsize_eq hn, FrameBound.place]
    omega
  case Following.following e n =>
    obtain ⟨v, hv, hn⟩ := h
    have hle : n ≤ 9223372036854775807 := by
      have hmax := v.toInt_le
      have hval : Int64.maxValue.toInt = 9223372036854775807 := rfl
      omega
    simp only [groupBound, constantOr_eq hv, asUsize_eq hn, FrameBound.place, usizeCount]
    omega
  case UnboundedPreceding.unboundedPreceding => simp [groupBound, FrameBound.place]
  case CurrentRow.currentRow => simp [groupBound, FrameBound.place]
  case UnboundedFollowing.unboundedFollowing => simp only [groupBound, FrameBound.place, Nat.cast_le]
  all_goals exact h.elim

theorem rows_frameBounds {wf : WindowFrame} (hunit : wf.unit = .Rows) :
    env.frameBounds ops colMap orderBy part (some wf) p =
      (env.rowsStart part.groups.length p wf.start, env.rowsEnd part.groups.length p (stopOf wf)) := by
  simp only [frameBounds, hunit, stopOf]
  cases wf.stop <;> rfl

theorem rows_frame {wf : WindowFrame} {start stop : FrameBound} {q₀ : Nat} (hunit : wf.unit = .Rows)
    (hstart : env.Writes wf.start start) (hstop : env.Writes (stopOf wf) stop)
    (h : env.InInterval ops colMap orderBy part wf.unit start stop p q₀) :
    q ∈ env.framePositions ops colMap orderBy part (some wf) p ↔
      env.InInterval ops colMap orderBy part wf.unit start stop p q := by
  simp only [InInterval, hunit, unitIndex] at h ⊢
  obtain ⟨hq₀, hlow, hhigh⟩ := h
  have hpos : 0 ≤ stop.place p (part.groups.length - 1) := by omega
  rw [mem_framePositions (rows_frameBounds hunit) hq₀ ((rowsStart_le_iff hstart hq₀).mpr hlow)
    ((le_rowsEnd_iff hstop hq₀ hpos).mpr hhigh)]
  constructor
  · rintro ⟨hq, hs, he⟩
    exact ⟨hq, (rowsStart_le_iff hstart hq).mp hs, (le_rowsEnd_iff hstop hq hpos).mp he⟩
  · rintro ⟨hq, hs, he⟩
    exact ⟨hq, (rowsStart_le_iff hstart hq).mpr hs, (le_rowsEnd_iff hstop hq hpos).mpr he⟩

theorem groupBound_lt {count current : Nat} (hcurrent : current < count) :
    env.groupBound count current bound < count := by
  unfold groupBound
  split
  · omega
  · exact hcurrent
  · split <;> omega
  · split <;> omega
  · omega

-- The first position of a run and the last position of a run that is not before it.
theorem groups_frameBounds {wf : WindowFrame} {first last : Nat} {runs : List (Nat × Nat)} {a b : Nat × Nat}
    (hunit : wf.unit = .Groups) (hp : p < part.groups.length)
    (hruns : Runs.bounds (env.changesAt ops colMap orderBy part) part.groups.length = runs)
    (hfirst : env.groupBound runs.length
    (Runs.index (env.changesAt ops colMap orderBy part) p) wf.start = first)
    (hlast : env.groupBound runs.length (Runs.index (env.changesAt ops colMap orderBy part) p)
    (stopOf wf) = last)
    (hle : first ≤ last) (ha : runs[first]? = some a) (hb : runs[last]? = some b) :
    env.frameBounds ops colMap orderBy part (some wf) p = (a.1, b.2) := by
  have hstop : wf.stop.getD .CurrentRow = stopOf wf := rfl
  simp only [frameBounds, hunit, groupsFrame, Runs.locate_eq hp, hruns, hstop, hfirst, hlast,
    Nat.max_eq_left hle,
    List.getD_eq_getElem?_getD, ha, hb, Option.getD_some]

theorem groups_frame {wf : WindowFrame} {start stop : FrameBound} {q₀ : Nat} (hunit : wf.unit = .Groups)
    (hp : p < part.groups.length) (hstart : env.Writes wf.start start) (hstop : env.Writes (stopOf wf) stop)
    (h : env.InInterval ops colMap orderBy part wf.unit start stop p q₀) :
    q ∈ env.framePositions ops colMap orderBy part (some wf) p ↔
      env.InInterval ops colMap orderBy part wf.unit start stop p q := by
  simp only [InInterval, hunit, unitIndex] at h ⊢
  obtain ⟨hq₀, hlow, hhigh⟩ := h
  obtain ⟨runs, hruns⟩ : ∃ runs, Runs.bounds
      (env.changesAt ops colMap orderBy part) part.groups.length = runs :=
    ⟨_, rfl⟩
  obtain ⟨index, hdef⟩ : ∃ index, Runs.index (env.changesAt ops colMap orderBy part) = index := ⟨_, rfl⟩
  have hindex : ∀ r, r < part.groups.length → index r < runs.length := by
    intro r hr
    rw [← hruns, ← hdef]
    exact Runs.index_lt_length hr
  have hend : index (part.groups.length - 1) = runs.length - 1 := by
    rw [← hruns, ← hdef, Runs.length_bounds, Nat.add_sub_cancel]
  have hcount : runs.length ≤ 9223372036854775807 := by
    rw [← hruns]
    exact (Runs.length_bounds_le (by omega)).trans part.length_le
  rw [hdef, hend] at hlow hhigh
  rw [hdef, hend]
  have hcurrent := hindex p hp
  have hq₀index := hindex q₀ hq₀
  have hfirst : ∀ i, i < runs.length → (env.groupBound runs.length (index p) wf.start ≤ i ↔
      start.place (index p) (runs.length - 1) ≤ i) :=
    fun i hi => groupBound_le_iff hstart hi hcurrent hcount (by omega)
  have hlast : ∀ i, i < runs.length → (i ≤ env.groupBound runs.length (index p) (stopOf wf) ↔
      (i : Int) ≤ stop.place (index p) (runs.length - 1)) :=
    fun i hi => le_groupBound_iff hstop hi hcurrent hcount (by omega)
  have hle₀ := (hfirst _ hq₀index).mpr hlow
  have hge₀ := (hlast _ hq₀index).mpr hhigh
  obtain ⟨a, ha⟩ : ∃ a, runs[env.groupBound runs.length (index p) wf.start]? = some a :=
    ⟨_, List.getElem?_eq_getElem (groupBound_lt hcurrent)⟩
  obtain ⟨b, hb⟩ : ∃ b, runs[env.groupBound runs.length (index p) (stopOf wf)]? = some b :=
    ⟨_, List.getElem?_eq_getElem (groupBound_lt hcurrent)⟩
  have ha' : ∀ r, r < part.groups.length →
      (a.1 ≤ r ↔ env.groupBound runs.length (index p) wf.start ≤ index r) := by
    intro r hr
    rw [← hruns, ← hdef] at ha ⊢
    exact (Runs.bounds_iff ha hr).1
  have hb' : ∀ r, r < part.groups.length →
      (r ≤ b.2 ↔ index r ≤ env.groupBound runs.length (index p) (stopOf wf)) := by
    intro r hr
    rw [← hruns, ← hdef] at hb ⊢
    exact (Runs.bounds_iff hb hr).2
  have hbounds := groups_frameBounds hunit hp hruns (by rw [hdef]) (by rw [hdef]) (hle₀.trans hge₀) ha hb
  rw [mem_framePositions hbounds hq₀ ((ha' q₀ hq₀).mpr hle₀) ((hb' q₀ hq₀).mpr hge₀)]
  constructor
  · rintro ⟨hq, hs, he⟩
    exact ⟨hq, (hfirst _ (hindex q hq)).mp ((ha' q hq).mp hs), (hlast _ (hindex q hq)).mp ((hb' q hq).mp he)⟩
  · rintro ⟨hq, hs, he⟩
    exact ⟨hq, (ha' q hq).mpr ((hfirst _ (hindex q hq)).mpr hs),
      (hb' q hq).mpr ((hlast _ (hindex q hq)).mpr he)⟩

-- There is always a position in the frame.
variable (env ops colMap orderBy part) in
theorem exists_mem_framePositions (frame : Option WindowFrame) (p : Nat) :
    ∃ q, q ∈ env.framePositions ops colMap orderBy part frame p := by
  refine ⟨min (env.frameBounds ops colMap orderBy part frame p).1 (part.groups.length - 1), ?_⟩
  rw [framePositions, List.mem_range'_1]
  omega

-- The frame is what its clause says exactly when that is not empty.
theorem frame_as_written_iff {wf : WindowFrame} {start stop : FrameBound} (hunit : wf.unit ≠ .Range)
    (hp : p < part.groups.length) (hstart : env.Writes wf.start start) (hstop : env.Writes (stopOf wf) stop) :
    env.FrameAsWritten ops colMap orderBy part wf start stop p ↔
      ∃ q, env.InInterval ops colMap orderBy part wf.unit start stop p q := by
  constructor
  · intro h
    obtain ⟨q, hq⟩ := exists_mem_framePositions env ops colMap orderBy part (some wf) p
    exact ⟨q, (h.1 q).mp hq⟩
  · rintro ⟨q₀, hq₀⟩
    refine ⟨fun q => ?_, fun hnone => absurd hq₀ (hnone q₀)⟩
    cases hcase : wf.unit with
    | Rows =>
        rw [← hcase]
        exact rows_frame hcase hstart hstop hq₀
    | Range => exact absurd hcase hunit
    | Groups =>
        rw [← hcase]
        exact groups_frame hcase hp hstart hstop hq₀

end Frames

end ScalarEnv

section Samples

def onePart : Partition := ⟨[[[.Integer 7]]], by decide⟩

def rowsBetween (start stop : WindowBound) : WindowFrame := ⟨.Rows, start, some stop⟩

theorem frame_as_written_iff_current :
    literalEnv.FrameAsWritten wholeOps [] [] onePart (rowsBetween (.Preceding (.IntegerLiteral 1)) .CurrentRow)
        (.preceding 1) .currentRow 0 ↔
      ∃ q, literalEnv.InInterval wholeOps [] [] onePart .Rows (.preceding 1) .currentRow 0 q :=
  ScalarEnv.frame_as_written_iff (fun h => nomatch h) (by decide) ⟨1, rfl, rfl⟩ trivial

-- `ROWS BETWEEN 2 FOLLOWING AND 3 FOLLOWING` on the only row of a partition takes that row.
theorem frame_past_the_end :
    literalEnv.windowFuncValue wholeOps [] [] onePart (.Aggregate "COUNT" [.IntegerLiteral 5] false)
        (some (rowsBetween (.Following (.IntegerLiteral 2)) (.Following (.IntegerLiteral 3)))) 0 = .Integer 1 ∧
      ¬literalEnv.FrameAsWritten wholeOps [] [] onePart
        (rowsBetween (.Following (.IntegerLiteral 2)) (.Following (.IntegerLiteral 3)))
        (.following 2) (.following 3) 0 := by
  refine ⟨rfl, fun h => ?_⟩
  have hmem : 0 ∈ literalEnv.framePositions wholeOps [] [] onePart
      (some (rowsBetween (.Following (.IntegerLiteral 2)) (.Following (.IntegerLiteral 3)))) 0 := by decide
  have hlow := ((h.1 0).mp hmem).2.1
  simp only [rowsBetween, ScalarEnv.unitIndex, FrameBound.place] at hlow
  omega

end Samples

end Kkdb
