import Mathlib.Data.Nat.Notation
import Mathlib.Order.Basic
import Mathlib.Tactic.SplitIfs

namespace Lib

section Search

variable {ε : Type} (probe : Nat → Except ε Ordering)

-- Binary search on `[lo, hi)`. The probe tells whether an index lies before the target, on it
-- or after it. Every turn shortens the interval, so its length is enough fuel.
def bisect : Nat → Nat → Nat → Except ε (Bool × Nat)
  | 0, lo, _ => .ok (false, lo)
  | fuel + 1, lo, hi =>
      if lo < hi then
        let mid := lo + (hi - lo) / 2
        match probe mid with
        | .error e => .error e
        | .ok .eq => .ok (true, mid)
        | .ok .lt => bisect fuel (mid + 1) hi
        | .ok .gt => bisect fuel lo mid
      else .ok (false, lo)

variable {probe}

-- What the search returns when the sides are in order.
structure Bisected (side : Nat → Ordering) (lo hi : Nat) (found : Bool) (idx : Nat) : Prop where
  lo_le : lo ≤ idx
  le_hi : idx ≤ hi
  hit : found = true → idx < hi ∧ side idx = .eq
  before : found = false → ∀ i, lo ≤ i → i < idx → side i = .lt
  after : found = false → ∀ i, idx ≤ i → i < hi → side i = .gt

theorem bisect_spec (side : Nat → Ordering) (fuel lo hi : Nat) (hfuel : hi - lo ≤ fuel) (hle : lo ≤ hi)
    (hprobe : ∀ i, lo ≤ i → i < hi → probe i = .ok (side i))
    (hlt : ∀ i j, lo ≤ i → i ≤ j → j < hi → side j = .lt → side i = .lt)
    (hgt : ∀ i j, lo ≤ i → i ≤ j → j < hi → side i = .gt → side j = .gt) :
    ∃ found idx, bisect probe fuel lo hi = .ok (found, idx) ∧ Bisected side lo hi found idx := by
  induction fuel generalizing lo hi with
  | zero =>
      refine ⟨false, lo, rfl, Nat.le_refl _, hle, fun h => (by cases h), ?_, ?_⟩
      · intro _ i h₁ h₂
        omega
      · intro _ i h₁ h₂
        omega
  | succ fuel ih =>
      unfold bisect
      by_cases hlohi : lo < hi
      · rw [if_pos hlohi]
        have hmid : lo ≤ lo + (hi - lo) / 2 ∧ lo + (hi - lo) / 2 < hi := by omega
        generalize lo + (hi - lo) / 2 = mid at hmid
        dsimp only
        rw [hprobe mid hmid.1 hmid.2]
        cases hside : side mid with
        | eq =>
            refine ⟨true, mid, rfl, hmid.1, Nat.le_of_lt hmid.2, fun _ => ⟨hmid.2, hside⟩, ?_, ?_⟩
            · intro h
              cases h
            · intro h
              cases h
        | lt =>
            obtain ⟨found, idx, hrun, h⟩ := ih (mid + 1) hi (by omega) (by omega)
              (fun i h₁ h₂ => hprobe i (by omega) h₂) (fun i j h₁ h₂ h₃ => hlt i j (by omega) h₂ h₃)
              (fun i j h₁ h₂ h₃ => hgt i j (by omega) h₂ h₃)
            have := h.lo_le
            refine ⟨found, idx, hrun, by omega, h.le_hi, h.hit, fun hf i h₁ h₂ => ?_, h.after⟩
            by_cases hi : i ≤ mid
            · exact hlt i mid h₁ hi hmid.2 hside
            · exact h.before hf i (by omega) h₂
        | gt =>
            obtain ⟨found, idx, hrun, h⟩ := ih lo mid (by omega) hmid.1
              (fun i h₁ h₂ => hprobe i h₁ (by omega)) (fun i j h₁ h₂ h₃ => hlt i j h₁ h₂ (by omega))
              (fun i j h₁ h₂ h₃ => hgt i j h₁ h₂ (by omega))
            have := h.le_hi
            refine ⟨found, idx, hrun, h.lo_le, by omega,
              fun hf => ⟨by have := (h.hit hf).1; omega, (h.hit hf).2⟩, h.before,
              fun hf i h₁ h₂ => ?_⟩
            by_cases hi : i < mid
            · exact h.after hf i h₁ hi
            · exact hgt mid i hmid.1 (by omega) h₂ hside
      · rw [if_neg hlohi]
        refine ⟨false, lo, rfl, Nat.le_refl _, hle, fun h => (by cases h), ?_, ?_⟩
        · intro _ i h₁ h₂
          omega
        · intro _ i h₁ h₂
          omega

-- The entries before `a` lie before the target, those from `b` on behind it, and there is at
-- most one between.
theorem bisect_sides {a b n : Nat} (hab : a ≤ b) (hba : b ≤ a + 1) (hbn : b ≤ n)
    (hprobe : ∀ i, i < n → probe i = .ok (if i < a then .lt else if i < b then .eq else .gt)) :
    bisect probe n 0 n = .ok (decide (a < b), a) := by
  obtain ⟨found, idx, hrun, h⟩ := bisect_spec
    (fun i => if i < a then .lt else if i < b then .eq else .gt) n 0 n (by omega) (by omega)
    (fun i _ hi => hprobe i hi) (fun i j _ hij _ hj => by
      split_ifs at hj ⊢ <;> first | rfl | omega)
    (fun i j _ hij _ hi => by
      split_ifs at hi ⊢ <;> first | rfl | omega)
  rw [hrun]
  have hle := h.le_hi
  cases found with
  | true =>
      obtain ⟨-, hside⟩ := h.hit rfl
      split_ifs at hside with h₁ h₂
      · obtain rfl : idx = a := by omega
        rw [decide_eq_true (by omega)]
  | false =>
      -- an index on the wrong side of the gap, or a gap that is not empty, contradicts the sides
      have hbefore := h.before rfl
      have hafter := h.after rfl
      have h₁ : ¬idx < a := fun hlt => by
        have := hafter idx (Nat.le_refl _) (by omega)
        rw [if_pos hlt] at this
        cases this
      have h₂ : ¬a < idx := fun hlt => by
        have := hbefore a (Nat.zero_le _) hlt
        rw [if_neg (Nat.lt_irrefl a)] at this
        split_ifs at this
      obtain rfl : idx = a := by omega
      have h₃ : ¬idx < b := fun hlt => by
        have := hafter idx (Nat.le_refl _) (by omega)
        rw [if_neg (Nat.lt_irrefl idx), if_pos hlt] at this
        cases this
      rw [decide_eq_false h₃]

end Search

section Search

variable {ε α : Type} {probe : Nat → Except ε Ordering} {side : α → Ordering} {pre post : List α}
  {x : α}

theorem bisect_miss (hprobe : ∀ i x, (pre ++ post)[i]? = some x → probe i = .ok (side x))
    (hpre : ∀ x ∈ pre, side x = .lt) (hpost : ∀ x ∈ post, side x = .gt) :
    bisect probe (pre ++ post).length 0 (pre ++ post).length = .ok (false, pre.length) := by
  rw [bisect_sides (Nat.le_refl pre.length) (Nat.le_succ _) (by simp) fun i hi => ?_]
  · rw [decide_eq_false (Nat.lt_irrefl _)]
  · rw [hprobe i _ (List.getElem?_eq_getElem hi), List.getElem_append]
    split_ifs with h
    · rw [hpre _ (List.getElem_mem _)]
    · rw [hpost _ (List.getElem_mem _)]

theorem bisect_hit (hprobe : ∀ i y, (pre ++ x :: post)[i]? = some y → probe i = .ok (side y))
    (hpre : ∀ y ∈ pre, side y = .lt) (hx : side x = .eq) (hpost : ∀ y ∈ post, side y = .gt) :
    bisect probe (pre ++ x :: post).length 0 (pre ++ x :: post).length = .ok (true, pre.length) := by
  rw [bisect_sides (Nat.le_succ pre.length) (Nat.le_refl _) (by simp) fun i hi => ?_]
  · rw [decide_eq_true (Nat.lt_succ_self _)]
  · rw [hprobe i _ (List.getElem?_eq_getElem hi), List.getElem_append]
    split_ifs with h h'
    · rw [hpre _ (List.getElem_mem _)]
    · have hzero : i - pre.length = 0 := by omega
      simp only [hzero, List.getElem_cons_zero, hx]
    · obtain ⟨k, hk⟩ : ∃ k, i - pre.length = k + 1 := ⟨i - pre.length - 1, by omega⟩
      simp only [hk, List.getElem_cons_succ]
      rw [hpost _ (List.getElem_mem _)]

theorem findIdx_append_of_split {p : α → Bool} (hpre : ∀ x ∈ pre, p x = false)
    (hpost : ∀ x ∈ post, p x = true) : (pre ++ post).findIdx p = pre.length := by
  have hnone : pre.findIdx p = pre.length := List.findIdx_eq_length_of_false hpre
  rw [List.findIdx_append, if_neg (by omega)]
  cases post with
  | nil => simp
  | cons x post => simp [List.findIdx_cons, hpost x List.mem_cons_self]

end Search

end Lib
