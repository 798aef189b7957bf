import Mathlib.Data.List.Basic
import Mathlib.Data.List.ProdSigma
import Mathlib.Tactic.Common

namespace Lib

variable {α β γ : Type} {as : List α} {bs : List β}

-- The matching pairs of an outer and an inner item, and `pad` for an outer item without a match.
def joinOn (pad : α → List γ) (combine : α → β → γ) (p : α → β → Bool) (as : List α) (bs : List β) :
    List γ :=
  as.flatMap fun a => if bs.any (p a) then (bs.filter (p a)).map (combine a) else pad a

def semiJoin (p : α → β → Bool) (as : List α) (bs : List β) : List α := as.filter fun a => bs.any (p a)

section Joins

variable {pad : α → List γ} {combine : α → β → γ} {p q : α → β → Bool} {r : γ → Bool}

theorem joinOn_congr (h : ∀ a ∈ as, ∀ b ∈ bs, p a b = q a b) :
    joinOn pad combine p as bs = joinOn pad combine q as bs := by
  have hany : ∀ a ∈ as, bs.any (p a) = bs.any (q a) := by
    intro a ha
    rw [Bool.eq_iff_iff, List.any_eq_true, List.any_eq_true]
    exact exists_congr fun b => and_congr_right fun hb => by rw [h a ha b hb]
  unfold joinOn
  apply List.flatMap_congr
  intro a ha
  rw [hany a ha, List.filter_congr (h a ha)]

theorem mem_joinOn {a : α} (ha : a ∈ as) {b : β} (hb : b ∈ bs) (h : p a b = true) :
    combine a b ∈ joinOn pad combine p as bs := by
  apply List.mem_flatMap.mpr
  refine ⟨a, ha, ?_⟩
  rw [if_pos (List.any_eq_true.mpr ⟨b, hb, h⟩)]
  exact List.mem_map_of_mem (List.mem_filter.mpr ⟨hb, h⟩)

theorem exists_of_mem_joinOn {c : γ} (h : c ∈ joinOn pad combine p as bs) :
    (∃ a ∈ as, ∃ b ∈ bs, p a b = true ∧ combine a b = c) ∨ ∃ a ∈ as, c ∈ pad a := by
  obtain ⟨a, ha, hc⟩ := List.mem_flatMap.mp h
  split_ifs at hc
  · obtain ⟨b, hb, rfl⟩ := List.mem_map.mp hc
    obtain ⟨hb, hp⟩ := List.mem_filter.mp hb
    exact .inl ⟨a, ha, b, hb, hp, rfl⟩
  · exact .inr ⟨a, ha, hc⟩

theorem countP_joinOn (hpad : ∀ a ∈ as, ∀ c ∈ pad a, r c = false) :
    (joinOn pad combine p as bs).countP r =
      (as ×ˢ bs).countP fun ab => p ab.1 ab.2 && r (combine ab.1 ab.2) := by
  induction as with
  | nil => rfl
  | cons a as ih =>
      have hrest := ih fun a' ha' => hpad a' (List.mem_cons_of_mem a ha')
      have hfirst : (if bs.any (p a) then (bs.filter (p a)).map (combine a) else pad a).countP r =
          bs.countP fun b => p a b && r (combine a b) := by
        split_ifs with hany
        · rw [List.countP_map, List.countP_filter]
          apply List.countP_congr
          intro b _
          simp [and_comm]
        · have hno : ∀ b ∈ bs, p a b = false := by simpa using hany
          rw [List.countP_eq_zero.mpr (by simpa using hpad a List.mem_cons_self)]
          rw [List.countP_eq_zero.mpr]
          intro b hb
          simp [hno b hb]
      rw [joinOn] at hrest ⊢
      rw [List.flatMap_cons, List.countP_append, hfirst, hrest, List.product_cons, List.countP_append,
        List.countP_map]
      rfl

-- Tests of which one implies the other agree when they are met equally often.
theorem forall_of_countP_le {p q : α → Bool} (himp : ∀ a ∈ as, p a = true → q a = true)
    (hle : as.countP q ≤ as.countP p) : ∀ a ∈ as, q a = true → p a = true := by
  induction as with
  | nil => simp
  | cons a as ih =>
      have htail : ∀ a' ∈ as, p a' = true → q a' = true := fun a' ha' => himp a' (List.mem_cons_of_mem a ha')
      have hmono : as.countP p ≤ as.countP q := List.countP_mono_left htail
      have hhead := himp a List.mem_cons_self
      rw [List.countP_cons, List.countP_cons] at hle
      intro a' ha' hq
      rcases List.mem_cons.mp ha' with rfl | hmem
      · by_contra hp
        rw [if_pos hq, if_neg hp] at hle
        omega
      · refine ih htail ?_ a' hmem hq
        by_cases hp : p a = true
        · rw [if_pos hp, if_pos (hhead hp)] at hle
          omega
        · rw [if_neg hp] at hle
          split_ifs at hle <;> omega

-- A test of the combined items decides the join, if it tells them from the paddings.
theorem joinOn_perm_iff (hpad : ∀ a ∈ as, ∀ c ∈ pad a, r c = false)
    (hapart : ∀ a ∈ as, ∀ b ∈ bs, p a b = true → r (combine a b) = false →
      ∀ a' ∈ as, combine a b ∉ pad a') :
    (joinOn pad combine p as bs).Perm (joinOn pad combine (fun a b => r (combine a b)) as bs) ↔
      ∀ a ∈ as, ∀ b ∈ bs, p a b = r (combine a b) := by
  constructor
  · intro h
    have hsound : ∀ a ∈ as, ∀ b ∈ bs, p a b = true → r (combine a b) = true := by
      intro a ha b hb hp
      by_contra hr
      rw [Bool.not_eq_true] at hr
      rcases exists_of_mem_joinOn (h.subset (mem_joinOn ha hb hp)) with ⟨_, -, _, -, hr', heq⟩ | ⟨a', ha', hmem⟩
      · rw [heq, hr] at hr'
        cases hr'
      · exact hapart a ha b hb hp hr a' ha' hmem
    have hcount := h.countP_eq r
    rw [countP_joinOn hpad, countP_joinOn hpad] at hcount
    have himp : ∀ ab ∈ as ×ˢ bs, (p ab.1 ab.2 && r (combine ab.1 ab.2)) = true →
        (r (combine ab.1 ab.2) && r (combine ab.1 ab.2)) = true := by
      intro ab _ hand
      rw [Bool.and_self]
      exact (Bool.and_eq_true _ _ ▸ hand).2
    have hcomplete := forall_of_countP_le himp (Nat.le_of_eq hcount.symm)
    intro a ha b hb
    rw [Bool.eq_iff_iff]
    refine ⟨hsound a ha b hb, fun hr => ?_⟩
    have hpair := hcomplete (a, b) (List.mem_product.mpr ⟨ha, hb⟩) (by simpa using hr)
    rw [Bool.and_eq_true] at hpair
    exact hpair.1
  · intro h
    rw [joinOn_congr h]

theorem semiJoin_perm_iff : (semiJoin p as bs).Perm (semiJoin q as bs) ↔
    ∀ a ∈ as, bs.any (p a) = bs.any (q a) := by
  constructor
  · intro h a ha
    have hmem := h.mem_iff (a := a)
    simp only [semiJoin, List.mem_filter, ha, true_and] at hmem
    rw [Bool.eq_iff_iff]
    exact hmem
  · intro h
    rw [semiJoin, List.filter_congr h]
    rfl

end Joins

end Lib
