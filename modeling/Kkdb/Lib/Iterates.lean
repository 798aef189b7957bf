import Mathlib.Data.List.Dedup
import Mathlib.Logic.Relation

namespace Lib

section Iterates

variable {σ α : Type}

def Functional (step : List α → σ → List α → σ → Prop) : Prop :=
  ∀ ⦃last s next₁ s₁ next₂ s₂⦄, step last s next₁ s₁ → step last s next₂ s₂ → next₁ = next₂ ∧ s₁ = s₂

-- Steps on what the step before gave, at most `n` of them, none after one that gave nothing.
inductive Turns (step : List α → σ → List α → σ → Prop) : Nat → List α → σ → List (List α) → List α → σ → Prop
  | stop (n : Nat) (s : σ) : Turns step n [] s [] [] s
  | limit (last : List α) (s : σ) : Turns step 0 last s [] last s
  | turn {n last s next s₁ its last' s'} : last ≠ [] → step last s next s₁ → Turns step n next s₁ its last' s' →
      Turns step (n + 1) last s (next :: its) last' s'

inductive Iterates (step : List α → σ → List α → σ → Prop) : List α → σ → List (List α) → Prop
  | stop (s : σ) : Iterates step [] s []
  | turn {last s next s₁ its} : last ≠ [] → step last s next s₁ → Iterates step next s₁ its →
      Iterates step last s (next :: its)

variable {step : List α → σ → List α → σ → Prop} {n : Nat} {last last' next : List α}
  {its its' : List (List α)} {s s' : σ}

theorem Turns.iterates_iff (hstep : Functional step) (h : Turns step n last s its last' s') :
    Iterates step last s its' ↔ ∃ rest, Iterates step last' s' rest ∧ its' = its ++ rest := by
  induction h generalizing its' with
  | stop n s => simp only [List.nil_append, exists_eq_right']
  | limit last s => simp only [List.nil_append, exists_eq_right']
  | turn hne hturn _ ih =>
      constructor
      · intro hall
        cases hall with
        | stop => exact absurd rfl hne
        | turn _ hturn' hrest =>
            obtain ⟨rfl, rfl⟩ := hstep hturn hturn'
            obtain ⟨rest, hiter, rfl⟩ := ih.mp hrest
            exact ⟨rest, hiter, rfl⟩
      · rintro ⟨rest, hiter, rfl⟩
        exact .turn hne hturn (ih.mpr ⟨rest, hiter, rfl⟩)

theorem Iterates.flatten_eq_nil (h : Iterates step last s its) (hnil : its.flatten = []) :
    last = [] ∨ ∃ s', step last s [] s' := by
  cases h with
  | stop => exact .inl rfl
  | turn _ hturn _ =>
      rw [List.flatten_cons, List.append_eq_nil_iff] at hnil
      rw [hnil.1] at hturn
      exact .inr ⟨_, hturn⟩

variable [DecidableEq α]

def fresh (all next : List α) : List α := (next.filter fun x => decide (x ∉ all)).dedup

theorem mem_fresh {all : List α} {x : α} : x ∈ fresh all next ↔ x ∈ next ∧ x ∉ all := by
  rw [fresh, List.mem_dedup, List.mem_filter, decide_eq_true_eq]

theorem fresh_eq_self {all : List α} (h : (all ++ next).Nodup) : fresh all next = next := by
  obtain ⟨-, hnext, hapart⟩ := List.nodup_append.mp h
  rw [fresh, List.filter_eq_self.mpr, hnext.dedup]
  intro x hx
  exact decide_eq_true fun hall => hapart x hall x hx rfl

theorem fresh_eq_nil {all : List α} : fresh all next = [] ↔ next ⊆ all := by
  rw [List.eq_nil_iff_forall_not_mem]
  constructor
  · intro h x hx
    by_contra hall
    exact h x (mem_fresh.mpr ⟨hx, hall⟩)
  · intro h x hx
    exact (mem_fresh.mp hx).2 (h (mem_fresh.mp hx).1)

-- Each step is taken on what the step before has added, until a step adds nothing.
inductive Saturates (step : List α → σ → List α → σ → Prop) : List α → List α → σ → List α → Prop
  | stop (all : List α) (s : σ) : Saturates step all [] s all
  | turn {all last s next s₁ out} : last ≠ [] → step last s next s₁ →
      Saturates step (all ++ fresh all next) (fresh all next) s₁ out → Saturates step all last s out

theorem Saturates.subset {all out : List α} (h : Saturates step all last s out) : all ⊆ out := by
  induction h with
  | stop => exact List.Subset.refl _
  | turn _ _ _ ih => exact fun x hx => ih (List.mem_append_left _ hx)

-- Without repetition the steps on everything and those on what is new are the same.
theorem Turns.saturates_iff {all out : List α} (hstep : Functional step)
    (h : Turns step n last s its last' s') (hnodup : (all ++ its.flatten).Nodup) :
    Saturates step all last s out ↔ Saturates step (all ++ its.flatten) last' s' out := by
  induction h generalizing all with
  | stop n s => rw [List.flatten_nil, List.append_nil]
  | limit last s => rw [List.flatten_nil, List.append_nil]
  | turn hne hturn _ ih =>
      rw [List.flatten_cons, ← List.append_assoc] at hnodup ⊢
      rw [← ih hnodup]
      have hfresh := fresh_eq_self hnodup.of_append_left
      constructor
      · intro hall
        cases hall with
        | stop => exact absurd rfl hne
        | turn _ hturn' hrest =>
            obtain ⟨rfl, rfl⟩ := hstep hturn hturn'
            rwa [hfresh] at hrest
      · intro hrest
        exact .turn hne hturn (by rwa [hfresh])

theorem Saturates.last_iff {all out : List α} (hsame : ∀ x, x ∈ all ↔ x ∈ out)
    (h : Saturates step all last s out) :
    last = [] ∨ ∃ next s', step last s next s' ∧ next ⊆ all := by
  cases h with
  | stop => exact .inl rfl
  | turn _ hturn hrest =>
      refine .inr ⟨_, _, hturn, fresh_eq_nil.mp (List.eq_nil_iff_forall_not_mem.mpr fun x hx => ?_)⟩
      exact (mem_fresh.mp hx).2 ((hsame x).mpr (hrest.subset (List.mem_append_right _ hx)))

-- Where every element brings its own successors, the elements that are added are those within reach.
theorem Saturates.mem_iff {f : α → List α} {all out : List α} {y : α}
    (hlinear : ∀ ⦃last s next s'⦄, step last s next s' → next = last.flatMap f)
    (h : Saturates step all last s out) (hlast : last ⊆ all)
    (hdone : ∀ x ∈ all, x ∉ last → f x ⊆ all) :
    y ∈ out ↔ ∃ x ∈ all, Relation.ReflTransGen (fun x y => y ∈ f x) x y := by
  induction h with
  | stop all s =>
      refine ⟨fun hy => ⟨y, hy, .refl⟩, ?_⟩
      rintro ⟨x, hx, hreach⟩
      induction hreach with
      | refl => exact hx
      | tail _ hmem ih => exact hdone _ ih List.not_mem_nil hmem
  | @turn all last s next s₁ out _ hturn _ ih =>
      have hnext := hlinear hturn
      rw [ih (List.subset_append_right _ _)]
      · constructor
        · rintro ⟨x, hx, hreach⟩
          rcases List.mem_append.mp hx with hx | hx
          · exact ⟨x, hx, hreach⟩
          · have hmem := (mem_fresh.mp hx).1
            rw [hnext] at hmem
            obtain ⟨z, hz, hxz⟩ := List.mem_flatMap.mp hmem
            exact ⟨z, hlast hz, .head hxz hreach⟩
        · rintro ⟨x, hx, hreach⟩
          exact ⟨x, List.mem_append_left _ hx, hreach⟩
      · intro x hx hold z hz
        have hall := (List.mem_append.mp hx).resolve_right hold
        by_cases hxlast : x ∈ last
        · have hmem : z ∈ next := hnext ▸ List.mem_flatMap.mpr ⟨x, hxlast, hz⟩
          by_cases hzall : z ∈ all
          · exact List.mem_append_left _ hzall
          · exact List.mem_append_right _ (mem_fresh.mpr ⟨hmem, hzall⟩)
        · exact List.mem_append_left _ (hdone x hall hxlast hz)

end Iterates

end Lib
