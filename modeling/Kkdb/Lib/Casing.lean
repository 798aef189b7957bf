import Mathlib

namespace Lib

section Letters

variable {c : Char}

theorem isAlpha_of_isUpper (h : c.isUpper = true) : c.isAlpha = true := by rw [Char.isAlpha, h, Bool.true_or]

theorem isAlpha_toLower (h : c.isUpper = true) : c.toLower.isAlpha = true :=
  (Char.isAlpha_toLower_eq_isAlpha c).trans (isAlpha_of_isUpper h)

theorem toLower_eq_sigma_iff (c : Char) : c.toLower = 'Σ' ↔ c = 'Σ' := by
  by_cases hc : c.isUpper = true
  · have hno : ∀ d : Char, d.isAlpha = true → d ≠ 'Σ' := by
      rintro d hd rfl
      exact absurd hd (by decide)
    exact iff_of_false (hno _ (isAlpha_toLower hc)) (hno c (isAlpha_of_isUpper hc))
  · rw [Char.toLower_eq_of_not_isUpper hc]

end Letters

-- What the tables of Unicode say about characters, in any of their versions.
class Casing where
  lower : Char → List Char
  cased : Char → Bool
  caseIgnorable : Char → Bool
  lower_ascii : ∀ c : Char, c.isUpper = true → lower c = [c.toLower]
  lower_lower : ∀ c, ∀ d ∈ lower c, lower d = [d]
  lower_sigma : lower 'Σ' = ['σ']
  lower_finalSigma : lower 'ς' = ['ς']
  cased_ascii : ∀ c : Char, c.isAlpha = true → cased c = true
  ignorable_ascii : ∀ c : Char, c.isAlpha = true → caseIgnorable c = false

namespace Casing

variable [Casing]

def ignorableThenCased (s : List Char) : Bool := (s.dropWhile caseIgnorable).head?.any cased

-- A sigma at the end of a word has a form of its own. `before` is turned around.
def sigma (before after : List Char) : Char :=
  if ignorableThenCased before && !ignorableThenCased after then 'ς' else 'σ'

def lowercaseFrom : List Char → List Char → List Char
  | _, [] => []
  | before, c :: after => (if c = 'Σ' then [sigma before after] else lower c) ++ lowercaseFrom
        (c :: before) after

def lowercase (s : List Char) : List Char := lowercaseFrom [] s

section Ascii

theorem lower_toLower (c : Char) : lower c.toLower = lower c := by
  by_cases hc : c.isUpper = true
  · have hlower := lower_ascii c hc
    rw [hlower]
    exact lower_lower c _ (by rw [hlower]; exact List.mem_singleton_self _)
  · rw [Char.toLower_eq_of_not_isUpper hc]

theorem cased_toLower (c : Char) : cased c.toLower = cased c := by
  by_cases hc : c.isUpper = true
  · rw [cased_ascii c (isAlpha_of_isUpper hc), cased_ascii _ (isAlpha_toLower hc)]
  · rw [Char.toLower_eq_of_not_isUpper hc]

theorem caseIgnorable_toLower (c : Char) : caseIgnorable c.toLower = caseIgnorable c := by
  by_cases hc : c.isUpper = true
  · rw [ignorable_ascii c (isAlpha_of_isUpper hc), ignorable_ascii _ (isAlpha_toLower hc)]
  · rw [Char.toLower_eq_of_not_isUpper hc]

theorem ignorableThenCased_map (s : List Char) : ignorableThenCased (s.map Char.toLower) =
    ignorableThenCased s := by
  unfold ignorableThenCased
  induction s with
  | nil => rfl
  | cons c s ih =>
      rw [List.map_cons, List.dropWhile_cons, List.dropWhile_cons, caseIgnorable_toLower]
      by_cases hc : caseIgnorable c = true
      · rw [if_pos hc, if_pos hc, ih]
      · rw [if_neg hc, if_neg hc]
        simp only [List.head?_cons, Option.any_some, cased_toLower]

theorem lowercaseFrom_map (before s : List Char) :
    lowercaseFrom (before.map Char.toLower) (s.map Char.toLower) = lowercaseFrom before s := by
  induction s generalizing before with
  | nil => rfl
  | cons c s ih =>
      have hrest := ih (c :: before)
      rw [List.map_cons] at hrest
      rw [List.map_cons, lowercaseFrom, lowercaseFrom, hrest]
      simp only [toLower_eq_sigma_iff, lower_toLower, sigma, ignorableThenCased_map]

theorem lowercase_congr {s t : List Char} (h : s.map Char.toLower = t.map Char.toLower) :
    lowercase s = lowercase t := by
  have hs := lowercaseFrom_map [] s
  rw [h] at hs
  exact hs.symm.trans (lowercaseFrom_map [] t)

end Ascii

section Idempotent

theorem lower_sigma_form (before after : List Char) : lower (sigma before after) = [sigma before after] := by
  have hsmall : lower 'σ' = ['σ'] :=
    lower_lower 'Σ' 'σ' (by rw [lower_sigma]; exact List.mem_singleton_self _)
  unfold sigma
  by_cases hfinal : (ignorableThenCased before && !ignorableThenCased after) = true
  · rw [if_pos hfinal, lower_finalSigma]
  · rw [if_neg hfinal, hsmall]

theorem lower_of_mem {before s : List Char} {d : Char} (h : d ∈ lowercaseFrom before s) : lower d = [d] := by
  induction s generalizing before with
  | nil => cases h
  | cons c s ih =>
      rw [lowercaseFrom, List.mem_append] at h
      rcases h with h | h
      · by_cases hc : c = 'Σ'
        · rw [if_pos hc, List.mem_singleton] at h
          rw [h, lower_sigma_form]
        · rw [if_neg hc] at h
          exact lower_lower c d h
      · exact ih h

theorem lowercaseFrom_of_lower {s : List Char} (h : ∀ d ∈ s, lower d = [d]) (before : List Char) :
    lowercaseFrom before s = s := by
  induction s generalizing before with
  | nil => rfl
  | cons c s ih =>
      rw [List.forall_mem_cons] at h
      have hc : c ≠ 'Σ' := by
        rintro rfl
        have hbad := lower_sigma.symm.trans h.1
        exact absurd hbad (by decide)
      rw [lowercaseFrom, if_neg hc, h.1, ih h.2, List.singleton_append]

theorem lowercase_lowercase (s : List Char) : lowercase (lowercase s) = lowercase s :=
  lowercaseFrom_of_lower (fun _ hd => lower_of_mem hd) []

end Idempotent

end Casing

-- The letters of ASCII, and of the others only an accented one and the sigmas.
def fewLower (c : Char) : List Char :=
  if c.isUpper then [c.toLower] else if c = 'É' then ['é'] else if c = 'Σ' then ['σ'] else [c]

theorem fewLower_self {d : Char} (hupper : ¬d.isUpper = true) (haccent : d ≠ 'É') (hsigma : d ≠ 'Σ') :
    fewLower d = [d] := by rw [fewLower, if_neg hupper, if_neg haccent, if_neg hsigma]

theorem fewLower_fewLower (c d : Char) (h : d ∈ fewLower c) : fewLower d = [d] := by
  rw [fewLower] at h
  by_cases hupper : c.isUpper = true
  · rw [if_pos hupper, List.mem_singleton] at h
    have hlower : d.isLower = true := by
      rw [h, Char.isLower_toLower_eq_isAlpha]
      exact isAlpha_of_isUpper hupper
    refine fewLower_self (Char.not_isUpper_of_isLower hlower) ?_ ?_
    · rintro rfl
      exact absurd hlower (by decide)
    · rintro rfl
      exact absurd hlower (by decide)
  rw [if_neg hupper] at h
  by_cases haccent : c = 'É'
  · rw [if_pos haccent, List.mem_singleton] at h
    rw [h]
    decide
  rw [if_neg haccent] at h
  by_cases hsigma : c = 'Σ'
  · rw [if_pos hsigma, List.mem_singleton] at h
    rw [h]
    decide
  rw [if_neg hsigma, List.mem_singleton] at h
  rw [h]
  exact fewLower_self hupper haccent hsigma

@[reducible] def fewLetters : Casing where
  lower := fewLower
  cased c := c.isAlpha || c = 'É' || c = 'é' || c = 'Σ' || c = 'σ' || c = 'ς'
  caseIgnorable _ := false
  lower_ascii _ hc := if_pos hc
  lower_lower := fewLower_fewLower
  lower_sigma := by decide
  lower_finalSigma := by decide
  cased_ascii c hc := by simp [hc]
  ignorable_ascii _ _ := rfl

end Lib
