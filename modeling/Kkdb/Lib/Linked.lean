import Mathlib.Data.List.Basic
import Mathlib.Logic.Function.Basic

namespace Lib

variable {next next' : Nat → Nat} {root root' p : Nat} {ps qs : List Nat}

-- The nodes met from `root` along `next` up to the null link, which is 0.
def Linked (next : Nat → Nat) : Nat → List Nat → Prop
  | root, [] => root = 0
  | root, p :: ps => root = p ∧ p ≠ 0 ∧ Linked next (next p) ps

theorem Linked.congr (h : Linked next root ps) (hsame : ∀ p ∈ ps, next' p = next p) :
    Linked next' root ps := by
  induction ps generalizing root with
  | nil => exact h
  | cons p ps ih =>
      obtain ⟨hroot, hp, hrest⟩ := h
      refine ⟨hroot, hp, ?_⟩
      rw [hsame p List.mem_cons_self]
      exact ih hrest fun q hq => hsame q (List.mem_cons_of_mem _ hq)

theorem Linked.eq_nil (h : Linked next 0 ps) : ps = [] := by
  cases ps with
  | nil => rfl
  | cons p ps => exact absurd h.1.symm h.2.1

theorem Linked.root_eq_zero_iff (h : Linked next root ps) : root = 0 ↔ ps = [] := by
  constructor
  · rintro rfl
    exact h.eq_nil
  · rintro rfl
    exact h

theorem Linked.cons (hp : p ≠ 0) (hnext : next p = root) (h : Linked next root ps) :
    Linked next p (p :: ps) :=
  ⟨rfl, hp, by rw [hnext]; exact h⟩

theorem Linked.singleton (hp : p ≠ 0) (hnext : next p = 0) : Linked next p [p] :=
  Linked.cons hp hnext rfl

theorem Linked.join (h : Linked next root ps) (hlast : ps.getLast? = some p) (hnodup : ps.Nodup)
    (h' : Linked next root' qs) (hp : p ∉ qs) :
    Linked (Function.update next p root') root (ps ++ qs) := by
  induction ps generalizing root with
  | nil => cases hlast
  | cons q ps ih =>
      obtain ⟨hroot, hq, hrest⟩ := h
      obtain ⟨hq', hnodup'⟩ := List.nodup_cons.mp hnodup
      refine ⟨hroot, hq, ?_⟩
      cases ps with
      | nil =>
          obtain rfl : q = p := by simpa using hlast
          rw [Function.update_self]
          refine h'.congr fun r hr => Function.update_of_ne ?_ _ _
          rintro rfl
          exact hp hr
      | cons r ps =>
          have hlast' : (r :: ps).getLast? = some p := by
            rw [← hlast, List.getLast?_cons_cons]
          have hqp : q ≠ p := by
            rintro rfl
            exact hq' (List.mem_of_getLast? hlast')
          rw [Function.update_of_ne hqp]
          exact ih hrest hlast' hnodup'

end Lib
