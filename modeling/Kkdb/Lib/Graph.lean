import Mathlib.Data.List.Chain
import Mathlib.Data.List.Nodup
import Mathlib.Logic.Relation

namespace Lib

open Relation

section Cycles

variable {ν : Type} {edge : ν → ν → Prop} {a b : ν} {nodes : List ν}

-- The nodes of a walk that comes back to its first node. No other node is passed twice.
structure Cycle (edge : ν → ν → Prop) (nodes : List ν) : Prop where
  nodup : nodes.Nodup
  chain : nodes.IsChain edge
  closes : ∀ first ∈ nodes.head?, ∀ last ∈ nodes.getLast?, edge last first

def Cyclic (edge : ν → ν → Prop) : Prop := ∃ a b, a ≠ b ∧ TransGen edge a b ∧ TransGen edge b a

theorem reaches_of_chain (h : (a :: nodes).IsChain edge) (hb : b ∈ nodes) : TransGen edge a b := by
  induction nodes generalizing a with
  | nil => cases hb
  | cons c nodes ih =>
      obtain ⟨hstep, hrest⟩ := List.isChain_cons_cons.mp h
      rcases List.mem_cons.mp hb with rfl | hb
      · exact .single hstep
      · exact .head hstep (ih hrest hb)

theorem Cycle.cyclic (h : Cycle edge nodes) (hlen : 2 ≤ nodes.length) : Cyclic edge := by
  obtain ⟨hnodup, hchain, hcloses⟩ := h
  cases nodes with
  | nil => cases hlen
  | cons a nodes =>
      cases nodes with
      | nil => exact absurd hlen (by simp)
      | cons b nodes =>
          have hne : a ≠ b := fun hab => (List.nodup_cons.mp hnodup).1 (hab ▸ List.mem_cons_self)
          have hlast : (b :: nodes).getLast (List.cons_ne_nil _ _) ∈ (a :: b :: nodes).getLast? := by
            rw [List.getLast?_cons_cons]
            exact List.getLast?_eq_getLast_of_ne_nil _
          have hback := hcloses a rfl _ hlast
          refine ⟨a, b, hne, reaches_of_chain hchain List.mem_cons_self, ?_⟩
          rcases List.mem_cons.mp (List.getLast_mem (List.cons_ne_nil b nodes)) with heq | hmem
          · rw [heq] at hback
            exact .single hback
          · exact .tail (reaches_of_chain (List.isChain_cons_cons.mp hchain).2 hmem) hback

-- The edges to other nodes, backwards. A node from which every walk along them ends is accessible.
def Below (edge : ν → ν → Prop) (b a : ν) : Prop := edge a b ∧ b ≠ a

theorem exists_step (h : TransGen edge a b) (hne : a ≠ b) :
    ∃ c, Below edge c a ∧ ReflTransGen edge c b := by
  induction h using TransGen.head_induction_on with
  | single hstep => exact ⟨b, ⟨hstep, hne.symm⟩, .refl⟩
  | @head a c hstep hrest ih =>
      by_cases hc : c = a
      · subst hc
        exact ih hne
      · exact ⟨c, ⟨hstep, hc⟩, hrest.to_reflTransGen⟩

theorem not_reaches_of_acc (h : Acc (Below edge) a) (hne : a ≠ b) (hab : TransGen edge a b) :
    ¬TransGen edge b a := by
  induction h generalizing b with
  | intro a _ ih =>
      intro hba
      obtain ⟨c, hc, hcb⟩ := exists_step hab hne
      exact ih c hc hc.2 (hba.trans_right hcb) (.single hc.1)

theorem not_cyclic_of_acc (h : ∀ a b, edge a b → Acc (Below edge) a) : ¬Cyclic edge := by
  rintro ⟨a, b, hne, hab, hba⟩
  obtain ⟨c, hstep, -⟩ := TransGen.head'_iff.mp hab
  exact not_reaches_of_acc (h a c hstep) hne hab hba

end Cycles

section Reach

variable {ν : Type} {edge : ν → ν → Prop} {a b : ν} {S : Set ν}

theorem mem_of_closed (ha : a ∈ S) (hclosed : ∀ x ∈ S, ∀ y, edge x y → y ∈ S) (h : ReflTransGen edge a b) :
    b ∈ S := by
  induction h with
  | refl => exact ha
  | tail _ hstep ih => exact hclosed _ ih _ hstep

end Reach

end Lib
