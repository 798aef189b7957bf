import Kkdb.BTree.LeafInsert
import Kkdb.BTree.Index

namespace Kkdb

open Lib

namespace BTree

theorem leaf_ne_interior : LEAF_TABLE ≠ INTERIOR_TABLE := by decide

theorem interior_ne_leaf : INTERIOR_TABLE ≠ LEAF_TABLE := by decide

section Find

variable [Lz4Flex] {H : Heap} {total page leaf depth fuel : Nat} {s : Pager} {rowid : Int64}

theorem childFor_serves {I : Pager → Prop} {d : PageData} {child : Nat} (hserves : Serves I H) (hI : I s)
    (hp : H page = some d) (hchild : childFor d rowid = .ok child) :
    Yields (findChildPage page rowid) s fun c s' => c = child ∧ I s' := by
  refine (hserves.read _ _ _ hp hI).bind fun pg s' ⟨hdata, hI'⟩ => ?_
  rw [hdata, hchild]
  exact .pure ⟨rfl, hI'⟩

theorem childFor_owns {d : PageData} {child : Nat} (hO : Owns H total s) (hp : H page = some d)
    (hchild : childFor d rowid = .ok child) :
    Yields (findChildPage page rowid) s fun c s' => c = child ∧ Owns H total s' :=
  childFor_serves Owns.serves hO hp hchild

-- What holds of the search from a leaf on holds of it from the start of the route.
theorem find_descends {Q : Option (Int64 × Row) → Pager → Prop} (hroute : Route H rowid depth page leaf)
    (hO : Owns H total s) (hfuel : depth < fuel)
    (hleaf : ∀ fuel' s', Owns H total s' → Yields (find (fuel' + 1) leaf rowid) s' Q) :
    Yields (find fuel page rowid) s Q := by
  induction depth generalizing page fuel s with
  | zero =>
      obtain ⟨fuel, rfl⟩ : ∃ n, fuel = n + 1 := ⟨fuel - 1, by omega⟩
      rw [show page = leaf from hroute]
      exact hleaf fuel s hO
  | succ depth ih =>
      obtain ⟨fuel, rfl⟩ : ∃ n, fuel = n + 1 := ⟨fuel - 1, by omega⟩
      obtain ⟨d, child, hd, htype, hchild, hrest⟩ := hroute
      rw [find]
      refine (getPage_owns hO hd).bind fun pg s₁ ⟨hdata, hO₁⟩ => ?_
      rw [hdata, htype, if_neg interior_ne_leaf, if_pos rfl]
      refine (childFor_owns hO₁ hd hchild).bind fun c s₂ ⟨hc, hO₂⟩ => ?_
      rw [hc]
      exact ih hrest hO₂ (by omega)

variable {d : PageData} {pre post : List Cell} {c : Cell} {lo next prev : Nat}

theorem find_absent (hO : Owns H total s) (hp : H page = some d) (h : LeafAt d (pre ++ post) lo next prev)
    (hpre : ∀ x ∈ pre, x.rowid.toInt < rowid.toInt) (hpost : ∀ x ∈ post, rowid.toInt < x.rowid.toInt) :
    Yields (find (fuel + 1) page rowid) s fun r s' => r = none ∧ Owns H total s' := by
  rw [find]
  refine (getPage_owns hO hp).bind fun pg s₁ ⟨hdata, hO₁⟩ => ?_
  rw [hdata, h.laid.type, if_pos rfl, h.findCell_absent hpre hpost]
  exact .pure ⟨rfl, hO₁⟩

theorem find_present {row : Row} (hO : Owns H total s) (hp : H page = some d)
    (h : LeafAt d (pre ++ c :: post) lo next prev) (hstored : c.Stored H)
    (hrow : deserializeRow c.payload = .ok row) :
    Yields (find (fuel + 1) page c.rowid) s fun r s' => r = some (c.rowid, row) ∧ Owns H total s' := by
  obtain ⟨off, hfind, hfit, hslice⟩ := h.findCell_present
  rw [find]
  refine (getPage_owns hO hp).bind fun pg s₁ hstep => ?_
  obtain ⟨hdata, hO₁⟩ := hstep
  rw [hdata, h.laid.type, if_pos rfl, hfind]
  simp only [ofRes, pure_bind]
  refine (getPage_owns hO₁ hp).bind fun pg' s₂ hstep => ?_
  obtain ⟨hdata', hO₂⟩ := hstep
  rw [hdata']
  refine (readCellPayload_owns hO₂ hstored hfit hslice).bind fun payload s₃ hstep => ?_
  obtain ⟨hpayload, hO₃⟩ := hstep
  rw [hpayload, hrow]
  exact .pure ⟨rfl, hO₃⟩

end Find

section Delete

variable [Lz4Flex] {H : Heap} {total page leaf depth fuel : Nat} {s : Pager} {rowid : Int64}

theorem deleteFromPage_descends {I : Pager → Prop} {Q : Bool → Pager → Prop} (hserves : Serves I H)
    (hroute : Route H rowid depth page leaf) (hI : I s) (hfuel : depth < fuel)
    (hleaf : ∀ fuel' s', I s' → Yields (deleteFromPage rowid (fuel' + 1) leaf) s' Q) :
    Yields (deleteFromPage rowid fuel page) s Q := by
  induction depth generalizing page fuel s with
  | zero =>
      obtain ⟨fuel, rfl⟩ : ∃ n, fuel = n + 1 := ⟨fuel - 1, by omega⟩
      rw [show page = leaf from hroute]
      exact hleaf fuel s hI
  | succ depth ih =>
      obtain ⟨fuel, rfl⟩ : ∃ n, fuel = n + 1 := ⟨fuel - 1, by omega⟩
      obtain ⟨d, child, hd, htype, hchild, hrest⟩ := hroute
      rw [deleteFromPage]
      refine (hserves.read _ _ _ hd hI).bind fun pg s₁ ⟨hdata, hI₁⟩ => ?_
      rw [hdata, htype, if_neg interior_ne_leaf, if_pos rfl]
      refine (childFor_serves hserves hI₁ hd hchild).bind fun c s₂ ⟨hc, hI₂⟩ => ?_
      rw [hc]
      exact ih hrest hI₂ (by omega)

variable {d : PageData} {pre post : List Cell} {c : Cell} {lo next prev p : Nat} {xs ys : List Leaf}

theorem deleteFromPage_absent (hO : Owns H total s) (hp : H page = some d)
    (h : LeafAt d (pre ++ post) lo next prev) (hpre : ∀ x ∈ pre, x.rowid.toInt < rowid.toInt)
    (hpost : ∀ x ∈ post, rowid.toInt < x.rowid.toInt) :
    Yields (deleteFromPage rowid (fuel + 1) page) s fun b s' => b = false ∧ Owns H total s' := by
  rw [deleteFromPage]
  refine (getPage_owns hO hp).bind fun pg s₁ ⟨hdata, hO₁⟩ => ?_
  rw [hdata, h.laid.type, if_pos rfl]
  refine (modifyPage_owns none d hO₁ hp (h.delete_absent hpre hpost)).bind fun r s₂ ⟨hr, hO₂⟩ => ?_
  rw [hr]
  rw [← hp, Function.update_eq_self] at hO₂
  exact .pure ⟨rfl, hO₂⟩

theorem freeOverflowChain_owns {first : Nat} {ps : List Nat} {cs : List (List UInt8)} (hO : Owns H total s)
    (hlinks : Links H first ps cs) (hnodup : ps.Nodup) :
    Yields (freeOverflowChain first) s fun _ s' => Owns (H.without ps) total s' := by
  have hlen := hO.length_le hnodup hlinks.owned
  have hfuel : ps.length < (s.header.totalPages + 1) * (s.header.totalPages + 1) := by
    rw [hO.total]
    exact Nat.lt_of_lt_of_le (by omega) (Nat.le_mul_of_pos_left _ (by omega))
  exact freeChain_owns hO hlinks hnodup _ hfuel

theorem deleteFromPage_present (hO : Owns H total s) (hF : Forest H (xs ++ ⟨p, pre ++ c :: post⟩ :: ys)) :
    Yields (deleteFromPage c.rowid (fuel + 1) p) s fun b s' => b = true ∧ ∃ H',
      Forest H' (xs ++ ⟨p, pre ++ post⟩ :: ys) ∧ (∀ q, q ≠ p → q ∉ c.chain → H' q = H q) ∧
      Owns H' total s' := by
  obtain ⟨d, lo, hp, h⟩ := hF.middle
  simp only at hp h
  have hmem : c ∈ cellsOf (xs ++ ⟨p, pre ++ c :: post⟩ :: ys) :=
    (mem_cellsOf_middle ..).mpr (.inr (.inl (by simp)))
  have hstored := hF.stored c hmem
  have hp' : p ∈ leafPages (xs ++ ⟨p, pre ++ c :: post⟩ :: ys) := by simp
  have hsmall : c.chain.headD 0 < 2 ^ 32 := by
    cases hc : c.chain with
    | nil => decide
    | cons q qs =>
        obtain ⟨d', hd'⟩ := hstored.owned q (by rw [hc]; exact List.mem_cons_self)
        exact hO.small hd'
  obtain ⟨d', hdelete, h'⟩ := h.delete_present hsmall
  obtain ⟨hnodup, hgone⟩ := hF.nodup_remove
  have hF' : Forest (Function.update H p (some d')) (xs ++ ⟨p, pre ++ post⟩ :: ys) := by
    refine hF.putLeaf (Function.update_self _ _ _) h' (fun q hq => Function.update_of_ne hq _ _)
      (fun x hx => ?_) hnodup
    have hx' : x ∈ cellsOf (xs ++ ⟨p, pre ++ c :: post⟩ :: ys) := by
      rw [mem_cellsOf_middle, List.mem_append, List.mem_cons]
      rcases List.mem_append.mp hx with hx | hx
      · exact .inr (.inl (.inl hx))
      · exact .inr (.inl (.inr (.inr hx)))
    exact (hF.stored x hx').frame fun q hq =>
      Function.update_of_ne (ne_of_mem_of_not_mem hq (hF.apart hp' hx')) _ _
  rw [deleteFromPage]
  refine (getPage_owns hO hp).bind fun pg s₁ ⟨hdata, hO₁⟩ => ?_
  rw [hdata, h.laid.type, if_pos rfl]
  refine (modifyPage_owns _ d' hO₁ hp hdelete).bind fun r s₂ ⟨hr, hO₂⟩ => ?_
  rw [hr]
  have hchain := hstored.chain
  cases hover : needsOverflow c.payload with
  | false =>
      exact .pure ⟨rfl, _, hF', fun q hq _ => Function.update_of_ne hq _ _, hO₂⟩
  | true =>
      rw [if_pos hover] at hchain
      have hlinks : Links (Function.update H p (some d')) _ _ _ := hchain.1.frame fun q hq =>
        Function.update_of_ne (ne_of_mem_of_not_mem hq (hF.apart hp' hmem)) _ _
      simp only [if_true]
      refine (freeOverflowChain_owns hO₂ hlinks hchain.2).bind fun _ s₃ hO₃ => ?_
      refine .pure ⟨rfl, _, hF'.frame fun q hq => ?_, fun q hq hnot => ?_, hO₃⟩
      · exact if_neg fun hqc => hgone q hqc hq
      · rw [Heap.without, if_neg hnot, Function.update_of_ne hq]

end Delete

end BTree

end Kkdb
