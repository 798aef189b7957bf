import Kkdb.Vector.HnswSearch
import Mathlib.Data.List.Sort

namespace Kkdb.Vector.LayerSearch

open Lib

section Order

variable {δ : Type} [LinearOrder δ] {a b : δ} {c d : δ × UInt64}

theorem partialCmp_lt_iff : partialCmp a b = .lt ↔ a < b := by
  rw [partialCmp]
  split_ifs with hlt hgt
  · exact iff_of_true rfl hlt
  · exact iff_of_false (fun h => nomatch h) hlt
  · exact iff_of_false (fun h => nomatch h) hlt

theorem partialCmp_gt_iff : partialCmp a b = .gt ↔ b < a := by
  rw [partialCmp]
  split_ifs with hlt hgt
  · exact iff_of_false (fun h => nomatch h) hlt.not_gt
  · exact iff_of_true rfl hgt
  · exact iff_of_false (fun h => nomatch h) hgt

-- The top of the results is the closest of them: the reversed comparison turns the heap around.
theorem candidateCmp_lt_iff : candidateCmp c d = .lt ↔ d.1 < c.1 := partialCmp_lt_iff

theorem minCandidateCmp_lt_iff : minCandidateCmp c d = .lt ↔ d.1 < c.1 := by
  rw [minCandidateCmp, Ordering.swap_eq_lt]
  exact partialCmp_gt_iff

end Order

variable {δ : Type} [LinearOrder δ] {candidates results : Heap (δ × UInt64)} {next : UInt64 → List UInt64}
  {dist : UInt64 → δ} {max : δ} {ef : Nat} {f : Frontier δ UInt64} {s : Search δ} {nb u v : UInt64}

def near (dist : UInt64 → δ) (v : UInt64) : δ × UInt64 := (dist v, v)

-- Until as many nodes are found as may be kept, the search keeps every node it finds.
structure Filling (dist : UInt64 → δ) (s : Search δ) (f : Frontier δ UInt64) : Prop where
  visited : ∀ v, v ∈ s.visited ↔ v ∈ f.found
  nodup : f.found.Nodup
  result : s.result.Perm (f.found.map (near dist))
  candidates : s.candidates = f.queue
  queue : ∀ c ∈ f.queue, c.2 ∈ f.found ∧ c.1 = dist c.2

theorem filling_start (hcand : candidates.Lawful minCandidateCmp) (hres : results.Lawful candidateCmp)
    (dist : UInt64 → δ)
    (entry : UInt64) : Filling dist (.start candidates results dist entry) (.start candidates dist entry) where
  visited v := by
    rw [Search.start, Frontier.start, Finset.mem_singleton, List.mem_singleton]
  nodup := List.nodup_singleton entry
  result := hres.push _ _
  candidates := rfl
  queue c hc := by
    have hmem := (hcand.push (dist entry, entry) []).mem_iff.mp hc
    obtain rfl := List.mem_singleton.mp hmem
    exact ⟨List.mem_singleton_self entry, rfl⟩

omit [LinearOrder δ] in
theorem Filling.length_result (h : Filling dist s f) : s.result.length = f.found.length :=
  h.result.length_eq.trans (List.length_map _)

theorem Filling.visit (hcand : candidates.Lawful minCandidateCmp) (hres : results.Lawful candidateCmp)
    (h : Filling dist s f) (hroom : f.found.length < ef) (nb : UInt64) :
    Filling dist (visit candidates results dist max ef s nb) (f.meet candidates dist nb) := by
  rw [LayerSearch.visit, Frontier.meet]
  by_cases hseen : nb ∈ f.found
  · rw [if_pos ((h.visited nb).mpr hseen), if_pos hseen]
    exact h
  · have hlen := h.length_result
    have hpush := hres.push (dist nb, nb) s.result
    have hpushed : (results.push (dist nb, nb) s.result).length = s.result.length + 1 := hpush.length_eq
    rw [if_neg fun hv => hseen ((h.visited nb).mp hv), if_neg hseen]
    dsimp only
    rw [if_pos (.inr (by omega)), if_neg (by omega)]
    refine ⟨fun v => ?_, List.nodup_cons.mpr ⟨hseen, h.nodup⟩, hpush.trans (h.result.cons _), ?_,
      fun c hc => ?_⟩
    · rw [Finset.mem_insert, List.mem_cons, h.visited]
    · rw [h.candidates]
    · rcases List.mem_cons.mp ((hcand.push _ _).mem_iff.mp hc) with rfl | hc
      · exact ⟨List.mem_cons_self, rfl⟩
      · exact ⟨List.mem_cons_of_mem nb (h.queue c hc).1, (h.queue c hc).2⟩

-- From then on what is kept stays what it is: the nodes that were found first.
structure Kept (dist : UInt64 → δ) (found : List UInt64) (s : Search δ) : Prop where
  visited : ∀ v ∈ found, v ∈ s.visited
  result : s.result.Perm (found.map (near dist))

section Kept

variable {found : List UInt64} (hcand : candidates.Lawful minCandidateCmp) (hres : results.Lawful candidateCmp)

include hres

theorem Kept.worst (max : δ) (h : Kept dist found s) (hne : found ≠ []) :
    (∀ u ∈ found, s.worst results max ≤ dist u) ∧ ∃ u ∈ found, s.worst results max = dist u := by
  rw [Search.worst]
  cases hpop : results.pop s.result with
  | none =>
      have hnil := (hres.empty _).mp hpop
      have hlen := h.result.length_eq
      rw [hnil, List.length_map] at hlen
      exact absurd (List.length_eq_zero_iff.mp hlen.symm) hne
  | some popped =>
      obtain ⟨c, rest⟩ := popped
      have hperm := (hres.pop hpop).symm.trans h.result
      obtain ⟨u, hu, rfl⟩ := List.mem_map.mp (hperm.mem_iff.mp List.mem_cons_self)
      refine ⟨fun w hw => ?_, u, hu, rfl⟩
      rcases List.mem_cons.mp (hperm.mem_iff.mpr (List.mem_map_of_mem hw)) with heq | hrest
      · exact (congrArg Prod.fst heq).ge
      · exact not_lt.mp fun hlt => hres.top hpop _ hrest (candidateCmp_lt_iff.mpr hlt)

-- A node that takes the place of a kept one is itself the closest, and goes at once.
theorem perm_of_evict {d : δ} {result rest : List (δ × UInt64)} {top : δ × UInt64} (hclose : ∀ c ∈ result,
    d < c.1)
    (hpop : results.pop (results.push (d, nb) result) = some (top, rest)) : rest.Perm result := by
  have hperm := (hres.push (d, nb) result).symm.trans (hres.pop hpop)
  have htop : top = (d, nb) := by
    rcases List.mem_cons.mp (hperm.mem_iff.mp List.mem_cons_self) with heq | hrest
    · exact heq.symm
    · rcases List.mem_cons.mp (hperm.mem_iff.mpr List.mem_cons_self) with heq | hmem
      · exact heq
      · exact absurd (candidateCmp_lt_iff.mpr (hclose top hmem)) (hres.top hpop _ hrest)
  subst htop
  exact (List.perm_cons _).mp hperm.symm

theorem Kept.visit (h : Kept dist found s) (hfull : found.length = ef) (hne : found ≠ []) (nb : UInt64) :
    Kept dist found (visit candidates results dist max ef s nb) := by
  rw [LayerSearch.visit]
  by_cases hseen : nb ∈ s.visited
  · rw [if_pos hseen]
    exact h
  · have hlen : s.result.length = ef := (h.result.length_eq.trans (List.length_map _)).trans hfull
    have hvisited : ∀ v ∈ found, v ∈ insert nb s.visited :=
        fun v hv => Finset.mem_insert_of_mem (h.visited v hv)
    rw [if_neg hseen]
    dsimp only
    by_cases hclose : dist nb < s.worst results max
    · have hpushed : (results.push (dist nb, nb) s.result).length = ef + 1 :=
        (hres.push _ _).length_eq.trans (congrArg Nat.succ hlen)
      rw [if_pos (.inl hclose), if_pos (by omega)]
      refine ⟨hvisited, ?_⟩
      cases hpop : results.pop (results.push (dist nb, nb) s.result) with
      | none =>
          rw [(hres.empty _).mp hpop] at hpushed
          cases hpushed
      | some popped =>
          obtain ⟨top, rest⟩ := popped
          refine (perm_of_evict hres (fun c hc => ?_) hpop).trans h.result
          obtain ⟨u, hu, rfl⟩ := List.mem_map.mp (h.result.mem_iff.mp hc)
          exact hclose.trans_le ((h.worst hres max hne).1 u hu)
    · rw [if_neg fun hor => hor.elim hclose (by omega)]
      exact ⟨hvisited, h.result⟩

end Kept

theorem visited_visit (s : Search δ) (nb v : UInt64) :
    v ∈ (visit candidates results dist max ef s nb).visited ↔ v = nb ∨ v ∈ s.visited := by
  rw [visit]
  by_cases hseen : nb ∈ s.visited
  · rw [if_pos hseen]
    refine ⟨.inr, fun h => ?_⟩
    rcases h with rfl | h
    · exact hseen
    · exact h
  · rw [if_neg hseen]
    dsimp only
    split_ifs <;> exact Finset.mem_insert

theorem visited_foldl (nbs : List UInt64) (s : Search δ) (v : UInt64) :
    v ∈ (nbs.foldl (visit candidates results dist max ef) s).visited ↔ v ∈ nbs ∨ v ∈ s.visited := by
  induction nbs generalizing s with
  | nil => exact ⟨.inr, fun h => h.elim (fun hv => nomatch hv) id⟩
  | cons nb nbs ih =>
      rw [List.foldl_cons, ih, visited_visit, List.mem_cons]
      constructor
      · rintro (h | h | h)
        · exact .inl (.inr h)
        · exact .inl (.inl h)
        · exact .inr h
      · rintro ((h | h) | h)
        · exact .inr (.inl h)
        · exact .inl h
        · exact .inr (.inr h)

section Late

variable {found : List UInt64}

-- No closer than any of the nodes found first.
abbrev Beyond (dist : UInt64 → δ) (found : List UInt64) (v : UInt64) : Prop := ∀ u ∈ found, dist u ≤ dist v

theorem candidates_visit (hcand : candidates.Lawful minCandidateCmp) (s : Search δ) (nb : UInt64)
    {c : δ × UInt64}
    (hc : c ∈ s.candidates) : c ∈ (visit candidates results dist max ef s nb).candidates := by
  have hpush : c ∈ candidates.push (dist nb, nb) s.candidates :=
    (hcand.push _ _).mem_iff.mpr (List.mem_cons_of_mem _ hc)
  rw [visit]
  dsimp only
  split_ifs
  · exact hc
  · exact hpush
  · exact hpush
  · exact hc

theorem candidates_foldl (hcand : candidates.Lawful minCandidateCmp) (nbs : List UInt64) (s : Search δ)
    {c : δ × UInt64}
    (hc : c ∈ s.candidates) : c ∈ (nbs.foldl (visit candidates results dist max ef) s).candidates := by
  induction nbs generalizing s with
  | nil => exact hc
  | cons nb nbs ih => exact ih _ (candidates_visit hcand s nb hc)

theorem Kept.foldl (hres : results.Lawful candidateCmp) (h : Kept dist found s) (hfull : found.length = ef)
    (hne : found ≠ []) (nbs : List UInt64) : Kept dist found
    (nbs.foldl (LayerSearch.visit candidates results dist max ef) s) := by
  induction nbs generalizing s with
  | nil => exact h
  | cons nb nbs ih => exact ih (h.visit hres hfull hne nb)

theorem Kept.visit_beyond (hres : results.Lawful candidateCmp) (h : Kept dist found s)
    (hfull : found.length = ef)
    (hne : found ≠ []) (hnb : nb ∉ found → Beyond dist found nb) :
    (LayerSearch.visit candidates results dist max ef s nb).candidates = s.candidates := by
  rw [LayerSearch.visit]
  by_cases hseen : nb ∈ s.visited
  · rw [if_pos hseen]
  · have hlen : s.result.length = ef := (h.result.length_eq.trans (List.length_map _)).trans hfull
    have hfar : ¬dist nb < s.worst results max := by
      obtain ⟨u, hu, hworst⟩ := (h.worst hres max hne).2
      rw [hworst]
      exact not_lt.mpr (hnb (fun hfound => hseen (h.visited nb hfound)) u hu)
    rw [if_neg hseen]
    dsimp only
    rw [if_neg fun hor => hor.elim hfar (by omega)]

theorem Kept.foldl_beyond (hres : results.Lawful candidateCmp) (h : Kept dist found s)
    (hfull : found.length = ef)
    (hne : found ≠ []) {nbs : List UInt64} (hnbs : ∀ nb ∈ nbs, nb ∉ found → Beyond dist found nb) :
    (nbs.foldl (LayerSearch.visit candidates results dist max ef) s).candidates = s.candidates := by
  induction nbs generalizing s with
  | nil => rfl
  | cons nb nbs ih =>
      rw [List.foldl_cons, ih (h.visit hres hfull hne nb) fun x hx => hnbs x (List.mem_cons_of_mem nb hx)]
      exact h.visit_beyond hres hfull hne (hnbs nb List.mem_cons_self)

omit [LinearOrder δ] in
theorem Kept.pop (h : Kept dist found s) (rest : List (δ × UInt64)) :
    Kept dist found { s with candidates := rest } where
  visited := h.visited
  result := h.result

variable {final : Search δ}

-- What the loop does once enough nodes are found: nothing it keeps changes, and the neighbours of every
-- candidate as close as the closest node found are visited.
theorem Kept.searchLoop (hcand : candidates.Lawful minCandidateCmp) (hres : results.Lawful candidateCmp)
    {turns : Nat}
    (h : Kept dist found s) (hfull : found.length = ef) (hne : found ≠ [])
    (hloop : LayerSearch.searchLoop candidates results next dist max ef turns s = some final) :
    Kept dist found final ∧ s.visited ⊆ final.visited ∧
      ∀ c ∈ s.candidates, (∀ u ∈ found, c.1 ≤ dist u) → ∀ v ∈ next c.2, v ∈ final.visited := by
  induction turns generalizing s with
  | zero =>
      rw [LayerSearch.searchLoop] at hloop
      split_ifs at hloop with hempty
      obtain rfl := Option.some.inj hloop
      rw [List.isEmpty_iff.mp hempty]
      exact ⟨h, Finset.Subset.refl _, fun c hc => absurd hc List.not_mem_nil⟩
  | succ turns ih =>
      rw [LayerSearch.searchLoop] at hloop
      cases hpop : candidates.pop s.candidates with
      | none =>
          rw [hpop] at hloop
          obtain rfl := Option.some.inj hloop
          rw [(hcand.empty _).mp hpop]
          exact ⟨h, Finset.Subset.refl _, fun c hc => absurd hc List.not_mem_nil⟩
      | some popped =>
          obtain ⟨cur, rest⟩ := popped
          have hperm := hcand.pop hpop
          simp only [hpop] at hloop
          by_cases hstop : s.worst results max < cur.1 ∧ ef ≤ s.result.length
          · rw [if_pos hstop] at hloop
            obtain rfl := Option.some.inj hloop
            refine ⟨h.pop rest, Finset.Subset.refl _, fun c hc hclose => ?_⟩
            -- the candidate taken is the closest, and is already further away than a node found
            obtain ⟨u, hu, hworst⟩ := (h.worst hres max hne).2
            have hcur : cur.1 ≤ c.1 := by
              rcases List.mem_cons.mp (hperm.mem_iff.mp hc) with rfl | hrest
              · exact le_refl _
              · exact not_lt.mp fun hlt => hcand.top hpop _ hrest (minCandidateCmp_lt_iff.mpr hlt)
            exact absurd ((hstop.1.trans_le hcur).trans_le (hclose u hu)) (by rw [hworst]; exact lt_irrefl _)
          · rw [if_neg hstop] at hloop
            obtain ⟨hkept, hsub, hall⟩ := ih ((h.pop rest).foldl hres hfull hne _) hloop
            refine ⟨hkept, fun v hv => hsub ((visited_foldl _ _ v).mpr (.inr hv)), fun c hc hclose v hv => ?_⟩
            rcases List.mem_cons.mp (hperm.mem_iff.mp hc) with rfl | hrest
            · exact hsub ((visited_foldl _ _ v).mpr (.inl hv))
            · exact hall c (candidates_foldl hcand _ _ hrest) hclose v hv

theorem Kept.searchLoop_beyond (hcand : candidates.Lawful minCandidateCmp) (hres : results.Lawful candidateCmp)
    {turns : Nat} (h : Kept dist found s) (hfull : found.length = ef) (hne : found ≠ [])
    (hahead : ∀ c ∈ s.candidates, (∀ u ∈ found, c.1 ≤ dist u) → ∀ v ∈ next c.2, v ∉ found → Beyond dist found v)
    (hvisited : ∀ v ∈ s.visited, v ∉ found → Beyond dist found v)
    (hloop : LayerSearch.searchLoop candidates results next dist max ef turns s = some final) :
    ∀ v ∈ final.visited, v ∉ found → Beyond dist found v := by
  induction turns generalizing s with
  | zero =>
      rw [LayerSearch.searchLoop] at hloop
      split_ifs at hloop
      obtain rfl := Option.some.inj hloop
      exact hvisited
  | succ turns ih =>
      rw [LayerSearch.searchLoop] at hloop
      cases hpop : candidates.pop s.candidates with
      | none =>
          rw [hpop] at hloop
          obtain rfl := Option.some.inj hloop
          exact hvisited
      | some popped =>
          obtain ⟨cur, rest⟩ := popped
          have hperm := hcand.pop hpop
          simp only [hpop] at hloop
          by_cases hstop : s.worst results max < cur.1 ∧ ef ≤ s.result.length
          · rw [if_pos hstop] at hloop
            obtain rfl := Option.some.inj hloop
            exact hvisited
          · rw [if_neg hstop] at hloop
            have hlen : s.result.length = ef := (h.result.length_eq.trans (List.length_map _)).trans hfull
            have hcur : ∀ u ∈ found, cur.1 ≤ dist u := fun u hu =>
              (not_lt.mp fun hlt => hstop ⟨hlt, hlen.ge⟩).trans ((h.worst hres max hne).1 u hu)
            have hnbs := hahead cur (hperm.mem_iff.mpr List.mem_cons_self) hcur
            refine ih ((h.pop rest).foldl hres hfull hne _) (fun c hc => ?_) (fun v hv hnew => ?_) hloop
            · rw [(h.pop rest).foldl_beyond hres hfull hne hnbs] at hc
              exact hahead c (hperm.mem_iff.mpr (List.mem_cons_of_mem cur hc))
            · rcases (visited_foldl _ _ v).mp hv with hv | hv
              · exact hnbs v hv hnew
              · exact hvisited v hv hnew

end Late

section Turns

variable {final : Search δ} (hcand : candidates.Lawful minCandidateCmp) (hres : results.Lawful candidateCmp)

include hcand hres

theorem Filling.gather (max : δ) (h : Filling dist s f) (hle : f.found.length ≤ ef) (nbs : List UInt64) :
    ∃ s', Filling dist s' (f.gather candidates dist ef nbs).1 ∧
      nbs.foldl (LayerSearch.visit candidates results dist max ef) s =
        (f.gather candidates dist ef nbs).2.foldl (LayerSearch.visit candidates results dist max ef) s' ∧
      (f.gather candidates dist ef nbs).1.found.length ≤ ef ∧
      ((f.gather candidates dist ef nbs).2 ≠ [] → ef ≤ (f.gather candidates dist ef nbs).1.found.length) := by
  induction nbs generalizing s f with
  | nil => exact ⟨s, h, rfl, hle, fun hne => absurd rfl hne⟩
  | cons nb nbs ih =>
      rw [Frontier.gather]
      by_cases hfull : ef ≤ f.found.length
      · rw [if_pos hfull]
        exact ⟨s, h, rfl, hle, fun _ => hfull⟩
      · rw [if_neg hfull]
        refine ih (h.visit hcand hres (by omega) nb) ?_
        rw [Frontier.meet]
        split_ifs
        · exact hle
        · rw [List.length_cons]
          omega

-- The search follows the walk until enough nodes are found, and ends with it or goes on from there.
theorem Filling.searchLoop {turns : Nat} (h : Filling dist s f) (hle : f.found.length ≤ ef)
    (hloop : LayerSearch.searchLoop candidates results next dist max ef turns s = some final) :
    (Filling dist final (f.fill candidates dist next ef turns).1 ∧
    (f.fill candidates dist next ef turns).1.queue = [] ∧
        (f.fill candidates dist next ef turns).2 = [] ∧
        (f.fill candidates dist next ef turns).1.found.length < ef) ∨
      ((f.fill candidates dist next ef turns).1.found.length = ef ∧
        ∃ s' turns', Filling dist s' (f.fill candidates dist next ef turns).1 ∧
          LayerSearch.searchLoop candidates results next dist max ef turns'
            ((f.fill candidates dist next ef turns).2.foldl
            (LayerSearch.visit candidates results dist max ef) s') =
            some final) := by
  induction turns generalizing s f with
  | zero =>
      rw [Frontier.fill]
      by_cases hfull : ef ≤ f.found.length
      · exact .inr ⟨by dsimp only; omega, s, 0, h, hloop⟩
      · rw [LayerSearch.searchLoop] at hloop
        split_ifs at hloop with hempty
        obtain rfl := Option.some.inj hloop
        exact .inl ⟨h, h.candidates.symm.trans (List.isEmpty_iff.mp hempty), rfl, by dsimp only; omega⟩
  | succ turns ih =>
      rw [Frontier.fill]
      by_cases hfull : ef ≤ f.found.length
      · rw [if_pos hfull]
        exact .inr ⟨by dsimp only; omega, s, turns + 1, h, hloop⟩
      · rw [LayerSearch.searchLoop, h.candidates] at hloop
        rw [if_neg hfull]
        cases hpop : candidates.pop f.queue with
        | none =>
            rw [hpop] at hloop
            obtain rfl := Option.some.inj hloop
            exact .inl ⟨h, (hcand.empty _).mp hpop, rfl, by dsimp only; omega⟩
        | some popped =>
            obtain ⟨cur, rest⟩ := popped
            have hlen := h.length_result
            have hopen : Filling dist { s with candidates := rest } { f with queue := rest } :=
              { h with
                candidates := rfl
                queue := fun c hc => h.queue c ((hcand.pop hpop).mem_iff.mpr (List.mem_cons_of_mem cur hc)) }
            simp only [hpop] at hloop
            rw [if_neg fun hstop => hfull (hlen ▸ hstop.2)] at hloop
            obtain ⟨s', hfill, hfold, hle', hrest⟩ := hopen.gather hcand hres max hle (next cur.2)
            rw [hfold] at hloop
            dsimp only
            generalize Frontier.gather candidates dist ef (next cur.2) { f with queue := rest } = p at *
            obtain ⟨f', left⟩ := p
            cases left with
            | nil => exact ih hfill hle' hloop
            | cons nb left =>
                have hge := hrest (List.cons_ne_nil nb left)
                exact .inr ⟨le_antisymm hle' hge, s', turns, hfill, hloop⟩

end Turns

section Outcome

variable {found : List UInt64} {final : Search δ}

theorem sorted_perm (s : Search δ) : (sorted s).Perm s.result := List.mergeSort_perm _ _

theorem pairwise_sorted (s : Search δ) : (sorted s).Pairwise fun a b => a.1 ≤ b.1 := by
  have hle : ∀ a b : δ × UInt64, decide (partialCmp a.1 b.1 ≠ .gt) = true ↔ a.1 ≤ b.1 := fun a b => by
    rw [decide_eq_true_iff, Ne, partialCmp_gt_iff, not_lt]
  refine (List.pairwise_mergeSort (fun a b c hab hbc => ?_) (fun a b => ?_) s.result).imp fun h =>
    (hle _ _).mp h
  · exact (hle a c).mpr (((hle a b).mp hab).trans ((hle b c).mp hbc))
  · rw [Bool.or_eq_true, hle, hle]
    exact le_total a.1 b.1

omit [LinearOrder δ] in
theorem map_snd_near (found : List UInt64) : (found.map (near dist)).map Prod.snd = found := by
  rw [List.map_map]
  exact List.map_id found

theorem closest_iff (hresult : final.result.Perm (found.map (near dist))) (hnodup : found.Nodup)
    (hsub : ∀ v ∈ found, v ∈ final.visited) (hlen : found.length = min ef final.visited.card) :
    Closest dist ef final.visited (sorted final) ↔ ∀ v ∈ final.visited, v ∉ found → Beyond dist found v := by
  have hperm : (sorted final).Perm (found.map (near dist)) := (sorted_perm final).trans hresult
  have hnodes : ((sorted final).map Prod.snd).Perm found :=
      (hperm.map Prod.snd).trans (List.Perm.of_eq (map_snd_near found))
  constructor
  · intro h v hv hnew u hu
    exact h.nearest v hv (fun hmem => hnew (hnodes.mem_iff.mp hmem)) (near dist u)
      (hperm.mem_iff.mpr (List.mem_map_of_mem hu))
  · intro h
    refine ⟨pairwise_sorted final, hnodes.nodup_iff.mpr hnodup, ?_, fun c hc => ?_, fun v hv hnew c hc => ?_⟩
    · rw [hperm.length_eq, List.length_map, hlen]
    · obtain ⟨u, hu, rfl⟩ := List.mem_map.mp (hperm.mem_iff.mp hc)
      exact ⟨hsub u hu, rfl⟩
    · obtain ⟨u, hu, rfl⟩ := List.mem_map.mp (hperm.mem_iff.mp hc)
      exact h v hv (fun hmem => hnew (hnodes.mem_iff.mpr hmem)) u hu

omit [LinearOrder δ] in
theorem Filling.card_visited (h : Filling dist final f) : final.visited.card = f.found.length := by
  have hset : final.visited = f.found.toFinset := by
    ext v
    rw [h.visited, List.mem_toFinset]
  rw [hset, List.toFinset_card_of_nodup h.nodup]

omit [LinearOrder δ] in
theorem Filling.kept (h : Filling dist s f) : Kept dist f.found s where
  visited v := (h.visited v).mpr
  result := h.result

theorem closest_searchLoop_iff (hcand : candidates.Lawful minCandidateCmp) (hres : results.Lawful candidateCmp)
    (hef : 1 ≤ ef) {turns : Nat} (h : Filling dist s f) (hle : f.found.length ≤ ef)
    (hloop : searchLoop candidates results next dist max ef turns s = some final) :
    Closest dist ef final.visited (sorted final) ↔
      (f.fill candidates dist next ef turns).1.Undisturbed next dist
      (f.fill candidates dist next ef turns).2 := by
  have hrun := h.searchLoop hcand hres hle hloop
  generalize f.fill candidates dist next ef turns = p at *
  obtain ⟨f', rest⟩ := p
  rcases hrun with ⟨hend, hqueue, hrest, hfew⟩ | ⟨hfull, s', turns', hfill, hlate⟩
  · dsimp only at hqueue hrest hfew
    have hcard : final.visited.card = f'.found.length := hend.card_visited
    have hsize : f'.found.length = min ef final.visited.card := by omega
    rw [closest_iff hend.result hend.nodup (fun v => (hend.visited v).mpr) hsize]
    refine iff_of_true (fun v hv hnew => absurd ((hend.visited v).mp hv) hnew) fun v hv => ?_
    rw [Frontier.Ahead, hqueue, hrest] at hv
    rcases hv with hv | ⟨c, hc, _⟩
    · cases hv
    · cases hc
  · dsimp only at hfull hlate
    have hne : f'.found ≠ [] := fun hnil => by
      rw [hnil] at hfull
      exact absurd hfull (by rw [List.length_nil]; omega)
    have hkept : Kept dist f'.found (rest.foldl (visit candidates results dist max ef) s') :=
      hfill.kept.foldl hres hfull hne rest
    obtain ⟨hfinal, hmono, hall⟩ := hkept.searchLoop hcand hres hfull hne hlate
    have hcard : ef ≤ final.visited.card := by
      rw [← hfull, ← List.toFinset_card_of_nodup hfill.nodup]
      exact Finset.card_le_card fun v hv => hfinal.visited v (List.mem_toFinset.mp hv)
    rw [closest_iff hfinal.result hfill.nodup hfinal.visited (hfull.trans (min_eq_left hcard).symm)]
    constructor
    · intro hclosest v hv hnew
      rcases hv with hv | ⟨c, hc, hclose, hv⟩
      · exact hclosest v (hmono ((visited_foldl _ _ v).mpr (.inl hv))) hnew
      · rw [← hfill.candidates] at hc
        exact hclosest v (hall c (candidates_foldl hcand _ _ hc) hclose v hv) hnew
    · intro hcalm
      have hnbs : ∀ nb ∈ rest, nb ∉ f'.found → Beyond dist f'.found nb := fun nb hnb => hcalm nb (.inl hnb)
      refine hkept.searchLoop_beyond hcand hres hfull hne (fun c hc hclose v hv => ?_)
        (fun v hv hnew => ?_) hlate
      · rw [hfill.kept.foldl_beyond hres hfull hne hnbs, hfill.candidates] at hc
        exact hcalm v (.inr ⟨c, hc, hclose, hv⟩)
      · rcases (visited_foldl _ _ v).mp hv with hv | hv
        · exact hnbs v hv hnew
        · exact absurd ((hfill.visited v).mp hv) hnew

end Outcome

-- The nodes that the search finds first, up to the number it may keep, and the neighbours left over then.
def filled (candidates : Heap (δ × UInt64)) (g : HnswGraph) (layer : Nat) (dist : UInt64 → δ) (ef : Nat)
    (entry : UInt64) :
    Frontier δ UInt64 × List UInt64 :=
  (Frontier.start candidates dist entry).fill candidates dist (g.neighbours layer) ef
  ((g.named layer).length + 1)

theorem layer_search_closest_iff (hcand : candidates.Lawful minCandidateCmp)
    (hres : results.Lawful candidateCmp)
    (g : HnswGraph) (layer : Nat) (dist : UInt64 → δ) (max : δ) (entry : UInt64) (hef : 1 ≤ ef) :
    (∃ final, (∀ turns, (g.named layer).length + 1 ≤ turns →
        searchLoop candidates results (g.neighbours layer) dist max ef turns
          (.start candidates results dist entry) =
          some final) ∧ Closest dist ef final.visited (sorted final)) ↔
      (filled candidates g layer dist ef entry).1.Undisturbed (g.neighbours layer) dist
        (filled candidates g layer dist ef entry).2 := by
  obtain ⟨final, hfinal⟩ := exists_outcome hcand.toKeeps results (fun _ _ h => HnswGraph.mem_named h)
    dist max ef entry
  have hiff := closest_searchLoop_iff hcand hres hef (filling_start hcand hres dist entry) hef hfinal
  constructor
  · rintro ⟨final', hloop, hclosest⟩
    obtain rfl : final' = final := Option.some.inj ((hloop _ le_rfl).symm.trans hfinal)
    exact hiff.mp hclosest
  · intro hcalm
    exact ⟨final, fun turns hturns => searchLoop_mono hcand.toKeeps hfinal hturns, hiff.mpr hcalm⟩

theorem lawful_close : (listHeap (minCandidateCmp : δ × UInt64 → δ × UInt64 →
    Ordering)).Lawful minCandidateCmp :=
  lawful_listHeap (fun c => OrderDual.toDual c.1) fun _ _ => minCandidateCmp_lt_iff

theorem lawful_result : (listHeap (candidateCmp : δ × UInt64 → δ × UInt64 → Ordering)).Lawful candidateCmp :=
  lawful_listHeap (fun c => OrderDual.toDual c.1) fun _ _ => candidateCmp_lt_iff

def twoNodes : HnswGraph := { HnswGraph.new 16 200 .L2 with nodes := [(0, [[1]]), (1, [[0]])] }

def twoDistances (v : UInt64) : Nat := if v = 0 then 2 else 1

theorem layer_search_closest_two :
    ∃ final, (∀ turns, 3 ≤ turns →
        searchLoop (listHeap minCandidateCmp) (listHeap candidateCmp)
          (twoNodes.neighbours 0) twoDistances 100 2 turns
          (.start (listHeap minCandidateCmp) (listHeap candidateCmp) twoDistances 0) = some final) ∧
      Closest twoDistances 2 final.visited (sorted final) := by
  refine (layer_search_closest_iff lawful_close lawful_result twoNodes 0 twoDistances 100 0 (by decide)).mpr ?_
  have hfilled : filled (listHeap minCandidateCmp) twoNodes 0 twoDistances 2 0 =
      (⟨[1, 0], [(1, 1)]⟩, []) := rfl
  rw [hfilled]
  rintro v (hv | ⟨c, hc, _, hv⟩) hnew
  · cases hv
  · obtain rfl := List.mem_singleton.mp hc
    obtain rfl := List.mem_singleton.mp hv
    exact absurd (by decide) hnew

-- One node may be kept: the entry stays, and the closer node that was visited is evicted.
theorem layer_search_evicts_closest :
    ¬∀ (g : HnswGraph) (layer : Nat) (dist : UInt64 → Nat) (max : Nat) (entry : UInt64) (ef : Nat), 1 ≤ ef →
      ∃ final, (∀ turns, (g.named layer).length + 1 ≤ turns →
        searchLoop (listHeap minCandidateCmp) (listHeap candidateCmp) (g.neighbours layer) dist max ef turns
          (.start (listHeap minCandidateCmp) (listHeap candidateCmp) dist entry) = some final) ∧
        Closest dist ef final.visited (sorted final) := by
  intro h
  obtain ⟨final, hloop, hclosest⟩ := h twoNodes 0 twoDistances 100 0 1 le_rfl
  have hrun : searchLoop (listHeap minCandidateCmp) (listHeap candidateCmp)
      (twoNodes.neighbours 0) twoDistances 100 1 3
      (.start (listHeap minCandidateCmp) (listHeap candidateCmp) twoDistances 0) =
      some ⟨{1, 0}, [], [(2, 0)]⟩ := rfl
  obtain rfl := Option.some.inj ((hloop 3 (by decide)).symm.trans hrun)
  have hsorted : sorted (⟨{1, 0}, [], [(2, 0)]⟩ : Search Nat) = [(2, 0)] := List.mergeSort_singleton _
  rw [hsorted] at hclosest
  have hnear := hclosest.nearest 1 (by decide) (by decide) (2, 0) (by decide)
  exact absurd hnear (by decide)

end Kkdb.Vector.LayerSearch
