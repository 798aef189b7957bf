import Kkdb.Lib.Explore
import Mathlib.Data.Finset.Basic

namespace Kkdb.Vector.LayerSearch

open Lib

-- `search_layer` over any distances. A candidate is its distance and its node.
section Model

variable {δ : Type} [LT δ] [DecidableLT δ]

def partialCmp (a b : δ) : Ordering := if a < b then .lt else if b < a then .gt else .eq

-- `Candidate::cmp`
def candidateCmp (self other : δ × UInt64) : Ordering := partialCmp other.1 self.1

-- `MinCandidate::cmp`
def minCandidateCmp (self other : δ × UInt64) : Ordering := (partialCmp self.1 other.1).swap

structure Search (δ : Type) where
  visited : Finset UInt64
  candidates : List (δ × UInt64)
  result : List (δ × UInt64)

variable (candidates results : Heap (δ × UInt64)) (next : UInt64 → List UInt64) (dist : UInt64 → δ) (max : δ)
  (ef : Nat)

def Search.start (entry : UInt64) : Search δ where
  visited := {entry}
  candidates := candidates.push (dist entry, entry) []
  result := results.push (dist entry, entry) []

def Search.worst (s : Search δ) : δ :=
  match results.pop s.result with
  | some (c, _) => c.1
  | none => max

def visit (s : Search δ) (nb : UInt64) : Search δ :=
  if nb ∈ s.visited then s
  else
    let visited := insert nb s.visited
    let d := dist nb
    if d < s.worst results max ∨ s.result.length < ef then
      let result := results.push (d, nb) s.result
      { visited := visited
        candidates := candidates.push (d, nb) s.candidates
        result :=
          if result.length > ef then
            match results.pop result with
            | some (_, result) => result
            | none => result
          else result }
    else { s with visited := visited }

-- The loop has an outcome when it needs no more turns than it is given.
def searchLoop : Nat → Search δ → Option (Search δ)
  | 0, s => if s.candidates.isEmpty then some s else none
  | turns + 1, s =>
      match candidates.pop s.candidates with
      | none => some s
      | some (cur, rest) =>
          if s.worst results max < cur.1 ∧ ef ≤ s.result.length then some { s with candidates := rest }
          else searchLoop turns ((next cur.2).foldl (visit candidates results dist max ef)
            { s with candidates := rest })

def sorted (s : Search δ) : List (δ × UInt64) := s.result.mergeSort fun a b => partialCmp a.1 b.1 ≠ .gt

end Model

section Turns

variable {δ : Type} [LT δ] [DecidableLT δ] {candidates results : Heap (δ × UInt64)}
  {next : UInt64 → List UInt64}
  {dist : UInt64 → δ} {max : δ} {ef : Nat} {s : Search δ} {nb : UInt64}

-- Every turn takes a candidate away, and every node becomes a candidate at most once.
theorem visit_measure (results : Heap (δ × UInt64)) (dist : UInt64 → δ) (max : δ) (ef : Nat) {U : Finset UInt64}
    (hcand : candidates.Keeps) (hsub : s.visited ⊆ U) (hnb : nb ∈ U) :
    (visit candidates results dist max ef s nb).visited ⊆ U ∧
      (visit candidates results dist max ef s nb).candidates.length +
          (U.card - (visit candidates results dist max ef s nb).visited.card) ≤
        s.candidates.length + (U.card - s.visited.card) := by
  by_cases hseen : nb ∈ s.visited
  · rw [visit, if_pos hseen]
    exact ⟨hsub, le_refl _⟩
  · have hins : insert nb s.visited ⊆ U := Finset.insert_subset hnb hsub
    have hcard := Finset.card_insert_of_notMem hseen
    have hle := Finset.card_le_card hins
    have hpush : (candidates.push (dist nb, nb) s.candidates).length = s.candidates.length + 1 :=
      (hcand.push _ _).length_eq
    rw [visit, if_neg hseen]
    dsimp only
    by_cases hkeep : dist nb < s.worst results max ∨ s.result.length < ef
    · rw [if_pos hkeep]
      exact ⟨hins, by dsimp only; omega⟩
    · rw [if_neg hkeep]
      exact ⟨hins, by dsimp only; omega⟩

theorem foldl_measure (results : Heap (δ × UInt64)) (dist : UInt64 → δ) (max : δ) (ef : Nat) {U : Finset UInt64}
    (hcand : candidates.Keeps) {nbs : List UInt64} (hsub : s.visited ⊆ U) (hnbs : ∀ nb ∈ nbs, nb ∈ U) :
    (nbs.foldl (visit candidates results dist max ef) s).visited ⊆ U ∧
      (nbs.foldl (visit candidates results dist max ef) s).candidates.length +
          (U.card - (nbs.foldl (visit candidates results dist max ef) s).visited.card) ≤
        s.candidates.length + (U.card - s.visited.card) := by
  induction nbs generalizing s with
  | nil => exact ⟨hsub, le_refl _⟩
  | cons nb nbs ih =>
      obtain ⟨hsub', hle'⟩ := visit_measure results dist max ef hcand hsub
        (hnbs nb List.mem_cons_self)
      obtain ⟨hsub'', hle''⟩ := ih hsub' fun x hx => hnbs x (List.mem_cons_of_mem nb hx)
      exact ⟨hsub'', hle''.trans hle'⟩

theorem exists_searchLoop {U : Finset UInt64} (hcand : candidates.Keeps) {turns : Nat}
    (hnext : ∀ v, ∀ nb ∈ next v, nb ∈ U) (hsub : s.visited ⊆ U)
    (hturns : s.candidates.length + (U.card - s.visited.card) ≤ turns) :
    ∃ final, searchLoop candidates results next dist max ef turns s = some final := by
  induction turns generalizing s with
  | zero =>
      have hempty : s.candidates = [] := List.length_eq_zero_iff.mp (by omega)
      exact ⟨s, by rw [searchLoop, hempty]; rfl⟩
  | succ turns ih =>
      rw [searchLoop]
      cases hpop : candidates.pop s.candidates with
      | none => exact ⟨s, rfl⟩
      | some popped =>
          obtain ⟨cur, rest⟩ := popped
          have hlen : s.candidates.length = rest.length + 1 := (hcand.pop hpop).length_eq
          dsimp only
          by_cases hstop : s.worst results max < cur.1 ∧ ef ≤ s.result.length
          · rw [if_pos hstop]
            exact ⟨_, rfl⟩
          · rw [if_neg hstop]
            obtain ⟨hsub', hle⟩ := foldl_measure results dist max ef hcand
              (show Search.visited { s with candidates := rest } ⊆ U from hsub) (hnext cur.2)
            dsimp only at hle
            exact ih hsub' (by omega)

theorem searchLoop_mono {final : Search δ} {turns turns' : Nat} (hcand : candidates.Keeps)
    (h : searchLoop candidates results next dist max ef turns s = some final) (hle : turns ≤ turns') :
    searchLoop candidates results next dist max ef turns' s = some final := by
  induction turns generalizing s turns' with
  | zero =>
      rw [searchLoop] at h
      split_ifs at h with hempty
      obtain rfl := Option.some.inj h
      cases turns' with
      | zero => rw [searchLoop, if_pos hempty]
      | succ turns' => rw [searchLoop, (hcand.empty _).mpr (List.isEmpty_iff.mp hempty)]
  | succ turns ih =>
      cases turns' with
      | zero => omega
      | succ turns' =>
          rw [searchLoop] at h ⊢
          cases hpop : candidates.pop s.candidates with
          | none =>
              rw [hpop] at h
              exact h
          | some popped =>
              simp only [hpop] at h ⊢
              by_cases hstop : s.worst results max < popped.1.1 ∧ ef ≤ s.result.length
              · rw [if_pos hstop] at h ⊢
                exact h
              · rw [if_neg hstop] at h ⊢
                exact ih h (by omega)

theorem exists_outcome (hcand : candidates.Keeps) (results : Heap (δ × UInt64)) {named : List UInt64}
    (hnamed : ∀ v, ∀ nb ∈ next v, nb ∈ named) (dist : UInt64 → δ) (max : δ) (ef : Nat) (entry : UInt64) :
    ∃ final, searchLoop candidates results next dist max ef (named.length + 1)
      (.start candidates results dist entry) = some final := by
  have hnext : ∀ v, ∀ nb ∈ next v, nb ∈ (entry :: named).toFinset := fun v nb hnb =>
    List.mem_toFinset.mpr (List.mem_cons_of_mem entry (hnamed v nb hnb))
  have hcard := List.toFinset_card_le (entry :: named)
  have hlen : (candidates.push (dist entry, entry) []).length = 1 := (hcand.push _ _).length_eq
  refine exists_searchLoop hcand hnext ?_ ?_
  · rw [Search.start, Finset.singleton_subset_iff, List.mem_toFinset]
    exact List.mem_cons_self
  · rw [List.length_cons] at hcard
    rw [Search.start, hlen, Finset.card_singleton]
    omega

end Turns

section Found

def Link (next : UInt64 → List UInt64) (u v : UInt64) : Prop := v ∈ next u

instance finiteUInt64 : Finite UInt64 := Finite.of_injective UInt64.toFin fun _ _ h => UInt64.toFin_inj.mp h

variable {δ : Type} {candidates results : Heap (δ × UInt64)} {next : UInt64 → List UInt64}
  {dist : UInt64 → δ} {s final : Search δ} {entry u nb r : UInt64}

def Search.walk (s : Search δ) : Walk UInt64 where
  visited := s.visited
  queue := s.candidates.map Prod.snd
  found := s.result.map Prod.snd

theorem full_start (hcand : candidates.Keeps) (hres : results.Keeps) (next : UInt64 → List UInt64)
    (dist : UInt64 → δ) (entry : UInt64) :
    (Search.start candidates results dist entry).walk.Full (Link next) entry none :=
  (Walk.full_start (Link next) entry).perm ((hcand.push _ _).map Prod.snd) ((hres.push _ _).map Prod.snd)

theorem subperm_of_pop (hres : results.Keeps) {cs rest : List (δ × UInt64)} {top : δ × UInt64}
    (h : results.pop cs = some (top, rest)) : (rest.map Prod.snd).Subperm (cs.map Prod.snd) :=
  ((List.sublist_cons_self _ _).subperm).trans ((hres.pop h).map Prod.snd).symm.subperm

theorem walk_of_pop (hcand : candidates.Keeps) {rest : List (δ × UInt64)} {cur : δ × UInt64}
    (hpop : candidates.pop s.candidates = some (cur, rest)) :
    s.walk.queue.Perm (cur.2 :: rest.map Prod.snd) :=
  (hcand.pop hpop).map Prod.snd

variable [LT δ] [DecidableLT δ] {max : δ} {ef : Nat}

theorem mono_visit (candidates results : Heap (δ × UInt64)) (dist : UInt64 → δ) (max : δ) (ef : Nat)
    (s : Search δ) (nb : UInt64) : s.visited ⊆ (visit candidates results dist max ef s nb).visited := by
  unfold visit
  dsimp only
  split_ifs
  · exact Finset.Subset.refl _
  · exact Finset.subset_insert _ _
  · exact Finset.subset_insert _ _
  · exact Finset.subset_insert _ _

theorem sound_visit (hcand : candidates.Keeps) (hres : results.Keeps) (h : s.walk.Sound (Link next) entry)
    (hu : u ∈ s.visited) (hedge : Link next u nb) :
    (visit candidates results dist max ef s nb).walk.Sound (Link next) entry := by
  have hqueue := ((hcand.push (dist nb, nb) s.candidates).map Prod.snd).subset
  have hfound := ((hres.push (dist nb, nb) s.result).map Prod.snd).subperm
  unfold visit
  dsimp only
  split_ifs with hseen _ _
  · exact h
  · refine h.visit hu hedge hseen hqueue ?_
    cases hpop : results.pop (results.push (dist nb, nb) s.result) with
    | none => exact hfound
    | some popped => exact (subperm_of_pop hres hpop).trans hfound
  · exact h.visit hu hedge hseen hqueue hfound
  · exact h.visit hu hedge hseen (List.subset_cons_self _ _) (List.sublist_cons_self _ _).subperm

theorem sound_foldl (hcand : candidates.Keeps) (hres : results.Keeps) (nbs : List UInt64)
    (h : s.walk.Sound (Link next) entry) (hu : u ∈ s.visited) (hedges : ∀ nb ∈ nbs, Link next u nb) :
    (nbs.foldl (visit candidates results dist max ef) s).walk.Sound (Link next) entry := by
  induction nbs generalizing s with
  | nil => exact h
  | cons nb nbs ih =>
      have hmono := mono_visit candidates results dist max ef s nb
      exact ih (sound_visit hcand hres h hu (hedges nb List.mem_cons_self)) (hmono hu) fun x hx =>
        hedges x (List.mem_cons_of_mem _ hx)

theorem sound_searchLoop (hcand : candidates.Keeps) (hres : results.Keeps) {turns : Nat}
    (h : s.walk.Sound (Link next) entry)
    (hfinal : searchLoop candidates results next dist max ef turns s = some final) :
    final.walk.Sound (Link next) entry := by
  induction turns generalizing s with
  | zero =>
      rw [searchLoop] at hfinal
      split_ifs at hfinal
      exact Option.some.inj hfinal ▸ h
  | succ turns ih =>
      rw [searchLoop] at hfinal
      cases hpop : candidates.pop s.candidates with
      | none =>
          rw [hpop] at hfinal
          exact Option.some.inj hfinal ▸ h
      | some popped =>
          obtain ⟨cur, rest⟩ := popped
          have hperm := walk_of_pop hcand hpop
          have hdrop : Search.walk { s with candidates := rest } |>.Sound (Link next) entry :=
            h.drop fun v hv => hperm.mem_iff.mpr (List.mem_cons_of_mem _ hv)
          have hcur : cur.2 ∈ s.visited := h.queued _ (hperm.mem_iff.mpr List.mem_cons_self)
          simp only [hpop] at hfinal
          split_ifs at hfinal
          · exact Option.some.inj hfinal ▸ hdrop
          · exact ih (sound_foldl hcand hres _ hdrop hcur fun _ hnb => hnb) hfinal

-- While no more nodes can be reached than are kept, a first visit always keeps the node.
theorem full_visit (hcand : candidates.Keeps) (hres : results.Keeps) (dist : UInt64 → δ) (max : δ)
    {expanding : Option UInt64} (h : s.walk.Full (Link next) entry expanding)
    (hef : {v | Relation.ReflTransGen (Link next) entry v}.ncard ≤ ef) (hu : u ∈ s.visited)
    (hedge : Link next u nb) :
    (visit candidates results dist max ef s nb).walk.Full (Link next) entry expanding ∧
      nb ∈ (visit candidates results dist max ef s nb).visited := by
  by_cases hseen : nb ∈ s.visited
  · rw [visit, if_pos hseen]
    exact ⟨h, hseen⟩
  · have hnext := h.visit hu hedge hseen
    have hroom : s.result.length + 1 ≤ ef := by
      have hlen := hnext.length_found
      have hcard := hnext.card_le (Set.toFinite _)
      rw [← hlen, List.length_cons, Search.walk, List.length_map] at hcard
      exact hcard.trans hef
    have hpush : (results.push (dist nb, nb) s.result).length = s.result.length + 1 :=
      (hres.push _ _).length_eq
    rw [visit, if_neg hseen]
    dsimp only
    rw [if_pos (.inr hroom), if_neg (not_lt.mpr (hpush.le.trans hroom))]
    exact ⟨hnext.perm ((hcand.push _ _).map Prod.snd) ((hres.push _ _).map Prod.snd),
      Finset.mem_insert_self _ _⟩

theorem full_foldl (hcand : candidates.Keeps) (hres : results.Keeps) (dist : UInt64 → δ) (max : δ)
    {expanding : Option UInt64} (nbs : List UInt64) (h : s.walk.Full (Link next) entry expanding)
    (hef : {v | Relation.ReflTransGen (Link next) entry v}.ncard ≤ ef) (hu : u ∈ s.visited)
    (hedges : ∀ nb ∈ nbs, Link next u nb) :
    let s' := nbs.foldl (visit candidates results dist max ef) s
    s'.walk.Full (Link next) entry expanding ∧ s.visited ⊆ s'.visited ∧ ∀ nb ∈ nbs, nb ∈ s'.visited := by
  induction nbs generalizing s with
  | nil => exact ⟨h, Finset.Subset.refl _, fun _ hnb => absurd hnb List.not_mem_nil⟩
  | cons nb nbs ih =>
      obtain ⟨hfull, hnb⟩ := full_visit hcand hres dist max h hef hu (hedges nb List.mem_cons_self)
      have hmono := mono_visit candidates results dist max ef s nb
      obtain ⟨hrest, hsub, hnbs⟩ := ih hfull (hmono hu) fun x hx => hedges x (List.mem_cons_of_mem _ hx)
      refine ⟨hrest, hmono.trans hsub, fun x hx => ?_⟩
      rcases List.mem_cons.mp hx with rfl | hx
      · exact hsub hnb
      · exact hnbs x hx

theorem complete_searchLoop (hcand : candidates.Keeps) (hres : results.Keeps) {turns : Nat}
    (h : s.walk.Full (Link next) entry none)
    (hef : {v | Relation.ReflTransGen (Link next) entry v}.ncard ≤ ef)
    (hfinal : searchLoop candidates results next dist max ef turns s = some final)
    (hreach : Relation.ReflTransGen (Link next) entry r) : r ∈ final.walk.found := by
  induction turns generalizing s with
  | zero =>
      rw [searchLoop] at hfinal
      split_ifs at hfinal with hempty
      obtain rfl := Option.some.inj hfinal
      exact h.complete (by rw [Search.walk, List.isEmpty_iff.mp hempty]; rfl) hreach
  | succ turns ih =>
      rw [searchLoop] at hfinal
      cases hpop : candidates.pop s.candidates with
      | none =>
          rw [hpop] at hfinal
          obtain rfl := Option.some.inj hfinal
          exact h.complete (by rw [Search.walk, (hcand.empty _).mp hpop]; rfl) hreach
      | some popped =>
          obtain ⟨cur, rest⟩ := popped
          have hperm := walk_of_pop hcand hpop
          have hcur : cur.2 ∈ s.visited := h.queued _ (hperm.mem_iff.mpr List.mem_cons_self)
          have hopen : Search.walk { s with candidates := rest } |>.Full (Link next) entry (some cur.2) :=
            h.pop hperm
          simp only [hpop] at hfinal
          split_ifs at hfinal with hstop
          · obtain rfl := Option.some.inj hfinal
            refine hopen.complete_of_card (Set.toFinite _) ?_ hreach
            exact (hef.trans hstop.2).trans (List.length_map _).ge
          · obtain ⟨hfull, _, hall⟩ := full_foldl hcand hres dist max (next cur.2) hopen hef hcur
              fun _ hnb => hnb
            exact ih (hfull.close hall) hfinal

end Found

end Kkdb.Vector.LayerSearch
