import Kkdb.Vector.Hnsw

namespace Kkdb.Vector.HnswGraph

open Lib LayerSearch Relation

abbrev Edge (g : HnswGraph) (layer : Nat) : UInt64 → UInt64 → Prop := Link (g.neighbours layer)

abbrev Reaches (g : HnswGraph) (layer : Nat) : UInt64 → UInt64 → Prop := ReflTransGen (g.Edge layer)

variable {heaps : BinaryHeaps} {g : HnswGraph} {query : List F32} {ef layer : Nat} {entry u nb r : UInt64}

theorem mem_named (h : nb ∈ g.neighbours layer u) : nb ∈ g.named layer := by
  rw [neighbours] at h
  cases hlook : g.nodes.lookup u with
  | none =>
      rw [hlook] at h
      cases h
  | some adj =>
      rw [hlook] at h
      exact List.mem_flatMap.mpr ⟨(u, adj), mem_of_lookup hlook, h⟩

-- The search of a layer ends with what its loop has found, in another order.
theorem outcome_searchLayer (heaps : BinaryHeaps) (g : HnswGraph) (query : List F32) (entry : UInt64)
    (ef layer : Nat) :
    ∃ final, searchLoop heaps.candidates heaps.results (g.neighbours layer) (g.dist query) F32_MAX ef
        ((g.named layer).length + 1) (.start heaps.candidates heaps.results (g.dist query) entry) =
        some final ∧
      ((g.searchLayer heaps query entry ef layer).map Prod.snd).Perm final.walk.found := by
  obtain ⟨final, hfinal⟩ := exists_outcome heaps.keepsCandidates heaps.results (fun _ _ h => mem_named h)
    (g.dist query) F32_MAX ef entry
  refine ⟨final, hfinal, ?_⟩
  rw [searchLayer, hfinal]
  exact (List.mergeSort_perm _ _).map Prod.snd

theorem full_start (heaps : BinaryHeaps) (g : HnswGraph) (query : List F32) (entry : UInt64) (layer : Nat) :
    (Search.start heaps.candidates heaps.results (g.dist query) entry).walk.Full (g.Edge layer) entry none :=
  LayerSearch.full_start heaps.keepsCandidates heaps.keepsResults (g.neighbours layer) (g.dist query) entry

theorem nodup_searchLayer (heaps : BinaryHeaps) (g : HnswGraph) (query : List F32) (entry : UInt64)
    (ef layer : Nat) : ((g.searchLayer heaps query entry ef layer).map Prod.snd).Nodup := by
  obtain ⟨final, hfinal, hperm⟩ := outcome_searchLayer heaps g query entry ef layer
  have hsound := sound_searchLoop heaps.keepsCandidates heaps.keepsResults
    (full_start heaps g query entry layer).toSound hfinal
  exact hperm.nodup_iff.mpr hsound.nodup

theorem reaches_searchLayer {c : Candidate} (h : c ∈ g.searchLayer heaps query entry ef layer) :
    g.Reaches layer entry c.2 := by
  obtain ⟨final, hfinal, hperm⟩ := outcome_searchLayer heaps g query entry ef layer
  have hsound := sound_searchLoop heaps.keepsCandidates heaps.keepsResults
    (full_start heaps g query entry layer).toSound hfinal
  exact hsound.reached _ (hsound.kept _ (hperm.mem_iff.mp (List.mem_map_of_mem h)))

theorem complete_searchLayer (heaps : BinaryHeaps) (query : List F32)
    (hef : {v | g.Reaches layer entry v}.ncard ≤ ef) (hreach : g.Reaches layer entry r) :
    r ∈ (g.searchLayer heaps query entry ef layer).map Prod.snd := by
  obtain ⟨final, hfinal, hperm⟩ := outcome_searchLayer heaps g query entry ef layer
  exact hperm.mem_iff.mpr (complete_searchLoop heaps.keepsCandidates heaps.keepsResults
    (full_start heaps g query entry layer) hef hfinal hreach)

end Kkdb.Vector.HnswGraph
