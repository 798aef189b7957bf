import Kkdb.Lib.Graph
import Mathlib.Data.Finset.Card

namespace Kkdb

open Lib Relation

structure WaitEdge where
  waiter : UInt64
  holder : UInt64
  nodeId : UInt64
  deriving DecidableEq, Repr

namespace GlobalDeadlockDetector

-- What the search shares between its calls, and the cycles it has found.
structure Search where
  visited : Finset UInt64 := ∅
  recStack : Finset UInt64 := ∅
  path : List UInt64 := []
  cycles : List (List UInt64) := []

def neighbors (edges : List WaitEdge) (node : UInt64) : List UInt64 :=
  (edges.filter fun e => e.waiter = node).map WaitEdge.holder

def allNodes (edges : List WaitEdge) : Finset UInt64 :=
  (edges.flatMap fun e => [e.waiter, e.holder]).toFinset

namespace Search

def enter (s : Search) (node : UInt64) : Search where
  visited := insert node s.visited
  recStack := insert node s.recStack
  path := s.path ++ [node]
  cycles := s.cycles

def leave (s : Search) (node : UInt64) : Search :=
  { s with path := s.path.dropLast, recStack := s.recStack.erase node }

def report (s : Search) (next : UInt64) : Search :=
  if next ∈ s.path then
    let cycle := s.path.drop (s.path.idxOf next)
    if 2 ≤ cycle.length then { s with cycles := s.cycles ++ [cycle] } else s
  else s

end Search

variable (edges : List WaitEdge)

-- The loop over the neighbours, with the search from a node that was not visited.
def dfsLoop (search : UInt64 → Search → Option Search) : List UInt64 → Search → Option Search
  | [], s => some s
  | next :: rest, s =>
      if next ∉ s.visited then (search next s).bind (dfsLoop search rest)
      else if next ∈ s.recStack then dfsLoop search rest (s.report next)
      else dfsLoop search rest s

-- Nothing comes back when the fuel is used up.
def dfs : Nat → UInt64 → Search → Option Search
  | 0, _, _ => none
  | fuel + 1, node, s =>
      (dfsLoop (dfs fuel) (neighbors edges node) (s.enter node)).map fun s => s.leave node

def detectFrom (fuel : Nat) (s : Search) (start : UInt64) : Option Search :=
  if start ∈ s.visited then some s else dfs edges fuel start { s with path := [] }

-- `detect_cycles`, with the nodes in the order in which the hash set gives them.
def detectCycles (order : List UInt64) : Option (List (List UInt64)) :=
  (order.foldlM (detectFrom edges (allNodes edges).card) {}).map Search.cycles

def Edge (a b : UInt64) : Prop := ∃ e ∈ edges, e.waiter = a ∧ e.holder = b

variable {edges} {a b node next : UInt64} {path rest : List UInt64} {s s' : Search} {fuel : Nat}

theorem mem_neighbors : b ∈ neighbors edges a ↔ Edge edges a b := by
  rw [neighbors, List.mem_map, Edge]
  simp only [List.mem_filter, decide_eq_true_eq, and_assoc]

theorem mem_allNodes_of_edge (h : Edge edges a b) : a ∈ allNodes edges ∧ b ∈ allNodes edges := by
  obtain ⟨e, he, rfl, rfl⟩ := h
  constructor
  · exact List.mem_toFinset.mpr (List.mem_flatMap.mpr ⟨e, he, List.mem_cons_self⟩)
  · exact List.mem_toFinset.mpr (List.mem_flatMap.mpr ⟨e, he, List.mem_cons_of_mem _ List.mem_cons_self⟩)

-- What holds while the search is at the end of a path. As long as no cycle is found, every walk from a node
-- that it has left comes to an end.
structure Search.Sound (edges : List WaitEdge) (path : List UInt64) (s : Search) : Prop where
  path_eq : s.path = path
  nodup : path.Nodup
  chain : path.IsChain (Edge edges)
  stacked : ∀ v, v ∈ s.recStack ↔ v ∈ path
  entered : ∀ v ∈ path, v ∈ s.visited
  genuine : ∀ c ∈ s.cycles, Cycle (Edge edges) c ∧ 2 ≤ c.length
  settled : s.cycles = [] → ∀ v ∈ s.visited, v ∉ path → Acc (Below (Edge edges)) v

structure Search.Grows (s s' : Search) : Prop where
  visited : s.visited ⊆ s'.visited
  cycles : s'.cycles = [] → s.cycles = []

namespace Search

theorem Grows.refl (s : Search) : Grows s s := ⟨Finset.Subset.refl _, id⟩

theorem Grows.trans {s'' : Search} (h : Grows s s') (h' : Grows s' s'') : Grows s s'' :=
  ⟨h.visited.trans h'.visited, fun hnone => h.cycles (h'.cycles hnone)⟩

theorem Sound.enter (h : s.Sound edges path) (hnode : node ∉ s.visited)
    (hchain : (path ++ [node]).IsChain (Edge edges)) : (s.enter node).Sound edges (path ++ [node]) where
  path_eq := congrArg (· ++ [node]) h.path_eq
  nodup := by
    refine h.nodup.append (List.nodup_singleton _) fun v hv hmem => hnode ?_
    rw [← List.mem_singleton.mp hmem]
    exact h.entered v hv
  chain := hchain
  stacked := fun v => by
    rw [Search.enter, Finset.mem_insert, h.stacked v, List.mem_append, List.mem_singleton, or_comm]
  entered := by
    intro v hv
    rcases List.mem_append.mp hv with hv | hv
    · exact Finset.mem_insert_of_mem (h.entered v hv)
    · exact Finset.mem_insert.mpr (.inl (List.mem_singleton.mp hv))
  genuine := h.genuine
  settled := by
    intro hnone v hv hpath
    rw [List.mem_append, List.mem_singleton, not_or] at hpath
    exact h.settled hnone v ((Finset.mem_insert.mp hv).resolve_left hpath.2) hpath.1

theorem Sound.leave (h : s.Sound edges (path ++ [node]))
    (hnode : s.cycles = [] → Acc (Below (Edge edges)) node) : (s.leave node).Sound edges path where
  path_eq := by rw [Search.leave, h.path_eq, List.dropLast_concat]
  nodup := (List.nodup_append.mp h.nodup).1
  chain := h.chain.left_of_append
  stacked := fun v => by
    have hnotin : node ∉ path := fun hmem =>
      (List.nodup_append.mp h.nodup).2.2 node hmem node List.mem_cons_self rfl
    rw [Search.leave, Finset.mem_erase, h.stacked v, List.mem_append, List.mem_singleton]
    constructor
    · exact fun hv => hv.2.resolve_right hv.1
    · intro hv
      exact ⟨fun heq => hnotin (heq ▸ hv), .inl hv⟩
  entered := fun v hv => h.entered v (List.mem_append_left _ hv)
  genuine := h.genuine
  settled := by
    intro hnone v hv hpath
    by_cases heq : v = node
    · exact heq ▸ hnode hnone
    · refine h.settled hnone v hv fun hmem => ?_
      rcases List.mem_append.mp hmem with hmem | hmem
      · exact hpath hmem
      · exact heq (List.mem_singleton.mp hmem)

-- The way from a node of the path back to it is a cycle, unless the node is the last one.
theorem Sound.report (h : s.Sound edges (path ++ [node])) (hedge : Edge edges node next)
    (hnext : next ∈ path ++ [node]) : (s.report next).Sound edges (path ++ [node]) ∧
      Grows s (s.report next) ∧ ((s.report next).cycles = [] → next = node) := by
  obtain ⟨front, back, hsplit⟩ := List.append_of_mem hnext
  have hnodup := h.nodup
  rw [hsplit] at hnodup
  have hfront : next ∉ front := fun hmem =>
    (List.nodup_append.mp hnodup).2.2 next hmem next List.mem_cons_self rfl
  have hdrop : s.path.drop (s.path.idxOf next) = next :: back := by
    rw [h.path_eq, hsplit, List.idxOf_append_of_notMem hfront, List.idxOf_cons_self, Nat.add_zero,
      List.drop_left]
  have hlast : (next :: back).getLast? = some node := by
    have hwhole : (path ++ [node]).getLast? = some node := List.getLast?_concat
    rw [hsplit, List.getLast?_append_cons] at hwhole
    exact hwhole
  have hreport : s.report next =
      if 2 ≤ (next :: back).length then { s with cycles := s.cycles ++ [next :: back] } else s := by
    unfold Search.report
    rw [h.path_eq, if_pos hnext, ← h.path_eq, hdrop]
  rw [hreport]
  split_ifs with hlen
  · have hchain := h.chain
    rw [hsplit] at hchain
    have hcycle : Cycle (Edge edges) (next :: back) := by
      refine ⟨(List.nodup_append.mp hnodup).2.1, hchain.right_of_append, ?_⟩
      intro first hfirst last hlast'
      obtain rfl := Option.some.inj hfirst
      obtain rfl := Option.some.inj (hlast.symm.trans hlast')
      exact hedge
    refine ⟨⟨h.path_eq, h.nodup, h.chain, h.stacked, h.entered, ?_, ?_⟩, ⟨Finset.Subset.refl _, ?_⟩, ?_⟩
    · exact List.forall_mem_append.mpr ⟨h.genuine, List.forall_mem_singleton.mpr ⟨hcycle, hlen⟩⟩
    all_goals exact fun hnone => absurd hnone (List.concat_ne_nil _ _)
  · refine ⟨h, Grows.refl s, fun _ => ?_⟩
    cases back with
    | nil => exact Option.some.inj hlast
    | cons c back => exact absurd hlen (by simp)

end Search

def Searches (edges : List WaitEdge) (fuel : Nat) (path : List UInt64)
    (search : UInt64 → Search → Option Search) : Prop :=
  ∀ next s, s.Sound edges path → next ∉ s.visited → next ∈ allNodes edges →
    (path ++ [next]).IsChain (Edge edges) → (allNodes edges \ s.visited).card ≤ fuel →
    ∃ s', search next s = some s' ∧ s'.Sound edges path ∧ s.Grows s' ∧ next ∈ s'.visited

theorem dfsLoop_sound {search : UInt64 → Search → Option Search}
    (hsearch : Searches edges fuel (path ++ [node]) search) (hrest : ∀ next ∈ rest, Edge edges node next)
    (h : s.Sound edges (path ++ [node])) (hfuel : (allNodes edges \ s.visited).card ≤ fuel) :
    ∃ s', dfsLoop search rest s = some s' ∧ s'.Sound edges (path ++ [node]) ∧ s.Grows s' ∧
      (s'.cycles = [] → ∀ next ∈ rest, next ≠ node → Acc (Below (Edge edges)) next) := by
  induction rest generalizing s with
  | nil => exact ⟨s, rfl, h, .refl s, fun _ _ hmem => absurd hmem List.not_mem_nil⟩
  | cons next rest ih =>
      obtain ⟨hedge, hrest⟩ := List.forall_mem_cons.mp hrest
      rw [dfsLoop]
      by_cases hvisited : next ∉ s.visited
      · rw [if_pos hvisited]
        have hchain : (path ++ [node] ++ [next]).IsChain (Edge edges) := by
          refine h.chain.append (List.isChain_singleton _) fun last hlast first hfirst => ?_
          obtain rfl := Option.some.inj (List.getLast?_concat.symm.trans hlast)
          obtain rfl := Option.some.inj hfirst
          exact hedge
        obtain ⟨s₁, hrun, hsound, hgrows, hseen⟩ :=
          hsearch next s h hvisited (mem_allNodes_of_edge hedge).2 hchain hfuel
        have hless := Finset.card_le_card (Finset.sdiff_subset_sdiff
          (Finset.Subset.refl (allNodes edges)) hgrows.visited)
        obtain ⟨s₂, hrun', hsound', hgrows', hacc⟩ := ih hrest hsound (hless.trans hfuel)
        rw [hrun]
        refine ⟨s₂, hrun', hsound', hgrows.trans hgrows', fun hnone => ?_⟩
        refine List.forall_mem_cons.mpr ⟨fun _ => ?_, hacc hnone⟩
        refine hsound.settled (hgrows'.cycles hnone) next hseen fun hmem => hvisited (h.entered next hmem)
      · rw [if_neg hvisited]
        rw [not_not] at hvisited
        by_cases hstack : next ∈ s.recStack
        · rw [if_pos hstack]
          obtain ⟨hsound, hgrows, hself⟩ := h.report hedge ((h.stacked next).mp hstack)
          have hless := Finset.card_le_card (Finset.sdiff_subset_sdiff
            (Finset.Subset.refl (allNodes edges)) hgrows.visited)
          obtain ⟨s₂, hrun', hsound', hgrows', hacc⟩ := ih hrest hsound (hless.trans hfuel)
          refine ⟨s₂, hrun', hsound', hgrows.trans hgrows', fun hnone => ?_⟩
          refine List.forall_mem_cons.mpr ⟨fun hne => ?_, hacc hnone⟩
          exact absurd (hself (hgrows'.cycles hnone)) hne
        · rw [if_neg hstack]
          obtain ⟨s₂, hrun', hsound', hgrows', hacc⟩ := ih hrest h hfuel
          refine ⟨s₂, hrun', hsound', hgrows', fun hnone => ?_⟩
          refine List.forall_mem_cons.mpr ⟨fun _ => ?_, hacc hnone⟩
          exact h.settled (hgrows'.cycles hnone) next hvisited fun hmem => hstack ((h.stacked next).mpr hmem)

-- By induction on the fuel, which is at least the number of nodes that were not visited.
theorem dfs_sound (fuel : Nat) (path : List UInt64) : Searches edges fuel path (dfs edges fuel) := by
  induction fuel generalizing path with
  | zero =>
      intro node s h hnode hmem hchain hfuel
      have hpos := Finset.card_pos.mpr ⟨node, Finset.mem_sdiff.mpr ⟨hmem, hnode⟩⟩
      omega
  | succ fuel ih =>
      intro node s h hnode hmem hchain hfuel
      have hfuel' : (allNodes edges \ (s.enter node).visited).card ≤ fuel := by
        have hin : node ∈ allNodes edges \ s.visited := Finset.mem_sdiff.mpr ⟨hmem, hnode⟩
        rw [Search.enter, Finset.sdiff_insert, Finset.card_erase_of_mem hin]
        omega
      have hneighbors : ∀ next ∈ neighbors edges node, Edge edges node next := fun _ => mem_neighbors.mp
      obtain ⟨s', hrun, hsound, hgrows, hacc⟩ :=
        dfsLoop_sound (ih (path ++ [node])) hneighbors (h.enter hnode hchain) hfuel'
      refine ⟨s'.leave node, by rw [dfs, hrun, Option.map_some], hsound.leave fun hnone => ?_, ?_, ?_⟩
      · exact .intro node fun next hnext => hacc hnone next (mem_neighbors.mpr hnext.1) hnext.2
      · exact ⟨(Finset.subset_insert _ _).trans hgrows.visited, hgrows.cycles⟩
      · exact hgrows.visited (Finset.mem_insert_self _ _)

theorem detectFrom_sound (h : s.Sound edges []) (hnode : node ∈ allNodes edges) :
    ∃ s', detectFrom edges (allNodes edges).card s node = some s' ∧ s'.Sound edges [] ∧ s.Grows s' ∧
      node ∈ s'.visited := by
  rw [detectFrom]
  split_ifs with hvisited
  · exact ⟨s, rfl, h, .refl s, hvisited⟩
  · have hstart : { s with path := [] } = s := by rw [← h.path_eq]
    rw [hstart]
    exact dfs_sound _ [] node s h hvisited hnode (List.isChain_singleton _)
      (Finset.card_le_card Finset.sdiff_subset)

theorem detect_sound {order : List UInt64} (h : s.Sound edges []) (horder : ∀ v ∈ order, v ∈ allNodes edges) :
    ∃ s', order.foldlM (detectFrom edges (allNodes edges).card) s = some s' ∧ s'.Sound edges [] ∧
      s.Grows s' ∧ ∀ v ∈ order, v ∈ s'.visited := by
  induction order generalizing s with
  | nil => exact ⟨s, rfl, h, .refl s, fun _ hmem => absurd hmem List.not_mem_nil⟩
  | cons node order ih =>
      obtain ⟨hnode, horder⟩ := List.forall_mem_cons.mp horder
      obtain ⟨s₁, hrun, hsound, hgrows, hseen⟩ := detectFrom_sound h hnode
      obtain ⟨s₂, hrun', hsound', hgrows', hall⟩ := ih hsound horder
      refine ⟨s₂, ?_, hsound', hgrows.trans hgrows', ?_⟩
      · rw [List.foldlM_cons, hrun]
        exact hrun'
      · exact List.forall_mem_cons.mpr ⟨hgrows'.visited hseen, hall⟩

-- The detector comes to an end for every order of the nodes. It reports cycles of two or more nodes, and some
-- if and only if there is one.
theorem detectCycles_iff (edges : List WaitEdge) (order : List UInt64)
    (horder : ∀ v, v ∈ order ↔ v ∈ allNodes edges) :
    ∃ cycles, detectCycles edges order = some cycles ∧
      (∀ c ∈ cycles, Cycle (Edge edges) c ∧ 2 ≤ c.length) ∧ (cycles ≠ [] ↔ Cyclic (Edge edges)) := by
  have hstart : Search.Sound edges [] {} :=
    ⟨rfl, List.nodup_nil, List.isChain_nil, fun v => by simp, fun _ hmem => absurd hmem List.not_mem_nil,
      fun _ hmem => absurd hmem List.not_mem_nil, fun _ v hv => absurd hv (Finset.notMem_empty v)⟩
  obtain ⟨s, hrun, hsound, -, hall⟩ := detect_sound hstart fun v => (horder v).mp
  refine ⟨s.cycles, by rw [detectCycles, hrun, Option.map_some], hsound.genuine, ?_, ?_⟩
  · intro hsome
    obtain ⟨c, hc⟩ := List.exists_mem_of_ne_nil _ hsome
    obtain ⟨hcycle, hlen⟩ := hsound.genuine c hc
    exact hcycle.cyclic hlen
  · intro hcyclic hnone
    refine not_cyclic_of_acc (fun a b hedge => ?_) hcyclic
    have ha := hall a ((horder a).mpr (mem_allNodes_of_edge hedge).1)
    exact hsound.settled hnone a ha List.not_mem_nil

def crossedEdges : List WaitEdge := [⟨1, 2, 10⟩, ⟨2, 1, 20⟩]

theorem detectCycles_crossed : ∃ cycles, detectCycles crossedEdges [2, 1] = some cycles ∧
    (∀ c ∈ cycles, Cycle (Edge crossedEdges) c ∧ 2 ≤ c.length) ∧
    (cycles ≠ [] ↔ Cyclic (Edge crossedEdges)) := by
  refine detectCycles_iff crossedEdges [2, 1] fun v => ?_
  simp only [crossedEdges, allNodes, List.mem_cons, List.not_mem_nil, or_false, List.flatMap_cons,
    List.flatMap_nil, List.append_nil, List.cons_append, List.nil_append, List.mem_toFinset]
  tauto

end GlobalDeadlockDetector

end Kkdb
