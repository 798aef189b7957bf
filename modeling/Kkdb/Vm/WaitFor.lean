import Kkdb.Lib.Graph
import Kkdb.Vm.LockManager
import Mathlib.Data.Finset.Card

namespace Kkdb

open Lib Relation

-- A transaction that waits, with the one that it waits for. The hash map is the list of its entries.
structure WaitForGraph where
  edges : List (Nat × Nat)

namespace WaitForGraph

def new : WaitForGraph where
  edges := []

def addWait (g : WaitForGraph) (waiter holder : Nat) : WaitForGraph where
  edges := put waiter holder g.edges

def removeWait (g : WaitForGraph) (waiter : Nat) : WaitForGraph where
  edges := remove waiter g.edges

def removeTransaction (g : WaitForGraph) (txnId : Nat) : WaitForGraph where
  edges := (remove txnId g.edges).filter fun e => e.2 ≠ txnId

-- The loop of `detect_deadlock`. Nothing comes back when the fuel is used up.
def followChain (g : WaitForGraph) (waiter : Nat) :
    Nat → List Nat → List Nat → Nat → Option (Option (List Nat))
  | 0, _, _, _ => none
  | fuel + 1, visited, cycle, current =>
      match g.edges.lookup current with
      | none => some none
      | some next =>
          if next = waiter then some (some (cycle ++ [waiter]))
          else if next ∈ visited then some none
          else followChain g waiter fuel (next :: visited) (cycle ++ [next]) next

def detectDeadlock (g : WaitForGraph) (waiter holder : Nat) : Option (Option (List Nat)) :=
  if waiter = holder then some (some [waiter, holder])
  else g.followChain waiter (g.edges.length + 1) [holder, waiter] [waiter, holder] holder

end WaitForGraph

inductive WaitOp where
  | AddWait (waiter holder : Nat)
  | RemoveWait (waiter : Nat)
  | RemoveTransaction (txnId : Nat)

namespace WaitOp

def step (g : WaitForGraph) : WaitOp → WaitForGraph
  | AddWait waiter holder => g.addWait waiter holder
  | RemoveWait waiter => g.removeWait waiter
  | RemoveTransaction txnId => g.removeTransaction txnId

def build (ops : List WaitOp) : WaitForGraph := ops.foldl step .new

def record (waits : Nat → Option Nat) : WaitOp → Nat → Option Nat
  | AddWait waiter holder => fun a => if a = waiter then some holder else waits a
  | RemoveWait waiter => fun a => if a = waiter then none else waits a
  | RemoveTransaction txnId => fun a => if a = txnId then none else (waits a).filter fun b => b ≠ txnId

def recorded (ops : List WaitOp) : Nat → Option Nat := ops.foldl record fun _ => none

def Waits (ops : List WaitOp) (a b : Nat) : Prop := recorded ops a = some b

variable {g : WaitForGraph} {waits : Nat → Option Nat}

-- The map holds what is recorded, each waiter once.
structure Tracks (g : WaitForGraph) (waits : Nat → Option Nat) : Prop where
  nodup : (g.edges.map Prod.fst).Nodup
  lookup : ∀ a, g.edges.lookup a = waits a

theorem nodup_remove (h : (g.edges.map Prod.fst).Nodup) (k : Nat) :
    ((Lib.remove k g.edges).map Prod.fst).Nodup :=
  h.sublist (List.filter_sublist.map Prod.fst)

theorem Tracks.step (h : Tracks g waits) (op : WaitOp) : Tracks (op.step g) (op.record waits) := by
  cases op with
  | AddWait waiter holder =>
      refine ⟨nodup_put h.nodup, fun a => ?_⟩
      exact (lookup_put a).trans (by rw [h.lookup a]; rfl)
  | RemoveWait waiter =>
      refine ⟨nodup_remove h.nodup waiter, fun a => ?_⟩
      exact (lookup_remove a).trans (by rw [h.lookup a]; rfl)
  | RemoveTransaction txnId =>
      have hrest := nodup_remove h.nodup txnId
      refine ⟨hrest.sublist (List.filter_sublist.map Prod.fst), fun a => ?_⟩
      have hretain := lookup_retain (fun holder : Nat => decide (holder ≠ txnId)) hrest a
      rw [lookup_remove, h.lookup a] at hretain
      refine hretain.trans ?_
      by_cases ha : a = txnId
      · simp [record, ha]
      · simp [record, ha]

theorem tracks_build (ops : List WaitOp) : Tracks (build ops) (recorded ops) := by
  have hrun : ∀ {g waits}, Tracks g waits → Tracks (ops.foldl WaitOp.step g) (ops.foldl record waits) := by
    induction ops with
    | nil => exact id
    | cons op ops ih => exact fun h => ih (h.step op)
  exact hrun ⟨List.nodup_nil, fun _ => rfl⟩

end WaitOp

namespace WaitForGraph

variable {g : WaitForGraph} {waiter holder current next fuel : Nat} {visited chain : List Nat}

def Edge (g : WaitForGraph) (a b : Nat) : Prop := g.edges.lookup a = some b

def Extended (waits : Nat → Nat → Prop) (waiter holder a b : Nat) : Prop :=
  waits a b ∨ a = waiter ∧ b = holder

-- What an answer of the detector means.
structure Answers (waits : Nat → Nat → Prop) (waiter holder : Nat) (answer : Option (List Nat)) : Prop where
  deadlock_iff : answer.isSome ↔ waiter = holder ∨ ReflTransGen waits holder waiter
  genuine : ∀ cycle ∈ answer, ∃ nodes, cycle = waiter :: nodes ++ [waiter] ∧
    Cycle (Extended waits waiter holder) (waiter :: nodes)

-- Where the loop is: behind the chain from the holder to the current transaction.
structure Following (g : WaitForGraph) (waiter holder current : Nat) (visited chain : List Nat) : Prop where
  apart : waiter ≠ holder
  nodup : (waiter :: chain).Nodup
  linked : (waiter :: chain).IsChain (Extended g.Edge waiter holder)
  starts : chain.head? = some holder
  ends : chain.getLast? = some current
  seen : ∀ a, a ∈ visited ↔ a = waiter ∨ a ∈ chain
  reached : ReflTransGen g.Edge holder current
  followed : ∀ a ∈ chain, a ≠ current → ∀ b, g.Edge a b → b ∈ chain

theorem following_start (h : waiter ≠ holder) :
    g.Following waiter holder holder [holder, waiter] [holder] where
  apart := h
  nodup := List.nodup_cons.mpr ⟨fun hmem => h (List.mem_singleton.mp hmem), List.nodup_singleton _⟩
  linked := List.isChain_pair.mpr (.inr ⟨rfl, rfl⟩)
  starts := rfl
  ends := rfl
  seen := fun a => by rw [List.mem_cons, List.mem_singleton, List.mem_singleton, or_comm]
  reached := .refl
  followed := fun a ha hne => absurd (List.mem_singleton.mp ha) hne

theorem Following.step (h : g.Following waiter holder current visited chain) (hedge : g.Edge current next)
    (hnext : next ∉ visited) : g.Following waiter holder next (next :: visited) (chain ++ [next]) where
  apart := h.apart
  nodup := by
    rw [← List.cons_append]
    refine h.nodup.append (List.nodup_singleton _) fun a ha hmem => hnext ?_
    rw [← List.mem_singleton.mp hmem]
    exact (h.seen a).mpr (List.mem_cons.mp ha)
  linked := by
    rw [← List.cons_append]
    refine h.linked.append (List.isChain_singleton _) fun last hlast first hfirst => ?_
    have hcurrent : (waiter :: chain).getLast? = some current := by
      rw [List.getLast?_cons, h.ends]
      rfl
    obtain rfl := Option.some.inj (hcurrent.symm.trans hlast)
    obtain rfl := Option.some.inj hfirst
    exact .inl hedge
  starts := by rw [List.head?_append, h.starts]; rfl
  ends := List.getLast?_concat
  seen := fun a => by
    rw [List.mem_cons, h.seen a, List.mem_append, List.mem_singleton]
    tauto
  reached := h.reached.tail hedge
  followed := by
    intro a ha hne b hab
    rcases List.mem_append.mp ha with ha | ha
    · by_cases hcurrent : a = current
      · subst hcurrent
        obtain rfl := Option.some.inj (hedge.symm.trans hab)
        exact List.mem_append_right _ List.mem_cons_self
      · exact List.mem_append_left _ (h.followed a ha hcurrent b hab)
    · exact absurd (List.mem_singleton.mp ha) hne

-- Where the chain ends, or comes back to itself, nothing leaves it.
theorem Following.not_reached (h : g.Following waiter holder current visited chain)
    (hclosed : ∀ b, g.Edge current b → b ∈ chain) : ¬ReflTransGen g.Edge holder waiter := by
  intro hreach
  refine (List.nodup_cons.mp h.nodup).1 ?_
  refine mem_of_closed (S := {a | a ∈ chain}) (List.mem_of_head? h.starts) ?_ hreach
  intro a ha b hab
  by_cases hcurrent : a = current
  · exact hclosed b (hcurrent ▸ hab)
  · exact h.followed a ha hcurrent b hab

theorem Following.cycle (h : g.Following waiter holder current visited chain)
    (hedge : g.Edge current waiter) : Cycle (Extended g.Edge waiter holder) (waiter :: chain) where
  nodup := h.nodup
  chain := h.linked
  closes := by
    intro first hfirst last hlast
    have hcurrent : (waiter :: chain).getLast? = some current := by
      rw [List.getLast?_cons, h.ends]
      rfl
    obtain rfl := Option.some.inj hfirst
    obtain rfl := Option.some.inj (hcurrent.symm.trans hlast)
    exact .inl hedge

def fresh (g : WaitForGraph) (visited : List Nat) : Nat := g.edges.countP fun e => e.2 ∉ visited

theorem fresh_lt (hedge : g.Edge current next) (hnext : next ∉ visited) :
    g.fresh (next :: visited) < g.fresh visited := by
  obtain ⟨before, after, hedges⟩ := List.append_of_mem (mem_of_lookup hedge)
  have hless : ∀ edges : List (Nat × Nat),
      edges.countP (fun e => e.2 ∉ next :: visited) ≤ edges.countP fun e => e.2 ∉ visited := by
    intro edges
    refine List.countP_mono_left fun e _ he => ?_
    simp only [List.mem_cons, not_or, decide_eq_true_eq] at he ⊢
    exact he.2
  have hbefore := hless before
  have hafter := hless after
  rw [fresh, fresh, hedges, List.countP_append, List.countP_append, List.countP_cons_of_neg (by simp),
    List.countP_cons_of_pos (by simpa using hnext)]
  omega

theorem followChain_answers (h : g.Following waiter holder current visited chain)
    (hfuel : g.fresh visited < fuel) : ∃ answer,
      g.followChain waiter fuel visited (waiter :: chain) current = some answer ∧
        Answers g.Edge waiter holder answer := by
  induction fuel generalizing visited chain current with
  | zero => exact absurd hfuel (Nat.not_lt_zero _)
  | succ fuel ih =>
      rw [followChain]
      cases hnext : g.edges.lookup current with
      | none =>
          have hnone := h.not_reached fun b hb => absurd (hnext.symm.trans hb) (Option.some_ne_none b).symm
          refine ⟨none, rfl, ⟨iff_of_false Bool.false_ne_true ?_, fun _ hmem => absurd hmem (Option.not_mem_none _)⟩⟩
          rintro (heq | hreach)
          · exact h.apart heq
          · exact hnone hreach
      | some next =>
          dsimp only
          by_cases hwaiter : next = waiter
          · subst hwaiter
            rw [if_pos rfl]
            refine ⟨_, rfl, ⟨iff_of_true rfl (.inr (h.reached.tail hnext)), ?_⟩⟩
            intro cycle hcycle
            exact ⟨chain, (Option.some.inj hcycle).symm, h.cycle hnext⟩
          · rw [if_neg hwaiter]
            by_cases hvisited : next ∈ visited
            · rw [if_pos hvisited]
              have hchain : next ∈ chain := ((h.seen next).mp hvisited).resolve_left hwaiter
              have hnone := h.not_reached fun b hb => Option.some.inj (hnext.symm.trans hb) ▸ hchain
              refine ⟨none, rfl, ⟨iff_of_false Bool.false_ne_true ?_, fun _ hmem => absurd hmem (Option.not_mem_none _)⟩⟩
              rintro (heq | hreach)
              · exact h.apart heq
              · exact hnone hreach
            · rw [if_neg hvisited]
              have hless := fresh_lt hnext hvisited
              exact ih (h.step hnext hvisited) (by omega)

theorem detectDeadlock_answers (g : WaitForGraph) (waiter holder : Nat) :
    ∃ answer, g.detectDeadlock waiter holder = some answer ∧ Answers g.Edge waiter holder answer := by
  unfold detectDeadlock
  by_cases h : waiter = holder
  · subst h
    rw [if_pos rfl]
    refine ⟨_, rfl, ⟨iff_of_true rfl (.inl rfl), ?_⟩⟩
    intro cycle hcycle
    refine ⟨[], (Option.some.inj hcycle).symm, ⟨List.nodup_singleton _, List.isChain_singleton _, ?_⟩⟩
    intro first hfirst last hlast
    obtain rfl := Option.some.inj hfirst
    obtain rfl := Option.some.inj hlast
    exact .inr ⟨rfl, rfl⟩
  · rw [if_neg h]
    refine followChain_answers (following_start h) (Nat.lt_succ_of_le ?_)
    exact List.countP_le_length

end WaitForGraph

namespace LockTable

variable {lt : LockTable} {start txn a b fuel : Nat} {visited stack holders : List Nat}

-- A transaction waits for the holders of the locks on the tables it waits for, itself left out.
def WaitsFor (lt : LockTable) (a b : Nat) : Prop :=
  b ≠ a ∧ ∃ tbl ∈ lt.waiting a, ∃ e ∈ lt.entries tbl, e.holderTxn = b

theorem mem_blockers : b ∈ lt.blockers a ↔ lt.WaitsFor a b := by
  rw [blockers, List.mem_filter, List.mem_flatMap, WaitsFor, decide_eq_true_eq, and_comm]
  simp only [List.mem_map]

theorem mem_explore_visited :
    a ∈ (explore holders visited stack).1 ↔ a ∈ visited ∨ a ∈ holders := by
  induction holders generalizing visited stack with
  | nil => simp [explore]
  | cons holder holders ih =>
      rw [explore]
      split_ifs with hseen
      · rw [ih, List.mem_cons]
        constructor
        · exact fun h => h.imp_right .inr
        · rintro (h | rfl | h)
          · exact .inl h
          · exact .inl hseen
          · exact .inr h
      · rw [ih, List.mem_cons, List.mem_cons, or_comm (a := a = holder), or_assoc]

theorem mem_explore_stack :
    a ∈ (explore holders visited stack).2 ↔ a ∈ stack ∨ a ∈ holders ∧ a ∉ visited := by
  induction holders generalizing visited stack with
  | nil => simp [explore]
  | cons holder holders ih =>
      rw [explore]
      split_ifs with hseen
      · rw [ih, List.mem_cons]
        refine or_congr_right (and_congr_left fun hnot => ?_)
        exact ⟨.inr, fun h => h.resolve_left fun heq => hnot (heq ▸ hseen)⟩
      · rw [ih, List.mem_cons, List.mem_cons, List.mem_cons]
        by_cases ha : a = holder
        · subst ha
          simp [hseen]
        · simp [ha]

-- The holders that were not visited, with those that are on the stack.
def pending (all : Finset Nat) (visited stack : List Nat) : Nat :=
  (all \ visited.toFinset).card + stack.length

theorem pending_explore {all : Finset Nat} (h : ∀ holder ∈ holders, holder ∈ all) :
    pending all (explore holders visited stack).1 (explore holders visited stack).2 =
      pending all visited stack := by
  induction holders generalizing visited stack with
  | nil => rfl
  | cons holder holders ih =>
      obtain ⟨hholder, hrest⟩ := List.forall_mem_cons.mp h
      rw [explore]
      split_ifs with hseen
      · exact ih hrest
      · rw [ih hrest, pending, pending, List.toFinset_cons, Finset.sdiff_insert, List.length_cons]
        have hmem : holder ∈ all \ visited.toFinset :=
          Finset.mem_sdiff.mpr ⟨hholder, fun h => hseen (List.mem_toFinset.mp h)⟩
        have hpos := Finset.card_pos.mpr ⟨holder, hmem⟩
        rw [Finset.card_erase_of_mem hmem]
        omega

-- What is visited is reached. What is visited and off the stack does not wait for the start, and waits for
-- visited transactions only.
structure Searching (lt : LockTable) (start : Nat) (visited stack : List Nat) : Prop where
  reached : ∀ a ∈ stack, ReflTransGen lt.WaitsFor start a
  stacked : ∀ a ∈ stack, a = start ∨ a ∈ visited
  explored : ∀ a, a = start ∨ a ∈ visited → a ∉ stack → ∀ b, lt.WaitsFor a b → b ∈ visited ∧ b ≠ start

theorem Searching.not_again (h : lt.Searching start visited []) : ¬TransGen lt.WaitsFor start start := by
  intro hagain
  obtain ⟨first, hfirst, hrest⟩ := TransGen.head'_iff.mp hagain
  have hclosed := mem_of_closed (S := {a | a ∈ visited ∧ a ≠ start})
    (h.explored start (.inl rfl) List.not_mem_nil first hfirst)
    (fun a ha b hab => h.explored a (.inr ha.1) List.not_mem_nil b hab) hrest
  exact hclosed.2 rfl

theorem Searching.step (h : lt.Searching start visited (txn :: stack)) (hstart : ¬lt.WaitsFor txn start) :
    lt.Searching start (explore (lt.blockers txn) visited stack).1
      (explore (lt.blockers txn) visited stack).2 where
  reached := by
    intro a ha
    rcases mem_explore_stack.mp ha with ha | ⟨ha, -⟩
    · exact h.reached a (List.mem_cons_of_mem _ ha)
    · exact (h.reached txn List.mem_cons_self).tail (mem_blockers.mp ha)
  stacked := by
    intro a ha
    rcases mem_explore_stack.mp ha with ha | ⟨ha, -⟩
    · exact (h.stacked a (List.mem_cons_of_mem _ ha)).imp_right fun hv => mem_explore_visited.mpr (.inl hv)
    · exact .inr (mem_explore_visited.mpr (.inr ha))
  explored := by
    intro a ha hstack b hab
    rw [mem_explore_stack, not_or, not_and_not_right] at hstack
    have hseen : a = start ∨ a ∈ visited := by
      rcases ha with rfl | ha
      · exact .inl rfl
      · exact .inr ((mem_explore_visited.mp ha).elim id hstack.2)
    by_cases htxn : a = txn
    · subst htxn
      refine ⟨mem_explore_visited.mpr (.inr (mem_blockers.mpr hab)), ?_⟩
      rintro rfl
      exact hstart hab
    · have hnot : a ∉ txn :: stack := fun hmem => (List.mem_cons.mp hmem).elim htxn hstack.1
      have hb := h.explored a hseen hnot b hab
      exact ⟨mem_explore_visited.mpr (.inl hb.1), hb.2⟩

theorem walk_iff {all : Finset Nat} (hall : ∀ a b, lt.WaitsFor a b → b ∈ all)
    (h : lt.Searching start visited stack) (hfuel : pending all visited stack ≤ fuel) :
    lt.walk start fuel visited stack = true ↔ TransGen lt.WaitsFor start start := by
  induction fuel generalizing visited stack with
  | zero =>
      have hstack : stack = [] := List.eq_nil_of_length_eq_zero (by unfold pending at hfuel; omega)
      subst hstack
      exact iff_of_false Bool.false_ne_true h.not_again
  | succ fuel ih =>
      cases stack with
      | nil => exact iff_of_false Bool.false_ne_true h.not_again
      | cons txn stack =>
          rw [walk]
          by_cases hstart : start ∈ lt.blockers txn
          · rw [if_pos hstart]
            refine iff_of_true rfl ?_
            exact TransGen.tail' (h.reached txn List.mem_cons_self) (mem_blockers.mp hstart)
          · rw [if_neg hstart]
            refine ih (h.step fun hwaits => hstart (mem_blockers.mpr hwaits)) ?_
            rw [pending_explore fun b hb => hall _ b (mem_blockers.mp hb)]
            rw [pending, List.length_cons] at hfuel
            rw [pending]
            omega

def allHolders (lt : LockTable) : List Nat := lt.locks.flatMap fun e => e.2.map (·.holderTxn)

theorem mem_allHolders (h : lt.WaitsFor a b) : b ∈ lt.allHolders := by
  obtain ⟨-, tbl, -, e, he, rfl⟩ := h
  rw [entries, lookupD] at he
  cases hlookup : lt.locks.lookup tbl with
  | none =>
      rw [hlookup] at he
      cases he
  | some es =>
      rw [hlookup] at he
      exact List.mem_flatMap.mpr ⟨(tbl, es), mem_of_lookup hlookup, List.mem_map_of_mem he⟩

theorem length_allHolders : lt.allHolders.length = (lt.locks.map fun e => e.2.length).sum := by
  rw [allHolders, List.length_flatMap]
  simp only [List.length_map]

theorem hasCycle_iff (lt : LockTable) (start : Nat) :
    lt.hasCycle start = true ↔ TransGen lt.WaitsFor start start := by
  have hall : ∀ a b, lt.WaitsFor a b → b ∈ lt.allHolders.toFinset :=
    fun a b h => List.mem_toFinset.mpr (mem_allHolders h)
  refine walk_iff hall ⟨fun a ha => ?_, fun a ha => .inl (List.mem_singleton.mp ha), ?_⟩ ?_
  · rw [List.mem_singleton.mp ha]
  · rintro a (rfl | hvisited) hstack
    · exact absurd List.mem_cons_self hstack
    · cases hvisited
  · have hcard := lt.allHolders.toFinset_card_le
    rw [length_allHolders] at hcard
    rw [pending, List.toFinset_nil, Finset.sdiff_empty, List.length_singleton]
    omega

end LockTable

-- The detector of the graph always answers, with a cycle when the holder waits for the waiter over whatever
-- others. The one of the locks finds the transactions that wait for themselves.
theorem detectors_iff (ops : List WaitOp) (waiter holder : Nat) (lt : LockTable) (start : Nat) :
    (∃ answer, (WaitOp.build ops).detectDeadlock waiter holder = some answer ∧
      WaitForGraph.Answers (WaitOp.Waits ops) waiter holder answer) ∧
      (lt.hasCycle start = true ↔ TransGen lt.WaitsFor start start) := by
  refine ⟨?_, lt.hasCycle_iff start⟩
  have hedge : (WaitOp.build ops).Edge = WaitOp.Waits ops := by
    funext a b
    rw [WaitForGraph.Edge, (WaitOp.tracks_build ops).lookup a, WaitOp.Waits]
  rw [← hedge]
  exact WaitForGraph.detectDeadlock_answers _ waiter holder

end Kkdb
