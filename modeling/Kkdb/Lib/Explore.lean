import Mathlib.Data.List.Perm.Subperm
import Mathlib.Data.Set.Card
import Mathlib.Logic.Relation
import Mathlib.Order.Defs.LinearOrder

namespace Lib

def popTop {α : Type} (cmp : α → α → Ordering) : List α → Option (α × List α)
  | [] => none
  | a :: heap =>
      match popTop cmp heap with
      | none => some (a, [])
      | some (b, rest) => if cmp a b = .lt then some (b, a :: rest) else some (a, b :: rest)

theorem perm_of_popTop {α : Type} {cmp : α → α → Ordering} {heap rest : List α} {top : α}
    (h : popTop cmp heap = some (top, rest)) : heap.Perm (top :: rest) := by
  induction heap generalizing top rest with
  | nil => cases h
  | cons a heap ih =>
      rw [popTop] at h
      cases hpop : popTop cmp heap with
      | none =>
          rw [hpop] at h
          obtain ⟨rfl, rfl⟩ := Prod.mk.inj (Option.some.inj h)
          cases heap with
          | nil => exact List.Perm.refl _
          | cons b heap =>
              rw [popTop] at hpop
              split at hpop
              · cases hpop
              · split_ifs at hpop
      | some found =>
          obtain ⟨b, others⟩ := found
          have hperm := (ih hpop).cons a
          simp only [hpop] at h
          split_ifs at h
          · obtain ⟨rfl, rfl⟩ := Prod.mk.inj (Option.some.inj h)
            exact hperm.trans (List.Perm.swap _ _ _)
          · obtain ⟨rfl, rfl⟩ := Prod.mk.inj (Option.some.inj h)
            exact hperm

theorem eq_nil_of_popTop {α : Type} {cmp : α → α → Ordering} {heap : List α} (h : popTop cmp heap = none) :
    heap = [] := by
  cases heap with
  | nil => rfl
  | cons a heap =>
      rw [popTop] at h
      split at h
      · cases h
      · split_ifs at h

-- A walk through a graph from one node: the nodes that were visited, those of them that
-- are still to be expanded, and those that are kept.
structure Walk (ν : Type) where
  visited : Finset ν
  queue : List ν
  found : List ν

namespace Walk

variable {ν : Type} {edge : ν → ν → Prop} {entry u v : ν} {w : Walk ν}

def start (entry : ν) : Walk ν where
  visited := {entry}
  queue := [entry]
  found := [entry]

structure Sound (edge : ν → ν → Prop) (entry : ν) (w : Walk ν) : Prop where
  entered : entry ∈ w.visited
  reached : ∀ v ∈ w.visited, Relation.ReflTransGen edge entry v
  queued : ∀ v ∈ w.queue, v ∈ w.visited
  kept : ∀ v ∈ w.found, v ∈ w.visited
  nodup : w.found.Nodup

theorem sound_start (edge : ν → ν → Prop) (entry : ν) : (start entry).Sound edge entry where
  entered := Finset.mem_singleton_self _
  reached := fun v hv => by rw [Finset.mem_singleton.mp hv]
  queued := fun v hv => Finset.mem_singleton.mpr (List.mem_singleton.mp hv)
  kept := fun v hv => Finset.mem_singleton.mpr (List.mem_singleton.mp hv)
  nodup := List.nodup_singleton _

theorem Sound.perm (h : w.Sound edge entry) {queue found : List ν} (hqueue : queue.Perm w.queue)
    (hfound : found.Perm w.found) : Sound edge entry ⟨w.visited, queue, found⟩ :=
  ⟨h.entered, h.reached, fun v hv => h.queued v (hqueue.mem_iff.mp hv),
    fun v hv => h.kept v (hfound.mem_iff.mp hv), hfound.nodup_iff.mpr h.nodup⟩

theorem Sound.drop (h : w.Sound edge entry) {queue : List ν} (hqueue : queue ⊆ w.queue) :
    Sound edge entry { w with queue := queue } :=
  ⟨h.entered, h.reached, fun v hv => h.queued v (hqueue hv), h.kept, h.nodup⟩

-- A node is kept at its first visit at most, and others may be dropped then.
theorem Sound.visit [DecidableEq ν] (h : w.Sound edge entry) (hu : u ∈ w.visited) (hedge : edge u v)
    (hv : v ∉ w.visited)
    {queue found : List ν} (hqueue : queue ⊆ v :: w.queue) (hfound : found.Subperm (v :: w.found)) :
    Sound edge entry ⟨insert v w.visited, queue, found⟩ := by
  refine ⟨Finset.mem_insert_of_mem h.entered, fun x hx => ?_, fun x hx => ?_, fun x hx => ?_, ?_⟩
  · rcases Finset.mem_insert.mp hx with rfl | hx
    · exact (h.reached u hu).tail hedge
    · exact h.reached x hx
  · rcases List.mem_cons.mp (hqueue hx) with rfl | hx
    · exact Finset.mem_insert_self _ _
    · exact Finset.mem_insert_of_mem (h.queued x hx)
  · rcases List.mem_cons.mp (hfound.subset hx) with rfl | hx
    · exact Finset.mem_insert_self _ _
    · exact Finset.mem_insert_of_mem (h.kept x hx)
  · obtain ⟨kept, hperm, hsub⟩ := hfound
    have hnodup : (v :: w.found).Nodup := List.nodup_cons.mpr ⟨fun hmem => hv (h.kept v hmem), h.nodup⟩
    exact hperm.nodup (hnodup.sublist hsub)

theorem Sound.card_le (h : w.Sound edge entry) (hfin : {v | Relation.ReflTransGen edge entry v}.Finite) :
    w.visited.card ≤ {v | Relation.ReflTransGen edge entry v}.ncard := by
  rw [← Set.ncard_coe_finset]
  exact Set.ncard_le_ncard h.reached hfin

-- Nothing that was visited is dropped, and what is neither queued nor being expanded
-- has had all its neighbours visited.
structure Full (edge : ν → ν → Prop) (entry : ν) (expanding : Option ν) (w : Walk ν) : Prop
    extends Sound edge entry w where
  all : ∀ v ∈ w.visited, v ∈ w.found
  expanded : ∀ u ∈ w.visited, u ∈ w.queue ∨ expanding = some u ∨ ∀ v, edge u v → v ∈ w.visited

variable {expanding : Option ν}

theorem full_start (edge : ν → ν → Prop) (entry : ν) : (start entry).Full edge entry none where
  toSound := sound_start edge entry
  all := fun _ hv => List.mem_singleton.mpr (Finset.mem_singleton.mp hv)
  expanded := fun _ hu => .inl (List.mem_singleton.mpr (Finset.mem_singleton.mp hu))

theorem Full.perm (h : w.Full edge entry expanding) {queue found : List ν} (hqueue : queue.Perm w.queue)
    (hfound : found.Perm w.found) : Full edge entry expanding ⟨w.visited, queue, found⟩ :=
  ⟨h.toSound.perm hqueue hfound, fun v hv => hfound.mem_iff.mpr (h.all v hv),
    fun u hu => (h.expanded u hu).imp_left hqueue.mem_iff.mpr⟩

theorem Full.pop (h : w.Full edge entry none) {queue : List ν} (hqueue : w.queue.Perm (u :: queue)) :
    Full edge entry (some u) { w with queue := queue } := by
  refine ⟨h.drop fun v hv => hqueue.mem_iff.mpr (List.mem_cons_of_mem _ hv), h.all, fun x hx => ?_⟩
  rcases h.expanded x hx with hx | hx | hx
  · rcases List.mem_cons.mp (hqueue.mem_iff.mp hx) with rfl | hx
    · exact .inr (.inl rfl)
    · exact .inl hx
  · cases hx
  · exact .inr (.inr hx)

theorem Full.visit [DecidableEq ν] (h : w.Full edge entry expanding) (hu : u ∈ w.visited) (hedge : edge u v)
    (hv : v ∉ w.visited) :
    Full edge entry expanding ⟨insert v w.visited, v :: w.queue, v :: w.found⟩ := by
  refine ⟨h.toSound.visit hu hedge hv (List.Subset.refl _) (List.Subperm.refl _), fun x hx => ?_,
    fun x hx => ?_⟩
  · rcases Finset.mem_insert.mp hx with rfl | hx
    · exact List.mem_cons_self
    · exact List.mem_cons_of_mem _ (h.all x hx)
  · rcases Finset.mem_insert.mp hx with rfl | hx
    · exact .inl List.mem_cons_self
    · rcases h.expanded x hx with hx | hx | hx
      · exact .inl (List.mem_cons_of_mem _ hx)
      · exact .inr (.inl hx)
      · exact .inr (.inr fun y hy => Finset.mem_insert_of_mem (hx y hy))

theorem Full.close (h : w.Full edge entry (some u)) (hall : ∀ v, edge u v → v ∈ w.visited) :
    w.Full edge entry none := by
  refine ⟨h.toSound, h.all, fun x hx => ?_⟩
  rcases h.expanded x hx with hx | hx | hx
  · exact .inl hx
  · obtain rfl := Option.some.inj hx
    exact .inr (.inr hall)
  · exact .inr (.inr hx)

theorem Full.length_found (h : w.Full edge entry expanding) : w.found.length = w.visited.card := by
  classical
  rw [← List.toFinset_card_of_nodup h.nodup]
  congr 1
  ext v
  rw [List.mem_toFinset]
  exact ⟨h.kept v, h.all v⟩

-- A walk with nothing left to expand has found all that can be reached.
theorem Full.complete (h : w.Full edge entry none) (hqueue : w.queue = [])
    (hreach : Relation.ReflTransGen edge entry v) : v ∈ w.found := by
  refine h.all v ?_
  induction hreach with
  | refl => exact h.entered
  | tail _ hedge ih =>
      rcases h.expanded _ ih with hx | hx | hx
      · rw [hqueue] at hx
        cases hx
      · cases hx
      · exact hx _ hedge

theorem Full.complete_of_card (h : w.Full edge entry expanding)
    (hfin : {v | Relation.ReflTransGen edge entry v}.Finite)
    (hcard : {v | Relation.ReflTransGen edge entry v}.ncard ≤ w.found.length)
    (hreach : Relation.ReflTransGen edge entry v) : v ∈ w.found := by
  refine h.all v ?_
  rw [h.length_found, ← Set.ncard_coe_finset] at hcard
  have hsub : (w.visited : Set ν) ⊆ {v | Relation.ReflTransGen edge entry v} := h.reached
  have hsame := Set.eq_of_subset_of_ncard_le hsub hcard hfin
  exact Finset.mem_coe.mp (hsame ▸ hreach)

end Walk

end Lib

namespace Lib

-- A priority queue as its user meets it: which of several equal entries comes up first is its own affair.
structure Heap (α : Type) where
  push : α → List α → List α
  pop : List α → Option (α × List α)

section Heap

variable {α κ : Type} {cmp : α → α → Ordering}

structure Heap.Keeps (heap : Heap α) : Prop where
  push : ∀ a entries, (heap.push a entries).Perm (a :: entries)
  empty : ∀ entries, heap.pop entries = none ↔ entries = []
  pop : ∀ {entries a rest}, heap.pop entries = some (a, rest) → entries.Perm (a :: rest)

structure Heap.Lawful (heap : Heap α) (cmp : α → α → Ordering) : Prop extends heap.Keeps where
  top : ∀ {entries a rest}, heap.pop entries = some (a, rest) → ∀ b ∈ rest, cmp a b ≠ .lt

def listHeap (cmp : α → α → Ordering) : Heap α where
  push := List.cons
  pop := popTop cmp

theorem top_of_popTop [LinearOrder κ] (key : α → κ) (hcmp : ∀ a b, cmp a b = .lt ↔ key a < key b)
    {entries rest : List α}
    {a : α} (h : popTop cmp entries = some (a, rest)) : ∀ b ∈ rest, cmp a b ≠ .lt := by
  induction entries generalizing a rest with
  | nil => cases h
  | cons x entries ih =>
      rw [popTop] at h
      cases hpop : popTop cmp entries with
      | none =>
          rw [hpop] at h
          obtain ⟨rfl, rfl⟩ := Prod.mk.inj (Option.some.inj h)
          exact fun b hb => absurd hb List.not_mem_nil
      | some found =>
          obtain ⟨y, others⟩ := found
          have hy := ih hpop
          simp only [hpop] at h
          by_cases hlt : cmp x y = .lt
          · rw [if_pos hlt] at h
            obtain ⟨rfl, rfl⟩ := Prod.mk.inj (Option.some.inj h)
            intro b hb
            rcases List.mem_cons.mp hb with rfl | hb
            · exact fun hback => lt_asymm ((hcmp b y).mp hlt) ((hcmp y b).mp hback)
            · exact hy b hb
          · rw [if_neg hlt] at h
            obtain ⟨rfl, rfl⟩ := Prod.mk.inj (Option.some.inj h)
            intro b hb
            rcases List.mem_cons.mp hb with rfl | hb
            · exact hlt
            · rw [Ne, hcmp, not_lt]
              have hxy := not_lt.mp fun hkey => hlt ((hcmp x y).mpr hkey)
              exact (not_lt.mp fun hkey => hy b hb ((hcmp y b).mpr hkey)).trans hxy

theorem keeps_listHeap (cmp : α → α → Ordering) : (listHeap cmp).Keeps where
  push _ _ := List.Perm.refl _
  empty entries := by
    constructor
    · exact eq_nil_of_popTop
    · rintro rfl
      rfl
  pop := perm_of_popTop

theorem lawful_listHeap [LinearOrder κ] (key : α → κ) (hcmp : ∀ a b, cmp a b = .lt ↔ key a < key b) :
    (listHeap cmp).Lawful cmp where
  toKeeps := keeps_listHeap cmp
  top := top_of_popTop key hcmp

end Heap

-- The nodes that a walk has found, and those of them that it has yet to expand, with their distances.
structure Frontier (δ ν : Type) where
  found : List ν
  queue : List (δ × ν)

namespace Frontier

variable {δ ν : Type} [DecidableEq ν]

section Walk

variable (heap : Heap (δ × ν)) (dist : ν → δ)

def start (entry : ν) : Frontier δ ν where
  found := [entry]
  queue := heap.push (dist entry, entry) []

def meet (f : Frontier δ ν) (nb : ν) : Frontier δ ν :=
  if nb ∈ f.found then f
  else { found := nb :: f.found, queue := heap.push (dist nb, nb) f.queue }

def gather (n : Nat) : List ν → Frontier δ ν → Frontier δ ν × List ν
  | [], f => (f, [])
  | nb :: nbs, f => if n ≤ f.found.length then (f, nb :: nbs) else gather n nbs (f.meet heap dist nb)

-- The walk that always expands the closest node it knows, up to the moment at which it has found n nodes,
-- and the neighbours that it has not met by then.
def fill (next : ν → List ν) (n : Nat) : Nat → Frontier δ ν → Frontier δ ν × List ν
  | 0, f => (f, [])
  | fuel + 1, f =>
      if n ≤ f.found.length then (f, [])
      else
        match heap.pop f.queue with
        | none => (f, [])
        | some (cur, queue) =>
            match gather heap dist n (next cur.2) { f with queue := queue } with
            | (f', []) => fill next n fuel f'
            | (f', nb :: nbs) => (f', nb :: nbs)

end Walk

variable [LE δ]

-- The node is no closer than any that was found.
def Far (dist : ν → δ) (f : Frontier δ ν) (v : ν) : Prop := ∀ u ∈ f.found, dist u ≤ dist v

-- The nodes that a walk meets next when it goes on only with nodes as close as the closest one found:
-- the neighbours left over, and the neighbours of those nodes.
def Ahead (next : ν → List ν) (dist : ν → δ) (f : Frontier δ ν) (rest : List ν) (v : ν) : Prop :=
  v ∈ rest ∨ ∃ c ∈ f.queue, (∀ u ∈ f.found, c.1 ≤ dist u) ∧ v ∈ next c.2

-- No node ahead is new and closer than one that was found.
def Undisturbed (next : ν → List ν) (dist : ν → δ) (f : Frontier δ ν) (rest : List ν) : Prop :=
  ∀ v, f.Ahead next dist rest v → v ∉ f.found → f.Far dist v

end Frontier

-- The n nodes of smallest distance among those visited, in the order of their distances.
structure Closest {δ ν : Type} [LE δ] (dist : ν → δ) (n : Nat) (visited : Finset ν) (out : List (δ × ν)) :
    Prop where
  sorted : out.Pairwise fun a b => a.1 ≤ b.1
  nodup : (out.map Prod.snd).Nodup
  length : out.length = min n visited.card
  mem : ∀ c ∈ out, c.2 ∈ visited ∧ c.1 = dist c.2
  nearest : ∀ v ∈ visited, v ∉ out.map Prod.snd → ∀ c ∈ out, c.1 ≤ dist v

end Lib
