import Kkdb.Lib.Linked
import Kkdb.Pager.Persist
import Kkdb.Pager.Savepoint
import Mathlib.Data.Finset.Basic

namespace Kkdb

open Lib

namespace Pager

-- Who owns which page: the pages handed out by `allocate_page`, and the three
-- lists that freed pages go through.
structure Ledger where
  allocated : Finset Nat
  free : List Nat
  pending : List Nat
  freed : List Nat

namespace Ledger

def lists (l : Ledger) : List Nat := l.free ++ (l.pending ++ l.freed)

def rotate (l : Ledger) : Ledger :=
  if l.free = [] then { l with free := l.pending, pending := [] } else l

def allocate (p : Nat) (l : Ledger) : Ledger :=
  { l.rotate with allocated := insert p l.rotate.allocated, free := l.rotate.free.tail }

def release (inTransaction : Bool) (p : Nat) (l : Ledger) : Ledger :=
  if inTransaction then { l with allocated := l.allocated.erase p, freed := l.freed ++ [p] }
  else { l with allocated := l.allocated.erase p, pending := p :: l.pending }

-- The pages a transaction freed go in front of the pending list.
def promote (l : Ledger) : Ledger := { l with pending := l.freed ++ l.pending, freed := [] }

def commit (l : Ledger) : Ledger := l.promote.rotate

-- No page is on two lists, or twice on one, and no listed page is handed out.
structure Sound (l : Ledger) : Prop where
  nodup : l.lists.Nodup
  unused : ∀ p ∈ l.lists, p ∉ l.allocated

theorem mem_lists {l : Ledger} {p : Nat} :
    p ∈ l.lists ↔ p ∈ l.free ∨ p ∈ l.pending ∨ p ∈ l.freed := by
  simp [lists]

theorem lists_rotate (l : Ledger) : l.rotate.lists = l.lists := by
  unfold rotate
  split_ifs with h
  · simp [lists, h]
  · rfl

theorem rotate_rotate (l : Ledger) : l.rotate.rotate = l.rotate := by
  unfold rotate
  split_ifs with h h'
  · simp only at h'
    rw [h']
  · rfl
  · rfl

theorem allocate_rotate (l : Ledger) (p : Nat) : l.rotate.allocate p = l.allocate p := by
  rw [allocate, allocate, rotate_rotate]

theorem allocated_rotate (l : Ledger) : l.rotate.allocated = l.allocated := by
  unfold rotate
  split_ifs <;> rfl

theorem freed_rotate (l : Ledger) : l.rotate.freed = l.freed := by
  unfold rotate
  split_ifs <;> rfl

theorem Sound.rotate {l : Ledger} (h : l.Sound) : l.rotate.Sound := by
  refine ⟨?_, ?_⟩
  · rw [lists_rotate]
    exact h.nodup
  · rw [lists_rotate, allocated_rotate]
    exact h.unused

theorem Sound.allocate {l : Ledger} {p : Nat} (h : l.Sound)
    (hp : l.rotate.free.head? = some p ∨ (l.rotate.free = [] ∧ p ∉ l.lists)) :
    (l.allocate p).Sound := by
  have hrot := h.rotate
  obtain ⟨free, hfree⟩ : ∃ free, free = l.rotate.free := ⟨_, rfl⟩
  have hlists : (l.allocate p).lists = free.tail ++ (l.rotate.pending ++ l.rotate.freed) := by
    rw [hfree]
    rfl
  have hall : l.rotate.lists = free ++ (l.rotate.pending ++ l.rotate.freed) := by rw [hfree]; rfl
  have hnodup := hrot.nodup
  have hunused := hrot.unused
  rw [hall] at hnodup hunused
  rw [← hfree] at hp
  have hsub : (free.tail ++ (l.rotate.pending ++ l.rotate.freed)).Sublist
      (free ++ (l.rotate.pending ++ l.rotate.freed)) :=
    (List.tail_sublist free).append_right _
  have hnot : p ∉ free.tail ++ (l.rotate.pending ++ l.rotate.freed) := by
    rcases hp with hp | ⟨hnil, hp⟩
    · cases free with
      | nil => cases hp
      | cons q rest =>
          obtain rfl := Option.some.inj hp
          exact (List.nodup_cons.mp hnodup).1
    · rw [← lists_rotate, hall] at hp
      exact fun hmem => hp (hsub.subset hmem)
  refine ⟨by rw [hlists]; exact hnodup.sublist hsub, ?_⟩
  rw [hlists]
  intro q hq
  have hqp : q ≠ p := by
    rintro rfl
    exact hnot hq
  simp only [Ledger.allocate, Finset.mem_insert, hqp, false_or]
  exact hunused q (hsub.subset hq)

theorem Sound.release {l : Ledger} {p : Nat} (h : l.Sound) (b : Bool) (hp : p ∈ l.allocated) :
    (l.release b p).Sound := by
  have hnot : p ∉ l.lists := fun hmem => h.unused p hmem hp
  have hperm : (l.release b p).lists.Perm (p :: l.lists) := by
    cases b with
    | true =>
        show (l.free ++ (l.pending ++ (l.freed ++ [p]))).Perm (p :: (l.free ++ (l.pending ++ l.freed)))
        rw [← List.append_assoc, ← List.append_assoc, ← List.append_assoc]
        exact List.perm_append_singleton p _
    | false =>
        show (l.free ++ (p :: l.pending ++ l.freed)).Perm (p :: (l.free ++ (l.pending ++ l.freed)))
        exact List.perm_middle
  have hall : (l.release b p).allocated = l.allocated.erase p := by cases b <;> rfl
  refine ⟨hperm.nodup_iff.mpr (List.nodup_cons.mpr ⟨hnot, h.nodup⟩), fun q hq => ?_⟩
  rw [hall, Finset.mem_erase]
  rintro ⟨hqp, hq'⟩
  rcases List.mem_cons.mp (hperm.subset hq) with rfl | hmem
  · exact hqp rfl
  · exact h.unused q hmem hq'

theorem lists_promote (l : Ledger) : l.promote.lists.Perm l.lists := by
  show (l.free ++ ((l.freed ++ l.pending) ++ [])).Perm l.lists
  rw [List.append_nil]
  exact List.Perm.append_left _ List.perm_append_comm

theorem Sound.promote {l : Ledger} (h : l.Sound) : l.promote.Sound :=
  ⟨l.lists_promote.nodup_iff.mpr h.nodup, fun q hq => h.unused q (l.lists_promote.subset hq)⟩

end Ledger

theorem mem_lists_of_fresh {l : Ledger} {p : Nat} (hp : p ∈ l.free ++ l.pending) : p ∈ l.lists := by
  rcases List.mem_append.mp hp with hp | hp
  · exact Ledger.mem_lists.mpr (.inl hp)
  · exact Ledger.mem_lists.mpr (.inr (.inl hp))

theorem mem_fresh_rotate {l : Ledger} {p : Nat} (h : p ∈ l.rotate.free ++ l.rotate.pending) :
    p ∈ l.free ++ l.pending := by
  unfold Ledger.rotate at h
  split_ifs at h with hf
  · simpa [hf] using h
  · exact h

theorem nodup_fresh {l : Ledger} (h : l.Sound) : (l.free ++ l.pending).Nodup := by
  have hnodup := h.nodup
  rw [Ledger.lists, ← List.append_assoc] at hnodup
  exact hnodup.of_append_left

-- What the ledger was when a savepoint was made. A commit leaves the markers of
-- its transaction on the stack; their entries are no longer live.
structure Mark where
  marker : SavepointMarker
  live : Bool
  ledger : Ledger

-- The ledger now, the one a rollback returns to, and one for each savepoint.
structure Space where
  now : Ledger
  begun : Ledger
  marks : List Mark

namespace Space

def begin (σ : Space) : Space := { σ with begun := σ.now }

def commit (σ : Space) : Space :=
  { σ with now := σ.now.commit, marks := σ.marks.map fun k => { k with live := false } }

def rollback (inTransaction : Bool) (σ : Space) : Space :=
  { σ with
    now := if inTransaction then { σ.begun with freed := [] } else σ.now
    marks := [] }

def mark (marker : SavepointMarker) (σ : Space) : Space :=
  { σ with marks := σ.marks.filter (fun k => !eqIgnoreAsciiCase k.marker.name marker.name) ++
      [{ marker := marker, live := true, ledger := σ.now }] }

-- The pages handed out are again those of the savepoint. The freed list stays, and
-- from now on a rollback of the transaction returns to the lists of the savepoint.
def rollbackTo (pos : Nat) (k : Mark) (σ : Space) : Space where
  now := { k.ledger with freed := σ.now.freed }
  begun := { σ.begun with free := k.ledger.free, pending := k.ledger.pending }
  marks := σ.marks.take (pos + 1)

end Space

inductive SpaceOp where
  | GetPage (page : Nat)
  | Write (page : Nat) (f : PageData → PageData)
  | AllocatePage
  | FreePage (page : Nat)
  | BeginTransaction
  | CommitTransaction
  | RollbackTransaction
  | Savepoint (name : String)
  | ReleaseSavepoint (name : String)
  | RollbackToSavepoint (name : String)
  | Flush (nanos : Nat)

-- A call on the pager beside the change of the ledger when it succeeds.
def witnessed {α : Type} (x : PagerM α) (f : α → Space → Space) (sys : Pager × Space) :
    Pager × Space :=
  match x sys.1 with
  | .ok a s => (s, f a sys.2)
  | .error _ s => (s, sys.2)

theorem witnessed_left {α : Type} (x : PagerM α) (s : Pager) (σ : Space) :
    witnessed x (fun _ σ => σ) (s, σ) = (left x s, σ) := by
  unfold witnessed left
  cases x s <;> rfl

theorem witnessed_ok {α : Type} {s s' : Pager} {σ : Space} {x : PagerM α} {f : α → Space → Space} {a : α}
    (h : x s = .ok a s') : witnessed x f (s, σ) = (s', f a σ) := by
  unfold witnessed
  rw [h]

theorem witnessed_error {α : Type} {s s' : Pager} {σ : Space} {x : PagerM α} {f : α → Space → Space} {e : Fault}
    (h : x s = .error e s') : witnessed x f (s, σ) = (s', σ) := by
  unfold witnessed
  rw [h]

def SpaceOp.step [Lz4Flex] : SpaceOp → Pager × Space → Pager × Space
  | .GetPage p, sys => witnessed (getPage p) (fun _ σ => σ) sys
  | .Write p f, sys => witnessed (writePage p f) (fun _ σ => σ) sys
  | .AllocatePage, sys => witnessed allocatePage
      (fun p σ => { σ with now := σ.now.allocate p }) sys
  | .FreePage p, sys => witnessed (freePage p)
      (fun _ σ => { σ with now := σ.now.release sys.1.inTransaction p }) sys
  | .BeginTransaction, sys => witnessed beginTransaction (fun _ σ => σ.begin) sys
  | .CommitTransaction, sys => witnessed commitTransaction
      (fun _ σ => if sys.1.inTransaction then σ.commit else σ) sys
  | .RollbackTransaction, sys => witnessed rollbackTransaction
      (fun _ σ => σ.rollback sys.1.inTransaction) sys
  | .Savepoint name, sys => witnessed (savepoint name)
      (fun _ σ => if sys.1.inTransaction then σ.mark (sys.1.savepointMarker name)
        else σ.begin.mark (sys.1.startTransaction.savepointMarker name)) sys
  | .ReleaseSavepoint name, sys => witnessed (releaseSavepoint name)
      (fun _ σ => match sys.1.savepointPos name with
        | some pos => { σ with marks := σ.marks.take pos }
        | none => σ) sys
  | .RollbackToSavepoint name, sys => witnessed (rollbackToSavepoint name)
      (fun _ σ => match sys.1.savepointPos name with
        | some pos => match σ.marks[pos]? with
          | some k => σ.rollbackTo pos k
          | none => σ
        | none => σ) sys
  | .Flush nanos, sys => witnessed (flush nanos)
      (fun _ σ => { σ with now := σ.now.rotate }) sys

-- No page that may be evicted waits to be written.
def Settled (s : Pager) : Prop :=
  s.maxBufferPages = 0 ∨ ∀ p ∈ s.lruQueue, 2 < p → (s.page p).dirty = false

-- Only pages handed out are written or freed. A transaction begins with no
-- evictable page dirty, a savepoint is rolled back to only within its transaction
-- and before another page is freed, and what is written to the storage survives
-- the way back.
def SpaceOp.Kept [Lz4Flex] : SpaceOp → Pager × Space → Prop
  | .Write p _, (s, σ) => p ∈ σ.now.allocated ∧ MutSafe s p
  | .FreePage p, (s, σ) => p ∈ σ.now.allocated ∧ MutSafe s p
  | .BeginTransaction, (s, _) => s.Settled
  | .Savepoint _, (s, _) => s.inTransaction = false → s.Settled
  | .CommitTransaction, (s, _) => s.Durable
  | .RollbackToSavepoint name, (s, σ) => ∀ pos k, s.savepointPos name = some pos →
      σ.marks[pos]? = some k → k.live = true ∧ k.ledger.freed = σ.now.freed
  | .Flush _, (s, _) => s.inTransaction = false ∧ s.Durable ∧ (s.FlushCheckpoints → s.useLz4 = false)
  | _, _ => True

end Pager

end Kkdb
