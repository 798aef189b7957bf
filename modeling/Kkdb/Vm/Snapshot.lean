import Kkdb.Lib.State
import Kkdb.Vm.Mvcc

namespace Kkdb

open Lib

namespace TransactionRegistry

inductive RegistryOp where
  | Begin
  | Commit (txnId : Nat)
  | Abort (txnId : Nat)

-- The registry beside what really happened to the transactions so far.
structure History where
  registry : TransactionRegistry
  committed : List Nat
  aborted : List Nat

namespace History

def start : History where
  registry := TransactionRegistry.new
  committed := []
  aborted := []

def step : RegistryOp → History → History
  | .Begin, h => { h with registry := h.registry.begin }
  | .Commit txnId, h => {
      registry := h.registry.commit txnId
      committed := if txnId ∈ h.registry.activeTxns then txnId :: h.committed else h.committed
      aborted := h.aborted }
  | .Abort txnId, h => {
      registry := h.registry.abort txnId
      committed := h.committed
      aborted := if txnId ∈ h.registry.activeTxns then txnId :: h.aborted else h.aborted }

-- The VM ends its own transaction, or passes 0 when it has none.
def Legal : RegistryOp → History → Prop
  | .Begin, _ => True
  | .Commit txnId, h => txnId ∈ h.registry.activeTxns ∨ txnId = 0
  | .Abort txnId, h => txnId ∈ h.registry.activeTxns ∨ txnId = 0

-- Every id handed out belongs to exactly one of the three groups.
structure Inv (h : History) : Prop where
  active : ∀ x ∈ h.registry.activeTxns, 0 < x ∧ x < h.registry.nextTxnId ∧ x ∉ h.committed ∧
    x ∉ h.aborted
  committed : ∀ x ∈ h.committed, 0 < x ∧ x < h.registry.nextTxnId ∧ x ∉ h.aborted ∧
    x ≤ h.registry.maxCommitted
  aborted : ∀ x ∈ h.aborted, 0 < x ∧ x < h.registry.nextTxnId
  known : ∀ x, 0 < x → x < h.registry.nextTxnId →
    x ∈ h.registry.activeTxns ∨ x ∈ h.committed ∨ x ∈ h.aborted
  max : h.registry.maxCommitted < h.registry.nextTxnId

theorem inv_start : Inv start where
  active := fun _ hx => (nomatch hx)
  committed := fun _ hx => (nomatch hx)
  aborted := fun _ hx => (nomatch hx)
  known := fun x hpos (hlt : x < 1) => by omega
  max := Nat.zero_lt_one

variable {h : History} {txnId : Nat}

theorem inv_begin (hi : Inv h) : Inv (step .Begin h) where
  active := fun x hx => by
    rcases List.mem_append.mp hx with hx | hx
    · obtain ⟨hpos, hlt, hc, ha⟩ := hi.active x hx
      exact ⟨hpos, Nat.lt_succ_of_lt hlt, hc, ha⟩
    · obtain rfl := List.mem_singleton.mp hx
      have hmax := hi.max
      refine ⟨by omega, Nat.lt_succ_self _, fun hc => ?_, fun ha => ?_⟩
      · have hlt := (hi.committed _ hc).2.1
        omega
      · have hlt := (hi.aborted _ ha).2
        omega
  committed := fun x hx => by
    obtain ⟨hpos, hlt, ha, hle⟩ := hi.committed x hx
    exact ⟨hpos, Nat.lt_succ_of_lt hlt, ha, hle⟩
  aborted := fun x hx => ⟨(hi.aborted x hx).1, Nat.lt_succ_of_lt (hi.aborted x hx).2⟩
  known := fun x hpos hlt => by
    by_cases hx : x = h.registry.nextTxnId
    · exact .inl (List.mem_append_right _ (by simp [hx]))
    · have hlt' : x < h.registry.nextTxnId := by
        have hsucc : x < h.registry.nextTxnId + 1 := hlt
        omega
      rcases hi.known x hpos hlt' with hk | hk
      · exact .inl (List.mem_append_left _ hk)
      · exact .inr hk
  max := Nat.lt_succ_of_lt hi.max

theorem filter_absent {l : List Nat} (hx : txnId ∉ l) : (l.filter fun id => id ≠ txnId) = l := by
  rw [List.filter_eq_self]
  intro id hid
  simp only [ne_eq, decide_not, Bool.not_eq_eq_eq_not, Bool.not_true, decide_eq_false_iff_not]
  exact fun heq => hx (heq ▸ hid)

theorem commit_zero (hi : Inv h) : step (.Commit 0) h = h := by
  have hzero : 0 ∉ h.registry.activeTxns := fun hx => Nat.lt_irrefl 0 (hi.active 0 hx).1
  simp only [step, TransactionRegistry.commit, filter_absent hzero, if_neg hzero, Nat.not_lt_zero,
    if_false]

theorem abort_zero (hi : Inv h) : step (.Abort 0) h = h := by
  have hzero : 0 ∉ h.registry.activeTxns := fun hx => Nat.lt_irrefl 0 (hi.active 0 hx).1
  simp only [step, TransactionRegistry.abort, filter_absent hzero, if_neg hzero]

theorem mem_filter_ne {l : List Nat} {x : Nat} :
    (x ∈ l.filter fun id => id ≠ txnId) ↔ x ∈ l ∧ x ≠ txnId := by
  simp

theorem inv_commit (hi : Inv h) (hx : txnId ∈ h.registry.activeTxns) :
    Inv (step (.Commit txnId) h) := by
  have hmax : h.registry.maxCommitted ≤ (h.registry.commit txnId).maxCommitted ∧
      txnId ≤ (h.registry.commit txnId).maxCommitted ∧
      (h.registry.commit txnId).maxCommitted < h.registry.nextTxnId := by
    have hlt := (hi.active txnId hx).2.1
    have hm := hi.max
    simp only [TransactionRegistry.commit]
    split_ifs <;> omega
  simp only [step, if_pos hx]
  refine ⟨fun x hx' => ?_, fun x hc => ?_, fun x ha => hi.aborted x ha, fun x hpos hlt => ?_, hmax.2.2⟩
  · obtain ⟨hmem, hne⟩ := mem_filter_ne.mp hx'
    obtain ⟨hpos, hlt, hc, ha⟩ := hi.active x hmem
    exact ⟨hpos, hlt, fun hcons => (List.mem_cons.mp hcons).elim hne hc, ha⟩
  · rcases List.mem_cons.mp hc with rfl | hc
    · obtain ⟨hpos, hlt, -, ha⟩ := hi.active x hx
      exact ⟨hpos, hlt, ha, hmax.2.1⟩
    · obtain ⟨hpos, hlt, ha, hle⟩ := hi.committed x hc
      exact ⟨hpos, hlt, ha, Nat.le_trans hle hmax.1⟩
  · by_cases heq : x = txnId
    · exact .inr (.inl (by rw [heq]; exact List.mem_cons_self))
    · rcases hi.known x hpos hlt with hk | hk | hk
      · exact .inl (mem_filter_ne.mpr ⟨hk, heq⟩)
      · exact .inr (.inl (List.mem_cons_of_mem _ hk))
      · exact .inr (.inr hk)

theorem inv_abort (hi : Inv h) (hx : txnId ∈ h.registry.activeTxns) :
    Inv (step (.Abort txnId) h) := by
  obtain ⟨hpos₀, hlt₀, hc₀, -⟩ := hi.active txnId hx
  simp only [step, if_pos hx]
  refine ⟨fun x hx' => ?_, fun x hc => ?_, fun x ha => ?_, fun x hpos hlt => ?_, hi.max⟩
  · obtain ⟨hmem, hne⟩ := mem_filter_ne.mp hx'
    obtain ⟨hpos, hlt, hc, ha⟩ := hi.active x hmem
    exact ⟨hpos, hlt, hc, fun hcons => (List.mem_cons.mp hcons).elim hne ha⟩
  · obtain ⟨hpos, hlt, ha, hle⟩ := hi.committed x hc
    exact ⟨hpos, hlt, fun hcons => (List.mem_cons.mp hcons).elim (fun heq => hc₀ (heq ▸ hc)) ha, hle⟩
  · rcases List.mem_cons.mp ha with rfl | ha
    · exact ⟨hpos₀, hlt₀⟩
    · exact hi.aborted x ha
  · by_cases heq : x = txnId
    · exact .inr (.inr (by rw [heq]; exact List.mem_cons_self))
    · rcases hi.known x hpos hlt with hk | hk | hk
      · exact .inl (mem_filter_ne.mpr ⟨hk, heq⟩)
      · exact .inr (.inl hk)
      · exact .inr (.inr (List.mem_cons_of_mem _ hk))

theorem inv_step {op : RegistryOp} (hi : Inv h) (hop : Legal op h) : Inv (step op h) := by
  cases op with
  | Begin => exact inv_begin hi
  | Commit txnId =>
      rcases hop with hx | rfl
      · exact inv_commit hi hx
      · rw [commit_zero hi]
        exact hi
  | Abort txnId =>
      rcases hop with hx | rfl
      · exact inv_abort hi hx
      · rw [abort_zero hi]
        exact hi

theorem isVisible_snapshot (reg : TransactionRegistry) (r x : Nat) :
    (reg.snapshot r).isVisible x = true ↔
      x = r ∨ x ≤ reg.maxCommitted ∧ x ∉ reg.activeTxns := by
  unfold MvccSnapshot.isVisible TransactionRegistry.snapshot
  dsimp only
  by_cases hr : x = r
  · rw [if_pos hr]
    exact ⟨fun _ => .inl hr, fun _ => rfl⟩
  rw [if_neg hr]
  by_cases hmax : reg.maxCommitted < x
  · rw [if_pos hmax]
    exact ⟨fun hno => (nomatch hno), fun hor => absurd (hor.resolve_left hr).1 (Nat.not_le_of_lt hmax)⟩
  rw [if_neg hmax]
  by_cases hact : x ∈ reg.activeTxns
  · rw [if_pos hact]
    exact ⟨fun hno => (nomatch hno), fun hor => absurd hact (hor.resolve_left hr).2⟩
  · rw [if_neg hact]
    exact ⟨fun _ => .inr ⟨Nat.le_of_not_lt hmax, hact⟩, fun _ => rfl⟩

theorem isVisible_of_late (hi : Inv h) {r x : Nat} (hpos : 0 < x)
    (hlate : ∀ y ∈ h.aborted, y ≠ r → h.registry.maxCommitted < y) :
    (h.registry.snapshot r).isVisible x = true ↔ x = r ∨ x ∈ h.committed := by
  rw [isVisible_snapshot]
  refine or_congr_right' fun hne => ⟨fun ⟨hle, hact⟩ => ?_, fun hc => ?_⟩
  · have hmax := hi.max
    rcases hi.known x hpos (by omega) with hk | hk | hk
    · exact absurd hk hact
    · exact hk
    · exact absurd (hlate x hk hne) (by omega)
  · obtain ⟨-, -, -, hle⟩ := hi.committed x hc
    exact ⟨hle, fun hact => (hi.active x hact).2.2.1 hc⟩

-- The summary in a snapshot is right for every id handed out now or later exactly when
-- no aborted transaction has an id below a committed one.
theorem isVisible_iff_committed (ops : List RegistryOp) (r : Nat)
    (hops : Meets step Legal ops start) :
    (∀ x, 0 < x → (((run step ops start).registry.snapshot r).isVisible x = true ↔
        x = r ∨ x ∈ (run step ops start).committed)) ↔
      ∀ x ∈ (run step ops start).aborted, x ≠ r → (run step ops start).registry.maxCommitted < x := by
  have hi : Inv (run step ops start) :=
    run_invariant Inv inv_start (fun _ _ hi hop => inv_step hi hop) hops
  generalize run step ops start = h at hi ⊢
  constructor
  · intro hall x ha hne
    by_contra hle
    obtain ⟨hpos, -⟩ := hi.aborted x ha
    have hvisible : x = r ∨ x ≤ h.registry.maxCommitted ∧ x ∉ h.registry.activeTxns :=
      .inr ⟨Nat.le_of_not_lt hle, fun hact => (hi.active x hact).2.2.2 ha⟩
    rcases (hall x hpos).mp ((isVisible_snapshot _ r x).mpr hvisible) with heq | hc
    · exact hne heq
    · exact (hi.committed x hc).2.2.1 ha
  · exact fun hlate x hpos => isVisible_of_late hi hpos hlate

-- Transaction 3 reads while 2 is aborted and 1 has committed.
theorem isVisible_iff_committed_lateAbort :
    (∀ x, 0 < x → (((run step [.Begin, .Begin, .Begin, .Commit 1, .Abort 2] start).registry.snapshot
        3).isVisible x = true ↔
        x = 3 ∨ x ∈ (run step [.Begin, .Begin, .Begin, .Commit 1, .Abort 2] start).committed)) ↔
      ∀ x ∈ (run step [.Begin, .Begin, .Begin, .Commit 1, .Abort 2] start).aborted, x ≠ 3 →
        (run step [.Begin, .Begin, .Begin, .Commit 1, .Abort 2] start).registry.maxCommitted < x :=
  isVisible_iff_committed [.Begin, .Begin, .Begin, .Commit 1, .Abort 2] 3
    ⟨trivial, trivial, trivial, .inl (by decide), .inl (by decide), trivial⟩

-- Transaction 1 aborts before transaction 2 commits: transaction 3 takes it for committed.
theorem isVisible_aborted :
    ((run step [.Begin, .Begin, .Abort 1, .Commit 2, .Begin] start).registry.snapshot 3).isVisible 1 =
        true ∧
      1 ∉ (run step [.Begin, .Begin, .Abort 1, .Commit 2, .Begin] start).committed ∧
      1 ∈ (run step [.Begin, .Begin, .Abort 1, .Commit 2, .Begin] start).aborted := by
  decide

end History

end TransactionRegistry

end Kkdb
