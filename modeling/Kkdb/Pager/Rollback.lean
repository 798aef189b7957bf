import Kkdb.Pager.Savepoint

namespace Kkdb

open Lib

namespace Pager

structure Idle [Lz4Flex] (s : Pager) : Prop where
  coherent : ∃ base, Coherent 0 base s
  idle : s.cow.activeTx = none
  unsaved : ∀ p, 0 < p → (s.page p).snapshotted = false
  markers : ∀ m ∈ s.savepointStack, m.WellFormed

structure Quiet [Lz4Flex] (s : Pager) : Prop extends Idle s where
  clean : ∀ p, 0 < p → (s.page p).dirty = false
  committed : ∀ w, s.wal = some w → w.uncommitted = []

theorem coherent_openMemory [Lz4Flex] (lo : Nat) (dbUuid : Buf 16) :
    Coherent lo 0 (openMemory dbUuid) where
  pagesLength := rfl
  loadedLength := rfl
  base_le := Nat.zero_le _
  queue := fun p hp => (nomatch hp)
  appended := fun p hb (hle : p ≤ 3) => by
    obtain rfl | rfl | rfl : p = 1 ∨ p = 2 ∨ p = 3 := by omega
    all_goals rfl
  unloaded := fun p hp hl => by
    by_cases hle : p ≤ 3
    · obtain rfl | rfl | rfl : p = 1 ∨ p = 2 ∨ p = 3 := by omega
      all_goals exact ⟨rfl, rfl⟩
    · rw [page_of_lt (by simpa [openMemory] using hle)]
      exact ⟨rfl, rfl⟩
  readable := fun p _ hb => by omega
  clean := fun h => absurd rfl h

theorem quiet_openMemory [Lz4Flex] (dbUuid : Buf 16) : Quiet (openMemory dbUuid) where
  coherent := ⟨0, coherent_openMemory 0 dbUuid⟩
  idle := rfl
  unsaved := fun p hp => by
    by_cases hle : p ≤ 3
    · obtain rfl | rfl | rfl : p = 1 ∨ p = 2 ∨ p = 3 := by omega
      all_goals rfl
    · rw [page_of_lt (by simpa [openMemory] using hle)]
      rfl
  markers := fun m hm => (nomatch hm)
  clean := fun p hp => by
    by_cases hle : p ≤ 3
    · obtain rfl | rfl | rfl : p = 1 ∨ p = 2 ∨ p = 3 := by omega
      all_goals rfl
    · rw [page_of_lt (by simpa [openMemory] using hle)]
      rfl
  committed := fun w hw => (nomatch hw)

section Rollback

variable [Lz4Flex] {base : Nat} {s B : Pager} {snap : TxnSnapshot}

-- The snapshot can take the pager back to the state `B` at BEGIN.
structure Undo (B : Pager) (base : Nat) (snap : TxnSnapshot) (s : Pager) : Prop where
  base_le : base ≤ B.header.totalPages
  txn : TxnInv 0 base snap s
  saved : Saved 0 (fun _ => false) B snap s
  clean : Clean 0 snap s
  header : snap.header = B.header
  total : snap.originalTotalPages = B.header.totalPages
  roots : SameRoots snap.cowSuperblock B.cow.activeSuperblock
  wal : s.wal = B.wal
  stored : s.stored = B.stored

theorem txn_begin (hB : Idle B) (hbase : Coherent 0 base B) :
    TxnInv 0 base B.beginSnapshot (left beginTransaction B) ∧
      Saved 0 (fun _ => false) B B.beginSnapshot (left beginTransaction B) := by
  rw [left_ok (beginTransaction_eq hB.idle)]
  exact startTransaction_txn hbase hB.unsaved hB.markers

theorem undo_begin (hB : Quiet B) (hbase : Coherent 0 base B) :
    ∃ snap, Undo B base snap (left beginTransaction B) := by
  obtain ⟨htxn, hsaved⟩ := txn_begin hB.toIdle hbase
  have hrun := beginTransaction_eq hB.idle
  refine ⟨_, hbase.base_le, htxn, hsaved, ⟨fun _ p _ hp hd => ?_, fun _ p _ _ data hd => (nomatch hd)⟩,
    rfl, rfl, ⟨rfl, rfl, rfl⟩, by rw [left_ok hrun]; rfl, by rw [left_ok hrun]; rfl⟩
  rw [left_ok hrun, show (B.startTransaction.page p).dirty = (B.page p).dirty from rfl,
    hB.clean p hp] at hd
  cases hd

-- A rollback to a savepoint overwrites the header and the roots that the
-- transaction would go back to, so they have to be those of BEGIN.
def TxnOp.Reversible (B : Pager) (op : TxnOp) (s : Pager) : Prop :=
  op.Safe s ∧ match op with
    | .RollbackToSavepoint name => ∀ m, s.findMarker name = some m →
        m.originalTotalPages = B.header.totalPages ∧
          SameRoots m.cowSuperblock B.cow.activeSuperblock
    | _ => True

theorem undo_edits {s' : Pager} (h : Edits 0 base s s') (hinv : Undo B base snap s) :
    ∃ snap', Undo B base snap' s' := by
  have hframe := h.frame hinv.txn.coherent
  obtain ⟨images, htxn, hsaved⟩ := h.txn hinv.txn hinv.saved
  have hclean := h.clean hinv.txn hinv.saved hinv.clean htxn.snapshot
  exact ⟨_, hinv.base_le, htxn, hsaved, hclean, hinv.header, hinv.total, hinv.roots,
    hframe.wal.trans hinv.wal, hframe.stored.trans hinv.stored⟩

theorem undo_step {op : TxnOp} (hinv : ∃ snap, Undo B base snap s) (hop : op.Reversible B s) :
    ∃ snap, Undo B base snap (op.step s) := by
  obtain ⟨snap, hinv⟩ := hinv
  have hrestack : ∀ stack : List SavepointMarker, (∀ m ∈ stack, m.WellFormed) →
      ∃ snap, Undo B base snap { s with savepointStack := stack } := fun stack hstack =>
    ⟨snap, hinv.base_le, hinv.txn.restack hstack, hinv.saved.restack stack,
      hinv.clean.restack stack, hinv.header, hinv.total, hinv.roots, hinv.wal, hinv.stored⟩
  cases op with
  | GetPage p => exact undo_edits (TxnOp.step_edits trivial hinv.txn.coherent hop.1) hinv
  | Write p f => exact undo_edits (TxnOp.step_edits trivial hinv.txn.coherent hop.1) hinv
  | AllocatePage => exact undo_edits (TxnOp.step_edits trivial hinv.txn.coherent hop.1) hinv
  | FreePage p => exact undo_edits (TxnOp.step_edits trivial hinv.txn.coherent hop.1) hinv
  | Savepoint name =>
      rw [TxnOp.step, left_ok (savepoint_eq hinv.txn.active name)]
      exact hrestack _ (pushSavepoint_wellFormed hinv.txn name)
  | ReleaseSavepoint name =>
      obtain ⟨count, h⟩ := releaseSavepoint_eq s name
      rw [TxnOp.step, h]
      exact hrestack _ (fun m hm => hinv.txn.markers m (List.mem_of_mem_take hm))
  | RollbackToSavepoint name =>
      cases hfind : s.findMarker name with
      | none =>
          rw [TxnOp.step, rollbackToSavepoint_none hfind]
          exact ⟨snap, hinv⟩
      | some m =>
          obtain ⟨count, hmem, h⟩ := rollbackToSavepoint_eq hfind
          rw [TxnOp.step, left_ok h]
          obtain ⟨htotal, hroots⟩ := hop.2 m hfind
          have hm := hinv.txn.markers m hmem
          have htxn := hinv.txn.restack
            (fun m hm => hinv.txn.markers m (List.mem_of_mem_take hm) :
              ∀ m ∈ s.savepointStack.take count, m.WellFormed)
          have hsaved := hinv.saved.restack (s.savepointStack.take count)
          have hclean := hinv.clean.restack (s.savepointStack.take count)
          have hb : base ≤ m.originalTotalPages := by rw [htotal]; exact hinv.base_le
          have ht : m.originalTotalPages ≤ s.header.totalPages := by
            rw [htotal]; exact hinv.saved.total
          obtain ⟨dirtyPages, heq⟩ := restoreMarker_eq htxn.snapshot hm
          refine ⟨snapshotAt m snap, {
            base_le := hinv.base_le
            txn := restoreMarker_txn htxn hclean hm hb ht
            saved := restoreMarker_saved htxn hm ht hsaved (by rw [htotal])
            clean := restoreMarker_clean htxn hclean hm ht
            header := ?_
            total := htotal
            roots := hroots
            wal := by rw [heq]; exact hinv.wal
            stored := by rw [heq]; exact hinv.stored }⟩
          show m.header = B.header
          rw [hm.header, htotal]

theorem rollbackTransaction_restores (B : Pager) (ops : List TxnOp) (hB : Quiet B)
    (hops : Meets TxnOp.step (TxnOp.Reversible B) ops (left beginTransaction B)) :
    ∃ s', rollbackTransaction (run TxnOp.step ops (left beginTransaction B)) = .ok () s' ∧
      s'.header.totalPages = B.header.totalPages ∧
      SameRoots s'.cow.activeSuperblock B.cow.activeSuperblock ∧ ∀ p, s'.peek p = B.peek p := by
  obtain ⟨base, hbase⟩ := hB.coherent
  obtain ⟨snap, hinv⟩ := run_invariant (fun s => ∃ snap, Undo B base snap s)
    (undo_begin hB hbase) (fun _ _ h hop => undo_step h hop) hops
  have hrun := rollbackTransaction_eq hinv.txn.snapshot
  generalize run TxnOp.step ops (left beginTransaction B) = s at hinv hrun ⊢
  have hwal : s.wal.map Wal.rollback = s.wal :=
    map_rollback_wal (by rw [hinv.wal]; exact hB.committed)
  rw [hwal] at hrun
  have hle : snap.originalTotalPages ≤ s.header.totalPages := by
    rw [hinv.total]; exact hinv.saved.total
  have hcoh := revert_coherent snap.originalPages hinv.txn.coherent
    (by rw [hinv.total]; exact hinv.base_le) hle
    (fun hmax p hq hlo data hd => hinv.clean.stored hmax p hq hlo data hd)
  refine ⟨_, hrun, by rw [restoreSnapshot, hinv.header], hinv.roots, ?_⟩
  have hheader : snap.header = { totalPages := snap.originalTotalPages } := by
    rw [hinv.header, hinv.total]
  have hcoh' : Coherent 0 base (restoreSnapshot snap { s with savepointStack := [], wal := s.wal }) :=
    hcoh.of_eq rfl rfl hheader rfl rfl rfl
  intro p
  by_cases hp : p = 0
  · rw [peek_of_range (.inl hp), peek_of_range (.inl hp)]
  rw [peek_eq hcoh' (by omega), peek_eq hbase (by omega)]
  have htotal : (restoreSnapshot snap { s with savepointStack := [], wal := s.wal }).header =
      B.header := hinv.header
  rw [htotal]
  split_ifs with hpB
  · have hcontent : (restoreSnapshot snap { s with savepointStack := [], wal := s.wal }).content 0 =
        (s.revert snap.originalPages snap.originalTotalPages).content 0 :=
      content_of_eq 0 rfl rfl hheader rfl
    rw [hcontent, content_revert hinv.txn.coherent hle (fun data hd => hinv.txn.loaded hd) (by omega)
      (by rw [hinv.total]; exact hpB)]
    cases horig : snap.originalPages p with
    | none => rw [Option.getD_none, hinv.saved.same p (by omega) hpB rfl horig]
    | some data => rw [Option.getD_some, hinv.saved.image p (by omega) hpB rfl data horig]
  · rfl

end Rollback

section MemoryRollback

attribute [local instance] Lz4Flex.incompressible

def savepointFirst : List TxnOp :=
  [.Write 3 (fun _ => Buf.zero), .Savepoint "s", .AllocatePage, .Write 4 (setLink 3),
    .RollbackToSavepoint "s", .FreePage 3]

theorem savepointFirst_reversible : Meets TxnOp.step (TxnOp.Reversible (openMemory Buf.zero))
    savepointFirst (left beginTransaction (openMemory Buf.zero)) := by
  refine ⟨⟨fun _ => .inr rfl, trivial⟩, ⟨trivial, trivial⟩, ⟨trivial, trivial⟩,
    ⟨fun _ => .inr rfl, trivial⟩, ⟨trivial, ?_⟩,
    ⟨⟨fun _ => .inr rfl, fun _ _ _ _ _ => .inr rfl⟩, trivial⟩, trivial⟩
  intro m hm
  obtain rfl := Option.some.inj hm
  exact ⟨rfl, rfl, rfl, rfl⟩

theorem rollbackTransaction_restores_savepointFirst :
    ∃ s', rollbackTransaction (run TxnOp.step savepointFirst
        (left beginTransaction (openMemory Buf.zero))) = .ok () s' ∧
      s'.header.totalPages = (openMemory Buf.zero).header.totalPages ∧
      SameRoots s'.cow.activeSuperblock (openMemory Buf.zero).cow.activeSuperblock ∧
      ∀ p, s'.peek p = (openMemory Buf.zero).peek p :=
  rollbackTransaction_restores (openMemory Buf.zero) savepointFirst (quiet_openMemory Buf.zero)
    savepointFirst_reversible

-- A savepoint taken after an allocation: the rolled back transaction keeps the page.
theorem rollbackTransaction_keeps_page :
    (openMemory Buf.zero).header.totalPages = 3 ∧
      (left rollbackTransaction (run TxnOp.step
        [.AllocatePage, .Savepoint "s", .RollbackToSavepoint "s"]
        (left beginTransaction (openMemory Buf.zero)))).header.totalPages = 4 :=
  ⟨rfl, rfl⟩

end MemoryRollback

section RollbackTo

variable [Lz4Flex] {base : Nat} {s B P : Pager} {name : String}

-- The calls before a savepoint is rolled back to: no other rollback among them.
def TxnOp.Plain (op : TxnOp) (s : Pager) : Prop :=
  op.Safe s ∧ match op with
    | .RollbackToSavepoint _ => False
    | _ => True

-- The savepoint called `name` is not created again.
def TxnOp.Keeps (name : String) (op : TxnOp) (s : Pager) : Prop :=
  op.Plain s ∧ match op with
    | .Savepoint other => eqIgnoreAsciiCase other name = false
    | _ => True

def Only (m : SavepointMarker) (name : String) (s : Pager) : Prop :=
  ∀ k ∈ s.savepointStack, eqIgnoreAsciiCase k.name name = true → k = m

theorem plain_step {W : Nat → Bool} {op : TxnOp}
    (hinv : ∃ snap, TxnInv 0 base snap s ∧ Saved 0 W P snap s) (hop : op.Plain s) :
    ∃ snap, TxnInv 0 base snap (op.step s) ∧ Saved 0 W P snap (op.step s) := by
  obtain ⟨snap, htxn, hsaved⟩ := hinv
  have hedits : Edits 0 base s (op.step s) →
      ∃ snap, TxnInv 0 base snap (op.step s) ∧ Saved 0 W P snap (op.step s) := fun h => by
    obtain ⟨images, h₁, h₂⟩ := h.txn htxn hsaved
    exact ⟨_, h₁, h₂⟩
  cases op with
  | GetPage p => exact hedits (TxnOp.step_edits trivial htxn.coherent hop.1)
  | Write p f => exact hedits (TxnOp.step_edits trivial htxn.coherent hop.1)
  | AllocatePage => exact hedits (TxnOp.step_edits trivial htxn.coherent hop.1)
  | FreePage p => exact hedits (TxnOp.step_edits trivial htxn.coherent hop.1)
  | Savepoint other =>
      rw [TxnOp.step, left_ok (savepoint_eq htxn.active other)]
      exact ⟨snap, htxn.restack (pushSavepoint_wellFormed htxn other), hsaved.restack _⟩
  | ReleaseSavepoint other =>
      obtain ⟨count, h⟩ := releaseSavepoint_eq s other
      rw [TxnOp.step, h]
      exact ⟨snap, htxn.restack (fun m hm => htxn.markers m (List.mem_of_mem_take hm)),
        hsaved.restack _⟩
  | RollbackToSavepoint other => exact hop.2.elim

theorem only_step {m : SavepointMarker} {op : TxnOp} {snap : TxnSnapshot}
    (htxn : TxnInv 0 base snap s) (honly : Only m name s) (hop : op.Keeps name s) :
    Only m name (op.step s) := by
  have hedits : Edits 0 base s (op.step s) → Only m name (op.step s) := fun h => by
    unfold Only
    rw [(h.frame htxn.coherent).stack]
    exact honly
  cases op with
  | GetPage p => exact hedits (TxnOp.step_edits trivial htxn.coherent hop.1.1)
  | Write p f => exact hedits (TxnOp.step_edits trivial htxn.coherent hop.1.1)
  | AllocatePage => exact hedits (TxnOp.step_edits trivial htxn.coherent hop.1.1)
  | FreePage p => exact hedits (TxnOp.step_edits trivial htxn.coherent hop.1.1)
  | Savepoint other =>
      rw [TxnOp.step, left_ok (savepoint_eq htxn.active other)]
      intro k hk hname
      rcases List.mem_append.mp hk with h | h
      · exact honly k (List.mem_of_mem_filter h) hname
      · obtain rfl := List.mem_singleton.mp h
        rw [savepointMarker, hop.2] at hname
        cases hname
  | ReleaseSavepoint other =>
      obtain ⟨count, h⟩ := releaseSavepoint_eq s other
      rw [TxnOp.step, h]
      exact fun k hk => honly k (List.mem_of_mem_take hk)
  | RollbackToSavepoint other => exact hop.1.2.elim

theorem savepoint_saved {snap : TxnSnapshot} (htxn : TxnInv 0 base snap P) (name : String) :
    ∃ m : SavepointMarker, m.WellFormed ∧ m.originalTotalPages = P.header.totalPages ∧
      m.cowSuperblock = P.cow.activeSuperblock ∧
      (∀ p, 0 < p → m.watermarkKeys p = (P.page p).snapshotted) ∧
      TxnInv 0 base snap (left (savepoint name) P) ∧
      Saved 0 m.watermarkKeys P snap (left (savepoint name) P) ∧
      Only m name (left (savepoint name) P) := by
  have hwf := pushSavepoint_wellFormed htxn name
  rw [left_ok (savepoint_eq htxn.active name)]
  refine ⟨_, hwf _ (List.mem_append_right _ (List.mem_singleton_self _)), rfl, rfl, ?_,
    htxn.restack hwf, ⟨Nat.le_refl _, ?_, fun _ _ _ _ _ => rfl⟩, ?_⟩
  · intro p hp
    rw [← htxn.imaged p hp]
    simp only [savepointMarker, htxn.snapshot]
  · intro p _ _ hw data hd
    simp only [savepointMarker, htxn.snapshot, hd] at hw
    cases hw
  · intro k hk hname
    rcases List.mem_append.mp hk with h | h
    · simp [hname] at h
    · exact List.mem_singleton.mp h

theorem peek_restoreMarker {snap : TxnSnapshot} {m : SavepointMarker} (htxn : TxnInv 0 base snap s)
    (hsaved : Saved 0 m.watermarkKeys P snap s) (hm : m.WellFormed)
    (htotal : m.originalTotalPages = P.header.totalPages) (hb : base ≤ m.originalTotalPages)
    {p : Nat} (hp : 0 < p) (hle : p ≤ P.header.totalPages) :
    (restoreMarker m s).peek p =
      some (if m.watermarkKeys p then s.content 0 p else P.content 0 p) := by
  have hlt : m.originalTotalPages ≤ s.header.totalPages := by rw [htotal]; exact hsaved.total
  obtain ⟨dirtyPages, heq⟩ := restoreMarker_eq htxn.snapshot hm
  -- restored pages may differ from the storage, so only the shape of the buffer is coherent
  have hcoh : Coherent base base (restoreMarker m s) := by
    rw [heq]
    exact (revert_coherent _ (htxn.coherent.mono (Nat.zero_le base)) hb hlt (fun _ p hq hlo =>
      absurd (htxn.coherent.queue p hq).2 (by omega))).of_eq rfl rfl rfl rfl rfl rfl
  have hheader : (restoreMarker m s).header.totalPages = m.originalTotalPages := by
    rw [heq]; rfl
  have hload : (restoreMarker m s).isLoaded p = s.isLoaded p := by
    rw [heq]
    exact isLoaded_revert (imagesSince m snap) hp (by omega)
  have hstored : (restoreMarker m s).stored = s.stored := by rw [heq]; rfl
  rw [peek_of_readable 0 hcoh hp, if_pos (by omega),
    content_restoreMarker htxn hm hlt hp (by omega), imagesSince]
  · split_ifs with hw
    · rfl
    · cases horig : snap.originalPages p with
      | none =>
          rw [Option.getD_none, hsaved.same p hp hle (by simpa using hw) horig]
      | some data =>
          rw [Option.getD_some, hsaved.image p hp hle (by simpa using hw) data horig]
  · intro _ hl
    rw [hload] at hl
    rw [hstored]
    refine htxn.coherent.readable p hp ?_ hl
    by_contra hbp
    rw [htxn.coherent.appended p (by omega) (by omega)] at hl
    cases hl

-- A page is put back to the savepoint exactly when its image was saved after the
-- savepoint; the pages written before it keep what they hold now.
theorem rollbackToSavepoint_restores_iff (B P s : Pager) (before after : List TxnOp)
    (name : String) (hB : Idle B)
    (hbefore : Meets TxnOp.step TxnOp.Plain before (left beginTransaction B))
    (hP : P = run TxnOp.step before (left beginTransaction B))
    (hafter : Meets TxnOp.step (TxnOp.Keeps name) after (left (savepoint name) P))
    (hs : s = run TxnOp.step after (left (savepoint name) P))
    (hfound : (s.findMarker name).isSome) :
    ∃ s', rollbackToSavepoint name s = .ok () s' ∧
      s'.header.totalPages = P.header.totalPages ∧
      s'.cow.activeSuperblock.freeRoot = P.cow.activeSuperblock.freeRoot ∧
      s'.cow.activeSuperblock.pendingFreeRoot = P.cow.activeSuperblock.pendingFreeRoot ∧
      ((∀ p, s'.peek p = P.peek p) ↔
        ∀ p, 0 < p → p ≤ P.header.totalPages → (P.page p).snapshotted = true →
          s.peek p = P.peek p) := by
  obtain ⟨base, hbase⟩ := hB.coherent
  obtain ⟨htxn₀, hsaved₀⟩ := txn_begin hB hbase
  obtain ⟨snapP, htxnP, -⟩ := run_invariant
    (fun s => ∃ snap, TxnInv 0 base snap s ∧ Saved 0 (fun _ => false) B snap s)
    ⟨_, htxn₀, hsaved₀⟩ (fun _ _ h hop => plain_step h hop) hbefore
  rw [← hP] at htxnP
  obtain ⟨m, hm, htotal, hsb, hkeys, htxn₁, hsaved₁, honly₁⟩ := savepoint_saved htxnP name
  obtain ⟨⟨snap, htxn, hsaved⟩, honly⟩ := run_invariant
    (fun s => (∃ snap, TxnInv 0 base snap s ∧ Saved 0 m.watermarkKeys P snap s) ∧ Only m name s)
    ⟨⟨snapP, htxn₁, hsaved₁⟩, honly₁⟩
    (fun _ _ h hop => ⟨plain_step h.1 hop.1, only_step h.1.choose_spec.1 h.2 hop⟩) hafter
  rw [← hs] at htxn hsaved honly
  obtain ⟨k, hk⟩ := Option.isSome_iff_exists.mp hfound
  obtain ⟨hmem, hname⟩ := findMarker_spec hk
  obtain rfl := honly k hmem hname
  obtain ⟨count, -, hrun⟩ := rollbackToSavepoint_eq hk
  have htxn' := htxn.restack (fun m hm => htxn.markers m (List.mem_of_mem_take hm) :
    ∀ m ∈ s.savepointStack.take count, m.WellFormed)
  have hsaved' := hsaved.restack (s.savepointStack.take count)
  have hbP : base ≤ k.originalTotalPages := by rw [htotal]; exact htxnP.coherent.base_le
  obtain ⟨dirtyPages, heq⟩ := restoreMarker_eq htxn'.snapshot hm
  have hheader : (restoreMarker k { s with savepointStack := s.savepointStack.take count }).header
      = P.header := by
    rw [heq, revert, htotal]
  refine ⟨_, hrun, by rw [hheader], by rw [heq, hsb], by rw [heq, hsb], ?_⟩
  have hpeek : ∀ p, 0 < p → p ≤ P.header.totalPages →
      P.peek p = some (P.content 0 p) ∧ s.peek p = some (s.content 0 p) ∧
      (restoreMarker k { s with savepointStack := s.savepointStack.take count }).peek p =
        some (if k.watermarkKeys p then s.content 0 p else P.content 0 p) := by
    intro p hp hle
    have hcontent : Pager.content 0 { s with savepointStack := s.savepointStack.take count } =
      s.content 0 := content_of_eq 0 rfl rfl rfl rfl
    rw [peek_restoreMarker htxn' hsaved' hm htotal hbP hp hle, hcontent,
      peek_eq htxnP.coherent hp, peek_eq htxn.coherent hp, if_pos hle,
      if_pos (Nat.le_trans hle hsaved.total)]
    exact ⟨rfl, rfl, rfl⟩
  constructor
  · intro hall p hp hle hsn
    obtain ⟨-, h₂, h₃⟩ := hpeek p hp hle
    rw [← hall p, h₂, h₃, hkeys p hp, if_pos hsn]
  · intro hpages p
    by_cases hr : p = 0 ∨ P.header.totalPages < p
    · rw [peek_of_range (by rw [hheader]; exact hr), peek_of_range hr]
    · obtain ⟨h₁, h₂, h₃⟩ := hpeek p (by omega) (by omega)
      rw [h₃, hkeys p (by omega)]
      split_ifs with hsn
      · rw [← hpages p (by omega) (by omega) hsn, h₂]
      · rw [h₁]

end RollbackTo

section MemoryRollbackTo

attribute [local instance] Lz4Flex.incompressible

def savepointState (before : List TxnOp) : Pager :=
  run TxnOp.step before (left beginTransaction (openMemory Buf.zero))

def savepointEnd (before after : List TxnOp) (name : String) : Pager :=
  run TxnOp.step after (left (savepoint name) (savepointState before))

theorem rollbackToSavepoint_restores_iff_write :
    ∃ s', rollbackToSavepoint "s" (savepointEnd [.AllocatePage] [.Write 3 (setLink 7)] "s") =
        .ok () s' ∧
      s'.header.totalPages = (savepointState [.AllocatePage]).header.totalPages ∧
      s'.cow.activeSuperblock.freeRoot =
        (savepointState [.AllocatePage]).cow.activeSuperblock.freeRoot ∧
      s'.cow.activeSuperblock.pendingFreeRoot =
        (savepointState [.AllocatePage]).cow.activeSuperblock.pendingFreeRoot ∧
      ((∀ p, s'.peek p = (savepointState [.AllocatePage]).peek p) ↔
        ∀ p, 0 < p → p ≤ (savepointState [.AllocatePage]).header.totalPages →
          ((savepointState [.AllocatePage]).page p).snapshotted = true →
          (savepointEnd [.AllocatePage] [.Write 3 (setLink 7)] "s").peek p =
            (savepointState [.AllocatePage]).peek p) :=
  rollbackToSavepoint_restores_iff (openMemory Buf.zero) _ _ [.AllocatePage]
    [.Write 3 (setLink 7)] "s" (quiet_openMemory Buf.zero).toIdle ⟨⟨trivial, trivial⟩, trivial⟩ rfl
    ⟨⟨⟨fun _ => .inr rfl, trivial⟩, trivial⟩, trivial⟩ rfl rfl

-- A page written before and after the savepoint is not put back: its link field
-- was 1 at the savepoint and is 2 after the rollback to it.
theorem rollbackToSavepoint_keeps_write :
    ((savepointState [.Write 3 (setLink 1)]).peek 3).map (·.u32 0) = some 1 ∧
      ((left (rollbackToSavepoint "s") (savepointEnd [.Write 3 (setLink 1)]
        [.Write 3 (setLink 2)] "s")).peek 3).map (·.u32 0) = some 2 := by
  decide

end MemoryRollbackTo

end Pager

end Kkdb
