import Kkdb.Pager.FreeList
import Kkdb.Pager.Rollback

namespace Kkdb

open Lib

namespace Pager

section Savepoints

variable [Lz4Flex] {base : Nat} {s s' B : Pager} {σ : Space} {snap : TxnSnapshot}

theorem startTransaction_space (h : SpaceInv base (s, σ)) (hrest : Resting s σ) (hset : s.Settled) :
    SpaceInv base (s.startTransaction, σ.begin) ∧
      Working base s s.beginSnapshot s.startTransaction σ.begin := by
  have hcoh : Coherent 2 base s.startTransaction := h.sys.coherent.of_eq rfl rfl rfl rfl rfl rfl
  obtain ⟨htxn, hsaved⟩ := startTransaction_txn h.sys.coherent hrest.unsaved hrest.markers
  have hwork : Working base s s.beginSnapshot s.startTransaction σ.begin := {
    txn := htxn
    saved := hsaved
    clean := by
      refine ⟨fun hmax p hp hlo hd => ?_, fun _ _ _ _ _ hd => (nomatch hd)⟩
      have hclean := hset.resolve_left hmax p hp hlo
      rw [show (s.startTransaction.page p).dirty = (s.page p).dirty from rfl, hclean] at hd
      cases hd
    base_le := h.sys.coherent.base_le
    slots := h.sys.slots
    header := rfl
    total_ge := Nat.le_refl _
    total_le := Nat.le_refl _
    tx := ⟨_, rfl, by rw [Space.begin, hrest.freed]; rfl, by rw [Space.begin, hrest.freed]; rfl⟩
    freed := by
      rw [Space.begin, hrest.freed]
      rfl
    imaged := fun p hp => by
      rw [Space.begin, hrest.freed] at hp
      cases hp
    fresh := fun p hp => by
      have hmem := mem_lists_of_fresh hp
      exact ⟨(h.lists.range p hmem).2, hrest.unsaved p (h.lists.pos hmem),
        h.lists.sound.unused p hmem⟩
    begun := {
      free := h.lists.free
      pending := h.lists.pending
      nodup := nodup_fresh h.lists.sound
      range := fun p hp => by
        have hmem := mem_lists_of_fresh hp
        exact ⟨(h.lists.range p hmem).1, (h.lists.range p hmem).2, h.lists.sound.unused p hmem⟩ }
    owned := h.lists.owned
    marks := fun k hk hlive => by
      rw [hrest.dead k hk] at hlive
      cases hlive
    order := by
      refine List.pairwise_of_forall_mem_list fun a ha b _ hlive => ?_
      rw [hrest.dead a ha] at hlive
      cases hlive }
  exact ⟨⟨⟨hcoh, h.sys.tracked, h.sys.file, h.sys.fits, h.sys.committed, h.sys.failpoint,
    h.sys.slots, h.sys.count⟩, ⟨h.lists.free, h.lists.pending, h.lists.range, h.lists.owned,
    h.lists.sound⟩, h.stack, .inr ⟨s, _, hwork⟩⟩, hwork⟩

theorem Working.links_eq {p : Nat} (h : Working base B snap s σ) (hlo : 2 < p)
    (hle : p ≤ B.header.totalPages) (hsn : (s.page p).snapshotted = false) :
    s.links p = B.links p := by
  rw [links, links, h.saved.same p hlo hle rfl (h.txn.image_none (by omega) hsn)]

theorem Working.freeAt (h : Working base B snap s σ) (hl : Lists s σ.now) :
    FreeAt B σ.begun.allocated s.cow.activeSuperblock σ.now.free σ.now.pending := by
  have hsame : ∀ p ∈ σ.now.free ++ σ.now.pending, B.links p = s.links p := by
    intro p hp
    obtain ⟨hle, hsn, -⟩ := h.fresh p hp
    exact (h.links_eq (hl.range p (mem_lists_of_fresh hp)).1 hle hsn).symm
  refine ⟨hl.free.congr fun p hp => hsame p (List.mem_append_left _ hp),
    hl.pending.congr fun p hp => hsame p (List.mem_append_right _ hp), nodup_fresh hl.sound,
    fun p hp => ?_⟩
  obtain ⟨hle, -, hbegun⟩ := h.fresh p hp
  exact ⟨(hl.range p (mem_lists_of_fresh hp)).1, hle, hbegun⟩

theorem Working.restack (h : Working base B snap s σ) (hs : s.savepointStack = σ.marks.map (·.marker))
    {marks : List Mark} (hsub : marks.Sublist σ.marks) :
    Working base B snap { s with savepointStack := marks.map (·.marker) } { σ with marks := marks } := by
  have hstack : ∀ m ∈ marks.map (·.marker), m ∈ s.savepointStack := by
    intro m hm
    rw [hs]
    exact (hsub.map _).subset hm
  exact ⟨h.txn.restack fun m hm => h.txn.markers m (hstack m hm), h.saved.restack _, h.clean.restack _,
    h.base_le, h.slots, h.header, h.total_ge, h.total_le, h.tx, h.freed, h.imaged, h.fresh, h.begun,
    h.owned, fun k hk => h.marks k (hsub.subset hk), h.order.sublist hsub⟩

theorem Sys.restack (h : Sys base s) (stack : List SavepointMarker) :
    Sys base { s with savepointStack := stack } :=
  ⟨h.coherent.of_eq rfl rfl rfl rfl rfl rfl, h.tracked, h.file, h.fits, h.committed, h.failpoint,
    h.slots, h.count⟩

theorem SpaceInv.restack (h : SpaceInv base (s, σ)) {marks : List Mark}
    (hsub : marks.Sublist σ.marks) :
    SpaceInv base ({ s with savepointStack := marks.map (·.marker) }, { σ with marks := marks }) := by
  have hs : s.savepointStack = σ.marks.map (·.marker) := h.stack
  refine ⟨h.sys.restack _,
    ⟨h.lists.free, h.lists.pending, h.lists.range, h.lists.owned, h.lists.sound⟩, rfl, ?_⟩
  rcases h.phase with hrest | ⟨B, snap, hwork⟩
  · refine .inl ⟨hrest.idle, hrest.snapshot, hrest.unsaved, hrest.freed,
      fun k hk => hrest.dead k (hsub.subset hk), fun m hm => hrest.markers m ?_⟩
    rw [hs]
    exact (hsub.map _).subset hm
  · exact .inr ⟨B, snap, hwork.restack hs hsub⟩

theorem pushSavepoint_space (name : String) (h : SpaceInv base (s, σ))
    (hwork : Working base B snap s σ) :
    SpaceInv base (s.pushSavepoint name, σ.mark (s.savepointMarker name)) := by
  have hs : s.savepointStack = σ.marks.map (·.marker) := h.stack
  have hsub := List.filter_sublist (l := σ.marks)
    (p := fun k => !eqIgnoreAsciiCase k.marker.name (s.savepointMarker name).name)
  refine ⟨h.sys.restack _,
    ⟨h.lists.free, h.lists.pending, h.lists.range, h.lists.owned, h.lists.sound⟩, ?_, .inr ⟨B, snap,
      hwork.txn.restack (pushSavepoint_wellFormed hwork.txn name), hwork.saved.restack _,
      hwork.clean.restack _, hwork.base_le, hwork.slots, hwork.header, hwork.total_ge,
      hwork.total_le, hwork.tx, hwork.freed, hwork.imaged, hwork.fresh, hwork.begun, hwork.owned,
      ?_, ?_⟩⟩
  · show s.savepointStack.filter _ ++ _ = (σ.marks.filter _ ++ _).map (·.marker)
    rw [hs, List.map_append, List.filter_map]
    rfl
  · intro k hk hlive
    rcases List.mem_append.mp hk with hk | hk
    · exact hwork.marks k (hsub.subset hk) hlive
    · obtain rfl := List.mem_singleton.mp hk
      refine ⟨hwork.saved.total, Nat.le_refl _, hwork.freeAt h.lists, fun p hp => ?_,
        fun p hp => ?_, h.lists.sound,
        fun p hp => h.lists.range p (Ledger.mem_lists.mpr (.inr (.inr hp))), h.lists.owned⟩
      · have hnone := hwork.txn.image_none (h.lists.pos (mem_lists_of_fresh hp)) (hwork.fresh p hp).2.1
        simp only [savepointMarker, hwork.txn.snapshot, hnone]
        rfl
      · have himg := hwork.txn.imaged p (h.lists.pos (Ledger.mem_lists.mpr (.inr (.inr hp))))
        rw [hwork.imaged p hp] at himg
        simp only [savepointMarker, hwork.txn.snapshot]
        exact himg
  · refine List.pairwise_append.mpr ⟨hwork.order.sublist hsub, List.pairwise_singleton _ _, ?_⟩
    intro a ha b hb hlive _
    obtain rfl := List.mem_singleton.mp hb
    exact (hwork.marks a (hsub.subset ha) hlive).le

theorem LiveMark.unsaved {k : Mark} {allocated : Finset Nat} {total p : Nat}
    (hk : LiveMark B allocated total k) (hp : p ∈ k.ledger.free ++ k.ledger.pending) :
    (snapshotAt k.marker snap).originalPages p = none := by
  simp only [snapshotAt, hk.fresh p hp]
  rfl

-- The lists of a savepoint are intact where its pages are back.
theorem LiveMark.lists_restored {k : Mark} {allocated : Finset Nat} {total : Nat}
    (hk : LiveMark B allocated total k) (hsaved : Saved 2 (fun _ => false) B (snapshotAt k.marker snap) s)
    (htotal : s.header.totalPages = k.marker.originalTotalPages)
    (hsb : s.cow.activeSuperblock = k.marker.cowSuperblock) : Lists s k.ledger := by
  have hlinks : ∀ p ∈ k.ledger.free ++ k.ledger.pending, s.links p = B.links p := by
    intro p hp
    obtain ⟨hlo, hle, -⟩ := hk.lists.range p hp
    rw [links, links, hsaved.same p hlo hle rfl (hk.unsaved hp)]
  have hfresh : ∀ p ∈ k.ledger.free ++ k.ledger.pending, 2 < p ∧ p ≤ k.marker.originalTotalPages := by
    intro p hp
    obtain ⟨hlo, hle, -⟩ := hk.lists.range p hp
    exact ⟨hlo, Nat.le_trans hle hk.ge⟩
  refine ⟨?_, ?_, fun p hp => ?_, ?_, hk.sound⟩
  · rw [hsb]
    exact hk.lists.free.congr fun p hp => hlinks p (List.mem_append_left _ hp)
  · rw [hsb]
    exact hk.lists.pending.congr fun p hp => hlinks p (List.mem_append_right _ hp)
  · rw [htotal]
    rcases Ledger.mem_lists.mp hp with hp | hp | hp
    · exact hfresh p (List.mem_append_left _ hp)
    · exact hfresh p (List.mem_append_right _ hp)
    · exact hk.freed p hp
  · rw [htotal]
    exact hk.owned

theorem restoreMarker_sys {m : SavepointMarker} (h : Sys base s) (htxn : TxnInv 2 base snap s)
    (hclean : Clean 2 snap s) (hm : m.WellFormed) (hb : base ≤ m.originalTotalPages)
    (hslots : 2 ≤ m.originalTotalPages) (ht : m.originalTotalPages ≤ s.header.totalPages) :
    Sys base (restoreMarker m s) := by
  have htracked : ∀ p ∈ (restoreMarker m s).dirtyPages, 0 < p := fun p hp =>
    h.tracked p (List.mem_of_mem_filter hp)
  have hcoh := (restoreMarker_txn htxn hclean hm hb ht).coherent
  obtain ⟨dirtyPages, heq⟩ := restoreMarker_eq htxn.snapshot hm
  rw [heq] at htracked hcoh ⊢
  exact ⟨hcoh, htracked, h.file, h.fits, h.committed, h.failpoint, hslots,
    Nat.lt_of_le_of_lt ht h.count⟩

-- The freed list is still that of the savepoint, so its pages have the links they had.
theorem Working.links_freed {k : Mark} {p : Nat} (h : Working base B snap s σ) (hm : k.marker.WellFormed)
    (hk : LiveMark B σ.begun.allocated s.header.totalPages k) (hp : p ∈ k.ledger.freed) :
    (restoreMarker k.marker s).links p = s.links p := by
  obtain ⟨hlo, hle⟩ := hk.freed p hp
  rw [links, links, content_restoreMarker h.txn hm hk.le hlo hle, imagesSince, if_pos (hk.kept p hp),
    Option.getD_none]

theorem restoreMarker_working {k : Mark} (h : Working base B snap s σ) (hm : k.marker.WellFormed)
    (hk : LiveMark B σ.begun.allocated s.header.totalPages k) (hfreed : k.ledger.freed = σ.now.freed)
    (hlast : ∀ j ∈ σ.marks, j.live = true → j.marker.originalTotalPages ≤ k.marker.originalTotalPages) :
    Working base B (snapshotAt k.marker snap) (restoreMarker k.marker s)
      { σ with now := k.ledger, begun := { σ.begun with free := k.ledger.free, pending := k.ledger.pending } } := by
  have htxn := restoreMarker_txn h.txn h.clean hm (Nat.le_trans h.base_le hk.ge) hk.le
  obtain ⟨dirtyPages, heq⟩ := restoreMarker_eq h.txn.snapshot hm
  have htotal : (restoreMarker k.marker s).header.totalPages = k.marker.originalTotalPages := by
    rw [heq]; rfl
  refine ⟨htxn, restoreMarker_saved h.txn hm hk.le h.saved hk.ge,
    restoreMarker_clean h.txn h.clean hm hk.le, h.base_le, h.slots, hm.header, hk.ge, ?_, ?_, ?_,
    fun p hp => ?_, fun p hp => ?_, hk.lists, h.owned, fun j hj hjlive => ?_, h.order⟩
  · show k.marker.originalTotalPages ≤ _
    rw [htotal]
  · show ∃ tx : CowTxnState, _ ∧ tx.freedRoot = k.ledger.freed.head? ∧ tx.freedTail = k.ledger.freed.getLast?
    rw [hfreed, heq]
    exact h.tx
  · show Linked _ (k.ledger.freed.head?.getD 0) k.ledger.freed
    have hlinked := h.freed
    rw [← hfreed] at hlinked
    exact hlinked.congr fun p hp => h.links_freed hm hk hp
  · obtain ⟨hlo, -⟩ := hk.freed p hp
    rw [← htxn.imaged p (by omega)]
    simp only [snapshotAt, hk.kept p hp, if_true]
    rw [h.txn.imaged p (by omega)]
    exact h.imaged p (by rw [← hfreed]; exact hp)
  · obtain ⟨hlo, hle, hbegun⟩ := hk.lists.range p hp
    refine ⟨hle, ?_, hbegun⟩
    rw [← htxn.imaged p (by omega), hk.unsaved hp]
    rfl
  · refine { h.marks j hj hjlive with le := ?_ }
    rw [htotal]
    exact hlast j hj hjlive

theorem Working.le_last {k : Mark} {pos : Nat} (h : Working base B snap s σ)
    (hpos : σ.marks[pos]? = some k) (hlive : k.live = true) :
    ∀ j ∈ σ.marks.take (pos + 1), j.live = true →
      j.marker.originalTotalPages ≤ k.marker.originalTotalPages := by
  intro j hj hjlive
  obtain ⟨hlt, hget⟩ := List.getElem?_eq_some_iff.mp hpos
  have horder := h.order.sublist (List.take_sublist (pos + 1) σ.marks)
  rw [List.take_succ_eq_append_getElem hlt, hget] at hj horder
  rcases List.mem_append.mp hj with hfront | hlast
  · exact (List.pairwise_append.mp horder).2.2 j hfront k (List.mem_singleton_self k) hjlive hlive
  · rw [List.mem_singleton.mp hlast]

-- Rolled back to a live savepoint with the freed list unchanged, the pager is
-- where the savepoint's ledger says.
theorem restoreMarker_space {k : Mark} {pos : Nat} (h : SpaceInv base (s, σ))
    (hwork : Working base B snap s σ) (hpos : σ.marks[pos]? = some k) (hlive : k.live = true)
    (hfreed : k.ledger.freed = σ.now.freed) :
    SpaceInv base (restoreMarker k.marker { s with savepointStack := s.savepointStack.take (pos + 1) },
      σ.rollbackTo pos k) := by
  have hmem : k ∈ σ.marks := List.mem_of_getElem? hpos
  have hs : s.savepointStack = σ.marks.map (·.marker) := h.stack
  have hk := hwork.marks k hmem hlive
  have hm : k.marker.WellFormed := by
    refine hwork.txn.markers _ ?_
    rw [hs]
    exact List.mem_map_of_mem hmem
  have hwork₁ := hwork.restack hs (List.take_sublist (pos + 1) σ.marks)
  rw [List.map_take, ← hs] at hwork₁
  have hreturned := restoreMarker_working hwork₁ hm hk hfreed (hwork.le_last hpos hlive)
  have hsys := restoreMarker_sys (h.sys.restack _) hwork₁.txn hwork₁.clean hm
    (Nat.le_trans hwork.base_le hk.ge) (Nat.le_trans hwork.slots hk.ge) hk.le
  obtain ⟨dirtyPages, heq⟩ := restoreMarker_eq hwork₁.txn.snapshot hm
  have hnow : σ.rollbackTo pos k = { σ with
      now := k.ledger
      begun := { σ.begun with free := k.ledger.free, pending := k.ledger.pending }
      marks := σ.marks.take (pos + 1) } := by
    rw [Space.rollbackTo, ← hfreed]
  rw [hnow]
  refine ⟨hsys, hk.lists_restored hreturned.saved (by rw [heq]; rfl) (by rw [heq]), ?_,
    .inr ⟨B, _, hreturned⟩⟩
  show (restoreMarker k.marker _).savepointStack = (σ.marks.take (pos + 1)).map (·.marker)
  rw [heq, List.map_take, ← hs]
  rfl

theorem restoreSnapshot_space (h : SpaceInv base (s, σ)) (hwork : Working base B snap s σ) :
    SpaceInv base (restoreSnapshot snap { s with savepointStack := [], wal := s.wal },
      σ.rollback true) := by
  have hcoh := revert_coherent snap.originalPages hwork.txn.coherent
    (Nat.le_trans hwork.base_le hwork.total_ge) hwork.total_le
    (fun hmax p hq hlo data hd => hwork.clean.stored hmax p hq hlo data hd)
  obtain ⟨s', hs'⟩ : ∃ s', s' = restoreSnapshot snap { s with savepointStack := [], wal := s.wal } :=
    ⟨_, rfl⟩
  have hcoh' : Coherent 2 base s' := by
    rw [hs']
    exact hcoh.of_eq rfl rfl hwork.header rfl rfl rfl
  have htotal : s'.header.totalPages = snap.originalTotalPages := by
    rw [hs', restoreSnapshot, hwork.header]
  have hlinks : ∀ p ∈ σ.begun.free ++ σ.begun.pending, s'.links p = B.links p := by
    intro p hp
    obtain ⟨hlo, hle, -⟩ := hwork.begun.range p hp
    have hcontent : s'.content 2 = (s.revert snap.originalPages snap.originalTotalPages).content 2 := by
      rw [hs']
      exact content_of_eq 2 rfl rfl hwork.header rfl
    rw [links, links, hcontent, content_revert hwork.txn.coherent hwork.total_le
      (fun data hd => hwork.txn.loaded hd) hlo (Nat.le_trans hle hwork.total_ge)]
    cases horig : snap.originalPages p with
    | none => rw [Option.getD_none, hwork.saved.same p hlo hle rfl horig]
    | some data => rw [Option.getD_some, hwork.saved.image p hlo hle rfl data horig]
  have hunsaved : ∀ p, 0 < p → (s'.page p).snapshotted = false := by
    intro p hp
    by_cases hle : p ≤ snap.originalTotalPages
    · have hpage : s'.page p = revertedPage snap.originalPages p (s.page p) := by
        rw [hs']
        exact page_revert _ hp hle (by
          rw [hwork.txn.coherent.pagesLength]
          exact Nat.le_trans hle hwork.total_le)
      have himg := hwork.txn.imaged p hp
      rw [hpage, revertedPage]
      cases horig : snap.originalPages p with
      | none =>
          rw [horig] at himg
          exact himg.symm
      | some data => rfl
    · rw [page_of_lt (by rw [hcoh'.pagesLength, htotal]; omega)]
      rfl
  rw [← hs']
  refine ⟨⟨hcoh', ?_, ?_, ?_, ?_, ?_, ?_, ?_⟩, ⟨?_, ?_, ?_, ?_, ?_⟩, ?_, .inl ⟨?_, ?_, hunsaved, rfl,
    fun k hk => (by cases hk), ?_⟩⟩
  · rw [hs']
    exact fun p hp => (by cases hp)
  · rw [hs']
    exact h.sys.file
  · rw [hs']
    exact h.sys.fits
  · rw [hs']
    exact h.sys.committed
  · rw [hs']
    exact h.sys.failpoint
  · show 2 ≤ s'.header.totalPages
    rw [htotal]
    exact Nat.le_trans hwork.slots hwork.total_ge
  · show s'.header.totalPages < 2 ^ 32
    rw [htotal]
    exact Nat.lt_of_le_of_lt hwork.total_le h.sys.count
  · rw [hs']
    exact hwork.begun.free.congr fun p hp => by
      rw [← hs']
      exact hlinks p (List.mem_append_left _ hp)
  · rw [hs']
    exact hwork.begun.pending.congr fun p hp => by
      rw [← hs']
      exact hlinks p (List.mem_append_right _ hp)
  · intro p hp
    have hp' : p ∈ σ.begun.free ++ σ.begun.pending := by
      simpa [Space.rollback, Ledger.lists] using hp
    obtain ⟨hlo, hle, -⟩ := hwork.begun.range p hp'
    rw [htotal]
    exact ⟨hlo, Nat.le_trans hle hwork.total_ge⟩
  · intro p hp
    obtain ⟨hlo, hle⟩ := hwork.owned p hp
    rw [htotal]
    exact ⟨hlo, Nat.le_trans hle hwork.total_ge⟩
  · refine ⟨?_, fun p hp => ?_⟩
    · have hnodup := hwork.begun.nodup
      simpa [Space.rollback, Ledger.lists] using hnodup
    · have hp' : p ∈ σ.begun.free ++ σ.begun.pending := by
        simpa [Space.rollback, Ledger.lists] using hp
      exact (hwork.begun.range p hp').2.2
  · rw [hs']
    rfl
  · rw [hs']
    rfl
  · rw [hs']
    rfl
  · rw [hs']
    exact fun m hm => (by cases hm)

theorem rollbackTransaction_space (h : SpaceInv base (s, σ)) :
    ∃ s', rollbackTransaction s = .ok () s' ∧ SpaceInv base (s', σ.rollback s.inTransaction) := by
  have hwal := map_rollback_wal h.sys.committed
  rcases h.phase with hrest | ⟨B, snap, hwork⟩
  · rw [hrest.inTransaction]
    have hidle : setActiveTx none { s with savepointStack := [], wal := s.wal } =
        { s with savepointStack := [] } := by
      simp only [setActiveTx]
      rw [← hrest.idle]
    refine ⟨{ s with savepointStack := [] }, ?_, ?_⟩
    · rw [rollbackTransaction_idle hrest.snapshot, hwal, hidle]
    · exact h.restack (List.nil_sublist σ.marks)
  · rw [hwork.inTransaction]
    refine ⟨_, rollbackTransaction_eq hwork.txn.snapshot, ?_⟩
    rw [hwal]
    exact restoreSnapshot_space h hwork

end Savepoints

-- A page flagged as snapshotted has an image. Between the write of the data pages
-- and the end of the transaction nothing more is known of the flags.
def Marked (s : Pager) : Prop :=
  ∀ p, 0 < p → (s.page p).snapshotted = true →
    ∃ snap, s.txnSnapshot = some snap ∧ (snap.originalPages p).isSome = true

theorem endTransaction_unsaved {s : Pager} (h : s.Marked) :
    ∀ p, 0 < p → (s.endTransaction.page p).snapshotted = false := by
  intro p hp
  cases hsn : (s.page p).snapshotted with
  | false => exact (page_endTransaction s p).2.2 hsn
  | true =>
      obtain ⟨snap, hsnap, himg⟩ := h p hp hsn
      have hpos : p - 1 + 1 = p := by omega
      simp only [endTransaction, hsnap, page, List.getD_eq_getElem?_getD, List.getElem?_mapIdx, hpos,
        himg, if_true]
      cases s.pages[p - 1]? <;> rfl

section Commit

variable [Lz4Flex] {base : Nat} {s s' B : Pager} {σ : Space} {snap : TxnSnapshot} {l : Ledger}

theorem Edit.marked {lo : Nat} (h : Edit lo base s s') (hs : Coherent lo base s) (hm : s.Marked) :
    s'.Marked := by
  cases h with
  | reload h =>
      intro p hp hsn
      have hsnap : s'.txnSnapshot = s.txnSnapshot := by obtain ⟨_, _, _, _, rfl⟩ := h.rest; rfl
      rw [hsnap]
      exact hm p hp (h.cleared p hp hsn)
  | @mutate q data hlo hle hl =>
      have hlen : q ≤ s.pages.length := by rw [hs.pagesLength]; exact hle
      intro p hp hsn
      have hactive : ∃ snap, s.txnSnapshot = some snap ∧
          (p ≠ q → (snap.originalPages p).isSome = true) ∧
          ((s.page q).snapshotted = true → (snap.originalPages q).isSome = true) := by
        by_cases hpq : p = q
        · rw [hpq, page_mutate_self data (by omega) hlen, mutatedPage, Bool.or_eq_true] at hsn
          rcases hsn with hsn | hsn
          · obtain ⟨snap, hsnap, himg⟩ := hm q (by omega) hsn
            exact ⟨snap, hsnap, fun hne => absurd hpq hne, fun _ => himg⟩
          · obtain ⟨snap, hsnap⟩ := Option.isSome_iff_exists.mp hsn
            refine ⟨snap, hsnap, fun hne => absurd hpq hne, fun hsn' => ?_⟩
            obtain ⟨snap', hsnap', himg⟩ := hm q (by omega) hsn'
            obtain rfl := Option.some.inj (hsnap.symm.trans hsnap')
            exact himg
        · rw [page_mutate_of_ne data (by omega) hlen hp hpq] at hsn
          obtain ⟨snap, hsnap, himg⟩ := hm p hp hsn
          refine ⟨snap, hsnap, fun _ => himg, fun hsn' => ?_⟩
          obtain ⟨snap', hsnap', himg'⟩ := hm q (by omega) hsn'
          obtain rfl := Option.some.inj (hsnap.symm.trans hsnap')
          exact himg'
      obtain ⟨snap, hsnap, hother, hself⟩ := hactive
      have heq : (s.mutate q data).txnSnapshot = s.imaged q := by
        rw [mutate_eq data (by omega) hlen]
      rw [heq, imaged_eq hsnap]
      refine ⟨_, rfl, ?_⟩
      dsimp only
      split_ifs with hflag
      · by_cases hpq : p = q
        · rw [hpq]
          exact hself hflag
        · exact hother hpq
      · by_cases hpq : p = q
        · rw [hpq, Function.update_self]
          rfl
        · rw [Function.update_of_ne hpq]
          exact hother hpq
  | grow =>
      intro p hp hsn
      rw [page_grow] at hsn
      exact hm p hp hsn
  | cow c _ => exact hm

theorem Edits.marked {lo : Nat} (h : Edits lo base s s') (hs : Coherent lo base s) (hm : s.Marked) :
    s'.Marked := by
  induction h with
  | refl => exact hm
  | tail hrun hstep ih => exact hstep.marked (Edits.coherent hrun hs) ih

theorem Working.marked (h : Working base B snap s σ) : s.Marked := by
  intro p hp hsn
  refine ⟨snap, h.txn.snapshot, ?_⟩
  rw [h.txn.imaged p hp, hsn]

theorem linkFreedPages_space {tx : CowTxnState} (hsys : Sys base s) (hl : Lists s l)
    (htx : s.cow.activeTx = some tx) (hroot : tx.freedRoot = l.freed.head?)
    (htail : tx.freedTail = l.freed.getLast?) (hfreed : Linked s.links (l.freed.head?.getD 0) l.freed)
    (hloaded : ∀ p ∈ l.freed, s.isLoaded p = true) (hmarked : s.Marked) :
    ∃ s', linkFreedPages s = .ok () s' ∧ Sys base s' ∧ Lists s' l.promote ∧ s'.Marked ∧
      s'.savepointStack = s.savepointStack := by
  cases hlast : l.freed.getLast? with
  | none =>
      have hnil : l.freed = [] := List.getLast?_eq_none_iff.mp hlast
      rw [hnil] at hroot
      have hpromote : l.promote = l := by
        rw [Ledger.promote, hnil, List.nil_append, ← hnil]
      refine ⟨s, ?_, hsys, by rw [hpromote]; exact hl, hmarked, rfl⟩
      unfold linkFreedPages
      rw [get_bind, htx]
      simp only [Option.bind_some, hroot]
      rfl
  | some tail =>
      have hmem : tail ∈ l.freed := List.mem_of_getLast? hlast
      have hmem' : tail ∈ l.lists := Ledger.mem_lists.mpr (.inr (.inr hmem))
      obtain ⟨hlo, hle⟩ := hl.range tail hmem'
      obtain ⟨root, hhead⟩ : ∃ root, l.freed.head? = some root := by
        cases hlist : l.freed with
        | nil => rw [hlist] at hmem; cases hmem
        | cons q rest => exact ⟨q, rfl⟩
      obtain ⟨pending, hpending⟩ : ∃ pending, pending = s.cow.activeSuperblock.pendingFreeRoot :=
        ⟨_, rfl⟩
      obtain ⟨s₂, hwrite, hw⟩ := writePage_rewired (t := s.setPendingFreeRoot root) (setLink pending)
        hsys.coherent rfl rfl hlo hle (hloaded tail hmem)
      have hrun : linkFreedPages s = .ok () s₂ := by
        unfold linkFreedPages
        rw [get_bind, htx]
        simp only [Option.bind_some, hroot, hhead, htail, hlast, modify_bind]
        rw [← hpending, hwrite]
      have hlinks : s₂.links = Function.update s.links tail pending := by
        rw [hw.links, u32_setLink _ (by rw [hpending]; exact hl.pendingRoot_lt hsys.count)]
      have hnodup := hl.sound.nodup
      rw [Ledger.lists] at hnodup
      have hnodup' := hnodup.of_append_right
      have htail' : tail ∉ l.pending := fun hmem' =>
        List.disjoint_of_nodup_append hnodup' hmem' hmem
      have htail'' : tail ∉ l.free := fun hmem' =>
        List.disjoint_of_nodup_append hnodup hmem' (List.mem_append_right _ hmem)
      refine ⟨s₂, hrun, hsys.edits hw.edits (by rw [hw.header]) (by rw [hw.header]; exact hsys.count),
        ⟨?_, ?_, ?_, ?_, hl.sound.promote⟩, hw.edits.marked hsys.coherent hmarked,
        (hw.edits.frame hsys.coherent).stack⟩
      · rw [hw.cow, hlinks]
        refine hl.free.congr fun q hq => Function.update_of_ne ?_ _ _
        rintro rfl
        exact htail'' hq
      · rw [hw.cow, hlinks]
        rw [hhead, Option.getD_some] at hfreed
        refine hfreed.join hlast hnodup'.of_append_right ?_ htail'
        rw [hpending]
        exact hl.pending
      · intro p hp
        rw [hw.header]
        exact hl.range p (l.lists_promote.subset hp)
      · intro p hp
        rw [hw.header]
        exact hl.owned p hp

theorem Sys.writable (h : Sys base s) (hdur : s.Durable) : Writable base s :=
  ⟨h.coherent, h.tracked, hdur, h.file, h.fits⟩

theorem Sys.flushed (h : Sys base s) (hf : Flushed base s s')
    (hun : ∀ w, s'.wal = some w → w.uncommitted = []) : Sys base s' := by
  have hheader : s'.header = s.header := by obtain ⟨_, _, _, _, rfl⟩ := hf.rest; rfl
  refine ⟨hf.coherent, fun p hp => h.tracked p (hf.tracked p hp), ?_, hf.fits h.fits, hun,
    hf.failpoint.trans h.failpoint, ?_, ?_⟩
  · rw [hf.file]
    exact h.file
  · rw [hheader]
    exact h.slots
  · rw [hheader]
    exact h.count

theorem Sys.activate (h : Sys base s) (slot : SuperblockSlot) (sb : SuperblockV2) :
    Sys base (s.activate slot sb) :=
  ⟨cow_coherent _ h.coherent, h.tracked, h.file, h.fits, h.committed, h.failpoint, h.slots, h.count⟩

theorem Lists.persisted (h : Lists s l) (hf : Flushed base s s') (slot : SuperblockSlot)
    (generation : Nat) : Lists (s'.activate slot (s.nextSuperblock generation)) l := by
  have hlinks : (s'.activate slot (s.nextSuperblock generation)).links = s.links :=
    links_of_content (show s'.content 2 = s.content 2 from hf.content)
  have hheader : (s'.activate slot (s.nextSuperblock generation)).header = s.header := by
    obtain ⟨_, _, _, _, rfl⟩ := hf.rest
    rfl
  refine ⟨?_, ?_, ?_, ?_, h.sound⟩
  · rw [hlinks]
    exact h.free
  · rw [hlinks]
    exact h.pending
  · rw [hheader]
    exact h.range
  · rw [hheader]
    exact h.owned

theorem endTransaction_space (hsys : Sys base s) (hl : Lists s σ.now.promote) (hmarked : s.Marked)
    (hstack : s.savepointStack = σ.marks.map (·.marker))
    (hmarkers : ∀ m ∈ s.savepointStack, m.WellFormed) :
    SpaceInv base (s.rotateFree.endTransaction, σ.commit) := by
  obtain ⟨c, hcow, -⟩ := rotateFree_rest s
  have hed := rotateFree_edits 2 base s
  have hsys' := hsys.edits hed (by rw [hcow]) (by rw [hcow]; exact hsys.count)
  have hmarked' := hed.marked hsys.coherent hmarked
  have hl' := rotateFree_lists hl
  have hlinks : s.rotateFree.endTransaction.links = s.rotateFree.links :=
    links_of_content (content_endTransaction 2 _)
  have hsub : s.rotateFree.endTransaction.savepointStack = s.savepointStack := by
    rw [hcow]
    rfl
  refine ⟨⟨endTransaction_coherent hsys'.coherent, hsys'.tracked, hsys'.file, hsys'.fits,
    hsys'.committed, hsys'.failpoint, hsys'.slots, hsys'.count⟩, ⟨?_, ?_, hl'.range, hl'.owned,
    hl'.sound⟩, ?_, .inl ⟨rfl, rfl, endTransaction_unsaved hmarked', ?_, ?_, ?_⟩⟩
  · rw [hlinks]
    exact hl'.free
  · rw [hlinks]
    exact hl'.pending
  · rw [hsub, hstack]
    simp only [Space.commit, List.map_map]
    rfl
  · exact Ledger.freed_rotate _
  · intro k hk
    obtain ⟨j, -, rfl⟩ := List.mem_map.mp hk
    rfl
  · rw [hsub]
    exact hmarkers

theorem commitTransaction_space (h : SpaceInv base (s, σ)) (hdur : s.Durable) :
    (∃ s', commitTransaction s = .ok () s' ∧
      SpaceInv base (s', if s.inTransaction then σ.commit else σ)) ∨
      ∃ e, commitTransaction s = .error e s := by
  rcases h.phase with hrest | ⟨B, snap, hwork⟩
  · left
    rw [hrest.inTransaction]
    exact ⟨s, commitTransaction_none hrest.idle, h⟩
  obtain ⟨tx, htx, hroot, htail⟩ := hwork.tx
  by_cases hgen : tx.baseGeneration = s.cow.activeSuperblock.generation
  swap
  · exact .inr (commitTransaction_stale htx hgen)
  rw [commitTransaction_eq htx hgen, hwork.inTransaction]
  obtain ⟨slot, hslot⟩ : ∃ slot, slot = s.cow.activeSlot.inactive := ⟨_, rfl⟩
  rw [← hslot]
  rcases persist_plain slot (s.nextSuperblock tx.targetGeneration) (h.sys.writable hdur)
    h.sys.failpoint with ⟨s₁, hflush, hrun, hun⟩ | ⟨e, hrun⟩
  swap
  · exact .inr ⟨e, bind_error hrun⟩
  left
  obtain ⟨s₂, hs₂⟩ : ∃ s₂, s₂ = s₁.activate slot (s.nextSuperblock tx.targetGeneration) := ⟨_, rfl⟩
  have hsys₂ : Sys base s₂ := by
    rw [hs₂]
    exact (h.sys.flushed hflush hun).activate _ _
  have hl₂ : Lists s₂ σ.now := by
    rw [hs₂]
    exact h.lists.persisted hflush _ _
  have hlinks₂ : s₂.links = s.links := by
    rw [hs₂]
    exact links_of_content (show s₁.content 2 = s.content 2 from hflush.content)
  have htx₂ : s₂.cow.activeTx = some tx := by
    rw [hs₂, ← htx]
    obtain ⟨_, _, _, _, rfl⟩ := hflush.rest
    rfl
  have hloaded : ∀ p ∈ σ.now.freed, s₂.isLoaded p = true := by
    intro p hp
    have hpos := h.lists.pos (Ledger.mem_lists.mpr (.inr (.inr hp)))
    have hl := loaded_of_dirty h.sys.coherent hpos (hwork.txn.dirty p hpos (hwork.imaged p hp))
    rw [hs₂]
    obtain ⟨_, _, _, _, rfl⟩ := hflush.rest
    exact hl
  have hmarked : s₂.Marked := by
    intro p hp hsn
    rw [hs₂, show (s₁.activate slot (s.nextSuperblock tx.targetGeneration)).page p = s₁.page p from rfl,
      hflush.snapshotted p hp] at hsn
    rw [hs₂]
    obtain ⟨_, _, _, _, rfl⟩ := hflush.rest
    exact hwork.marked p hp hsn
  have hstack₂ : s₂.savepointStack = s.savepointStack := by
    rw [hs₂]
    obtain ⟨_, _, _, _, rfl⟩ := hflush.rest
    rfl
  obtain ⟨s₃, hlink, hsys₃, hl₃, hmarked₃, hstack₃⟩ := linkFreedPages_space hsys₂ hl₂ htx₂ hroot htail
    (by rw [hlinks₂]; exact hwork.freed) hloaded hmarked
  refine ⟨_, ?_, endTransaction_space hsys₃ hl₃ hmarked₃ ?_ ?_⟩
  · rw [bind_ok hrun, ← hs₂, finishCommit, bind_ok hlink, modify_bind]
    rfl
  · rw [hstack₃, hstack₂]
    exact h.stack
  · rw [hstack₃, hstack₂]
    exact hwork.txn.markers

theorem SpaceInv.stored (h : SpaceInv base (s, σ)) (hrest : Resting s σ) (hsys : Sys base s')
    (hcontent : s'.content 2 = s.content 2) (hheader : s'.header = s.header)
    (hfree : s'.cow.activeSuperblock.freeRoot = s.cow.activeSuperblock.freeRoot)
    (hpending : s'.cow.activeSuperblock.pendingFreeRoot = s.cow.activeSuperblock.pendingFreeRoot)
    (htx : s'.cow.activeTx = s.cow.activeTx) (hsnap : s'.txnSnapshot = s.txnSnapshot)
    (hstack : s'.savepointStack = s.savepointStack)
    (hflags : ∀ p, 0 < p → (s'.page p).snapshotted = (s.page p).snapshotted) :
    SpaceInv base (s', σ) ∧ Resting s' σ := by
  have hrest' : Resting s' σ := by
    refine ⟨htx.trans hrest.idle, hsnap.trans hrest.snapshot, fun p hp => ?_, hrest.freed, hrest.dead, ?_⟩
    · rw [hflags p hp]
      exact hrest.unsaved p hp
    · rw [hstack]
      exact hrest.markers
  have hlinks := links_of_content hcontent
  refine ⟨⟨hsys, ⟨?_, ?_, ?_, ?_, h.lists.sound⟩, hstack.trans h.stack, .inl hrest'⟩, hrest'⟩
  · rw [hlinks, hfree]
    exact h.lists.free
  · rw [hlinks, hpending]
    exact h.lists.pending
  · rw [hheader]
    exact h.lists.range
  · rw [hheader]
    exact h.lists.owned

theorem autoCheckpoint_space (nanos : Nat) (h : SpaceInv base (s, σ)) (hrest : Resting s σ)
    (hlz : s.Overfull → s.useLz4 = false) : SpaceInv base (s.autoCheckpoint nanos, σ) := by
  rcases autoCheckpoint_cases nanos s with ⟨hfull, hrun⟩ | hrun
  · have hflush := runCheckpoint_flushed nanos h.sys.coherent (hlz hfull)
      (fun w hw => ⟨h.sys.committed w hw, h.sys.fits w hw⟩)
    have hsys := h.sys.flushed hflush
      (fun w hw => uncommitted_runCheckpoint nanos h.sys.committed hw)
    have hflags := hflush.snapshotted
    have hcontent := hflush.content
    rw [hrun]
    obtain ⟨pages, file, wal, dirtyPages, heq⟩ := hflush.rest
    rw [heq] at hsys hflags hcontent ⊢
    exact (h.stored hrest hsys hcontent rfl rfl rfl rfl rfl rfl hflags).1
  · rw [hrun]
    exact h

theorem flush_space (nanos : Nat) (h : SpaceInv base (s, σ)) (hidle : s.inTransaction = false)
    (hdur : s.Durable) (hlz : s.FlushCheckpoints → s.useLz4 = false) :
    (∃ s', flush nanos s = .ok () s' ∧ SpaceInv base (s', { σ with now := σ.now.rotate })) ∨
      ∃ e, flush nanos s = .error e s := by
  rcases h.phase with hrest | ⟨B, snap, hwork⟩
  swap
  · rw [hwork.inTransaction] at hidle
    cases hidle
  have hidle := hrest.idle
  unfold FlushCheckpoints at hlz
  rw [flush_idle nanos hidle]
  obtain ⟨slot, hslot⟩ : ∃ slot, slot = s.cow.activeSlot.inactive := ⟨_, rfl⟩
  obtain ⟨sb, hsb⟩ : ∃ sb, sb = s.nextSuperblock (saturatingSucc s.cow.activeSuperblock.generation) :=
    ⟨_, rfl⟩
  rw [← hslot, ← hsb] at hlz ⊢
  rcases persist_plain slot sb (h.sys.writable hdur) h.sys.failpoint with
    ⟨s₁, hflush, hrun, hun⟩ | ⟨e, hrun⟩
  swap
  · exact .inr ⟨e, bind_error hrun⟩
  left
  have hsys₁ := (h.sys.flushed hflush hun).activate slot sb
  have hlz₁ : (s₁.activate slot sb).Overfull → (s₁.activate slot sb).useLz4 = false := fun hfull => by
    have hraw := hlz ⟨hidle, _, hrun, hfull⟩
    obtain ⟨_, _, _, _, rfl⟩ := hflush.rest
    exact hraw
  obtain ⟨h₁, hrest₁⟩ : SpaceInv base (s₁.activate slot sb, σ) ∧ Resting (s₁.activate slot sb) σ := by
    have hflags := hflush.snapshotted
    have hcontent : (s₁.activate slot sb).content 2 = s.content 2 := hflush.content
    obtain ⟨_, _, _, _, rfl⟩ := hflush.rest
    exact h.stored hrest hsys₁ hcontent rfl (by rw [hsb]; rfl) (by rw [hsb]; rfl) rfl rfl rfl hflags
  obtain ⟨c, hcow, htx⟩ := rotateFree_rest (s₁.activate slot sb)
  have h₂ := rotateFree_space h₁
  have hrest₂ : Resting (s₁.activate slot sb).rotateFree { σ with now := σ.now.rotate } := by
    rw [hcow]
    refine ⟨htx.trans hrest₁.idle, hrest₁.snapshot, hrest₁.unsaved, ?_, hrest₁.dead, hrest₁.markers⟩
    exact (Ledger.freed_rotate _).trans hrest₁.freed
  have hsys₂ := h₂.sys
  have hsys₃ : Sys base (s₁.activate slot sb).rotateFree.bumpTxid :=
    ⟨cow_coherent _ hsys₂.coherent, hsys₂.tracked, hsys₂.file, hsys₂.fits, hsys₂.committed,
      hsys₂.failpoint, hsys₂.slots, hsys₂.count⟩
  obtain ⟨h₃, hrest₃⟩ := h₂.stored hrest₂ hsys₃ rfl rfl rfl rfl rfl rfl rfl (fun _ _ => rfl)
  refine ⟨_, ?_, autoCheckpoint_space nanos h₃ hrest₃ ?_⟩
  · rw [bind_ok hrun]
    rfl
  · rw [hcow]
    exact hlz₁

end Commit

section Runs

variable [Lz4Flex] {base : Nat} {s : Pager} {σ : Space}

theorem rollbackToSavepoint_space (name : String) (h : SpaceInv base (s, σ))
    (hop : (SpaceOp.RollbackToSavepoint name).Kept (s, σ)) :
    SpaceInv base ((SpaceOp.RollbackToSavepoint name).step (s, σ)) := by
  have hs : s.savepointStack = σ.marks.map (·.marker) := h.stack
  cases hpos : s.savepointPos name with
  | none =>
      have hrun : rollbackToSavepoint name s = .error (savepointNotFound name) s := by
        simp only [rollbackToSavepoint, get_bind, hpos]
        rfl
      rw [SpaceOp.step, witnessed_error hrun]
      exact h
  | some pos =>
      have hget : s.savepointStack[pos]? = (σ.marks[pos]?).map (·.marker) := by
        rw [hs, List.getElem?_map]
      cases hk : σ.marks[pos]? with
      | none =>
          rw [hk, Option.map_none] at hget
          have hrun : rollbackToSavepoint name s = .error .Panic s := by
            simp only [rollbackToSavepoint, get_bind, hpos, hget]
            rfl
          rw [SpaceOp.step, witnessed_error hrun]
          exact h
      | some k =>
          rw [hk, Option.map_some] at hget
          have hrun : rollbackToSavepoint name s = .ok () (restoreMarker k.marker
              { s with savepointStack := s.savepointStack.take (pos + 1) }) := by
            simp only [rollbackToSavepoint, get_bind, hpos, hget]
            rfl
          rw [SpaceOp.step, witnessed_ok hrun]
          simp only [hpos, hk]
          obtain ⟨hlive, hfreed⟩ := hop pos k hpos hk
          rcases h.phase with hrest | ⟨B, snap, hwork⟩
          · rw [hrest.dead k (List.mem_of_getElem? hk)] at hlive
            cases hlive
          · exact restoreMarker_space h hwork hk hlive hfreed

theorem savepoint_space (name : String) (h : SpaceInv base (s, σ))
    (hop : (SpaceOp.Savepoint name).Kept (s, σ)) :
    SpaceInv base ((SpaceOp.Savepoint name).step (s, σ)) := by
  rcases h.phase with hrest | ⟨B, snap, hwork⟩
  · obtain ⟨h', hwork⟩ := startTransaction_space h hrest (hop hrest.inTransaction)
    have hrun : savepoint name s = .ok () (s.startTransaction.pushSavepoint name) := by
      simp only [savepoint, get_bind, ite_apply_state, hrest.inTransaction]
      rw [show (beginTransaction >>= fun _ => modify (pushSavepoint name)) s = _ from
        bind_ok (beginTransaction_eq hrest.idle)]
      rfl
    rw [SpaceOp.step, witnessed_ok hrun, if_neg (by simp [hrest.inTransaction])]
    exact pushSavepoint_space name h' hwork
  · rw [SpaceOp.step, witnessed_ok (savepoint_eq hwork.txn.active name),
      if_pos hwork.inTransaction]
    exact pushSavepoint_space name h hwork

theorem releaseSavepoint_space (name : String) (h : SpaceInv base (s, σ)) :
    SpaceInv base ((SpaceOp.ReleaseSavepoint name).step (s, σ)) := by
  have hs : s.savepointStack = σ.marks.map (·.marker) := h.stack
  cases hpos : s.savepointPos name with
  | none =>
      have hrun : releaseSavepoint name s = .error (savepointNotFound name) s := by
        simp only [releaseSavepoint, get_bind, hpos]
        rfl
      rw [SpaceOp.step, witnessed_error hrun]
      exact h
  | some pos =>
      have hrun : releaseSavepoint name s =
          .ok () { s with savepointStack := s.savepointStack.take pos } := by
        simp only [releaseSavepoint, get_bind, hpos]
        rfl
      rw [SpaceOp.step, witnessed_ok hrun, hs, ← List.map_take]
      simp only [hpos]
      exact h.restack (List.take_sublist pos σ.marks)

theorem space_step (op : SpaceOp) (h : SpaceInv base (s, σ)) (hop : op.Kept (s, σ)) :
    SpaceInv base (op.step (s, σ)) := by
  cases op with
  | GetPage p =>
      rw [SpaceOp.step, witnessed_left]
      exact getPage_space h p
  | Write p f =>
      rw [SpaceOp.step, witnessed_left]
      exact writePage_space f h hop.1 hop.2
  | AllocatePage =>
      rcases allocatePage_space h with ⟨p, s', hrun, -, h', -⟩ | ⟨-, e, hrun⟩
      · rw [SpaceOp.step, witnessed_ok hrun]
        exact h'
      · rw [SpaceOp.step, witnessed_error hrun]
        exact h
  | FreePage p =>
      obtain ⟨s', hrun, h', -⟩ := freePage_space h hop.1 hop.2
      rw [SpaceOp.step, witnessed_ok hrun]
      exact h'
  | BeginTransaction =>
      rcases h.phase with hrest | ⟨B, snap, hwork⟩
      · rw [SpaceOp.step, witnessed_ok (beginTransaction_eq hrest.idle)]
        exact (startTransaction_space h hrest hop).1
      · obtain ⟨e, hrun⟩ := beginTransaction_active hwork.inTransaction
        rw [SpaceOp.step, witnessed_error hrun]
        exact h
  | CommitTransaction =>
      rcases commitTransaction_space h hop with ⟨s', hrun, h'⟩ | ⟨e, hrun⟩
      · rw [SpaceOp.step, witnessed_ok hrun]
        exact h'
      · rw [SpaceOp.step, witnessed_error hrun]
        exact h
  | RollbackTransaction =>
      obtain ⟨s', hrun, h'⟩ := rollbackTransaction_space h
      rw [SpaceOp.step, witnessed_ok hrun]
      exact h'
  | Savepoint name => exact savepoint_space name h hop
  | ReleaseSavepoint name => exact releaseSavepoint_space name h
  | RollbackToSavepoint name => exact rollbackToSavepoint_space name h hop
  | Flush nanos =>
      rcases flush_space nanos h hop.1 hop.2.1 hop.2.2 with ⟨s', hrun, h'⟩ | ⟨e, hrun⟩
      · rw [SpaceOp.step, witnessed_ok hrun]
        exact h'
      · rw [SpaceOp.step, witnessed_error hrun]
        exact h

structure Ready (base : Nat) (s : Pager) (l : Ledger) : Prop where
  sys : Sys base s
  lists : Lists s l
  idle : s.cow.activeTx = none
  snapshot : s.txnSnapshot = none
  unsaved : ∀ p, 0 < p → (s.page p).snapshotted = false
  stack : s.savepointStack = []
  freed : l.freed = []

def Space.start (l : Ledger) : Space where
  now := l
  begun := l
  marks := []

theorem Ready.space {l : Ledger} (h : Ready base s l) : SpaceInv base (s, .start l) :=
  ⟨h.sys, h.lists, h.stack, .inl ⟨h.idle, h.snapshot, h.unsaved, h.freed, fun k hk => (nomatch hk),
    by rw [h.stack]; exact fun m hm => (nomatch hm)⟩⟩

-- The link field of a page as `get_page` returns it.
def readLink (s : Pager) (p : Nat) : Nat := ((s.peek p).map (·.u32 0)).getD 0

theorem readLink_eq {p : Nat} (hs : Coherent 2 base s) (hp : 2 < p ∧ p ≤ s.header.totalPages) :
    s.readLink p = s.links p := by
  rw [readLink, peek_eq hs hp.1, if_pos hp.2]
  rfl

theorem freedRoot_linked (h : SpaceInv base (s, σ)) :
    Linked s.links ((s.cow.activeTx.bind (·.freedRoot)).getD 0) σ.now.freed := by
  rcases h.phase with hrest | ⟨B, snap, hwork⟩
  · rw [hrest.idle, hrest.freed]
    rfl
  · obtain ⟨tx, htx, hroot, -⟩ := hwork.tx
    rw [htx, Option.bind_some, hroot]
    exact hwork.freed

-- In every state reached, the free list, the pending list and the transaction's
-- freed list end, share no page and hold no page that is handed out.
theorem freeLists_disjoint {l : Ledger} (ops : List SpaceOp) (hs : Ready base s l)
    (hops : Meets SpaceOp.step SpaceOp.Kept ops (s, .start l)) :
    ∃ s' σ', run SpaceOp.step ops (s, .start l) = (s', σ') ∧ ∃ free pending freed : List Nat,
      Linked s'.readLink s'.cow.activeSuperblock.freeRoot free ∧
      Linked s'.readLink s'.cow.activeSuperblock.pendingFreeRoot pending ∧
      Linked s'.readLink ((s'.cow.activeTx.bind (·.freedRoot)).getD 0) freed ∧
      (free ++ (pending ++ freed)).Nodup ∧
      (∀ p ∈ free ++ (pending ++ freed), p ∉ σ'.now.allocated) ∧
      ∀ p s'', allocatePage s' = .ok p s'' → p ∉ σ'.now.allocated := by
  have h : SpaceInv base (run SpaceOp.step ops (s, .start l)) :=
    run_invariant (SpaceInv base) hs.space (fun op c hc hop => space_step op hc hop) hops
  generalize run SpaceOp.step ops (s, .start l) = c at h ⊢
  obtain ⟨s', σ'⟩ := c
  have hlink : ∀ p ∈ σ'.now.lists, s'.readLink p = s'.links p := fun p hp =>
    readLink_eq h.sys.coherent (h.lists.range p hp)
  refine ⟨s', σ', rfl, σ'.now.free, σ'.now.pending, σ'.now.freed, ?_, ?_, ?_, h.lists.sound.nodup,
    h.lists.sound.unused, fun p s'' hrun => ?_⟩
  · exact h.lists.free.congr fun p hp => hlink p (Ledger.mem_lists.mpr (.inl hp))
  · exact h.lists.pending.congr fun p hp => hlink p (Ledger.mem_lists.mpr (.inr (.inl hp)))
  · exact (freedRoot_linked h).congr fun p hp => hlink p (Ledger.mem_lists.mpr (.inr (.inr hp)))
  · rcases allocatePage_space h with ⟨q, s₁, hrun', hq, -⟩ | ⟨-, e, hrun'⟩
    · rw [hrun] at hrun'
      cases hrun'
      exact hq
    · rw [hrun] at hrun'
      cases hrun'

def createdLedger : Ledger where
  allocated := {3}
  free := []
  pending := []
  freed := []

theorem ready_openMemory (dbUuid : Buf 16) : Ready 0 (openMemory dbUuid) createdLedger where
  sys := ⟨coherent_openMemory 2 dbUuid, fun p hp => (nomatch hp), fun h => absurd h (Nat.lt_irrefl 0),
    fun w hw => (nomatch hw), fun w hw => (nomatch hw), rfl,
    (by decide : 2 ≤ 3), (by decide : 3 < 2 ^ 32)⟩
  lists := ⟨rfl, rfl, fun p hp => (nomatch hp), fun p hp => by
    rw [Finset.mem_singleton.mp hp]
    exact ⟨by decide, Nat.le_refl 3⟩, ⟨List.nodup_nil, fun p hp => (nomatch hp)⟩⟩
  idle := rfl
  snapshot := rfl
  unsaved := (quiet_openMemory dbUuid).unsaved
  stack := rfl
  freed := rfl

end Runs

section MemorySpace

attribute [local instance] Lz4Flex.incompressible

def reuseRun : List SpaceOp :=
  [.BeginTransaction, .AllocatePage, .Savepoint "s", .AllocatePage, .RollbackToSavepoint "s",
    .FreePage 4, .CommitTransaction, .AllocatePage]

theorem reuseRun_kept : Meets SpaceOp.step SpaceOp.Kept reuseRun
    (openMemory Buf.zero, .start createdLedger) := by
  refine ⟨.inl rfl, trivial, fun _ => .inl rfl, trivial, ?_, ⟨?_, .inr rfl⟩, durable_of_raw rfl,
    trivial, trivial⟩
  · intro pos k hpos hk
    obtain rfl : 0 = pos := Option.some.inj hpos
    obtain rfl := Option.some.inj hk
    exact ⟨rfl, rfl⟩
  · decide

theorem freeLists_disjoint_reuseRun :
    ∃ s' σ', run SpaceOp.step reuseRun (openMemory Buf.zero, .start createdLedger) = (s', σ') ∧
      ∃ free pending freed : List Nat,
        Linked s'.readLink s'.cow.activeSuperblock.freeRoot free ∧
        Linked s'.readLink s'.cow.activeSuperblock.pendingFreeRoot pending ∧
        Linked s'.readLink ((s'.cow.activeTx.bind (·.freedRoot)).getD 0) freed ∧
        (free ++ (pending ++ freed)).Nodup ∧
        (∀ p ∈ free ++ (pending ++ freed), p ∉ σ'.now.allocated) ∧
        ∀ p s'', allocatePage s' = .ok p s'' → p ∉ σ'.now.allocated :=
  freeLists_disjoint reuseRun (ready_openMemory Buf.zero) reuseRun_kept

-- The page freed after the savepoint is in use again after the rollback to it, but
-- it stays on the freed list: the next allocation returns it a second time.
theorem allocatePage_returns_used :
    (match allocatePage (run SpaceOp.step [.BeginTransaction, .AllocatePage, .Savepoint "s",
        .FreePage 4, .RollbackToSavepoint "s", .CommitTransaction]
        (openMemory Buf.zero, .start createdLedger)).1 with
      | .ok p _ => some p
      | .error _ _ => none) = some 4 ∧
    4 ∈ (run SpaceOp.step [.BeginTransaction, .AllocatePage, .Savepoint "s",
        .FreePage 4, .RollbackToSavepoint "s", .CommitTransaction]
        (openMemory Buf.zero, .start createdLedger)).2.now.allocated := by
  decide

end MemorySpace

end Pager

end Kkdb
