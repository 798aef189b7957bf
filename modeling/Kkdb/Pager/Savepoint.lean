import Kkdb.Pager.Transaction

namespace Kkdb

open Lib

-- A savepoint records the page numbers already saved, all of them in range.
structure SavepointMarker.WellFormed (m : SavepointMarker) : Prop where
  header : m.header = { totalPages := m.originalTotalPages }
  watermark : ∀ p, m.watermarkKeys p = true → 0 < p ∧ p ≤ m.originalTotalPages

-- What a transaction has saved once the page `p` is written: its content, unless it was saved before.
def TxnSnapshot.saving (snap : TxnSnapshot) (s : Pager) (p : Nat) : Nat → Option PageData :=
  if (s.page p).snapshotted then snap.originalPages
  else Function.update snap.originalPages p (some (s.page p).data)

namespace Pager

theorem imaged_eq {s : Pager} {snap : TxnSnapshot} (h : s.txnSnapshot = some snap) (p : Nat) :
    s.imaged p = some { snap with
    originalPages := if (s.page p).snapshotted then snap.originalPages
      else Function.update snap.originalPages p (some (s.page p).data) } := by
  rw [imaged, h, Option.map_some]
  split_ifs <;> rfl

section Saving

variable {snap : TxnSnapshot}

theorem saving_self (s : Pager) (p : Nat) : snap.saving s p p =
    if (s.page p).snapshotted then snap.originalPages p else some (s.page p).data := by
  rw [TxnSnapshot.saving]
  split_ifs
  · rfl
  · exact Function.update_self _ _ _

theorem saving_of_ne {p q : Nat} (s : Pager) (hq : q ≠ p) :
    snap.saving s p q = snap.originalPages q := by
  rw [TxnSnapshot.saving]
  split_ifs
  · rfl
  · exact Function.update_of_ne hq _ _

end Saving

section Invariant

variable [Lz4Flex] {lo base : Nat} {s s' P : Pager} {snap : TxnSnapshot} {W : Nat → Bool} {p : Nat}

-- Inside a transaction: the pages with a saved image are those flagged as
-- snapshotted, and they stay dirty until they are restored.
structure TxnInv (lo base : Nat) (snap : TxnSnapshot) (s : Pager) : Prop where
  coherent : Coherent lo base s
  active : s.cow.activeTx.isSome = true
  snapshot : s.txnSnapshot = some snap
  range : ∀ p, (snap.originalPages p).isSome = true → 0 < p ∧ p ≤ s.header.totalPages
  imaged : ∀ p, 0 < p → (snap.originalPages p).isSome = (s.page p).snapshotted
  dirty : ∀ p, 0 < p → (s.page p).snapshotted = true → (s.page p).dirty = true
  markers : ∀ m ∈ s.savepointStack, SavepointMarker.WellFormed m

-- Relative to an earlier state `P` and outside the pages `W`: a saved image is
-- the content at `P`, and a page without one still has that content.
structure Saved (lo : Nat) (W : Nat → Bool) (P : Pager) (snap : TxnSnapshot) (s : Pager) : Prop where
  total : P.header.totalPages ≤ s.header.totalPages
  image : ∀ p, lo < p → p ≤ P.header.totalPages → W p = false → ∀ data,
    snap.originalPages p = some data → data = P.content lo p
  same : ∀ p, lo < p → p ≤ P.header.totalPages → W p = false → snap.originalPages p = none →
    s.content lo p = P.content lo p

-- No page that may be evicted was dirty when the transaction began, so its saved
-- image is also what the storage holds.
structure Clean (lo : Nat) (snap : TxnSnapshot) (s : Pager) : Prop where
  dirty : s.maxBufferPages ≠ 0 → ∀ p ∈ s.lruQueue, lo < p → (s.page p).dirty = true →
    (s.page p).snapshotted = true
  stored : s.maxBufferPages ≠ 0 → ∀ p ∈ s.lruQueue, lo < p → ∀ data,
    snap.originalPages p = some data → s.stored p = some data

-- What no page operation touches.
structure Frame (s s' : Pager) : Prop where
  stack : s'.savepointStack = s.savepointStack
  file : s'.file = s.file
  wal : s'.wal = s.wal
  stored : s'.stored = s.stored
  max : s'.maxBufferPages = s.maxBufferPages
  failpoint : s'.failpoint = s.failpoint
  lz4 : s'.useLz4 = s.useLz4

theorem Frame.refl (s : Pager) : Frame s s := ⟨rfl, rfl, rfl, rfl, rfl, rfl, rfl⟩

theorem Frame.trans {s'' : Pager} (h : Frame s s') (h' : Frame s' s'') : Frame s s'' where
  stack := h'.stack.trans h.stack
  file := h'.file.trans h.file
  wal := h'.wal.trans h.wal
  stored := h'.stored.trans h.stored
  max := h'.max.trans h.max
  failpoint := h'.failpoint.trans h.failpoint
  lz4 := h'.lz4.trans h.lz4

theorem Edit.frame (h : Edit lo base s s') (hs : Coherent lo base s) : Frame s s' := by
  cases h with
  | reload h =>
      obtain ⟨_, _, _, _, rfl⟩ := h.rest
      exact ⟨rfl, rfl, rfl, rfl, rfl, rfl, rfl⟩
  | @mutate p data hlo hle hl =>
      obtain ⟨_, _, h⟩ := mutate_rest (p := p) data (by omega) (by rw [hs.pagesLength]; exact hle)
      rw [h]
      exact ⟨rfl, rfl, rfl, rfl, rfl, rfl, rfl⟩
  | grow => exact ⟨rfl, rfl, rfl, rfl, rfl, rfl, rfl⟩
  | cow c _ => exact ⟨rfl, rfl, rfl, rfl, rfl, rfl, rfl⟩

theorem Edits.frame (h : Edits lo base s s') (hs : Coherent lo base s) :
    Frame s s' := by
  induction h with
  | refl => exact Frame.refl s
  | tail hrun hstep ih => exact ih.trans (hstep.frame (Edits.coherent hrun hs))

theorem Reload.txn (h : Reload lo base s s') (hinv : TxnInv lo base snap s) : TxnInv lo base snap s' := by
  have hcow : s'.cow = s.cow := by obtain ⟨_, _, _, _, rfl⟩ := h.rest; rfl
  have hsnap : s'.txnSnapshot = s.txnSnapshot := by obtain ⟨_, _, _, _, rfl⟩ := h.rest; rfl
  have hstack : s'.savepointStack = s.savepointStack := by obtain ⟨_, _, _, _, rfl⟩ := h.rest; rfl
  refine ⟨h.coherent, by rw [hcow]; exact hinv.active, hsnap.trans hinv.snapshot,
    by rw [h.header]; exact hinv.range, fun p hp => ?_, fun p hp hsn => ?_,
    by rw [hstack]; exact hinv.markers⟩
  · cases hd : (s.page p).dirty with
    | true => rw [h.snapshotted p hp hd]; exact hinv.imaged p hp
    | false =>
        have hsn : (s.page p).snapshotted = false := by
          rw [← Bool.not_eq_true]
          intro hsn
          rw [hinv.dirty p hp hsn] at hd
          cases hd
        have hsn' : (s'.page p).snapshotted = false := by
          rw [← Bool.not_eq_true]
          intro hsn'
          rw [h.cleared p hp hsn'] at hsn
          cases hsn
        rw [hsn', ← hsn]
        exact hinv.imaged p hp
  · rw [h.dirty p hp]
    exact hinv.dirty p hp (h.cleared p hp hsn)

theorem Reload.saved (h : Reload lo base s s') (hsaved : Saved lo W P snap s) : Saved lo W P snap s' :=
  ⟨by rw [h.header]; exact hsaved.total, hsaved.image, by rw [h.content]; exact hsaved.same⟩

theorem saving_isSome (hinv : TxnInv lo base snap s) (hpos : 0 < p) :
    (snap.saving s p p).isSome = true := by
  rw [saving_self]
  split_ifs with hsn
  · rw [hinv.imaged p hpos, hsn]
  · rfl

theorem mutate_txn (data : PageData) (hinv : TxnInv lo base snap s) (hpos : 0 < p)
    (hle : p ≤ s.header.totalPages) (hl : s.isLoaded p = true) :
    TxnInv lo base { snap with originalPages := snap.saving s p } (s.mutate p data) := by
  have hlen : p ≤ s.pages.length := by rw [hinv.coherent.pagesLength]; exact hle
  have hself := page_mutate_self data hpos hlen
  have hne := fun q hq => page_mutate_of_ne (q := q) data hpos hlen hq
  have hrest := mutate_eq data hpos hlen
  refine ⟨mutate_coherent data hinv.coherent hpos hle hl, by rw [hrest]; exact hinv.active, ?_,
    fun q (hq : (snap.saving s p q).isSome = true) => ?_, fun q hq => ?_, fun q hq => ?_,
    by rw [hrest]; exact hinv.markers⟩
  · rw [hrest, imaged_eq hinv.snapshot, TxnSnapshot.saving]
  · rw [hrest]
    by_cases hqp : q = p
    · rw [hqp]; exact ⟨hpos, hle⟩
    · rw [saving_of_ne s hqp] at hq
      exact hinv.range q hq
  · show (snap.saving s p q).isSome = _
    by_cases hqp : q = p
    · rw [hqp, saving_isSome hinv hpos, hself]
      simp [mutatedPage, hinv.snapshot]
    · rw [hne q hq hqp, saving_of_ne s hqp]
      exact hinv.imaged q hq
  · by_cases hqp : q = p
    · rw [hqp, hself]
      exact fun _ => rfl
    · rw [hne q hq hqp]
      exact hinv.dirty q hq

theorem mutate_saved (data : PageData) (hinv : TxnInv lo base snap s) (hsaved : Saved lo W P snap s)
    (hlo : lo < p) (hle : p ≤ s.header.totalPages) (hl : s.isLoaded p = true) :
    Saved lo W P { snap with originalPages := snap.saving s p } (s.mutate p data) := by
  have hpos : 0 < p := by omega
  have hlen : p ≤ s.pages.length := by rw [hinv.coherent.pagesLength]; exact hle
  refine ⟨by rw [mutate_eq data hpos hlen]; exact hsaved.total,
    fun q hq hle' hw d (hd : snap.saving s p q = some d) => ?_,
    fun q hq hle' hw (hnone : snap.saving s p q = none) => ?_⟩
  · by_cases hqp : q = p
    · subst hqp
      rw [saving_self] at hd
      split_ifs at hd with hsn
      · exact hsaved.image q hq hle' hw d hd
      · -- the first write of the transaction saves what the page held until now
        have hnone : snap.originalPages q = none := by simpa [hsn] using hinv.imaged q hpos
        obtain rfl := Option.some.inj hd
        rw [← hsaved.same q hq hle' hw hnone, content_of_loaded hlo hle hl]
    · rw [saving_of_ne s hqp] at hd
      exact hsaved.image q hq hle' hw d hd
  · have hqp : q ≠ p := by
      rintro rfl
      have hsome := saving_isSome hinv hpos
      rw [hnone] at hsome
      cases hsome
    rw [content_mutate data hinv.coherent hlo hle hl, Function.update_of_ne hqp]
    rw [saving_of_ne s hqp] at hnone
    exact hsaved.same q hq hle' hw hnone

theorem grow_txn (hinv : TxnInv lo base snap s) : TxnInv lo base snap s.grow := by
  refine ⟨grow_coherent hinv.coherent, hinv.active, hinv.snapshot, fun p hp => ?_, fun p hp => ?_,
    fun p hp => ?_, hinv.markers⟩
  · obtain ⟨hpos, hle⟩ := hinv.range p hp
    exact ⟨hpos, Nat.le_succ_of_le hle⟩
  · rw [page_grow]
    exact hinv.imaged p hp
  · rw [page_grow]
    exact hinv.dirty p hp

theorem grow_saved (hinv : TxnInv lo base snap s) (hsaved : Saved lo W P snap s) :
    Saved lo W P snap s.grow :=
  ⟨Nat.le_succ_of_le hsaved.total, hsaved.image, by rw [content_grow hinv.coherent]; exact hsaved.same⟩

theorem cow_txn (c : CowPagerState) (htx : c.activeTx.isSome = s.cow.activeTx.isSome)
    (hinv : TxnInv lo base snap s) : TxnInv lo base snap { s with cow := c } :=
  ⟨cow_coherent c hinv.coherent, htx.trans hinv.active, hinv.snapshot, hinv.range, hinv.imaged,
    hinv.dirty, hinv.markers⟩

theorem Edit.txn (h : Edit lo base s s') (hinv : TxnInv lo base snap s) (hsaved : Saved lo W P snap s) :
    ∃ images, TxnInv lo base { snap with originalPages := images } s' ∧
      Saved lo W P { snap with originalPages := images } s' := by
  cases h with
  | reload h => exact ⟨snap.originalPages, h.txn hinv, h.saved hsaved⟩
  | @mutate p data hlo hle hl =>
      exact ⟨snap.saving s p, mutate_txn data hinv (by omega) hle hl,
        mutate_saved data hinv hsaved hlo hle hl⟩
  | grow => exact ⟨snap.originalPages, grow_txn hinv, grow_saved hinv hsaved⟩
  | cow c htx =>
      exact ⟨snap.originalPages, cow_txn c htx hinv, hsaved.total, hsaved.image, hsaved.same⟩

theorem Edits.txn (h : Edits lo base s s') (hinv : TxnInv lo base snap s)
    (hsaved : Saved lo W P snap s) :
    ∃ images, TxnInv lo base { snap with originalPages := images } s' ∧
      Saved lo W P { snap with originalPages := images } s' := by
  induction h with
  | refl => exact ⟨snap.originalPages, hinv, hsaved⟩
  | tail _ hstep ih =>
      obtain ⟨_, hinv', hsaved'⟩ := ih
      obtain ⟨images, hinv'', hsaved''⟩ := hstep.txn hinv' hsaved'
      exact ⟨images, hinv'', hsaved''⟩

theorem Edit.clean {snap' : TxnSnapshot} (h : Edit lo base s s') (hinv : TxnInv lo base snap s)
    (hclean : Clean lo snap s) (hsnap : s'.txnSnapshot = some snap') : Clean lo snap' s' := by
  have hframe := h.frame hinv.coherent
  cases h with
  | reload h =>
      have heq : s'.txnSnapshot = s.txnSnapshot := by obtain ⟨_, _, _, _, rfl⟩ := h.rest; rfl
      obtain rfl : snap = snap' := by
        rw [heq, hinv.snapshot] at hsnap
        exact Option.some.inj hsnap
      refine ⟨fun hm p hq hp hd => ?_, fun hm p hq hlo d hd => ?_⟩
      · have hpos : 0 < p := by omega
        rw [h.dirty p hpos] at hd
        rw [h.snapshotted p hpos hd]
        rw [hframe.max] at hm
        exact hclean.dirty hm p (h.queued p hq hd) hp hd
      · have hsome : (snap.originalPages p).isSome = true := by rw [hd]; rfl
        have hp := (hinv.range p hsome).1
        rw [hinv.imaged p hp] at hsome
        rw [hframe.max] at hm
        rw [hframe.stored]
        exact hclean.stored hm p (h.queued p hq (hinv.dirty p hp hsome)) hlo d hd
  | @mutate p data hlo hle hl =>
      have hlen : p ≤ s.pages.length := by rw [hinv.coherent.pagesLength]; exact hle
      have hpos : 0 < p := by omega
      obtain ⟨_, _, hrest⟩ := mutate_rest data hpos hlen
      have heq : (s.mutate p data).txnSnapshot = s.imaged p := by rw [hrest]
      have hqueue : (s.mutate p data).lruQueue = s.lruQueue := by rw [hrest]
      rw [heq, imaged_eq hinv.snapshot] at hsnap
      obtain rfl := Option.some.inj hsnap
      refine ⟨fun hm q hq hloq hd => ?_, fun hm q hq hloq d hd => ?_⟩
      · by_cases hqp : q = p
        · rw [hqp, page_mutate_self data hpos hlen]
          simp [mutatedPage, hinv.snapshot]
        · rw [page_mutate_of_ne data hpos hlen (by omega) hqp] at hd ⊢
          rw [hframe.max] at hm
          rw [hqueue] at hq
          exact hclean.dirty hm q hq hloq hd
      · rw [hframe.max] at hm
        rw [hqueue] at hq
        rw [hframe.stored]
        simp only at hd
        split_ifs at hd with hsn
        · exact hclean.stored hm q hq hloq d hd
        · by_cases hqp : q = p
          · -- a page without an image is not dirty, so it agrees with the storage
            subst hqp
            rw [Function.update_self] at hd
            have hdirty : (s.page q).dirty = false := by
              rw [← Bool.not_eq_true]
              exact fun h => hsn (hclean.dirty hm q hq hloq h)
            rw [hinv.coherent.clean hm q hq hlo hl hdirty]
            exact hd
          · rw [Function.update_of_ne hqp] at hd
            exact hclean.stored hm q hq hloq d hd
  | grow =>
      obtain rfl := Option.some.inj (hinv.snapshot.symm.trans hsnap)
      refine ⟨fun hm p hq hlo => ?_, hclean.stored⟩
      rw [page_grow]
      exact hclean.dirty hm p hq hlo
  | cow c _ =>
      obtain rfl := Option.some.inj (hinv.snapshot.symm.trans hsnap)
      exact ⟨hclean.dirty, hclean.stored⟩

theorem Edits.clean {snap' : TxnSnapshot} (h : Edits lo base s s') (hinv : TxnInv lo base snap s)
    (hsaved : Saved lo W P snap s) (hclean : Clean lo snap s) (hsnap : s'.txnSnapshot = some snap') :
    Clean lo snap' s' := by
  induction h generalizing snap' with
  | refl =>
      obtain rfl := Option.some.inj (hinv.snapshot.symm.trans hsnap)
      exact hclean
  | tail hrun hstep ih =>
      obtain ⟨_, hinv', _⟩ := Edits.txn hrun hinv hsaved
      exact hstep.clean hinv' (ih hinv'.snapshot) hsnap

theorem Coherent.of_eq (hs : Coherent lo base s) (hpages : s'.pages = s.pages)
    (hloaded : s'.loaded = s.loaded) (hheader : s'.header = s.header)
    (hqueue : s'.lruQueue = s.lruQueue) (hmax : s'.maxBufferPages = s.maxBufferPages)
    (hstored : s'.stored = s.stored) : Coherent lo base s' := by
  have hpage : ∀ p, s'.page p = s.page p := fun p => by rw [page, page, hpages]
  have hload : ∀ p, s'.isLoaded p = s.isLoaded p := fun p => by rw [isLoaded, isLoaded, hloaded]
  exact {
    pagesLength := by rw [hpages, hheader]; exact hs.pagesLength
    loadedLength := by rw [hloaded, hheader]; exact hs.loadedLength
    base_le := by rw [hheader]; exact hs.base_le
    queue := by rw [hqueue]; exact hs.queue
    appended := fun p => by rw [hload, hheader]; exact hs.appended p
    unloaded := fun p => by rw [hload, hpage]; exact hs.unloaded p
    readable := fun p => by rw [hload, hstored]; exact hs.readable p
    clean := by
      rw [hmax, hqueue]
      exact fun hm p => by rw [hload, hpage, hstored]; exact hs.clean hm p }

theorem content_of_eq (lo : Nat) (hpages : s'.pages = s.pages) (hloaded : s'.loaded = s.loaded)
    (hheader : s'.header = s.header) (hstored : s'.stored = s.stored) :
    s'.content lo = s.content lo := by
  funext p
  have hpage : s'.page p = s.page p := by rw [page, page, hpages]
  have hload : s'.isLoaded p = s.isLoaded p := by rw [isLoaded, isLoaded, hloaded]
  rw [content, content, hheader, hload, hpage, hstored]

end Invariant

-- The calls a transaction is made of between its begin and its end.
inductive TxnOp where
  | GetPage (page : Nat)
  | Write (page : Nat) (f : PageData → PageData)
  | AllocatePage
  | FreePage (page : Nat)
  | Savepoint (name : String)
  | ReleaseSavepoint (name : String)
  | RollbackToSavepoint (name : String)

-- The marker `rollback_to_savepoint` would use.
def findMarker (s : Pager) (name : String) : Option SavepointMarker :=
  (s.savepointPos name).bind fun pos => s.savepointStack[pos]?

structure SameRoots (a b : SuperblockV2) : Prop where
  freeRoot : a.freeRoot = b.freeRoot
  pendingFreeRoot : a.pendingFreeRoot = b.pendingFreeRoot
  schemaRoot : a.schemaRoot = b.schemaRoot

namespace TxnOp

variable [Lz4Flex] {base : Nat} {s : Pager}

-- A failed call leaves its state behind and the transaction goes on.
def step : TxnOp → Pager → Pager
  | .GetPage p => left (getPage p)
  | .Write p f => left (writePage p f)
  | .AllocatePage => left allocatePage
  | .FreePage p => left (freePage p)
  | .Savepoint name => left (savepoint name)
  | .ReleaseSavepoint name => left (releaseSavepoint name)
  | .RollbackToSavepoint name => left (rollbackToSavepoint name)

-- No write of the call goes to a page whose newest version is in the WAL only.
def Safe : TxnOp → Pager → Prop
  | .Write p _, s => 0 < p → MutSafe s p
  | .FreePage p, s => (0 < p → MutSafe s p) ∧
      ∀ tx tail, s.cow.activeTx = some tx → tx.freedTail = some tail → 0 < tail → MutStable s tail
  | _, _ => True

def IsPageOp : TxnOp → Prop
  | .GetPage _ | .Write _ _ | .AllocatePage | .FreePage _ => True
  | _ => False

theorem step_edits {op : TxnOp} (hop : op.IsPageOp) (hs : Coherent 0 base s)
    (hsafe : op.Safe s) : Edits 0 base s (op.step s) := by
  cases op with
  | GetPage p => exact getPage_edits hs p
  | Write p f => exact writePage_edits f hs hsafe
  | AllocatePage => exact allocatePage_edits hs
  | FreePage p => exact freePage_edits hs hsafe.1 hsafe.2
  | Savepoint name => exact hop.elim
  | ReleaseSavepoint name => exact hop.elim
  | RollbackToSavepoint name => exact hop.elim

end TxnOp

section Calls

variable {s : Pager} {snap : TxnSnapshot}

theorem beginTransaction_eq (h : s.cow.activeTx = none) :
    beginTransaction s = .ok () s.startTransaction := by
  have hin : ¬s.inTransaction = true := by rw [inTransaction, h]; simp
  simp only [beginTransaction, get_bind, hin]
  rfl

theorem beginTransaction_active (h : s.inTransaction = true) :
    ∃ e, beginTransaction s = .error e s := by
  unfold beginTransaction
  rw [get_bind, if_pos h]
  exact ⟨_, rfl⟩

theorem savepoint_eq (h : s.cow.activeTx.isSome = true) (name : String) :
    savepoint name s = .ok () (s.pushSavepoint name) := by
  have hin : ¬s.inTransaction = false := by rw [inTransaction, h]; simp
  simp only [savepoint, get_bind, hin]
  rfl

theorem releaseSavepoint_eq (s : Pager) (name : String) : ∃ count, left (releaseSavepoint name) s =
    { s with savepointStack := s.savepointStack.take count } := by
  unfold left releaseSavepoint
  rw [get_bind]
  cases s.savepointPos name with
  | none => exact ⟨s.savepointStack.length, by simp⟩
  | some pos => exact ⟨pos, rfl⟩

theorem findMarker_spec {m : SavepointMarker} {name : String} (h : s.findMarker name = some m) :
    m ∈ s.savepointStack ∧ eqIgnoreAsciiCase m.name name = true := by
  obtain ⟨pos, hpos, hget⟩ := Option.bind_eq_some_iff.mp h
  refine ⟨List.mem_of_getElem? hget, ?_⟩
  obtain ⟨i, hi, rfl⟩ := Option.map_eq_some_iff.mp hpos
  obtain ⟨hlt, hname, -⟩ := List.findIdx?_eq_some_iff_getElem.mp hi
  rw [List.getElem_reverse] at hname
  obtain ⟨_, rfl⟩ := List.getElem?_eq_some_iff.mp hget
  exact hname

theorem rollbackToSavepoint_eq {m : SavepointMarker} {name : String}
    (h : s.findMarker name = some m) : ∃ count, m ∈ s.savepointStack ∧ rollbackToSavepoint name s =
      .ok () (restoreMarker m { s with savepointStack := s.savepointStack.take count }) := by
  obtain ⟨pos, hpos, hget⟩ := Option.bind_eq_some_iff.mp h
  refine ⟨pos + 1, List.mem_of_getElem? hget, ?_⟩
  simp only [rollbackToSavepoint, get_bind, hpos, hget]
  rfl

theorem rollbackToSavepoint_none {name : String} (h : s.findMarker name = none) :
    left (rollbackToSavepoint name) s = s := by
  unfold left rollbackToSavepoint
  rw [get_bind]
  cases hpos : s.savepointPos name with
  | none => rfl
  | some pos =>
      have hget : s.savepointStack[pos]? = none := by simpa [findMarker, hpos] using h
      simp only [hget]
      rfl

def imagesSince (m : SavepointMarker) (snap : TxnSnapshot) (p : Nat) : Option PageData :=
  if m.watermarkKeys p then none else snap.originalPages p

def snapshotAt (m : SavepointMarker) (snap : TxnSnapshot) : TxnSnapshot where
  header := m.header
  cowSuperblock := m.cowSuperblock
  cowSlot := m.cowSlot
  originalPages := fun p => if m.watermarkKeys p then snap.originalPages p else none
  originalTotalPages := m.originalTotalPages

theorem restoreMarker_eq {m : SavepointMarker} (hsnap : s.txnSnapshot = some snap)
    (hm : m.WellFormed) : ∃ dirtyPages, restoreMarker m s =
      { s.revert (imagesSince m snap) m.originalTotalPages with
        cow := { s.cow with activeSuperblock := m.cowSuperblock, activeSlot := m.cowSlot }
        txnSnapshot := some (snapshotAt m snap)
        dirtyPages := dirtyPages } := by
  refine ⟨(restoreMarker m s).dirtyPages, ?_⟩
  unfold restoreMarker
  simp only [hsnap, Option.map_some, revert, snapshotAt, hm.header]
  rfl

theorem imagesSince_some {m : SavepointMarker} {p : Nat} {data : PageData}
    (h : imagesSince m snap p = some data) :
    m.watermarkKeys p = false ∧ snap.originalPages p = some data := by
  unfold imagesSince at h
  split_ifs at h with hw
  exact ⟨by simpa using hw, h⟩

theorem rollback_of_committed {w : Wal} (h : w.uncommitted = []) : w.rollback = w := by
  rw [Wal.rollback, ← h]

theorem map_rollback_wal (h : ∀ w, s.wal = some w → w.uncommitted = []) :
    s.wal.map Wal.rollback = s.wal := by
  cases hw : s.wal with
  | none => rfl
  | some w => rw [Option.map_some, rollback_of_committed (h w hw)]

theorem rollbackTransaction_idle (h : s.txnSnapshot = none) :
    rollbackTransaction s = .ok () (setActiveTx none
      { s with savepointStack := [], wal := s.wal.map Wal.rollback }) := by
  simp only [rollbackTransaction, modify_bind, get_bind, h]
  rfl

theorem rollbackTransaction_eq (h : s.txnSnapshot = some snap) :
    rollbackTransaction s = .ok () (restoreSnapshot snap
      { s with savepointStack := [], wal := s.wal.map Wal.rollback }) := by
  simp only [rollbackTransaction, modify_bind, get_bind, h]
  rfl

end Calls

section Begin

variable [Lz4Flex] {lo base : Nat} {s : Pager}

def beginSnapshot (s : Pager) : TxnSnapshot where
  header := s.header
  cowSuperblock := s.cow.activeSuperblock
  cowSlot := s.cow.activeSlot
  originalPages := fun _ => none
  originalTotalPages := s.header.totalPages

theorem startTransaction_txn (hs : Coherent lo base s)
    (hunsaved : ∀ p, 0 < p → (s.page p).snapshotted = false)
    (hmarkers : ∀ m ∈ s.savepointStack, m.WellFormed) :
    TxnInv lo base s.beginSnapshot s.startTransaction ∧
      Saved lo (fun _ => false) s s.beginSnapshot s.startTransaction := by
  refine ⟨⟨hs.of_eq rfl rfl rfl rfl rfl rfl, rfl, rfl, fun _ hp => (nomatch hp), ?_, ?_, hmarkers⟩,
    ⟨Nat.le_refl _, fun _ _ _ _ _ hd => (nomatch hd), fun _ _ _ _ _ => rfl⟩⟩
  · intro p hp
    exact (hunsaved p hp).symm
  · intro p hp hsn
    rw [show (s.startTransaction.page p).snapshotted = (s.page p).snapshotted from rfl,
      hunsaved p hp] at hsn
    cases hsn

end Begin

section Markers

variable [Lz4Flex] {lo base : Nat} {s P : Pager} {snap : TxnSnapshot} {W : Nat → Bool}

theorem TxnInv.restack (hinv : TxnInv lo base snap s) {stack : List SavepointMarker}
    (hstack : ∀ m ∈ stack, m.WellFormed) :
    TxnInv lo base snap { s with savepointStack := stack } :=
  ⟨hinv.coherent.of_eq rfl rfl rfl rfl rfl rfl, hinv.active, hinv.snapshot, hinv.range,
    hinv.imaged, hinv.dirty, hstack⟩

theorem Saved.restack (hsaved : Saved lo W P snap s) (stack : List SavepointMarker) :
    Saved lo W P snap { s with savepointStack := stack } :=
  ⟨hsaved.total, hsaved.image, hsaved.same⟩

theorem Clean.restack (hclean : Clean lo snap s) (stack : List SavepointMarker) :
    Clean lo snap { s with savepointStack := stack } :=
  ⟨hclean.dirty, hclean.stored⟩

theorem pushSavepoint_wellFormed (hinv : TxnInv lo base snap s) (name : String) :
    ∀ m ∈ (s.pushSavepoint name).savepointStack, m.WellFormed := by
  intro m hm
  rcases List.mem_append.mp hm with h | h
  · exact hinv.markers m (List.mem_of_mem_filter h)
  · obtain rfl := List.mem_singleton.mp h
    refine ⟨rfl, fun p hp => hinv.range p ?_⟩
    simpa [savepointMarker, hinv.snapshot] using hp

theorem TxnInv.image_none (hinv : TxnInv lo base snap s) {p : Nat} (hp : 0 < p)
    (h : (s.page p).snapshotted = false) : snap.originalPages p = none := by
  have himg := hinv.imaged p hp
  rw [h] at himg
  exact Option.isSome_eq_false_iff.mp himg |> Option.isNone_iff_eq_none.mp

theorem TxnInv.loaded (hinv : TxnInv lo base snap s) {p : Nat} {data : PageData}
    (h : snap.originalPages p = some data) : s.isLoaded p = true := by
  have hsome : (snap.originalPages p).isSome = true := by rw [h]; rfl
  have hp := (hinv.range p hsome).1
  rw [hinv.imaged p hp] at hsome
  rw [← Bool.not_eq_false]
  intro hl
  rw [(hinv.coherent.unloaded p hp hl).2] at hsome
  cases hsome

section Restore

variable {m : SavepointMarker} (hinv : TxnInv lo base snap s) (hclean : Clean lo snap s)
  (hm : m.WellFormed) (hb : base ≤ m.originalTotalPages)
  (ht : m.originalTotalPages ≤ s.header.totalPages)

include hinv hclean hm hb ht

theorem restoreMarker_txn : TxnInv lo base (snapshotAt m snap) (restoreMarker m s) := by
  obtain ⟨dirtyPages, heq⟩ := restoreMarker_eq hinv.snapshot hm
  have hcoh : Coherent lo base (s.revert (imagesSince m snap) m.originalTotalPages) :=
    revert_coherent _ hinv.coherent hb ht
      (fun hmax p hq hlo data hd => hclean.stored hmax p hq hlo data (imagesSince_some hd).2)
  have hpage : ∀ p, 0 < p → p ≤ m.originalTotalPages →
      (restoreMarker m s).page p = revertedPage (imagesSince m snap) p (s.page p) := by
    intro p hp hle
    rw [heq]
    exact page_revert _ hp hle (by rw [hinv.coherent.pagesLength]; omega)
  have hbeyond : ∀ p, m.originalTotalPages < p → (restoreMarker m s).page p = Page.new := by
    intro p hlt
    rw [heq]
    exact page_revert_of_lt hlt
  refine ⟨?_, ?_, ?_, ?_, ?_, ?_, ?_⟩
  · rw [heq]
    exact hcoh.of_eq rfl rfl rfl rfl rfl rfl
  · rw [heq]
    exact hinv.active
  · rw [heq]
  · intro p hp
    simp only [snapshotAt] at hp
    split_ifs at hp with hw
    · rw [heq]
      exact hm.watermark p hw
    · cases hp
  · intro p hp
    by_cases hle : p ≤ m.originalTotalPages
    · rw [hpage p hp hle]
      simp only [snapshotAt, revertedPage, imagesSince]
      have himg := hinv.imaged p hp
      split_ifs with hw
      · exact himg
      · cases horig : snap.originalPages p with
        | none => rw [← himg, horig]
        | some data => rfl
    · rw [hbeyond p (by omega)]
      simp only [snapshotAt]
      split_ifs with hw
      · have := (hm.watermark p hw).2
        omega
      · rfl
  · intro p hp
    by_cases hle : p ≤ m.originalTotalPages
    · rw [hpage p hp hle, revertedPage]
      cases imagesSince m snap p with
      | none => exact hinv.dirty p hp
      | some data => exact fun h => by cases h
    · rw [hbeyond p (by omega)]
      exact fun h => by cases h
  · rw [heq]
    exact hinv.markers

omit hb in
theorem restoreMarker_clean : Clean lo (snapshotAt m snap) (restoreMarker m s) := by
  obtain ⟨dirtyPages, heq⟩ := restoreMarker_eq hinv.snapshot hm
  rw [heq]
  refine ⟨fun hmax p hq hlo hd => ?_, fun hmax p hq hlo data hd => ?_⟩
  · by_cases hle : p ≤ m.originalTotalPages
    · have hpage := page_revert (imagesSince m snap) (by omega : 0 < p) hle
        (s := s) (by rw [hinv.coherent.pagesLength]; omega)
      have hd' : ((s.revert (imagesSince m snap) m.originalTotalPages).page p).dirty = true := hd
      show ((s.revert (imagesSince m snap) m.originalTotalPages).page p).snapshotted = true
      rw [hpage, revertedPage] at hd' ⊢
      cases himg : imagesSince m snap p with
      | none =>
          rw [himg] at hd'
          exact hclean.dirty hmax p hq hlo hd'
      | some data =>
          rw [himg] at hd'
          cases hd'
    · have hnew : ((s.revert (imagesSince m snap) m.originalTotalPages).page p).dirty = true := hd
      rw [page_revert_of_lt (by omega)] at hnew
      cases hnew
  · simp only [snapshotAt] at hd
    split_ifs at hd
    exact hclean.stored hmax p hq hlo data hd

omit hclean hb in
theorem content_restoreMarker {p : Nat} (hp : lo < p) (hle : p ≤ m.originalTotalPages) :
    (restoreMarker m s).content lo p = (imagesSince m snap p).getD (s.content lo p) := by
  obtain ⟨dirtyPages, heq⟩ := restoreMarker_eq hinv.snapshot hm
  rw [heq, ← content_revert hinv.coherent ht
    (fun data hd => hinv.loaded (imagesSince_some hd).2) hp hle]
  exact congrFun (content_of_eq lo rfl rfl rfl rfl) p

omit hclean hb in
theorem restoreMarker_saved (hsaved : Saved lo (fun _ => false) P snap s)
    (hP : P.header.totalPages ≤ m.originalTotalPages) :
    Saved lo (fun _ => false) P (snapshotAt m snap) (restoreMarker m s) := by
  have htotal : (restoreMarker m s).header.totalPages = m.originalTotalPages := by
    obtain ⟨dirtyPages, heq⟩ := restoreMarker_eq hinv.snapshot hm
    rw [heq]
    rfl
  refine ⟨by rw [htotal]; exact hP, fun p hp hle hw data hd => ?_, fun p hp hle hw hnone => ?_⟩
  · simp only [snapshotAt] at hd
    split_ifs at hd
    exact hsaved.image p hp hle hw data hd
  · rw [content_restoreMarker hinv hm ht hp (by omega)]
    simp only [snapshotAt] at hnone
    simp only [imagesSince]
    split_ifs with hkey
    · rw [if_pos hkey] at hnone
      exact hsaved.same p hp hle hw hnone
    · cases horig : snap.originalPages p with
      | none => exact hsaved.same p hp hle hw horig
      | some data => exact hsaved.image p hp hle hw data horig

end Restore

end Markers

end Pager

end Kkdb
