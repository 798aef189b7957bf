import Kkdb.Pager.FreeSpace

namespace Kkdb

open Lib

namespace Pager

theorem u32_setLink {next : Nat} (data : PageData) (h : next < 2 ^ 32) :
    (setLink next data).u32 0 = next :=
  Buf.u32_write_same data (by decide) (by simpa using h)

structure Resting (s : Pager) (σ : Space) : Prop where
  idle : s.cow.activeTx = none
  snapshot : s.txnSnapshot = none
  unsaved : ∀ p, 0 < p → (s.page p).snapshotted = false
  freed : σ.now.freed = []
  dead : ∀ k ∈ σ.marks, k.live = false
  markers : ∀ m ∈ s.savepointStack, m.WellFormed

theorem Resting.inTransaction {s : Pager} {σ : Space} (h : Resting s σ) :
    s.inTransaction = false := by
  rw [Pager.inTransaction, h.idle]
  rfl

section Invariant

variable [Lz4Flex]

def links (s : Pager) (p : Nat) : Nat := (s.content 2 p).u32 0

-- What holds of the pager between any two calls.
structure Sys (base : Nat) (s : Pager) : Prop where
  coherent : Coherent 2 base s
  tracked : ∀ p ∈ s.dirtyPages, 0 < p
  file : 0 < base → s.file.isSome = true
  fits : ∀ w, s.wal = some w → Fits base w
  committed : ∀ w, s.wal = some w → w.uncommitted = []
  failpoint : s.failpoint = none
  slots : 2 ≤ s.header.totalPages
  count : s.header.totalPages < 2 ^ 32

structure Lists (s : Pager) (l : Ledger) : Prop where
  free : Linked s.links s.cow.activeSuperblock.freeRoot l.free
  pending : Linked s.links s.cow.activeSuperblock.pendingFreeRoot l.pending
  range : ∀ p ∈ l.lists, 2 < p ∧ p ≤ s.header.totalPages
  owned : ∀ p ∈ l.allocated, 2 < p ∧ p ≤ s.header.totalPages
  sound : l.Sound

-- The free and the pending list under some roots, with the pages as they were at
-- `B`; none of them was handed out at that time.
structure FreeAt (B : Pager) (allocated : Finset Nat) (sb : SuperblockV2) (ps qs : List Nat) :
    Prop where
  free : Linked B.links sb.freeRoot ps
  pending : Linked B.links sb.pendingFreeRoot qs
  nodup : (ps ++ qs).Nodup
  range : ∀ p ∈ ps ++ qs, 2 < p ∧ p ≤ B.header.totalPages ∧ p ∉ allocated

structure LiveMark (B : Pager) (allocated : Finset Nat) (total : Nat) (k : Mark) : Prop where
  ge : B.header.totalPages ≤ k.marker.originalTotalPages
  le : k.marker.originalTotalPages ≤ total
  lists : FreeAt B allocated k.marker.cowSuperblock k.ledger.free k.ledger.pending
  fresh : ∀ p ∈ k.ledger.free ++ k.ledger.pending, k.marker.watermarkKeys p = false
  kept : ∀ p ∈ k.ledger.freed, k.marker.watermarkKeys p = true
  sound : k.ledger.Sound
  freed : ∀ p ∈ k.ledger.freed, 2 < p ∧ p ≤ k.marker.originalTotalPages
  owned : ∀ p ∈ k.ledger.allocated, 2 < p ∧ p ≤ k.marker.originalTotalPages

-- Inside a transaction begun at `B`. Pages on the free and pending lists have no
-- image, so they are as they were at `B`; pages on the freed list have one.
structure Working (base : Nat) (B : Pager) (snap : TxnSnapshot) (s : Pager) (σ : Space) : Prop where
  txn : TxnInv 2 base snap s
  saved : Saved 2 (fun _ => false) B snap s
  clean : Clean 2 snap s
  base_le : base ≤ B.header.totalPages
  slots : 2 ≤ B.header.totalPages
  header : snap.header = { totalPages := snap.originalTotalPages }
  total_ge : B.header.totalPages ≤ snap.originalTotalPages
  total_le : snap.originalTotalPages ≤ s.header.totalPages
  tx : ∃ tx, s.cow.activeTx = some tx ∧ tx.freedRoot = σ.now.freed.head? ∧
    tx.freedTail = σ.now.freed.getLast?
  freed : Linked s.links (σ.now.freed.head?.getD 0) σ.now.freed
  imaged : ∀ p ∈ σ.now.freed, (s.page p).snapshotted = true
  fresh : ∀ p ∈ σ.now.free ++ σ.now.pending, p ≤ B.header.totalPages ∧
    (s.page p).snapshotted = false ∧ p ∉ σ.begun.allocated
  begun : FreeAt B σ.begun.allocated snap.cowSuperblock σ.begun.free σ.begun.pending
  owned : ∀ p ∈ σ.begun.allocated, 2 < p ∧ p ≤ B.header.totalPages
  marks : ∀ k ∈ σ.marks, k.live = true → LiveMark B σ.begun.allocated s.header.totalPages k
  order : σ.marks.Pairwise fun a b => a.live = true → b.live = true →
    a.marker.originalTotalPages ≤ b.marker.originalTotalPages

structure SpaceInv (base : Nat) (c : Pager × Space) : Prop where
  sys : Sys base c.1
  lists : Lists c.1 c.2.now
  stack : c.1.savepointStack = c.2.marks.map (·.marker)
  phase : Resting c.1 c.2 ∨ ∃ B snap, Working base B snap c.1 c.2

end Invariant

section Frames

variable [Lz4Flex] {base : Nat} {s s' : Pager} {σ : Space} {p : Nat}

theorem Sys.edits (h : Sys base s) (hed : Edits 2 base s s')
    (hle : s.header.totalPages ≤ s'.header.totalPages) (hcount : s'.header.totalPages < 2 ^ 32) :
    Sys base s' := by
  have hframe := hed.frame h.coherent
  refine ⟨hed.coherent h.coherent, hed.tracked h.coherent h.tracked, ?_, ?_, ?_, ?_,
    Nat.le_trans h.slots hle, hcount⟩
  · rw [hframe.file]
    exact h.file
  · rw [hframe.wal]
    exact h.fits
  · rw [hframe.wal]
    exact h.committed
  · rw [hframe.failpoint]
    exact h.failpoint

-- A change of the pager that leaves the listed pages and all lists alone.
structure Untouched (base : Nat) (l : Ledger) (s s' : Pager) : Prop where
  edits : Edits 2 base s s'
  header : s'.header = s.header
  cow : s'.cow = s.cow
  links : ∀ p ∈ l.lists, s'.links p = s.links p
  kept : ∀ q, 0 < q → (s.page q).dirty = true → (s.page q).snapshotted = true →
    (s'.page q).snapshotted = true
  unsaved : ∀ q, 0 < q → q ∈ l.lists ∨ s.txnSnapshot = none → (s.page q).snapshotted = false →
    (s'.page q).snapshotted = false
  snapshot : s.txnSnapshot = none → s'.txnSnapshot = none

theorem Untouched.of_reload {l : Ledger} (h : Reload 2 base s s') : Untouched base l s s' where
  edits := .single (.reload h)
  header := h.header
  cow := by obtain ⟨_, _, _, _, rfl⟩ := h.rest; rfl
  links := fun p _ => by rw [Pager.links, Pager.links, h.content]
  kept := fun q hq hd hsn => by rw [h.snapshotted q hq hd, hsn]
  unsaved := fun q hq _ hsn => by
    rw [← Bool.not_eq_true]
    intro h'
    rw [h.cleared q hq h'] at hsn
    cases hsn
  snapshot := fun hsn => by obtain ⟨_, _, _, _, rfl⟩ := h.rest; exact hsn

theorem Edits.snapshot_none {lo : Nat} (h : Edits lo base s s') (hs : Coherent lo base s)
    (hsnap : s.txnSnapshot = none) : s'.txnSnapshot = none := by
  induction h with
  | refl => exact hsnap
  | tail hrun hstep ih =>
      have hcoh := Edits.coherent hrun hs
      cases hstep with
      | reload h =>
          obtain ⟨_, _, _, _, rfl⟩ := h.rest
          exact ih
      | @mutate p data hlo hle hl =>
          rw [mutate_eq data (by omega) (by rw [hcoh.pagesLength]; exact hle)]
          show Option.map _ _ = none
          rw [ih]
          rfl
      | grow => exact ih
      | cow c _ => exact ih

theorem Untouched.of_touched {l : Ledger} {data : PageData} (hs : Coherent 2 base s)
    (h : Touched 2 base p data s s') (hp : p ∉ l.lists) : Untouched base l s s' where
  edits := h.edits
  header := h.header
  cow := h.cow
  links := fun q hq => by
    have hqp : q ≠ p := by
      rintro rfl
      exact hp hq
    rw [Pager.links, Pager.links, h.content, Function.update_of_ne hqp]
  kept := h.kept
  unsaved := fun q hq hor => by
    refine h.unsaved q hq (hor.imp_left fun hmem => ?_)
    rintro rfl
    exact hp hmem
  snapshot := h.edits.snapshot_none hs

theorem Lists.untouched {l : Ledger} (h : Lists s l) (hu : Untouched base l s s') : Lists s' l := by
  refine ⟨?_, ?_, ?_, ?_, h.sound⟩
  · rw [hu.cow]
    exact h.free.congr fun p hp => hu.links p (Ledger.mem_lists.mpr (.inl hp))
  · rw [hu.cow]
    exact h.pending.congr fun p hp => hu.links p (Ledger.mem_lists.mpr (.inr (.inl hp)))
  · rw [hu.header]
    exact h.range
  · rw [hu.header]
    exact h.owned

theorem Resting.untouched (h : Resting s σ) (hs : Coherent 2 base s)
    (hu : Untouched base σ.now s s') : Resting s' σ := by
  refine ⟨?_, hu.snapshot h.snapshot, ?_, h.freed, h.dead, ?_⟩
  · rw [hu.cow]
    exact h.idle
  · exact fun p hp => hu.unsaved p hp (.inr h.snapshot) (h.unsaved p hp)
  · rw [(hu.edits.frame hs).stack]
    exact h.markers

theorem LiveMark.mono {B : Pager} {allocated : Finset Nat} {total total' : Nat} {k : Mark}
    (h : LiveMark B allocated total k) (hle : total ≤ total') : LiveMark B allocated total' k :=
  { h with le := Nat.le_trans h.le hle }

theorem Working.edits {B : Pager} {snap : TxnSnapshot} {l : Ledger} (h : Working base B snap s σ)
    (hed : Edits 2 base s s') (hle : s.header.totalPages ≤ s'.header.totalPages)
    (htx : ∃ tx, s'.cow.activeTx = some tx ∧ tx.freedRoot = l.freed.head? ∧
      tx.freedTail = l.freed.getLast?)
    (hfreed : Linked s'.links (l.freed.head?.getD 0) l.freed)
    (himaged : ∀ p ∈ l.freed, (s'.page p).snapshotted = true)
    (hfresh : ∀ p ∈ l.free ++ l.pending, p ≤ B.header.totalPages ∧
      (s'.page p).snapshotted = false ∧ p ∉ σ.begun.allocated) :
    ∃ snap', Working base B snap' s' { σ with now := l } := by
  obtain ⟨images, htxn, hsaved⟩ := hed.txn h.txn h.saved
  exact ⟨_, htxn, hsaved, hed.clean h.txn h.saved h.clean htxn.snapshot, h.base_le, h.slots, h.header,
    h.total_ge, Nat.le_trans h.total_le hle, htx, hfreed, himaged, hfresh, h.begun, h.owned,
    fun k hk hlive => (h.marks k hk hlive).mono hle, h.order⟩

theorem Lists.pos {l : Ledger} (h : Lists s l) (hp : p ∈ l.lists) : 0 < p := by
  have := (h.range p hp).1
  omega

-- Pages on the freed list are dirty, so their image is not lost meanwhile.
theorem Working.imaged_of_kept {B : Pager} {snap : TxnSnapshot} (h : Working base B snap s σ)
    (hl : Lists s σ.now) (hkept : ∀ q, 0 < q → (s.page q).dirty = true →
      (s.page q).snapshotted = true → (s'.page q).snapshotted = true) :
    ∀ p ∈ σ.now.freed, (s'.page p).snapshotted = true := by
  intro p hp
  have hpos := hl.pos (Ledger.mem_lists.mpr (.inr (.inr hp)))
  exact hkept p hpos (h.txn.dirty p hpos (h.imaged p hp)) (h.imaged p hp)

theorem Working.untouched {B : Pager} {snap : TxnSnapshot} (h : Working base B snap s σ)
    (hl : Lists s σ.now) (hu : Untouched base σ.now s s') :
    ∃ snap', Working base B snap' s' σ := by
  refine h.edits hu.edits (by rw [hu.header]) (by rw [hu.cow]; exact h.tx) ?_
    (h.imaged_of_kept hl hu.kept) ?_
  · exact h.freed.congr fun p hp => hu.links p (Ledger.mem_lists.mpr (.inr (.inr hp)))
  · intro p hp
    have hmem := mem_lists_of_fresh hp
    obtain ⟨hle, hsn, hbegun⟩ := h.fresh p hp
    exact ⟨hle, hu.unsaved p (hl.pos hmem) (.inl hmem) hsn, hbegun⟩

theorem SpaceInv.untouched (h : SpaceInv base (s, σ)) (hu : Untouched base σ.now s s') :
    SpaceInv base (s', σ) := by
  refine ⟨h.sys.edits hu.edits (by rw [hu.header]) (by rw [hu.header]; exact h.sys.count), h.lists.untouched hu, ?_, ?_⟩
  · rw [(hu.edits.frame h.sys.coherent).stack]
    exact h.stack
  · rcases h.phase with hrest | ⟨B, snap, hwork⟩
    · exact .inl (hrest.untouched h.sys.coherent hu)
    · obtain ⟨snap', hwork'⟩ := hwork.untouched h.lists hu
      exact .inr ⟨B, snap', hwork'⟩

end Frames

section PageCalls

variable [Lz4Flex] {base : Nat} {s s' : Pager} {σ : Space} {p : Nat}

theorem getPage_space (h : SpaceInv base (s, σ)) (p : Nat) : SpaceInv base (left (getPage p) s, σ) :=
  h.untouched (.of_reload (getPage_reload h.sys.coherent p))

theorem Lists.notMem {l : Ledger} (h : Lists s l) (hp : p ∈ l.allocated) : p ∉ l.lists :=
  fun hmem => h.sound.unused p hmem hp

theorem Lists.pendingRoot_lt {l : Ledger} (h : Lists s l) (hcount : s.header.totalPages < 2 ^ 32) :
    s.cow.activeSuperblock.pendingFreeRoot < 2 ^ 32 := by
  have hpending := h.pending
  cases hlist : l.pending with
  | nil =>
      rw [hlist] at hpending
      rw [show s.cow.activeSuperblock.pendingFreeRoot = 0 from hpending]
      decide
  | cons q rest =>
      rw [hlist] at hpending
      have hmem : q ∈ l.lists :=
        Ledger.mem_lists.mpr (.inr (.inl (by rw [hlist]; exact List.mem_cons_self)))
      rw [hpending.1]
      exact Nat.lt_of_le_of_lt (h.range q hmem).2 hcount

theorem writePage_space (f : PageData → PageData) (h : SpaceInv base (s, σ))
    (hp : p ∈ σ.now.allocated) (hsafe : MutSafe s p) :
    SpaceInv base (left (writePage p f) s, σ) := by
  obtain ⟨hlo, hle⟩ := h.lists.owned p hp
  obtain ⟨s', hrun, htouch⟩ := writePage_touched f h.sys.coherent hlo hle hsafe
  rw [left_ok hrun]
  exact h.untouched (.of_touched h.sys.coherent htouch (h.lists.notMem hp))

theorem rotateFree_lists {l : Ledger} (h : Lists s l) : Lists s.rotateFree l.rotate := by
  have hfree := h.free.root_eq_zero_iff
  have hpending := h.pending.root_eq_zero_iff
  obtain ⟨c, hcow, -⟩ := rotateFree_rest s
  have hlinks : s.rotateFree.links = s.links := by rw [hcow]; rfl
  have hheader : s.rotateFree.header = s.header := by rw [hcow]
  refine ⟨?_, ?_, ?_, ?_, h.sound.rotate⟩
  · rw [hlinks]
    unfold rotateFree Ledger.rotate
    dsimp only
    by_cases hf : l.free = []
    · rw [if_pos hf]
      by_cases hp : l.pending = []
      · rw [if_neg (fun hc => hc.2 (hpending.mpr hp)), hp, hfree.mpr hf]
        rfl
      · rw [if_pos ⟨hfree.mpr hf, fun hz => hp (hpending.mp hz)⟩]
        exact h.pending
    · rw [if_neg hf, if_neg (fun hc => hf (hfree.mp hc.1))]
      exact h.free
  · rw [hlinks]
    unfold rotateFree Ledger.rotate
    dsimp only
    by_cases hf : l.free = []
    · rw [if_pos hf]
      by_cases hp : l.pending = []
      · rw [if_neg (fun hc => hc.2 (hpending.mpr hp)), hpending.mpr hp]
        rfl
      · rw [if_pos ⟨hfree.mpr hf, fun hz => hp (hpending.mp hz)⟩]
        rfl
    · rw [if_neg hf, if_neg (fun hc => hf (hfree.mp hc.1))]
      exact h.pending
  · rw [Ledger.lists_rotate, hheader]
    exact h.range
  · rw [Ledger.allocated_rotate, hheader]
    exact h.owned

theorem rotateFree_space (h : SpaceInv base (s, σ)) :
    SpaceInv base (s.rotateFree, { σ with now := σ.now.rotate }) := by
  have hed := rotateFree_edits 2 base s
  obtain ⟨c, hcow, htx⟩ := rotateFree_rest s
  refine ⟨h.sys.edits hed (by rw [hcow]) (by rw [hcow]; exact h.sys.count), rotateFree_lists h.lists,
    by rw [hcow]; exact h.stack, ?_⟩
  rcases h.phase with hrest | ⟨B, snap, hwork⟩
  · left
    rw [hcow]
    refine ⟨htx.trans hrest.idle, hrest.snapshot, hrest.unsaved, ?_, hrest.dead, hrest.markers⟩
    exact (Ledger.freed_rotate _).trans hrest.freed
  · right
    obtain ⟨snap', hwork'⟩ := hwork.edits (l := σ.now.rotate) hed (by rw [hcow])
      (by rw [hcow, Ledger.freed_rotate, htx]; exact hwork.tx)
      (by rw [hcow, Ledger.freed_rotate]; exact hwork.freed)
      (by rw [hcow, Ledger.freed_rotate]; exact hwork.imaged)
      (fun p hp => by rw [hcow]; exact hwork.fresh p (mem_fresh_rotate hp))
    exact ⟨B, snap', hwork'⟩

theorem links_of_content (h : s'.content 2 = s.content 2) : s'.links = s.links := by
  funext p
  rw [links, links, h]

theorem links_touched {data : PageData} (h : Touched 2 base p data s s') :
    s'.links = Function.update s.links p (data.u32 0) := by
  funext q
  rw [links, h.content]
  by_cases hqp : q = p
  · rw [hqp, Function.update_self, Function.update_self]
  · rw [Function.update_of_ne hqp, Function.update_of_ne hqp, links]

-- A page is written under changed roots.
structure Rewired (base p : Nat) (data : PageData) (c : CowPagerState) (s s' : Pager) : Prop where
  edits : Edits 2 base s s'
  content : s'.content 2 = Function.update (s.content 2) p data
  links : s'.links = Function.update s.links p (data.u32 0)
  header : s'.header = s.header
  cow : s'.cow = c
  dirty : (s'.page p).dirty = true
  kept : ∀ q, 0 < q → (s.page q).dirty = true → (s.page q).snapshotted = true → (s'.page q).snapshotted = true
  unsaved : ∀ q, 0 < q → q ≠ p ∨ s.txnSnapshot = none → (s.page q).snapshotted = false →
    (s'.page q).snapshotted = false

theorem writePage_rewired {t : Pager} (f : PageData → PageData) (hs : Coherent 2 base s)
    (ht : t = { s with cow := t.cow }) (htx : t.cow.activeTx.isSome = s.cow.activeTx.isSome) (hlo : 2 < p)
    (hle : p ≤ s.header.totalPages) (hl : s.isLoaded p = true) :
    ∃ s', writePage p f t = .ok () s' ∧ Rewired base p (f (s.content 2 p)) t.cow s s' := by
  obtain ⟨c, hc⟩ : ∃ c, c = t.cow := ⟨_, rfl⟩
  rw [← hc] at ht htx ⊢
  subst ht
  obtain ⟨s', hrun, h⟩ := writePage_touched f (cow_coherent c hs) hlo hle (.inl hl)
  have hlinks : s'.links = Function.update s.links p ((f (s.content 2 p)).u32 0) :=
    links_touched (s := { s with cow := c }) h
  exact ⟨s', hrun, (Relation.ReflTransGen.single (.cow c htx)).trans h.edits, h.content, hlinks, h.header, h.cow,
    h.dirty, h.kept, h.unsaved⟩

theorem popFree_space {rest : List Nat} (h : SpaceInv base (s, σ)) (hfree : σ.now.free = p :: rest) :
    ∃ s', popFree p s = .ok p s' ∧ SpaceInv base (s', { σ with now := σ.now.allocate p }) ∧
      s'.content 2 = Function.update (s.content 2) p Buf.zero ∧ s'.header = s.header := by
  have hnow : σ.now.allocate p =
      { σ.now with allocated := insert p σ.now.allocated, free := rest } := by
    rw [Ledger.allocate, Ledger.rotate, if_neg (by rw [hfree]; exact List.cons_ne_nil _ _), hfree]
    rfl
  have hmem : p ∈ σ.now.lists := Ledger.mem_lists.mpr (.inl (by rw [hfree]; exact List.mem_cons_self))
  obtain ⟨hlo, hle⟩ := h.lists.range p hmem
  obtain ⟨s₁, hget, hload, hl, hdata⟩ := getPage_spec h.sys.coherent hlo hle
  have h₁ : SpaceInv base (s₁, σ) := h.untouched (.of_reload hload)
  have hroot : (s₁.page p).data.u32 0 = s₁.links p := by
    rw [hdata, links, hload.content]
  obtain ⟨s₂, hwrite, hw⟩ := writePage_rewired (t := s₁.setFreeRoot (s₁.links p)) (fun _ => Buf.zero)
    h₁.sys.coherent rfl rfl hlo (by rw [hload.header]; exact hle) hl
  have hrun : popFree p s = .ok p s₂ := by
    rw [popFree, bind_ok hget, modify_bind, hroot, bind_ok hwrite]
    rfl
  have hlinks : ∀ q, q ≠ p → s₂.links q = s₁.links q := by
    intro q hq
    rw [hw.links, Function.update_of_ne hq]
  have hsound := h₁.lists.sound.nodup
  rw [Ledger.lists, hfree] at hsound
  obtain ⟨hnot, -⟩ := List.nodup_cons.mp hsound
  have hne : ∀ q ∈ rest ++ (σ.now.pending ++ σ.now.freed), q ≠ p := by
    rintro q hq rfl
    exact hnot hq
  obtain ⟨-, -, hrest⟩ : Linked s₁.links s₁.cow.activeSuperblock.freeRoot (p :: rest) := by
    rw [← hfree]
    exact h₁.lists.free
  have hcontent : s₂.content 2 = Function.update (s.content 2) p Buf.zero := by rw [hw.content, ← hload.content]
  refine ⟨s₂, hrun, ⟨h₁.sys.edits hw.edits (by rw [hw.header]) (by rw [hw.header]; exact h₁.sys.count), ?_, ?_,
    ?_⟩, hcontent, hw.header.trans hload.header⟩
  · have hsound' := h₁.lists.sound.allocate (p := p) (.inl (by
      rw [Ledger.rotate, if_neg (by rw [hfree]; exact List.cons_ne_nil _ _), hfree]; rfl))
    rw [hnow] at hsound' ⊢
    refine ⟨?_, ?_, ?_, ?_, hsound'⟩
    · rw [hw.cow]
      exact hrest.congr fun q hq => hlinks q (hne q (List.mem_append_left _ hq))
    · rw [hw.cow]
      exact h₁.lists.pending.congr fun q hq =>
        hlinks q (hne q (List.mem_append_right _ (List.mem_append_left _ hq)))
    · intro q hq
      rw [hw.header]
      refine h₁.lists.range q ?_
      rcases Ledger.mem_lists.mp hq with hq | hq
      · exact Ledger.mem_lists.mpr (.inl (by rw [hfree]; exact List.mem_cons_of_mem _ hq))
      · exact Ledger.mem_lists.mpr (.inr hq)
    · intro q hq
      rw [hw.header]
      rcases Finset.mem_insert.mp hq with rfl | hq
      · exact h₁.lists.range q hmem
      · exact h₁.lists.owned q hq
  · rw [(hw.edits.frame h₁.sys.coherent).stack]
    exact h₁.stack
  · rcases h₁.phase with hphase | ⟨B, snap, hwork⟩
    · left
      refine ⟨?_, hw.edits.snapshot_none h₁.sys.coherent hphase.snapshot, ?_, ?_, hphase.dead, ?_⟩
      · rw [hw.cow]
        exact hphase.idle
      · exact fun q hq => hw.unsaved q hq (.inr hphase.snapshot) (hphase.unsaved q hq)
      · rw [hnow]
        exact hphase.freed
      · rw [(hw.edits.frame h₁.sys.coherent).stack]
        exact hphase.markers
    · right
      have hwork' := hwork.edits (l := { σ.now with
        allocated := insert p σ.now.allocated, free := rest }) hw.edits (by rw [hw.header])
        (by rw [hw.cow]; exact hwork.tx)
        (hwork.freed.congr fun q hq =>
          hlinks q (hne q (List.mem_append_right _ (List.mem_append_right _ hq))))
        (hwork.imaged_of_kept h₁.lists hw.kept) (fun q hq => ?_)
      · rw [hnow]
        obtain ⟨snap', hwork'⟩ := hwork'
        exact ⟨B, snap', hwork'⟩
      · have hq' : q ∈ σ.now.free ++ σ.now.pending := by
          rw [hfree]
          exact List.mem_cons_of_mem _ hq
        obtain ⟨hqB, hsn, hbegun⟩ := hwork.fresh q hq'
        exact ⟨hqB, hw.unsaved q (h₁.lists.pos (mem_lists_of_fresh hq'))
          (.inl (hne q (by simp only [List.mem_append] at hq ⊢; tauto))) hsn, hbegun⟩

theorem grow_space (h : SpaceInv base (s, σ)) (hfree : σ.now.free = [])
    (hrot : σ.now.rotate = σ.now) (hmax : s.header.totalPages < MAX_PAGES) :
    SpaceInv base (s.grow, { σ with now := σ.now.allocate (s.header.totalPages + 1) }) := by
  have hnow : σ.now.allocate (s.header.totalPages + 1) = { σ.now with
      allocated := insert (s.header.totalPages + 1) σ.now.allocated, free := [] } := by
    rw [Ledger.allocate, hrot, hfree]
    rfl
  have hnew : s.header.totalPages + 1 ∉ σ.now.lists := by
    intro hmem
    have := (h.lists.range _ hmem).2
    simp only at this
    omega
  have hed : Edits 2 base s s.grow := .single .grow
  have hlinks : s.grow.links = s.links := links_of_content (content_grow h.sys.coherent)
  have hsound := h.lists.sound.allocate (p := s.header.totalPages + 1)
    (.inr ⟨by rw [hrot]; exact hfree, hnew⟩)
  have hlimit : MAX_PAGES < 2 ^ 32 := by decide
  rw [hnow] at hsound ⊢
  have hstart : 2 < s.header.totalPages + 1 := Nat.lt_succ_of_le h.sys.slots
  refine ⟨h.sys.edits hed (Nat.le_succ _) ?_, ⟨?_, ?_, ?_, ?_, hsound⟩, h.stack, ?_⟩
  · show s.header.totalPages + 1 < 2 ^ 32
    omega
  · rw [hlinks]
    exact hfree ▸ h.lists.free
  · rw [hlinks]
    exact h.lists.pending
  · intro q hq
    obtain ⟨hlo, hle⟩ := h.lists.range q (by
      rcases Ledger.mem_lists.mp hq with hq | hq
      · cases hq
      · exact Ledger.mem_lists.mpr (.inr hq))
    exact ⟨hlo, Nat.le_succ_of_le hle⟩
  · intro q hq
    rcases Finset.mem_insert.mp hq with rfl | hq
    · exact ⟨hstart, Nat.le_refl _⟩
    · obtain ⟨hlo, hle⟩ := h.lists.owned q hq
      exact ⟨hlo, Nat.le_succ_of_le hle⟩
  · rcases h.phase with hrest | ⟨B, snap, hwork⟩
    · left
      exact ⟨hrest.idle, hrest.snapshot, fun q hq => by rw [page_grow]; exact hrest.unsaved q hq,
        hrest.freed, hrest.dead, hrest.markers⟩
    · right
      obtain ⟨snap', hwork'⟩ := hwork.edits (l := { σ.now with
        allocated := insert (s.header.totalPages + 1) σ.now.allocated, free := [] }) hed
        (Nat.le_succ _) hwork.tx (by rw [hlinks]; exact hwork.freed)
        (fun q hq => by rw [page_grow]; exact hwork.imaged q hq)
        (fun q hq => by
          rw [page_grow]
          exact hwork.fresh q (List.mem_append_right _ (by simpa using hq)))
      exact ⟨B, snap', hwork'⟩

theorem allocatePage_space (h : SpaceInv base (s, σ)) :
    (∃ p s', allocatePage s = .ok p s' ∧ p ∉ σ.now.allocated ∧
      SpaceInv base (s', { σ with now := σ.now.allocate p }) ∧
      (∀ q ∈ σ.now.allocated, s'.content 2 q = s.content 2 q) ∧
      s.header.totalPages ≤ s'.header.totalPages ∧
      s'.header.totalPages ≤ s.header.totalPages + 1) ∨
      MAX_PAGES ≤ s.header.totalPages ∧ ∃ e, allocatePage s = .error e s := by
  have hrun := allocatePage_eq s
  have hrot := rotateFree_space h
  have hroot := hrot.lists.free.root_eq_zero_iff
  split_ifs at hrun with hmax hfree
  · exact .inr ⟨hmax, _, hrun⟩
  · left
    have hne : σ.now.rotate.free ≠ [] := fun hnil => hfree (hroot.mpr hnil)
    obtain ⟨p, rest, hlist⟩ := List.exists_cons_of_ne_nil hne
    have hp : s.rotateFree.cow.activeSuperblock.freeRoot = p := by
      have hlinked := hrot.lists.free
      simp only [hlist] at hlinked
      exact hlinked.1
    obtain ⟨s', hpop, hinv, hcontent, hheader'⟩ := popFree_space hrot hlist
    have hfresh : p ∉ σ.now.allocated := by
      have hmem : p ∈ σ.now.lists := by
        rw [← Ledger.lists_rotate]
        exact Ledger.mem_lists.mpr (.inl (by rw [hlist]; exact List.mem_cons_self))
      exact h.lists.sound.unused p hmem
    obtain ⟨c, hcow, -⟩ := rotateFree_rest s
    have hheader : s'.header = s.header := by rw [hheader', hcow]
    refine ⟨p, s', by rw [hrun, hp, hpop], hfresh, ?_, ?_, by rw [hheader], by rw [hheader]; omega⟩
    · simp only [Ledger.allocate_rotate] at hinv
      exact hinv
    · intro q hq
      have hne : q ≠ p := by
        rintro rfl
        exact hfresh hq
      rw [hcontent, Function.update_of_ne hne, hcow]
      rfl
  · left
    have hnil : σ.now.rotate.free = [] := hroot.mp (not_not.mp hfree)
    obtain ⟨c, hcow, -⟩ := rotateFree_rest s
    have hheader : s.rotateFree.header = s.header := by rw [hcow]
    have hgrow := grow_space hrot hnil (Ledger.rotate_rotate _) (by rw [hheader]; omega)
    simp only [Ledger.allocate_rotate] at hgrow
    refine ⟨_, _, hrun, fun hmem => ?_, hgrow, fun q hq => ?_, ?_, ?_⟩
    · have hle := (h.lists.owned _ hmem).2
      rw [hheader] at hle
      simp only at hle
      omega
    · rw [content_grow hrot.sys.coherent, hcow]
      rfl
    · show s.header.totalPages ≤ s.rotateFree.header.totalPages + 1
      rw [hheader]
      omega
    · show s.rotateFree.header.totalPages + 1 ≤ s.header.totalPages + 1
      rw [hheader]

theorem release_working {B : Pager} {snap : TxnSnapshot} (h : SpaceInv base (s, σ))
    (hwork : Working base B snap s σ) (hp : p ∈ σ.now.allocated) (hed : Edits 2 base s s')
    (hheader : s'.header = s.header)
    (hsb : s'.cow.activeSuperblock = s.cow.activeSuperblock)
    (htx : ∃ tx, s'.cow.activeTx = some tx ∧ tx.freedRoot = (σ.now.freed ++ [p]).head? ∧
      tx.freedTail = some p)
    (hlinks : ∀ q ∈ σ.now.free ++ σ.now.pending, s'.links q = s.links q)
    (hfreed : Linked s'.links ((σ.now.freed ++ [p]).head?.getD 0) (σ.now.freed ++ [p]))
    (himaged : ∀ q ∈ σ.now.freed ++ [p], (s'.page q).snapshotted = true)
    (hunsaved : ∀ q ∈ σ.now.free ++ σ.now.pending, (s'.page q).snapshotted = false) :
    SpaceInv base (s', { σ with now := σ.now.release true p }) := by
  have hmem : ∀ q ∈ (σ.now.release true p).lists, q ∈ σ.now.lists ∨ q = p := by
    intro q hq
    rcases Ledger.mem_lists.mp hq with hq | hq | hq
    · exact .inl (Ledger.mem_lists.mpr (.inl hq))
    · exact .inl (Ledger.mem_lists.mpr (.inr (.inl hq)))
    · rcases List.mem_append.mp hq with hq | hq
      · exact .inl (Ledger.mem_lists.mpr (.inr (.inr hq)))
      · exact .inr (List.mem_singleton.mp hq)
  refine ⟨h.sys.edits hed (by rw [hheader]) (by rw [hheader]; exact h.sys.count),
    ⟨?_, ?_, ?_, ?_, h.lists.sound.release true hp⟩, ?_, .inr ⟨B, ?_⟩⟩
  · rw [hsb]
    exact h.lists.free.congr fun q hq => hlinks q (List.mem_append_left _ hq)
  · rw [hsb]
    exact h.lists.pending.congr fun q hq => hlinks q (List.mem_append_right _ hq)
  · intro q hq
    rw [hheader]
    rcases hmem q hq with hq | rfl
    · exact h.lists.range q hq
    · exact h.lists.owned q hp
  · intro q hq
    rw [hheader]
    exact h.lists.owned q (Finset.mem_of_mem_erase hq)
  · rw [(hed.frame h.sys.coherent).stack]
    exact h.stack
  · refine hwork.edits hed (by rw [hheader]) ?_ hfreed himaged fun q hq => ?_
    · obtain ⟨tx, hact, hroot, htail⟩ := htx
      refine ⟨tx, hact, hroot, ?_⟩
      rw [htail]
      exact List.getLast?_concat.symm
    · obtain ⟨hle, -, hbegun⟩ := hwork.fresh q hq
      exact ⟨hle, hunsaved q hq, hbegun⟩

theorem linkFreed_working {B : Pager} {snap : TxnSnapshot} (h : SpaceInv base (s, σ))
    (hwork : Working base B snap s σ) (hp : p ∈ σ.now.allocated) (hzero : s.links p = 0)
    (hdirty : (s.page p).dirty = true) (hsaved : (s.page p).snapshotted = true) :
    ∃ s', linkFreed p s = .ok () s' ∧
      SpaceInv base (s', { σ with now := σ.now.release true p }) ∧
      (∀ q ∈ σ.now.allocated, q ≠ p → s'.content 2 q = s.content 2 q) ∧ s'.header = s.header := by
  obtain ⟨tx, htx, hroot, htail⟩ := hwork.tx
  obtain ⟨hlo, hle⟩ := h.lists.owned p hp
  have hnot := h.lists.notMem hp
  cases hlast : σ.now.freed.getLast? with
  | none =>
      have hnil : σ.now.freed = [] := List.getLast?_eq_none_iff.mp hlast
      rw [hlast] at htail
      have hrun : linkFreed p s = .ok () (s.setActiveTx
          (some { tx with freedRoot := some p, freedTail := some p })) := by
        simp only [linkFreed, get_bind, htx, htail]
        rfl
      refine ⟨_, hrun, release_working h hwork hp (.single (.cow _ (by rw [htx]; rfl))) rfl rfl
        ⟨_, rfl, ?_, rfl⟩ (fun _ _ => rfl) ?_ ?_ (fun q hq => (hwork.fresh q hq).2.1),
        fun _ _ _ => rfl, rfl⟩
      · rw [hnil]
        rfl
      · rw [hnil]
        exact Linked.singleton (by omega : p ≠ 0) hzero
      · rw [hnil]
        intro q hq
        rw [List.mem_singleton.mp hq]
        exact hsaved
  | some tail =>
      have hmem : tail ∈ σ.now.freed := List.mem_of_getLast? hlast
      have hmem' : tail ∈ σ.now.lists := Ledger.mem_lists.mpr (.inr (.inr hmem))
      obtain ⟨hlo', hle'⟩ := h.lists.range tail hmem'
      rw [hlast] at htail
      have hloaded : s.isLoaded tail = true := loaded_of_dirty h.sys.coherent (by omega : 0 < tail)
        (hwork.txn.dirty tail (by omega) (hwork.imaged tail hmem))
      obtain ⟨s₂, hwrite, hw⟩ := writePage_rewired (t := s.setActiveTx (some { tx with freedTail := some p }))
        (setLink p) h.sys.coherent rfl (by rw [htx]; rfl) hlo' hle' hloaded
      have hrun : linkFreed p s = .ok () s₂ := by
        simp only [linkFreed, get_bind, htx, htail, modify_bind]
        exact hwrite
      have hp32 : p < 2 ^ 32 := Nat.lt_of_le_of_lt hle h.sys.count
      have hlinks : s₂.links = Function.update s.links tail p := by rw [hw.links, u32_setLink _ hp32]
      have hne : ∀ q ∈ σ.now.free ++ σ.now.pending, q ≠ tail := by
        rintro q hq rfl
        have hnodup := h.lists.sound.nodup
        rw [Ledger.lists, ← List.append_assoc] at hnodup
        exact List.disjoint_of_nodup_append hnodup hq hmem
      have hcontent : ∀ q ∈ σ.now.allocated, q ≠ p → s₂.content 2 q = s.content 2 q := by
        intro q hq _
        rw [hw.content, Function.update_of_ne]
        rintro rfl
        exact h.lists.notMem hq hmem'
      refine ⟨s₂, hrun, release_working h hwork hp hw.edits hw.header (by rw [hw.cow]; rfl) ?_ ?_ ?_ ?_ ?_, hcontent,
        hw.header⟩
      · refine ⟨_, by rw [hw.cow]; rfl, ?_, rfl⟩
        rw [List.head?_append_of_ne_nil _ (List.ne_nil_of_mem hmem)]
        exact hroot
      · intro q hq
        rw [hlinks, Function.update_of_ne (hne q hq)]
      · rw [hlinks, List.head?_append_of_ne_nil _ (List.ne_nil_of_mem hmem)]
        refine hwork.freed.join hlast ?_ (Linked.singleton (by omega) hzero) ?_
        · have hnodup := h.lists.sound.nodup
          rw [Ledger.lists, ← List.append_assoc] at hnodup
          exact hnodup.of_append_right
        · intro heq
          rw [List.mem_singleton] at heq
          exact hnot (heq ▸ hmem')
      · intro q hq
        rcases List.mem_append.mp hq with hq | hq
        · exact hwork.imaged_of_kept h.lists hw.kept q hq
        · rw [List.mem_singleton.mp hq]
          exact hw.kept p (by omega) hdirty hsaved
      · exact fun q hq => hw.unsaved q (h.lists.pos (mem_lists_of_fresh hq)) (.inl (hne q hq)) (hwork.fresh q hq).2.1

theorem linkFreed_resting (h : SpaceInv base (s, σ)) (hrest : Resting s σ)
    (hp : p ∈ σ.now.allocated) (hdirty : (s.page p).dirty = true) :
    ∃ s', linkFreed p s = .ok () s' ∧
      SpaceInv base (s', { σ with now := σ.now.release false p }) ∧
      (∀ q ∈ σ.now.allocated, q ≠ p → s'.content 2 q = s.content 2 q) ∧ s'.header = s.header := by
  obtain ⟨hlo, hle⟩ := h.lists.owned p hp
  have hnot := h.lists.notMem hp
  have hpending := h.lists.pending
  obtain ⟨root, hroot⟩ : ∃ root, root = s.cow.activeSuperblock.pendingFreeRoot := ⟨_, rfl⟩
  have hroot32 : root < 2 ^ 32 := by
    rw [hroot]
    exact h.lists.pendingRoot_lt h.sys.count
  have hloaded : s.isLoaded p = true := loaded_of_dirty h.sys.coherent (by omega : 0 < p) hdirty
  obtain ⟨s₂, hwrite, hw⟩ := writePage_rewired (t := s.setPendingFreeRoot p) (setLink root) h.sys.coherent rfl rfl
    hlo hle hloaded
  have hrun : linkFreed p s = .ok () s₂ := by
    simp only [linkFreed, get_bind, hrest.idle, modify_bind]
    rw [← hroot, hwrite]
  have hlinks : s₂.links = Function.update s.links p root := by rw [hw.links, u32_setLink _ hroot32]
  have hoff : ∀ q ∈ σ.now.lists, s₂.links q = s.links q := by
    intro q hq
    rw [hlinks, Function.update_of_ne]
    rintro rfl
    exact hnot hq
  have hcontent : ∀ q ∈ σ.now.allocated, q ≠ p → s₂.content 2 q = s.content 2 q := by
    intro q _ hq
    rw [hw.content, Function.update_of_ne hq]
  refine ⟨s₂, hrun, ⟨h.sys.edits hw.edits (by rw [hw.header]) (by rw [hw.header]; exact h.sys.count),
    ⟨?_, ?_, ?_, ?_, h.lists.sound.release false hp⟩, ?_, .inl ?_⟩, hcontent, hw.header⟩
  · rw [hw.cow]
    exact h.lists.free.congr fun q hq => hoff q (Ledger.mem_lists.mpr (.inl hq))
  · rw [hw.cow]
    have hnext : s₂.links p = s.cow.activeSuperblock.pendingFreeRoot := by
      rw [hlinks, Function.update_self, hroot]
    exact Linked.cons (by omega : p ≠ 0) hnext
      (hpending.congr fun q hq => hoff q (Ledger.mem_lists.mpr (.inr (.inl hq))))
  · intro q hq
    rw [hw.header]
    rcases Ledger.mem_lists.mp hq with hq | hq | hq
    · exact h.lists.range q (Ledger.mem_lists.mpr (.inl hq))
    · rcases List.mem_cons.mp hq with rfl | hq
      · exact ⟨hlo, hle⟩
      · exact h.lists.range q (Ledger.mem_lists.mpr (.inr (.inl hq)))
    · exact h.lists.range q (Ledger.mem_lists.mpr (.inr (.inr hq)))
  · intro q hq
    rw [hw.header]
    exact h.lists.owned q (Finset.mem_of_mem_erase hq)
  · rw [(hw.edits.frame h.sys.coherent).stack]
    exact h.stack
  · refine ⟨?_, hw.edits.snapshot_none h.sys.coherent hrest.snapshot, ?_, hrest.freed, hrest.dead, ?_⟩
    · rw [hw.cow]
      exact hrest.idle
    · exact fun q hq => hw.unsaved q hq (.inr hrest.snapshot) (hrest.unsaved q hq)
    · rw [(hw.edits.frame h.sys.coherent).stack]
      exact hrest.markers

theorem Working.inTransaction {B : Pager} {snap : TxnSnapshot} (h : Working base B snap s σ) :
    s.inTransaction = true := h.txn.active

theorem freePage_space (h : SpaceInv base (s, σ)) (hp : p ∈ σ.now.allocated) (hsafe : MutSafe s p) :
    ∃ s', freePage p s = .ok () s' ∧
      SpaceInv base (s', { σ with now := σ.now.release s.inTransaction p }) ∧
      (∀ q ∈ σ.now.allocated, q ≠ p → s'.content 2 q = s.content 2 q) ∧ s'.header = s.header := by
  obtain ⟨hlo, hle⟩ := h.lists.owned p hp
  obtain ⟨s₁, hzero, htouch⟩ := writePage_touched (fun _ => Buf.zero) h.sys.coherent hlo hle hsafe
  have hu : Untouched base σ.now s s₁ := .of_touched h.sys.coherent htouch (h.lists.notMem hp)
  have h₁ := h.untouched hu
  have hlink : s₁.links p = 0 := by
    rw [links_touched htouch, Function.update_self]
    rfl
  have hrun := freePage_eq s p
  have hr : ¬(p = 0 ∨ s.header.totalPages < p) := by
    have hle' : p ≤ s.header.totalPages := hle
    omega
  rw [if_neg hr, bind_ok hzero] at hrun
  rw [hrun]
  have hcontent : ∀ q, q ≠ p → s₁.content 2 q = s.content 2 q := fun q hq => by
    rw [htouch.content, Function.update_of_ne hq]
  have hfinish : ∀ {b : Bool}, (∃ s', linkFreed p s₁ = .ok () s' ∧
      SpaceInv base (s', { σ with now := σ.now.release b p }) ∧
      (∀ q ∈ σ.now.allocated, q ≠ p → s'.content 2 q = s₁.content 2 q) ∧ s'.header = s₁.header) →
      ∃ s', linkFreed p s₁ = .ok () s' ∧ SpaceInv base (s', { σ with now := σ.now.release b p }) ∧
      (∀ q ∈ σ.now.allocated, q ≠ p → s'.content 2 q = s.content 2 q) ∧ s'.header = s.header := by
    rintro b ⟨s', hrun', hinv, hsame, hheader⟩
    exact ⟨s', hrun', hinv, fun q hq hqp => (hsame q hq hqp).trans (hcontent q hqp),
      hheader.trans htouch.header⟩
  rcases h.phase with hrest | ⟨B, snap, hwork⟩
  · rw [hrest.inTransaction]
    exact hfinish (linkFreed_resting h₁ (hrest.untouched h.sys.coherent hu) hp htouch.dirty)
  · rw [hwork.inTransaction]
    obtain ⟨snap', hwork'⟩ := hwork.untouched h.lists hu
    exact hfinish (linkFreed_working h₁ hwork' hp hlink htouch.dirty
      (htouch.imaged (by rw [hwork.txn.snapshot]; rfl)))

end PageCalls

end Pager

end Kkdb
