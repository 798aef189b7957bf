import Kkdb.Lib.State
import Kkdb.Pager

namespace Kkdb

open Lib

namespace Pager

def withBuffer (s : Pager) (pages : List Page) (loaded : List Bool) (queue : List Nat)
    (count : Nat) : Pager :=
  { s with pages := pages, loaded := loaded, lruQueue := queue, lruLoadedCount := count }

section Slots

variable {s : Pager} {p q : Nat}

theorem page_setPage_self (pg : Page) (hp : 0 < p) (hle : p ≤ s.pages.length) :
    (s.setPage p pg).page p = pg := by
  simp only [page, setPage]
  rw [List.getD_eq_getElem _ _ (by rw [List.length_set]; omega), List.getElem_set_self]

theorem page_setPage_of_ne (pg : Page) (hp : 0 < p) (hq : 0 < q) (hne : q ≠ p) :
    (s.setPage p pg).page q = s.page q := by
  simp only [page, setPage, List.getD_eq_getElem?_getD]
  rw [List.getElem?_set_ne (by omega)]

theorem page_of_lt (h : s.pages.length < p) : s.page p = Page.new := by
  rw [page, List.getD_eq_default]
  omega

theorem isLoaded_of_lt (h : s.loaded.length < p) : s.isLoaded p = false := by
  rw [isLoaded, List.getD_eq_default]
  omega

theorem getD_set_pred (flags : List Bool) (b : Bool) (hp : 0 < p) (hq : 0 < q)
    (hle : p ≤ flags.length) :
    (flags.set (p - 1) b).getD (q - 1) false = if q = p then b else flags.getD (q - 1) false := by
  simp only [List.getD_eq_getElem?_getD]
  by_cases hqp : q = p
  · subst hqp
    rw [if_pos rfl, List.getElem?_set_self (by omega)]
    rfl
  · rw [if_neg hqp, List.getElem?_set_ne (by omega)]

theorem isLoaded_touch (s : Pager) (p q : Nat) : (s.touch p).isLoaded q = s.isLoaded q := by
  unfold touch
  split_ifs <;> rfl

theorem page_touch_eq (hp : 0 < p) (hle : p ≤ s.pages.length) :
    ∃ used, (s.touch p).page p = { s.page p with recentlyUsed := used } := by
  unfold touch
  split_ifs
  · exact ⟨true, page_setPage_self _ hp hle⟩
  · exact ⟨(s.page p).recentlyUsed, rfl⟩

theorem page_snapshotPage (hp : 0 < p) (hle : p ≤ s.pages.length) :
    ∃ snapshotted, (s.snapshotPage p).page p = { s.page p with snapshotted := snapshotted } := by
  unfold snapshotPage
  split
  · exact ⟨_, rfl⟩
  · split_ifs
    · exact ⟨_, rfl⟩
    · exact ⟨true, page_setPage_self _ hp hle⟩

theorem pages_length_snapshotPage (s : Pager) (p : Nat) :
    (s.snapshotPage p).pages.length = s.pages.length := by
  unfold snapshotPage
  split
  · rfl
  · split_ifs
    · rfl
    · simp [setPage]

theorem data_marked (hp : 0 < p) (hle : p ≤ s.pages.length) :
    (((s.snapshotPage p).markDirty p).page p).data = (s.page p).data := by
  have hmark : ((s.snapshotPage p).markDirty p).page p =
      { (s.snapshotPage p).page p with dirty := true } :=
    page_setPage_self _ hp (by rw [pages_length_snapshotPage]; exact hle)
  obtain ⟨snapshotted, hsnap⟩ := page_snapshotPage hp hle
  rw [hmark, hsnap]

-- A write goes to the slot the reader sees: the page is in the buffer, or the
-- WAL holds no version of it.
def MutSafe (s : Pager) (p : Nat) : Prop := s.isLoaded p = true ∨ s.readWal p = none

instance (s : Pager) (p : Nat) : Decidable (MutSafe s p) :=
  inferInstanceAs (Decidable (_ ∨ _))

def mutate (s : Pager) (p : Nat) (data : PageData) : Pager :=
  ((s.snapshotPage p).markDirty p).setData p data

theorem rotateFree_rest (s : Pager) :
    ∃ c, s.rotateFree = { s with cow := c } ∧ c.activeTx = s.cow.activeTx := by
  unfold rotateFree
  dsimp only
  split_ifs
  · exact ⟨_, rfl, rfl⟩
  · exact ⟨s.cow, rfl, rfl⟩

theorem page_grow (s : Pager) (p : Nat) : s.grow.page p = s.page p := by
  simp only [page, grow, List.getD_eq_getElem?_getD]
  by_cases h : p - 1 < s.pages.length
  · rw [List.getElem?_append_left h]
  · rw [List.getElem?_append_right (by omega), List.getElem?_eq_none (l := s.pages) (by omega)]
    by_cases h' : p - 1 - s.pages.length = 0
    · rw [h']; rfl
    · rw [List.getElem?_eq_none (by simp; omega)]

-- The snapshot after a writer has seen the page: the first write of the
-- transaction saves the image.
def imaged (s : Pager) (p : Nat) : Option TxnSnapshot :=
  s.txnSnapshot.map fun snap =>
    if (s.page p).snapshotted then snap
    else { snap with
      originalPages := Function.update snap.originalPages p (some (s.page p).data) }

def mutatedPage (s : Pager) (p : Nat) (data : PageData) : Page where
  data := data
  dirty := true
  snapshotted := (s.page p).snapshotted || s.txnSnapshot.isSome
  recentlyUsed := (s.page p).recentlyUsed

theorem mutate_eq (data : PageData) (hp : 0 < p) (hle : p ≤ s.pages.length) :
    s.mutate p data = { s.setPage p (s.mutatedPage p data) with
      txnSnapshot := s.imaged p
      dirtyPages := if (s.page p).dirty then s.dirtyPages else s.dirtyPages ++ [p] } := by
  have hself : ∀ pg, (s.pages.set (p - 1) pg)[p - 1]?.getD Page.new = pg := fun pg => by
    rw [List.getElem?_set_self (by omega), Option.getD_some]
  cases hsnap : s.txnSnapshot with
  | none =>
      simp [mutate, snapshotPage, markDirty, setData, setPage, page, imaged, mutatedPage, hsnap,
        hself]
  | some snap =>
      cases hsn : (s.page p).snapshotted with
      | true =>
          simp only [page, List.getD_eq_getElem?_getD] at hsn
          simp [mutate, snapshotPage, markDirty, setData, setPage, page, imaged, mutatedPage,
            hsnap, hself, hsn]
      | false =>
          simp only [page, List.getD_eq_getElem?_getD] at hsn
          simp [mutate, snapshotPage, markDirty, setData, setPage, page, imaged, mutatedPage,
            hsnap, hself, hsn]

theorem page_mutate_self (data : PageData) (hp : 0 < p) (hle : p ≤ s.pages.length) :
    (s.mutate p data).page p = s.mutatedPage p data := by
  rw [mutate_eq data hp hle]
  exact page_setPage_self _ hp hle

theorem page_mutate_of_ne (data : PageData) (hp : 0 < p) (hle : p ≤ s.pages.length) (hq : 0 < q)
    (hne : q ≠ p) : (s.mutate p data).page q = s.page q := by
  rw [mutate_eq data hp hle]
  exact page_setPage_of_ne _ hp hq hne

theorem mutate_rest (data : PageData) (hp : 0 < p) (hle : p ≤ s.pages.length) :
    ∃ pages dirtyPages, s.mutate p data = { s with
      pages := pages, txnSnapshot := s.imaged p, dirtyPages := dirtyPages } :=
  ⟨_, _, mutate_eq data hp hle⟩

theorem pages_length_mutate (data : PageData) (hp : 0 < p) (hle : p ≤ s.pages.length) :
    (s.mutate p data).pages.length = s.pages.length := by
  rw [mutate_eq data hp hle]
  simp [setPage]

end Slots

section Content

variable [Lz4Flex]

-- The version of a page outside the buffer: the WAL's, else the file's.
def stored (s : Pager) (p : Nat) : Option PageData :=
  match s.readWal p with
  | some data => some data
  | none => s.file.bind fun f => (f.readPage p).bind fun slot =>
      (decodeSlot s.useLz4 p slot).toOption

-- What a page holds, whether it is in the buffer or not. Pages up to `lo` are
-- left out: the superblock slots are written behind the buffer's back.
def content (lo : Nat) (s : Pager) (p : Nat) : PageData :=
  if lo < p ∧ p ≤ s.header.totalPages then
    if s.isLoaded p then (s.page p).data else (s.stored p).getD Buf.zero
  else Buf.zero

-- The buffer agrees with the storage below it. Pages above `base` were appended
-- by this process; they are never on the queue, so they are never evicted.
structure Coherent (lo base : Nat) (s : Pager) : Prop where
  pagesLength : s.pages.length = s.header.totalPages
  loadedLength : s.loaded.length = s.header.totalPages
  base_le : base ≤ s.header.totalPages
  queue : ∀ p ∈ s.lruQueue, 0 < p ∧ p ≤ base
  appended : ∀ p, base < p → p ≤ s.header.totalPages → s.isLoaded p = true
  unloaded : ∀ p, 0 < p → s.isLoaded p = false →
    (s.page p).dirty = false ∧ (s.page p).snapshotted = false
  readable : ∀ p, lo < p → p ≤ base → s.isLoaded p = false → (s.stored p).isSome
  clean : s.maxBufferPages ≠ 0 → ∀ p ∈ s.lruQueue, lo < p → s.isLoaded p = true →
    (s.page p).dirty = false → s.stored p = some (s.page p).data

-- A change of the buffer that no reader can notice: loads, evictions and the
-- reference bits.
structure Reload (lo base : Nat) (s s' : Pager) : Prop where
  coherent : Coherent lo base s'
  rest : ∃ pages loaded queue count, s' = s.withBuffer pages loaded queue count
  content : s'.content lo = s.content lo
  dirty : ∀ p, 0 < p → (s'.page p).dirty = (s.page p).dirty
  snapshotted : ∀ p, 0 < p → (s.page p).dirty = true →
    (s'.page p).snapshotted = (s.page p).snapshotted
  cleared : ∀ p, 0 < p → (s'.page p).snapshotted = true → (s.page p).snapshotted = true
  queued : ∀ p ∈ s'.lruQueue, (s.page p).dirty = true → p ∈ s.lruQueue

-- What a single buffer operation can do to the slot of one page.
inductive SlotStep (lo base : Nat) (s s' : Pager) (p : Nat) : Prop where
  | kept (loaded : s'.isLoaded p = s.isLoaded p) (data : (s'.page p).data = (s.page p).data)
      (dirty : (s'.page p).dirty = (s.page p).dirty)
      (snapshotted : (s'.page p).snapshotted = (s.page p).snapshotted)
  | dropped (queued : p ∈ s.lruQueue) (max : s.maxBufferPages ≠ 0) (before : s.isLoaded p = true)
      (clean : (s.page p).dirty = false) (after : s'.isLoaded p = false)
      (dirty : (s'.page p).dirty = false) (snapshotted : (s'.page p).snapshotted = false)
  | filled (before : s.isLoaded p = false) (after : s'.isLoaded p = true) (le : p ≤ base)
      (data : lo < p → s.stored p = some (s'.page p).data) (dirty : (s'.page p).dirty = false)
      (snapshotted : (s'.page p).snapshotted = false)

variable {lo base : Nat} {s s' s'' : Pager} {p q : Nat}

theorem Reload.refl (hs : Coherent lo base s) : Reload lo base s s where
  coherent := hs
  rest := ⟨_, _, _, _, rfl⟩
  content := rfl
  dirty := fun _ _ => rfl
  snapshotted := fun _ _ _ => rfl
  cleared := fun _ _ h => h
  queued := fun _ h _ => h

theorem Reload.trans (h : Reload lo base s s') (h' : Reload lo base s' s'') :
    Reload lo base s s'' where
  coherent := h'.coherent
  rest := by
    obtain ⟨_, _, _, _, rfl⟩ := h.rest
    obtain ⟨_, _, _, _, rfl⟩ := h'.rest
    exact ⟨_, _, _, _, rfl⟩
  content := h'.content.trans h.content
  dirty := fun p hp => (h'.dirty p hp).trans (h.dirty p hp)
  snapshotted := fun p hp hd =>
    (h'.snapshotted p hp ((h.dirty p hp).trans hd)).trans (h.snapshotted p hp hd)
  cleared := fun p hp hsn => h.cleared p hp (h'.cleared p hp hsn)
  queued := fun p hq hd =>
    h.queued p (h'.queued p hq ((h.dirty p (h'.coherent.queue p hq).1).trans hd)) hd

@[simp] theorem stored_withBuffer (s : Pager) (pages : List Page) (loaded : List Bool)
    (queue : List Nat) (count : Nat) :
    (s.withBuffer pages loaded queue count).stored = s.stored := rfl

theorem content_of_loaded (hlo : lo < p) (hp : p ≤ s.header.totalPages)
    (hl : s.isLoaded p = true) : s.content lo p = (s.page p).data := by
  rw [content, if_pos ⟨hlo, hp⟩, if_pos hl]

theorem content_of_stored {data : PageData} (hlo : lo < p) (hp : p ≤ s.header.totalPages)
    (hl : s.isLoaded p = false) (hst : s.stored p = some data) : s.content lo p = data := by
  rw [content, if_pos ⟨hlo, hp⟩, if_neg (by simp [hl]), hst, Option.getD_some]

-- A buffer operation that treats every slot in one of the three ways is a reload.
theorem Reload.of_slots (hs : Coherent lo base s) (pages : List Page) (loaded : List Bool)
    (queue : List Nat) (count : Nat) (hrest : s' = s.withBuffer pages loaded queue count)
    (hpages : s'.pages.length = s.pages.length) (hloaded : s'.loaded.length = s.loaded.length)
    (hqueue : ∀ p ∈ s'.lruQueue, p ∈ s.lruQueue ∨
      (0 < p ∧ p ≤ base ∧ s.isLoaded p = false ∧ s'.isLoaded p = true))
    (hslot : ∀ p, 0 < p → p ≤ s.header.totalPages → SlotStep lo base s s' p) :
    Reload lo base s s' := by
  have hstored : s'.stored = s.stored := by rw [hrest, stored_withBuffer]
  have htotal : s'.header = s.header := by rw [hrest]; rfl
  have hmax : s'.maxBufferPages = s.maxBufferPages := by rw [hrest]; rfl
  have hkind : ∀ p, 0 < p → SlotStep lo base s s' p := by
    intro p hp
    by_cases hle : p ≤ s.header.totalPages
    · exact hslot p hp hle
    · have h₁ := isLoaded_of_lt (s := s) (p := p) (by rw [hs.loadedLength]; omega)
      have h₂ := isLoaded_of_lt (s := s') (p := p) (by rw [hloaded, hs.loadedLength]; omega)
      have h₃ := page_of_lt (s := s) (p := p) (by rw [hs.pagesLength]; omega)
      have h₄ := page_of_lt (s := s') (p := p) (by rw [hpages, hs.pagesLength]; omega)
      exact .kept (h₂.trans h₁.symm) (by rw [h₃, h₄]) (by rw [h₃, h₄]) (by rw [h₃, h₄])
  have hdirty : ∀ p, 0 < p → (s'.page p).dirty = (s.page p).dirty := by
    intro p hp
    cases hkind p hp with
    | kept _ _ hd _ => exact hd
    | dropped _ _ _ hc _ hd _ => rw [hd, hc]
    | filled hb _ _ _ hd _ => rw [hd, (hs.unloaded p hp hb).1]
  refine {
    coherent := ?_
    rest := ⟨_, _, _, _, hrest⟩
    content := ?_
    dirty := hdirty
    snapshotted := ?_
    cleared := ?_
    queued := ?_ }
  · refine {
      pagesLength := by rw [hpages, htotal, hs.pagesLength]
      loadedLength := by rw [hloaded, htotal, hs.loadedLength]
      base_le := by rw [htotal]; exact hs.base_le
      queue := ?_
      appended := ?_
      unloaded := ?_
      readable := ?_
      clean := ?_ }
    · intro p hp
      rcases hqueue p hp with h | ⟨h₀, h₁, -, -⟩
      · exact hs.queue p h
      · exact ⟨h₀, h₁⟩
    · intro p hb hle
      rw [htotal] at hle
      cases hkind p (by omega) with
      | kept hl _ _ _ => rw [hl]; exact hs.appended p hb hle
      | dropped hq _ _ _ _ _ _ => have := (hs.queue p hq).2; omega
      | filled _ ha _ _ _ _ => exact ha
    · intro p hp hl
      cases hkind p hp with
      | kept hl' _ hd hsn =>
          rw [hd, hsn]
          exact hs.unloaded p hp (hl'.symm.trans hl)
      | dropped _ _ _ _ _ hd hsn => exact ⟨hd, hsn⟩
      | filled _ _ _ _ hd hsn => exact ⟨hd, hsn⟩
    · intro p hlo hb hl
      rw [hstored]
      cases hkind p (by omega) with
      | kept hl' _ _ _ => exact hs.readable p hlo hb (hl'.symm.trans hl)
      | dropped hq hm hbefore hc _ _ _ => rw [hs.clean hm p hq hlo hbefore hc]; rfl
      | filled _ ha _ _ _ _ => rw [ha] at hl; cases hl
    · intro hm p hp hlo hl hd
      rw [hmax] at hm
      rw [hstored]
      cases hkind p (by omega) with
      | kept hl' hdata hd' _ =>
          rcases hqueue p hp with h | ⟨-, -, hu, hl''⟩
          · rw [hdata]
            exact hs.clean hm p h hlo (hl'.symm.trans hl) (hd'.symm.trans hd)
          · rw [hl', hu] at hl''; cases hl''
      | dropped _ _ _ _ ha _ _ => rw [ha] at hl; cases hl
      | filled _ _ _ hst _ _ => exact hst hlo
  · funext p
    unfold Pager.content
    rw [htotal, hstored]
    by_cases hr : lo < p ∧ p ≤ s.header.totalPages
    · rw [if_pos hr, if_pos hr]
      cases hkind p (by omega) with
      | kept hl hdata _ _ => rw [hl, hdata]
      | dropped hq hm hb hc ha _ _ => simp [ha, hb, hs.clean hm p hq hr.1 hb hc]
      | filled hb ha _ hst _ _ => simp [ha, hb, hst hr.1]
    · rw [if_neg hr, if_neg hr]
  · intro p hp hd
    cases hkind p hp with
    | kept _ _ _ hsn => exact hsn
    | dropped _ _ _ hc _ _ _ => rw [hc] at hd; cases hd
    | filled hb _ _ _ _ _ => rw [(hs.unloaded p hp hb).1] at hd; cases hd
  · intro p hp hsn
    cases hkind p hp with
    | kept _ _ _ h => rw [← h]; exact hsn
    | dropped _ _ _ _ _ _ h => rw [h] at hsn; cases hsn
    | filled _ _ _ _ _ h => rw [h] at hsn; cases hsn
  · intro p hq hd
    rcases hqueue p hq with h | ⟨h₀, -, hu, -⟩
    · exact h
    · rw [(hs.unloaded p h₀ hu).1] at hd; cases hd

structure Sweep (lo base : Nat) (s s' : Pager) : Prop extends Reload lo base s s' where
  unloads : ∀ p, s'.isLoaded p = true → s.isLoaded p = true

theorem Sweep.refl (hs : Coherent lo base s) : Sweep lo base s s :=
  ⟨Reload.refl hs, fun _ h => h⟩

theorem Sweep.trans (h : Sweep lo base s s') (h' : Sweep lo base s' s'') : Sweep lo base s s'' :=
  ⟨h.toReload.trans h'.toReload, fun p hp => h.unloads p (h'.unloads p hp)⟩

theorem requeue_sweep (hs : Coherent lo base s) {queue : List Nat}
    (hqueue : ∀ q ∈ queue, q ∈ s.lruQueue) : Sweep lo base s { s with lruQueue := queue } where
  toReload := Reload.of_slots hs s.pages s.loaded queue s.lruLoadedCount rfl rfl rfl
    (fun q hq => .inl (hqueue q hq)) (fun _ _ _ => .kept rfl rfl rfl rfl)
  unloads := fun _ h => h

theorem setUsed_sweep (hs : Coherent lo base s) (used : Bool) (hp : 0 < p)
    (hle : p ≤ s.header.totalPages) :
    Sweep lo base s (s.setPage p { s.page p with recentlyUsed := used }) := by
  refine ⟨Reload.of_slots hs (s.pages.set (p - 1) _) s.loaded s.lruQueue s.lruLoadedCount rfl
    (by simp [setPage]) rfl (fun q hq => .inl hq) ?_, fun _ h => h⟩
  intro q hq _
  by_cases hqp : q = p
  · subst hqp
    have hpage := page_setPage_self (s := s) { s.page q with recentlyUsed := used } hp
      (by rw [hs.pagesLength]; exact hle)
    exact .kept rfl (by rw [hpage]) (by rw [hpage]) (by rw [hpage])
  · have hpage := page_setPage_of_ne (s := s) { s.page p with recentlyUsed := used } hp hq hqp
    exact .kept rfl (by rw [hpage]) (by rw [hpage]) (by rw [hpage])

theorem evictPage_sweep (hs : Coherent lo base s) (hmax : s.maxBufferPages ≠ 0)
    (hq : p ∈ s.lruQueue) (hl : s.isLoaded p = true) (hd : (s.page p).dirty = false) :
    Sweep lo base s (s.evictPage p) := by
  obtain ⟨hp, hb⟩ := hs.queue p hq
  have hle : p ≤ s.header.totalPages := Nat.le_trans hb hs.base_le
  have hload : ∀ r, 0 < r → (s.evictPage p).isLoaded r = if r = p then false else s.isLoaded r :=
    fun r hr => getD_set_pred s.loaded false hp hr (by rw [hs.loadedLength]; exact hle)
  refine ⟨Reload.of_slots hs (s.pages.set (p - 1) Page.new)
    (s.loaded.set (p - 1) false) s.lruQueue (s.lruLoadedCount - 1) rfl
    (by simp [evictPage, setPage]) (by simp [evictPage]) (fun r hr => .inl hr) ?_, ?_⟩
  · intro r hr _
    by_cases hrp : r = p
    · subst hrp
      have hpage : (s.evictPage r).page r = Page.new :=
        page_setPage_self Page.new hp (by rw [hs.pagesLength]; exact hle)
      exact .dropped hq hmax hl hd (by rw [hload r hr, if_pos rfl]) (by rw [hpage]; rfl)
        (by rw [hpage]; rfl)
    · have hpage : (s.evictPage p).page r = s.page r := page_setPage_of_ne Page.new hp hr hrp
      exact .kept (by rw [hload r hr, if_neg hrp]) (by rw [hpage]) (by rw [hpage])
        (by rw [hpage])
  · intro r
    simp only [isLoaded, evictPage, List.getD_eq_getElem?_getD, List.getElem?_set]
    split_ifs <;> simp

theorem evictLoop_sweep (target queueLen fuel checked passes : Nat) (hs : Coherent lo base s)
    (hmax : s.maxBufferPages ≠ 0) :
    Sweep lo base s (evictLoop target queueLen fuel checked passes s) := by
  induction fuel generalizing s checked passes with
  | zero => exact Sweep.refl hs
  | succ fuel ih =>
      unfold evictLoop
      by_cases hcount : s.lruLoadedCount ≤ target
      · rw [if_pos hcount]
        exact Sweep.refl hs
      rw [if_neg hcount]
      cases hqueue : s.lruQueue with
      | nil => exact Sweep.refl hs
      | cons pn rest =>
          have hpn : pn ∈ s.lruQueue := by rw [hqueue]; exact List.mem_cons_self
          have hrest : ∀ q ∈ rest, q ∈ s.lruQueue := fun q hq => by
            rw [hqueue]; exact List.mem_cons_of_mem _ hq
          have hrotate : ∀ q ∈ rest ++ [pn], q ∈ s.lruQueue := fun q hq => by
            rcases List.mem_append.mp hq with h | h
            · exact hrest q h
            · rw [List.mem_singleton.mp h]; exact hpn
          obtain ⟨hp, hb⟩ := hs.queue pn hpn
          have hused : Sweep lo base s { s.clearUsed pn with lruQueue := rest ++ [pn] } := by
            have h := setUsed_sweep hs false hp (Nat.le_trans hb hs.base_le)
            exact h.trans (requeue_sweep h.coherent hrotate)
          simp only
          split_ifs with hstale hdirty hbit hturn hpasses
          · have h := requeue_sweep hs hrest
            exact h.trans (ih _ _ h.coherent hmax)
          · have h := requeue_sweep hs hrotate
            exact h.trans (ih _ _ h.coherent hmax)
          · exact hused
          · exact hused.trans (ih _ _ hused.coherent hmax)
          · exact hused.trans (ih _ _ hused.coherent hmax)
          · have hl : s.isLoaded pn = true := by
              rw [← Bool.not_eq_false]
              exact fun h => hstale (.inr h)
            have h := evictPage_sweep hs hmax hpn hl (by simpa using hdirty)
            have h' := h.trans (requeue_sweep h.coherent hrest)
            exact h'.trans (ih _ _ h'.coherent hmax)

theorem evictLruIfNeeded_sweep (hs : Coherent lo base s) :
    Sweep lo base s s.evictLruIfNeeded := by
  unfold evictLruIfNeeded
  split_ifs with h
  · exact Sweep.refl hs
  · exact evictLoop_sweep _ _ _ _ _ hs (fun h₀ => h (.inl h₀))

theorem install_reload {data : PageData} (hs : Coherent lo base s) (hp : 0 < p) (hb : p ≤ base)
    (hl : s.isLoaded p = false) (hst : lo < p → s.stored p = some data) :
    Reload lo base s (s.install p data) := by
  have hle : p ≤ s.header.totalPages := Nat.le_trans hb hs.base_le
  have hload : ∀ r, 0 < r → (s.install p data).isLoaded r = if r = p then true else s.isLoaded r :=
    fun r hr => getD_set_pred s.loaded true hp hr (by rw [hs.loadedLength]; exact hle)
  refine Reload.of_slots hs (s.pages.set (p - 1) _) (s.loaded.set (p - 1) true)
    (s.lruQueue ++ [p]) (s.lruLoadedCount + 1) rfl
    (by simp [install, setData, setPage]) (by simp [install]) ?_ ?_
  · intro q hq
    rcases List.mem_append.mp hq with h | h
    · exact .inl h
    · obtain rfl := List.mem_singleton.mp h
      exact .inr ⟨hp, hb, hl, by rw [hload q hp, if_pos rfl]⟩
  · intro r hr _
    by_cases hrp : r = p
    · subst hrp
      have hpage : (s.install r data).page r = { s.page r with data := data } :=
        page_setPage_self _ hp (by rw [hs.pagesLength]; exact hle)
      obtain ⟨hd, hsn⟩ := hs.unloaded r hr hl
      exact .filled hl (by rw [hload r hr, if_pos rfl]) hb (by rw [hpage]; exact hst)
        (by rw [hpage]; exact hd) (by rw [hpage]; exact hsn)
    · have hpage : (s.install p data).page r = s.page r := page_setPage_of_ne _ hp hr hrp
      exact .kept (by rw [hload r hr, if_neg hrp]) (by rw [hpage]) (by rw [hpage]) (by rw [hpage])

theorem touch_sweep (hs : Coherent lo base s) (hp : 0 < p) (hle : p ≤ s.header.totalPages) :
    Sweep lo base s (s.touch p) := by
  unfold touch
  split_ifs
  · exact setUsed_sweep hs true hp hle
  · exact Sweep.refl hs

theorem Reload.header (h : Reload lo base s s') : s'.header = s.header := by
  obtain ⟨_, _, _, _, rfl⟩ := h.rest
  rfl

theorem Reload.stored (h : Reload lo base s s') : s'.stored = s.stored := by
  obtain ⟨_, _, _, _, rfl⟩ := h.rest
  rfl

theorem loadPageFromDisk_of_stored {data : PageData} (hw : s.readWal p = none)
    (hst : s.stored p = some data) : s.loadPageFromDisk p = .ok data := by
  rw [stored, hw] at hst
  cases hf : s.file with
  | none => simp [hf] at hst
  | some f =>
      cases hr : f.readPage p with
      | none => simp [hf, hr] at hst
      | some slot =>
          cases hd : decodeSlot s.useLz4 p slot with
          | error e => simp [hf, hr, hd, Except.toOption] at hst
          | ok d =>
              simp only [hf, hr, hd, Option.bind_some, Except.toOption, Option.some.injEq] at hst
              simp only [loadPageFromDisk, hf, hr, hd, hst]

def load (s : Pager) (p : Nat) (data : PageData) : Pager :=
  (s.evictLruIfNeeded.install p data).touch p

theorem load_reload (data : PageData) (hs : Coherent lo base s) (hp : 0 < p)
    (hle : p ≤ s.header.totalPages) (hl : s.isLoaded p = false)
    (hst : lo < p → s.stored p = some data) :
    Reload lo base s (s.load p data) ∧ (s.load p data).isLoaded p = true ∧
      ((s.load p data).page p).data = data ∧ ((s.load p data).page p).snapshotted = false := by
  have hsweep := evictLruIfNeeded_sweep hs
  have hb : p ≤ base := by
    by_contra hb
    rw [hs.appended p (by omega) hle] at hl
    cases hl
  have hl' : s.evictLruIfNeeded.isLoaded p = false := by
    rw [← Bool.not_eq_true] at hl ⊢
    exact fun h => hl (hsweep.unloads p h)
  have hins : Reload lo base s.evictLruIfNeeded (s.evictLruIfNeeded.install p data) :=
    install_reload hsweep.coherent hp hb hl'
    (fun hlo => by rw [hsweep.toReload.stored]; exact hst hlo)
  have hle' : p ≤ (s.evictLruIfNeeded.install p data).header.totalPages := by
    rw [hins.header, hsweep.header]; exact hle
  have htouch := touch_sweep hins.coherent hp hle'
  have hlen : p ≤ s.evictLruIfNeeded.pages.length := by
    rw [hsweep.coherent.pagesLength, hsweep.header]; exact hle
  have hpage : (s.evictLruIfNeeded.install p data).page p =
      { s.evictLruIfNeeded.page p with data := data } := page_setPage_self _ hp hlen
  obtain ⟨used, hused⟩ := page_touch_eq (s := s.evictLruIfNeeded.install p data) hp
    (by rw [hins.coherent.pagesLength]; exact hle')
  refine ⟨hsweep.toReload.trans (hins.trans htouch.toReload), ?_, ?_, ?_⟩
  · rw [load, isLoaded_touch]
    exact (getD_set_pred _ true hp hp
      (by rw [hsweep.coherent.loadedLength, hsweep.header]; exact hle)).trans (if_pos rfl)
  · rw [load, hused, hpage]
  · rw [load, hused, hpage]
    exact (hsweep.coherent.unloaded p hp hl').2

theorem getPage_spec (hs : Coherent lo base s) (hlo : lo < p) (hp : p ≤ s.header.totalPages) :
    ∃ s', getPage p s = .ok (s'.page p) s' ∧ Reload lo base s s' ∧ s'.isLoaded p = true ∧
      (s'.page p).data = s.content lo p := by
  unfold getPage
  rw [if_neg (by omega), if_neg (by rw [hs.loadedLength]; omega)]
  cases hl : s.isLoaded p with
  | true =>
      have htouch := touch_sweep hs (by omega : 0 < p) hp
      have hl' : (s.touch p).isLoaded p = true := by rw [isLoaded_touch]; exact hl
      refine ⟨s.touch p, rfl, htouch.toReload, hl', ?_⟩
      rw [← htouch.content, content_of_loaded hlo (by rw [htouch.header]; exact hp) hl']
  | false =>
      have hb : p ≤ base := by
        by_contra hb
        rw [hs.appended p (by omega) hp] at hl
        cases hl
      obtain ⟨data, hst⟩ := Option.isSome_iff_exists.mp (hs.readable p hlo hb hl)
      obtain ⟨hload, hl', hdata, -⟩ := load_reload _ hs (by omega) hp hl (fun _ => hst)
      refine ⟨s.load p data, ?_, hload, hl', ?_⟩
      · cases hw : s.readWal p with
        | some d =>
            have hd : d = data := by simpa [stored, hw] using hst
            rw [hd]
            rfl
        | none =>
            have hsweep := evictLruIfNeeded_sweep hs
            have hw' : s.evictLruIfNeeded.readWal p = none := by
              obtain ⟨_, _, _, _, h⟩ := hsweep.rest
              rw [h]; exact hw
            rw [← hsweep.toReload.stored] at hst
            simp only [Bool.false_eq_true, if_false, loadPageFromDisk_of_stored hw' hst]
            rfl
      · rw [hdata, content_of_stored hlo hp hl hst]

theorem mutate_coherent (data : PageData) (hs : Coherent lo base s) (hp : 0 < p)
    (hle : p ≤ s.header.totalPages) (hl : s.isLoaded p = true) :
    Coherent lo base (s.mutate p data) := by
  have hlen : p ≤ s.pages.length := by rw [hs.pagesLength]; exact hle
  have hself := page_mutate_self data hp hlen
  have hne := fun q hq => page_mutate_of_ne (q := q) data hp hlen hq
  have hpages := pages_length_mutate data hp hlen
  obtain ⟨pages, dirtyPages, hrest⟩ := mutate_rest data hp hlen
  have hload : ∀ q, (s.mutate p data).isLoaded q = s.isLoaded q := fun q => by rw [hrest]; rfl
  have hheader : (s.mutate p data).header = s.header := by rw [hrest]
  have hqueue : (s.mutate p data).lruQueue = s.lruQueue := by rw [hrest]
  have hstored : (s.mutate p data).stored = s.stored := by rw [hrest]; rfl
  refine {
    pagesLength := by rw [hpages, hheader, hs.pagesLength]
    loadedLength := by rw [hrest]; exact hs.loadedLength
    base_le := by rw [hheader]; exact hs.base_le
    queue := by rw [hqueue]; exact hs.queue
    appended := fun q => by rw [hload, hheader]; exact hs.appended q
    unloaded := ?_
    readable := fun q => by rw [hload, hstored]; exact hs.readable q
    clean := ?_ }
  · intro q hq hul
    rw [hload] at hul
    have hqp : q ≠ p := fun h => by rw [h, hl] at hul; cases hul
    rw [hne q hq hqp]
    exact hs.unloaded q hq hul
  · intro hm q hq hlo hlq hd
    rw [hqueue] at hq
    rw [hload] at hlq
    rw [hstored]
    by_cases hqp : q = p
    · rw [hqp, hself] at hd
      cases hd
    · rw [hne q (by omega) hqp] at hd ⊢
      exact hs.clean (by rw [hrest] at hm; exact hm) q hq hlo hlq hd

theorem content_mutate (data : PageData) (hs : Coherent lo base s) (hlo : lo < p)
    (hle : p ≤ s.header.totalPages) (hl : s.isLoaded p = true) :
    (s.mutate p data).content lo = Function.update (s.content lo) p data := by
  have hlen : p ≤ s.pages.length := by rw [hs.pagesLength]; exact hle
  obtain ⟨pages, dirtyPages, hrest⟩ := mutate_rest data (by omega) hlen
  have hload : ∀ q, (s.mutate p data).isLoaded q = s.isLoaded q := fun q => by rw [hrest]; rfl
  have hheader : (s.mutate p data).header = s.header := by rw [hrest]
  have hstored : (s.mutate p data).stored = s.stored := by rw [hrest]; rfl
  funext q
  by_cases hqp : q = p
  · rw [hqp, Function.update_self, content_of_loaded hlo (by rw [hheader]; exact hle)
      (by rw [hload]; exact hl), page_mutate_self data (by omega) hlen]
    rfl
  · rw [Function.update_of_ne hqp, content, content, hheader, hload, hstored]
    by_cases hr : lo < q ∧ q ≤ s.header.totalPages
    · rw [if_pos hr, if_pos hr, page_mutate_of_ne data (by omega) hlen (by omega) hqp]
    · rw [if_neg hr, if_neg hr]

theorem readWal_of_reload (h : Reload lo base s s') (p : Nat) : s'.readWal p = s.readWal p := by
  obtain ⟨_, _, _, _, rfl⟩ := h.rest
  rfl

theorem getPageMut_spec (hs : Coherent lo base s) (hlo : lo < p) (hp : p ≤ s.header.totalPages)
    (hsafe : MutSafe s p) :
    ∃ s₁ pg, getPageMut p s = .ok pg ((s₁.snapshotPage p).markDirty p) ∧
      pg.data = s.content lo p ∧ Reload lo base s s₁ ∧ s₁.isLoaded p = true ∧
      (s₁.page p).snapshotted = (s.page p).snapshotted := by
  unfold getPageMut
  rw [if_neg (by omega), if_neg (by rw [hs.loadedLength]; omega)]
  cases hl : s.isLoaded p with
  | true =>
      have htouch := touch_sweep hs (by omega : 0 < p) hp
      have hl' : (s.touch p).isLoaded p = true := by rw [isLoaded_touch]; exact hl
      have hlen : p ≤ (s.touch p).pages.length := by
        rw [htouch.coherent.pagesLength, htouch.header]; exact hp
      obtain ⟨used, hused⟩ := page_touch_eq (s := s) (p := p) (by omega)
        (by rw [hs.pagesLength]; exact hp)
      refine ⟨s.touch p, _, rfl, ?_, htouch.toReload, hl', by rw [hused]⟩
      rw [data_marked (by omega) hlen, hused, content_of_loaded hlo hp hl]
  | false =>
      have hw : s.readWal p = none := by
        rcases hsafe with h | h
        · rw [hl] at h; cases h
        · exact h
      have hb : p ≤ base := by
        by_contra hb
        rw [hs.appended p (by omega) hp] at hl
        cases hl
      obtain ⟨data, hst⟩ := Option.isSome_iff_exists.mp (hs.readable p hlo hb hl)
      obtain ⟨hload, hl', hdat, hsn⟩ := load_reload _ hs (by omega) hp hl (fun _ => hst)
      have hsweep := evictLruIfNeeded_sweep hs
      have hdisk : s.evictLruIfNeeded.loadPageFromDisk p = .ok data := by
        refine loadPageFromDisk_of_stored ?_ ?_
        · rw [readWal_of_reload hsweep.toReload]; exact hw
        · rw [hsweep.toReload.stored]; exact hst
      simp only [Bool.false_eq_true, if_false, hdisk]
      refine ⟨s.load p data, _, rfl, ?_, hload, hl', ?_⟩
      · have hlen : p ≤ (s.load p data).pages.length := by
          rw [hload.coherent.pagesLength, hload.header]; exact hp
        rw [← load, data_marked (by omega) hlen, hdat, content_of_stored hlo hp hl hst]
      · rw [hsn, (hs.unloaded p (by omega) hl).2]

theorem modifyPage_spec {α : Type} {f : PageData → Res (α × PageData)} {a : α} {data : PageData}
    (hs : Coherent lo base s) (hlo : lo < p) (hp : p ≤ s.header.totalPages) (hsafe : MutSafe s p)
    (hf : f (s.content lo p) = .ok (a, data)) :
    ∃ s₁, modifyPage p f s = .ok a (s₁.mutate p data) ∧ Reload lo base s s₁ ∧
      s₁.isLoaded p = true ∧ (s₁.page p).snapshotted = (s.page p).snapshotted := by
  obtain ⟨s₁, pg, hget, hdata, hload, hl, hsn⟩ := getPageMut_spec hs hlo hp hsafe
  refine ⟨s₁, ?_, hload, hl, hsn⟩
  have hf' : f pg.data = .ok (a, data) := by rw [hdata]; exact hf
  simp only [modifyPage, bind, EStateM.bind, hget, hf']
  rfl

def peek (s : Pager) (p : Nat) : Option PageData :=
  match getPage p s with
  | .ok pg _ => some pg.data
  | .error _ _ => none

theorem Coherent.mono {lo' : Nat} (hs : Coherent lo base s) (h : lo ≤ lo') :
    Coherent lo' base s where
  pagesLength := hs.pagesLength
  loadedLength := hs.loadedLength
  base_le := hs.base_le
  queue := hs.queue
  appended := hs.appended
  unloaded := hs.unloaded
  readable := fun p hlo => hs.readable p (Nat.lt_of_le_of_lt h hlo)
  clean := fun hm p hq hlo => hs.clean hm p hq (Nat.lt_of_le_of_lt h hlo)

theorem peek_of_loaded (hs : Coherent lo base s) (hp : 0 < p) (hle : p ≤ s.header.totalPages)
    (hl : s.isLoaded p = true) : s.peek p = some (s.page p).data := by
  obtain ⟨used, hused⟩ := page_touch_eq (s := s) hp (by rw [hs.pagesLength]; exact hle)
  unfold peek getPage
  rw [if_neg (by omega), if_neg (by rw [hs.loadedLength]; omega), if_pos hl]
  simp only [hused]

theorem peek_of_stored {data : PageData} (hs : Coherent lo base s) (hp : 0 < p)
    (hle : p ≤ s.header.totalPages) (hl : s.isLoaded p = false) (hst : s.stored p = some data) :
    s.peek p = some data := by
  obtain ⟨-, -, hdata, -⟩ := load_reload _ hs hp hle hl (fun _ => hst)
  unfold peek getPage
  rw [if_neg (by omega), if_neg (by rw [hs.loadedLength]; omega), if_neg (by simp [hl])]
  cases hw : s.readWal p with
  | some d =>
      have hd : d = data := by simpa [stored, hw] using hst
      rw [hd]
      exact congrArg some hdata
  | none =>
      have hsweep := evictLruIfNeeded_sweep hs
      have hdisk : s.evictLruIfNeeded.loadPageFromDisk p = .ok data := by
        refine loadPageFromDisk_of_stored ?_ ?_
        · rw [readWal_of_reload hsweep.toReload]; exact hw
        · rw [hsweep.toReload.stored]; exact hst
      simp only [hdisk]
      exact congrArg some hdata

theorem peek_of_range (h : p = 0 ∨ s.header.totalPages < p) : s.peek p = none := by
  unfold peek getPage
  rw [if_pos h]

theorem peek_of_readable (lo' : Nat) (hs : Coherent lo base s) (hlo : lo' < p)
    (hread : p ≤ s.header.totalPages → s.isLoaded p = false → (s.stored p).isSome) :
    s.peek p = if p ≤ s.header.totalPages then some (s.content lo' p) else none := by
  split_ifs with hle
  · cases hl : s.isLoaded p with
    | true => rw [peek_of_loaded hs (by omega) hle hl, content_of_loaded hlo hle hl]
    | false =>
        obtain ⟨data, hst⟩ := Option.isSome_iff_exists.mp (hread hle hl)
        rw [peek_of_stored hs (by omega) hle hl hst, content_of_stored hlo hle hl hst]
  · exact peek_of_range (.inr (by omega))

theorem peek_eq (hs : Coherent lo base s) (hlo : lo < p) :
    s.peek p = if p ≤ s.header.totalPages then some (s.content lo p) else none := by
  refine peek_of_readable lo hs hlo (fun hle hl => hs.readable p hlo ?_ hl)
  by_contra hb
  rw [hs.appended p (by omega) hle] at hl
  cases hl

theorem stored_of_loadPageFromDisk {data : PageData} (hs : Coherent lo base s) (hlo : lo < p)
    (hp : p ≤ s.header.totalPages) (hl : s.isLoaded p = false) (hw : s.readWal p = none)
    (h : s.loadPageFromDisk p = .ok data) : s.stored p = some data := by
  have hb : p ≤ base := by
    by_contra hb
    rw [hs.appended p (by omega) hp] at hl
    cases hl
  obtain ⟨d, hst⟩ := Option.isSome_iff_exists.mp (hs.readable p hlo hb hl)
  rw [loadPageFromDisk_of_stored hw hst] at h
  rw [hst, Except.ok.inj h]

theorem getPage_reload (hs : Coherent lo base s) (p : Nat) :
    Reload lo base s (left (getPage p) s) := by
  unfold left getPage
  by_cases hr : p = 0 ∨ s.header.totalPages < p
  · rw [if_pos hr]
    exact Reload.refl hs
  rw [if_neg hr, if_neg (by rw [hs.loadedLength]; omega)]
  cases hl : s.isLoaded p with
  | true => exact (touch_sweep hs (by omega) (by omega)).toReload
  | false =>
      have hsweep := evictLruIfNeeded_sweep hs
      cases hw : s.readWal p with
      | some data =>
          exact (load_reload _ hs (by omega) (by omega) hl (fun _ => by rw [stored, hw])).1
      | none =>
          cases hdisk : s.evictLruIfNeeded.loadPageFromDisk p with
          | error e =>
              simp only [Bool.false_eq_true, if_false]
              exact hsweep.toReload
          | ok data =>
              simp only [Bool.false_eq_true, if_false]
              refine (load_reload _ hs (by omega) (by omega) hl fun hlo => ?_).1
              have hl' : s.evictLruIfNeeded.isLoaded p = false := by
                rw [← Bool.not_eq_true] at hl ⊢
                exact fun h => hl (hsweep.unloads p h)
              rw [← hsweep.toReload.stored]
              exact stored_of_loadPageFromDisk hsweep.coherent hlo (by rw [hsweep.header]; omega)
                hl' (by rw [readWal_of_reload hsweep.toReload]; exact hw) hdisk

theorem isLoaded_grow (hs : Coherent lo base s) (hp : 0 < p) :
    s.grow.isLoaded p = if p = s.header.totalPages + 1 then true else s.isLoaded p := by
  have hlen := hs.loadedLength
  simp only [isLoaded, grow, List.getD_eq_getElem?_getD]
  split_ifs with h
  · rw [List.getElem?_append_right (by omega), show p - 1 - s.loaded.length = 0 by omega]
    rfl
  · by_cases h' : p - 1 < s.loaded.length
    · rw [List.getElem?_append_left h']
    · rw [List.getElem?_eq_none (by simp; omega), List.getElem?_eq_none (by omega)]

theorem grow_coherent (hs : Coherent lo base s) : Coherent lo base s.grow where
  pagesLength := by simp [grow, hs.pagesLength]
  loadedLength := by simp [grow, hs.loadedLength]
  base_le := Nat.le_succ_of_le hs.base_le
  queue := hs.queue
  appended := fun p hb hle => by
    rw [isLoaded_grow hs (by omega)]
    split_ifs with h
    · rfl
    · exact hs.appended p hb (by simp only [grow] at hle; omega)
  unloaded := fun p hp hl => by
    rw [isLoaded_grow hs hp] at hl
    rw [page_grow]
    split_ifs at hl
    exact hs.unloaded p hp hl
  readable := fun p hlo hb hl => by
    rw [isLoaded_grow hs (by omega)] at hl
    split_ifs at hl
    exact hs.readable p hlo hb hl
  clean := fun hm p hq hlo hl hd => by
    have hb := (hs.queue p hq).2
    have hbase := hs.base_le
    rw [isLoaded_grow hs (by omega), if_neg (by omega)] at hl
    rw [page_grow] at hd ⊢
    exact hs.clean hm p hq hlo hl hd

theorem content_grow (hs : Coherent lo base s) : s.grow.content lo = s.content lo := by
  funext p
  simp only [content]
  by_cases hr : lo < p ∧ p ≤ s.header.totalPages
  · have hl : s.grow.isLoaded p = s.isLoaded p := by
      rw [isLoaded_grow hs (by omega), if_neg (by omega)]
    rw [if_pos hr, if_pos ⟨hr.1, by simp only [grow]; omega⟩, hl, page_grow]
    rfl
  · rw [if_neg hr]
    by_cases hr' : lo < p ∧ p ≤ s.grow.header.totalPages
    · have hp : p = s.header.totalPages + 1 := by simp only [grow] at hr'; omega
      have hl : s.grow.isLoaded p = true := by rw [isLoaded_grow hs (by omega), if_pos hp]
      rw [if_pos hr', if_pos hl, page_grow, page_of_lt (by rw [hs.pagesLength]; omega)]
      rfl
    · rw [if_neg hr']

end Content

end Pager

end Kkdb
