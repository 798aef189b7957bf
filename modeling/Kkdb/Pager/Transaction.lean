import Kkdb.Lib.State
import Kkdb.Pager.Content
import Mathlib.Logic.Relation

namespace Kkdb

open Lib

namespace Pager

section Edits

variable [Lz4Flex] {lo base : Nat} {s s' : Pager} {p : Nat}

inductive Edit (lo base : Nat) : Pager → Pager → Prop where
  | reload {s s' : Pager} (h : Reload lo base s s') : Edit lo base s s'
  | mutate {s : Pager} {p : Nat} (data : PageData) (hlo : lo < p) (hle : p ≤ s.header.totalPages)
      (hl : s.isLoaded p = true) : Edit lo base s (s.mutate p data)
  | grow {s : Pager} : Edit lo base s s.grow
  | cow {s : Pager} (c : CowPagerState) (htx : c.activeTx.isSome = s.cow.activeTx.isSome) :
      Edit lo base s { s with cow := c }

abbrev Edits (lo base : Nat) := Relation.ReflTransGen (Edit lo base)

theorem cow_coherent (c : CowPagerState) (hs : Coherent lo base s) :
    Coherent lo base { s with cow := c } :=
  ⟨hs.pagesLength, hs.loadedLength, hs.base_le, hs.queue, hs.appended, hs.unloaded, hs.readable,
    hs.clean⟩

theorem Edit.coherent (h : Edit lo base s s') (hs : Coherent lo base s) :
    Coherent lo base s' := by
  cases h with
  | reload h => exact h.coherent
  | mutate data hlo hle hl => exact mutate_coherent data hs (by omega) hle hl
  | grow => exact grow_coherent hs
  | cow c _ => exact cow_coherent c hs

theorem Edits.coherent (h : Edits lo base s s') (hs : Coherent lo base s) :
    Coherent lo base s' := by
  induction h with
  | refl => exact hs
  | tail _ hstep ih => exact hstep.coherent ih

-- One page gets new data; the pages that keep their data keep their flags as far
-- as a transaction depends on them.
structure Touched (lo base p : Nat) (data : PageData) (s s' : Pager) : Prop where
  edits : Edits lo base s s'
  content : s'.content lo = Function.update (s.content lo) p data
  header : s'.header = s.header
  cow : s'.cow = s.cow
  dirty : (s'.page p).dirty = true
  imaged : s.txnSnapshot.isSome = true → (s'.page p).snapshotted = true
  kept : ∀ q, 0 < q → (s.page q).dirty = true → (s.page q).snapshotted = true →
    (s'.page q).snapshotted = true
  unsaved : ∀ q, 0 < q → q ≠ p ∨ s.txnSnapshot = none → (s.page q).snapshotted = false →
    (s'.page q).snapshotted = false

theorem Edit.tracked (h : Edit lo base s s') (hs : Coherent lo base s)
    (ht : ∀ p ∈ s.dirtyPages, 0 < p) : ∀ p ∈ s'.dirtyPages, 0 < p := by
  cases h with
  | reload h =>
      obtain ⟨_, _, _, _, rfl⟩ := h.rest
      exact ht
  | @mutate q data hlo hle hl =>
      rw [mutate_eq data (by omega) (by rw [hs.pagesLength]; exact hle)]
      intro p hp
      simp only at hp
      split_ifs at hp
      · exact ht p hp
      · rcases List.mem_append.mp hp with hp | hp
        · exact ht p hp
        · rw [List.mem_singleton.mp hp]
          omega
  | grow => exact ht
  | cow c _ => exact ht

theorem Edits.tracked (h : Edits lo base s s') (hs : Coherent lo base s)
    (ht : ∀ p ∈ s.dirtyPages, 0 < p) : ∀ p ∈ s'.dirtyPages, 0 < p := by
  induction h with
  | refl => exact ht
  | tail hrun hstep ih => exact hstep.tracked (Edits.coherent hrun hs) ih

theorem modifyPage_touched {α : Type} {f : PageData → Res (α × PageData)} {a : α} {data : PageData}
    (hs : Coherent lo base s) (hlo : lo < p) (hp : p ≤ s.header.totalPages) (hsafe : MutSafe s p)
    (hf : f (s.content lo p) = .ok (a, data)) :
    ∃ s', modifyPage p f s = .ok a s' ∧ Touched lo base p data s s' := by
  obtain ⟨s₁, hrun, hload, hl, -⟩ := modifyPage_spec hs hlo hp hsafe hf
  have hp' : p ≤ s₁.header.totalPages := by rw [hload.header]; exact hp
  have hlen : p ≤ s₁.pages.length := by rw [hload.coherent.pagesLength]; exact hp'
  have hpos : 0 < p := by omega
  have hself := page_mutate_self data hpos hlen
  have hne := fun q hq => page_mutate_of_ne (q := q) data hpos hlen hq
  have hsnap : s₁.txnSnapshot = s.txnSnapshot := by obtain ⟨_, _, _, _, rfl⟩ := hload.rest; rfl
  refine ⟨s₁.mutate p data, hrun, ?_, ?_, ?_, ?_, ?_, ?_, ?_, ?_⟩
  · exact (Relation.ReflTransGen.single (.reload hload)).tail (.mutate data hlo hp' hl)
  · rw [content_mutate data hload.coherent hlo hp' hl, hload.content]
  · rw [mutate_eq data hpos hlen, ← hload.header]
    rfl
  · rw [mutate_eq data hpos hlen]
    obtain ⟨_, _, _, _, rfl⟩ := hload.rest
    rfl
  · rw [hself]
    rfl
  · intro h
    rw [hself, mutatedPage, hsnap, h, Bool.or_true]
  · intro q hq hd hsn
    have hsn₁ : (s₁.page q).snapshotted = true := by rw [hload.snapshotted q hq hd, hsn]
    by_cases hqp : q = p
    · rw [hqp, hself, mutatedPage, ← hqp, hsn₁, Bool.true_or]
    · rw [hne q hq hqp]
      exact hsn₁
  · intro q hq hqp hsn
    have hsn₁ : (s₁.page q).snapshotted = false := by
      rw [← Bool.not_eq_true]
      intro h
      rw [hload.cleared q hq h] at hsn
      cases hsn
    by_cases heq : q = p
    · rw [heq, hself, mutatedPage, ← heq, hsn₁, hsnap, hqp.resolve_left (not_not.mpr heq)]
      rfl
    · rw [hne q hq heq]
      exact hsn₁

theorem writePage_touched (f : PageData → PageData) (hs : Coherent lo base s) (hlo : lo < p)
    (hp : p ≤ s.header.totalPages) (hsafe : MutSafe s p) :
    ∃ s', writePage p f s = .ok () s' ∧ Touched lo base p (f (s.content lo p)) s s' :=
  modifyPage_touched hs hlo hp hsafe rfl

theorem modifyPage_edits {α : Type} {f : PageData → Res (α × PageData)} {a : α} {data : PageData}
    (hs : Coherent lo base s) (hlo : lo < p) (hp : p ≤ s.header.totalPages) (hsafe : MutSafe s p)
    (hf : f (s.content lo p) = .ok (a, data)) :
    ∃ s', modifyPage p f s = .ok a s' ∧ Edits lo base s s' ∧
      s'.header = s.header ∧ s'.cow = s.cow ∧ (s'.page p).dirty = true := by
  obtain ⟨s', hrun, h⟩ := modifyPage_touched hs hlo hp hsafe hf
  exact ⟨s', hrun, h.edits, h.header, h.cow, h.dirty⟩

theorem modifyPage_range {α : Type} {f : PageData → Res (α × PageData)}
    (h : p = 0 ∨ s.header.totalPages < p) :
    modifyPage p f s = .error (.Err (.PageOutOfRange p)) s := by
  have hget : getPageMut p s = .error (.Err (.PageOutOfRange p)) s := by
    unfold getPageMut
    rw [if_pos h]
  exact bind_error hget

theorem writePage_edits (f : PageData → PageData) (hs : Coherent 0 base s)
    (hsafe : 0 < p → MutSafe s p) : Edits 0 base s (left (writePage p f) s) := by
  by_cases hr : p = 0 ∨ s.header.totalPages < p
  · rw [writePage, left_error (modifyPage_range hr)]
  · obtain ⟨s', hrun, hed, -⟩ := modifyPage_edits (f := fun data => .ok ((), f data)) hs
      (by omega) (by omega) (hsafe (by omega)) rfl
    rw [writePage, left_ok hrun]
    exact hed

theorem getPage_edits (hs : Coherent lo base s) (p : Nat) :
    Edits lo base s (left (getPage p) s) :=
  .single (.reload (getPage_reload hs p))

-- A write to the page stays safe whatever is loaded or evicted meanwhile.
def MutStable (s : Pager) (p : Nat) : Prop := (s.page p).dirty = true ∨ s.readWal p = none

instance (s : Pager) (p : Nat) : Decidable (MutStable s p) :=
  inferInstanceAs (Decidable (_ ∨ _))

theorem MutStable.safe (h : MutStable s p) (hs : Coherent lo base s) (hp : 0 < p) :
    MutSafe s p := by
  rcases h with h | h
  · left
    rw [← Bool.not_eq_false]
    intro hl
    rw [(hs.unloaded p hp hl).1] at h
    cases h
  · exact .inr h

theorem Edit.stable (h : Edit lo base s s') (hs : Coherent lo base s) (hp : 0 < p)
    (hst : MutStable s p) : MutStable s' p := by
  cases h with
  | reload h =>
      rw [MutStable, h.dirty p hp, readWal_of_reload h]
      exact hst
  | @mutate q data hlo hle hl =>
      have hlen : q ≤ s.pages.length := by rw [hs.pagesLength]; exact hle
      have hw : (s.mutate q data).readWal p = s.readWal p := by
        obtain ⟨_, _, h⟩ := mutate_rest data (by omega) hlen
        rw [h]; rfl
      rw [MutStable, hw]
      by_cases hpq : p = q
      · rw [hpq, page_mutate_self data (by omega) hlen]
        exact .inl rfl
      · rw [page_mutate_of_ne data (by omega) hlen hp hpq]
        exact hst
  | grow => rw [MutStable, page_grow]; exact hst
  | cow c _ => exact hst

theorem Edits.stable (h : Edits lo base s s') (hs : Coherent lo base s) (hp : 0 < p)
    (hst : MutStable s p) : MutStable s' p := by
  induction h with
  | refl => exact hst
  | tail hrun hstep ih => exact hstep.stable (Edits.coherent hrun hs) hp ih

theorem rotateFree_edits (lo base : Nat) (s : Pager) : Edits lo base s s.rotateFree := by
  unfold rotateFree
  simp only
  split_ifs
  · exact .single (.cow _ rfl)
  · exact .refl

theorem popFree_edits (hs : Coherent 0 base s) : Edits 0 base s (left (popFree p) s) := by
  by_cases hr : p = 0 ∨ s.header.totalPages < p
  · have hget : getPage p s = .error (.Err (.PageOutOfRange p)) s := by
      unfold getPage
      rw [if_pos hr]
    rw [popFree, left_error (bind_error hget)]
  · obtain ⟨s₁, hget, hload, hl, -⟩ := getPage_spec hs (p := p) (by omega) (by omega)
    have h₁ : Edits 0 base s (s₁.setFreeRoot ((s₁.page p).data.u32 0)) :=
      (Relation.ReflTransGen.single (.reload hload)).tail (.cow _ rfl)
    have hle : p ≤ (s₁.setFreeRoot ((s₁.page p).data.u32 0)).header.totalPages := by
      show p ≤ s₁.header.totalPages
      rw [hload.header]; omega
    obtain ⟨s₂, hmod, h₂, -⟩ := modifyPage_edits (f := fun _ => .ok ((), Buf.zero))
      (h₁.coherent hs) (by omega : 0 < p) hle (.inl hl) rfl
    have hrun : popFree p s = .ok p s₂ := by
      rw [popFree, bind_ok hget, modify_bind]
      exact bind_ok hmod
    rw [left_ok hrun]
    exact h₁.trans h₂

theorem allocatePage_eq (s : Pager) : allocatePage s =
    if MAX_PAGES ≤ s.header.totalPages then .error (.Err .DatabaseFull) s
    else if s.rotateFree.cow.activeSuperblock.freeRoot ≠ 0
    then popFree s.rotateFree.cow.activeSuperblock.freeRoot s.rotateFree
    else .ok (s.rotateFree.header.totalPages + 1) s.rotateFree.grow := by
  unfold allocatePage
  simp only [get_bind, ite_apply_state, modify_bind]
  split_ifs <;> rfl

theorem allocatePage_edits (hs : Coherent 0 base s) :
    Edits 0 base s (left allocatePage s) := by
  have hrot := rotateFree_edits 0 base s
  have hrun := allocatePage_eq s
  split_ifs at hrun with hmax hfree
  · rw [left_error hrun]
  · rw [left, hrun]
    exact hrot.trans (popFree_edits (Edits.coherent hrot hs))
  · rw [left_ok hrun]
    exact hrot.tail .grow

theorem linkFreed_edits (hs : Coherent 0 base s) (hst : MutStable s p)
    (htail : ∀ tx tail, s.cow.activeTx = some tx → tx.freedTail = some tail → 0 < tail →
      MutStable s tail) :
    Edits 0 base s (left (linkFreed p) s) := by
  have hwrite : ∀ (c : CowPagerState) (q : Nat) (f : PageData → PageData),
      c.activeTx.isSome = s.cow.activeTx.isSome → (0 < q → MutStable s q) →
      Edits 0 base s (left (writePage q f) { s with cow := c }) := by
    intro c q f htx hq
    have hcow : Edits 0 base s { s with cow := c } := .single (.cow c htx)
    have hq' : 0 < q → MutStable { s with cow := c } q := hq
    exact hcow.trans (writePage_edits f (hcow.coherent hs)
      (fun h => (hq' h).safe (hcow.coherent hs) h))
  cases htx : s.cow.activeTx with
  | none =>
      have hrun : linkFreed p s = writePage p (setLink s.cow.activeSuperblock.pendingFreeRoot)
          (s.setPendingFreeRoot p) := by
        simp only [linkFreed, get_bind, htx, modify_bind]
      rw [left, hrun]
      exact hwrite _ p _ rfl (fun _ => hst)
  | some tx =>
      cases hft : tx.freedTail with
      | none =>
          have hrun : linkFreed p s = .ok () (s.setActiveTx
              (some { tx with freedRoot := some p, freedTail := some p })) := by
            simp only [linkFreed, get_bind, htx, hft]
            rfl
          rw [left_ok hrun]
          exact .single (.cow _ (by rw [htx]; rfl))
      | some tail =>
          have hrun : linkFreed p s = writePage tail (setLink p)
              (s.setActiveTx (some { tx with freedTail := some p })) := by
            simp only [linkFreed, get_bind, htx, hft, modify_bind]
          rw [left, hrun]
          exact hwrite _ tail _ (by rw [htx]; rfl) (htail tx tail htx hft)

theorem freePage_eq (s : Pager) (p : Nat) : freePage p s =
    if p = 0 ∨ s.header.totalPages < p then .error (.Err (.PageOutOfRange p)) s
    else (writePage p (fun _ => Buf.zero) >>= fun _ => linkFreed p) s := by
  unfold freePage
  simp only [get_bind, ite_apply_state]
  split_ifs <;> rfl

theorem freePage_edits (hs : Coherent 0 base s) (hsafe : 0 < p → MutSafe s p)
    (htail : ∀ tx tail, s.cow.activeTx = some tx → tx.freedTail = some tail → 0 < tail →
      MutStable s tail) :
    Edits 0 base s (left (freePage p) s) := by
  have hrun := freePage_eq s p
  split_ifs at hrun with hr
  · rw [left_error hrun]
  · obtain ⟨s₁, hzero, h₁, -, hcow, hdirty⟩ := modifyPage_edits
      (f := fun _ => .ok ((), Buf.zero)) hs (by omega : 0 < p) (by omega) (hsafe (by omega)) rfl
    rw [writePage, bind_ok hzero] at hrun
    rw [left, hrun]
    refine h₁.trans (linkFreed_edits (h₁.coherent hs) (.inl hdirty) ?_)
    intro tx tail htx hft hpos
    rw [hcow] at htx
    exact h₁.stable hs hpos (htail tx tail htx hft hpos)

end Edits

section Revert

variable {s : Pager} {images : Nat → Option PageData} {total p : Nat}

def revert (images : Nat → Option PageData) (total : Nat) (s : Pager) : Pager :=
  { s with
    header := { totalPages := total }
    pages := (restorePages s.pages images).take total
    loaded := s.loaded.take total }

def revertedPage (images : Nat → Option PageData) (p : Nat) (pg : Page) : Page :=
  match images p with
  | some data => { pg with data := data, dirty := false, snapshotted := false }
  | none => pg

theorem page_revert (images : Nat → Option PageData) (hp : 0 < p) (hle : p ≤ total)
    (hlen : p ≤ s.pages.length) :
    (s.revert images total).page p = revertedPage images p (s.page p) := by
  have hidx : p - 1 < s.pages.length := by omega
  simp only [page, revert, restorePages, List.getD_eq_getElem?_getD]
  rw [List.getElem?_take_of_lt (by omega), List.getElem?_mapIdx, List.getElem?_eq_getElem hidx]
  have hpos : p - 1 + 1 = p := by omega
  cases himage : images p with
  | none => simp only [Option.map_some, Option.getD_some, revertedPage, hpos, himage]
  | some data => simp only [Option.map_some, Option.getD_some, revertedPage, hpos, himage]

theorem isLoaded_revert (images : Nat → Option PageData) (hp : 0 < p) (hle : p ≤ total) :
    (s.revert images total).isLoaded p = s.isLoaded p := by
  simp only [isLoaded, revert, List.getD_eq_getElem?_getD]
  rw [List.getElem?_take_of_lt (by omega)]

theorem page_revert_of_lt (h : total < p) : (s.revert images total).page p = Page.new :=
  page_of_lt (by simp only [revert, List.length_take]; omega)

variable [Lz4Flex] {lo base : Nat}

theorem revert_coherent (images : Nat → Option PageData) (hs : Coherent lo base s) (hb : base ≤ total)
    (ht : total ≤ s.header.totalPages)
    (hst : s.maxBufferPages ≠ 0 → ∀ p ∈ s.lruQueue, lo < p → ∀ data, images p = some data →
      s.stored p = some data) : Coherent lo base (s.revert images total) := by
  have hpages := hs.pagesLength
  have hloaded := hs.loadedLength
  refine {
    pagesLength := by simp [revert, restorePages]; omega
    loadedLength := by simp [revert]; omega
    base_le := hb
    queue := hs.queue
    appended := ?_
    unloaded := ?_
    readable := ?_
    clean := ?_ }
  · intro p hbp (hle : p ≤ total)
    rw [isLoaded_revert images (by omega) hle]
    exact hs.appended p hbp (Nat.le_trans hle ht)
  · intro p hp hl
    by_cases hle : p ≤ total
    · rw [isLoaded_revert images hp hle] at hl
      rw [page_revert images hp hle (by omega), revertedPage]
      cases images p with
      | none => exact hs.unloaded p hp hl
      | some data => exact ⟨rfl, rfl⟩
    · rw [page_revert_of_lt (by omega)]
      exact ⟨rfl, rfl⟩
  · intro p hlo hbp hl
    rw [isLoaded_revert images (by omega) (by omega)] at hl
    exact hs.readable p hlo hbp hl
  · intro hm p hq hlo hl hd
    have hbp := (hs.queue p hq).2
    rw [isLoaded_revert images (by omega) (by omega)] at hl
    rw [page_revert images (by omega) (by omega) (by omega), revertedPage] at hd ⊢
    cases himg : images p with
    | none =>
        rw [himg] at hd
        exact hs.clean hm p hq hlo hl hd
    | some data => exact hst hm p hq hlo data himg

theorem content_revert (hs : Coherent lo base s) (ht : total ≤ s.header.totalPages)
    (himg : ∀ data, images p = some data → s.isLoaded p = true) (hlo : lo < p) (hle : p ≤ total) :
    (s.revert images total).content lo p = (images p).getD (s.content lo p) := by
  have hpage := page_revert images (by omega : 0 < p) hle
    (by rw [hs.pagesLength]; omega)
  have hload := isLoaded_revert (s := s) images (by omega : 0 < p) hle
  have hr : lo < p ∧ p ≤ (s.revert images total).header.totalPages := ⟨hlo, hle⟩
  have hr' : lo < p ∧ p ≤ s.header.totalPages := ⟨hlo, Nat.le_trans hle ht⟩
  rw [content, if_pos hr, hload, hpage, revertedPage]
  cases h : images p with
  | none =>
      rw [Option.getD_none, content, if_pos hr']
      rfl
  | some data => rw [himg data h, if_pos rfl, Option.getD_some]

end Revert

end Pager

end Kkdb
