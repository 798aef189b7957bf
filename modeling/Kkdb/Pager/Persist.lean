import Kkdb.Lib.State
import Kkdb.Pager.Content
import Kkdb.Wal.Theorems

namespace Kkdb

open Lib

namespace Pager

-- The index points at frames that are there, and the page count that a checkpoint
-- would cut the file to leaves every stored page in place.
structure Fits (base : Nat) (w : Wal) : Prop where
  indexed : w.Indexed
  covers : w.index.dbPageCount = 0 ∨ base ≤ w.index.dbPageCount

section Flushed

variable [Lz4Flex] {base : Nat} {s s' s'' : Pager} {p q : Nat}

structure Flushed (base : Nat) (s s' : Pager) : Prop where
  coherent : Coherent 2 base s'
  content : s'.content 2 = s.content 2
  rest : ∃ pages file wal dirtyPages, s' =
    { s with pages := pages, file := file, wal := wal, dirtyPages := dirtyPages }
  file : s'.file.isSome = s.file.isSome
  wal : s'.wal.isSome = s.wal.isSome
  fits : (∀ w, s.wal = some w → Fits base w) → ∀ w, s'.wal = some w → Fits base w
  snapshotted : ∀ p, 0 < p → (s'.page p).snapshotted = (s.page p).snapshotted
  dirty : ∀ p, 0 < p → (s'.page p).dirty = true → (s.page p).dirty = true
  tracked : ∀ p ∈ s'.dirtyPages, p ∈ s.dirtyPages

theorem Flushed.refl (hs : Coherent 2 base s) : Flushed base s s :=
  ⟨hs, rfl, ⟨_, _, _, _, rfl⟩, rfl, rfl, fun h => h, fun _ _ => rfl, fun _ _ h => h, fun _ h => h⟩

theorem Flushed.trans (h : Flushed base s s') (h' : Flushed base s' s'') :
    Flushed base s s'' where
  coherent := h'.coherent
  content := h'.content.trans h.content
  rest := by
    obtain ⟨_, _, _, _, rfl⟩ := h.rest
    obtain ⟨_, _, _, _, rfl⟩ := h'.rest
    exact ⟨_, _, _, _, rfl⟩
  file := h'.file.trans h.file
  wal := h'.wal.trans h.wal
  fits := fun hw => h'.fits (h.fits hw)
  snapshotted := fun p hp => (h'.snapshotted p hp).trans (h.snapshotted p hp)
  dirty := fun p hp hd => h.dirty p hp (h'.dirty p hp hd)
  tracked := fun p hp => h.tracked p (h'.tracked p hp)

-- The storage keeps every page it had above the superblock slots, and a page is
-- marked clean only when the storage holds it.
theorem Flushed.of_stored (hs : Coherent 2 base s) (pages : List Page) (file : Option DbFile)
    (wal : Option Wal) (dirtyPages : List Nat)
    (hrest : s' = { s with pages := pages, file := file, wal := wal, dirtyPages := dirtyPages })
    (hlen : pages.length = s.pages.length) (hfile : file.isSome = s.file.isSome)
    (hwal : wal.isSome = s.wal.isSome)
    (hfits : (∀ w, s.wal = some w → Fits base w) → ∀ w, wal = some w → Fits base w)
    (htracked : ∀ p ∈ dirtyPages, p ∈ s.dirtyPages)
    (hstored : ∀ p, 2 < p → p ≤ base → ∀ data, (s.isLoaded p = true → (s.page p).dirty = false) →
      s.stored p = some data → s'.stored p = some data)
    (hpage : ∀ p, 0 < p → (s'.page p).snapshotted = (s.page p).snapshotted ∧
      (2 < p → (s'.page p).data = (s.page p).data) ∧
      ((s'.page p).dirty = (s.page p).dirty ∨ ((s'.page p).dirty = false ∧
        (2 < p → p ∈ s.lruQueue → s.isLoaded p = true → s'.stored p = some (s.page p).data)))) :
    Flushed base s s' := by
  have hheader : s'.header = s.header := by rw [hrest]
  have hload : ∀ p, s'.isLoaded p = s.isLoaded p := fun p => by rw [hrest]; rfl
  have hqueue : s'.lruQueue = s.lruQueue := by rw [hrest]
  have hmax : s'.maxBufferPages = s.maxBufferPages := by rw [hrest]
  have hunloaded : ∀ p, 2 < p → p ≤ base → s.isLoaded p = false → s'.stored p = s.stored p := by
    intro p hlo hb hl
    obtain ⟨data, hst⟩ := Option.isSome_iff_exists.mp (hs.readable p hlo hb hl)
    rw [hst]
    exact hstored p hlo hb data (fun h => by rw [hl] at h; cases h) hst
  refine {
    coherent := {
      pagesLength := by rw [hrest, ← hs.pagesLength]; exact hlen
      loadedLength := by rw [hrest]; exact hs.loadedLength
      base_le := by rw [hheader]; exact hs.base_le
      queue := by rw [hqueue]; exact hs.queue
      appended := fun p => by rw [hload, hheader]; exact hs.appended p
      unloaded := ?_
      readable := ?_
      clean := ?_ }
    content := ?_
    rest := ⟨_, _, _, _, hrest⟩
    file := by rw [hrest]; exact hfile
    wal := by rw [hrest]; exact hwal
    fits := by rw [hrest]; exact hfits
    snapshotted := fun p hp => (hpage p hp).1
    dirty := ?_
    tracked := by rw [hrest]; exact htracked }
  · intro p hp hl
    rw [hload] at hl
    obtain ⟨hd, hsn⟩ := hs.unloaded p hp hl
    obtain ⟨hsn', -, hd'⟩ := hpage p hp
    refine ⟨?_, hsn'.trans hsn⟩
    rcases hd' with h | h
    · exact h.trans hd
    · exact h.1
  · intro p hlo hb hl
    rw [hload] at hl
    rw [hunloaded p hlo hb hl]
    exact hs.readable p hlo hb hl
  · intro hm p hq hlo hl hd
    rw [hmax] at hm
    rw [hqueue] at hq
    rw [hload] at hl
    obtain ⟨-, hdata, hd'⟩ := hpage p (by omega)
    rw [hdata hlo]
    rcases hd' with h | h
    · have hclean := h.symm.trans hd
      exact hstored p hlo (hs.queue p hq).2 _ (fun _ => hclean) (hs.clean hm p hq hlo hl hclean)
    · exact h.2 hlo hq hl
  · funext p
    rw [Pager.content, Pager.content, hheader, hload]
    by_cases hr : 2 < p ∧ p ≤ s.header.totalPages
    · rw [if_pos hr, if_pos hr, (hpage p (by omega)).2.1 hr.1]
      cases hl : s.isLoaded p with
      | true => rfl
      | false =>
          have hb : p ≤ base := by
            by_contra hb
            rw [hs.appended p (by omega) hr.2] at hl
            cases hl
          rw [hunloaded p hr.1 hb hl]
    · rw [if_neg hr, if_neg hr]
  · intro p hp hd
    rcases (hpage p hp).2.2 with h | h
    · exact h.symm.trans hd
    · rw [h.1] at hd
      cases hd

end Flushed

theorem readPage_writePage_of_ne {f : DbFile} {p q : Nat} {slot data : PageData} (hne : q ≠ p)
    (h : f.readPage q = some data) : (f.writePage p slot).readPage q = some data := by
  simp only [DbFile.readPage, DbFile.writePage, Function.update_of_ne hne] at h ⊢
  split_ifs at h with hle
  rw [if_pos (Nat.le_trans hle (Nat.le_max_left _ _)), h]

theorem readPage_writePage_self (f : DbFile) (p : Nat) (slot : PageData) :
    (f.writePage p slot).readPage p = some slot := by
  simp only [DbFile.readPage, DbFile.writePage, Function.update_self]
  rw [if_pos (Nat.le_max_right _ _)]

theorem pageNum_le (slot : SuperblockSlot) : 0 < slot.pageNum ∧ slot.pageNum ≤ 2 := by
  cases slot <;> simp [SuperblockSlot.pageNum]

theorem wal_writeV2Superblock (slot : SuperblockSlot) (sb : SuperblockV2) (s : Pager) :
    (s.writeV2Superblock slot sb).wal = s.wal := by
  unfold writeV2Superblock
  cases s.file <;> rfl

theorem uncommitted_walCommit {s : Pager} {w : Wal} (h : s.walCommit.wal = some w) : w.uncommitted = [] := by
  obtain ⟨w', -, rfl⟩ := Option.map_eq_some_iff.mp h
  exact Wal.uncommitted_commit w' _

theorem uncommitted_runCheckpoint {s : Pager} {w : Wal} (nanos : Nat)
    (hs : ∀ w, s.wal = some w → w.uncommitted = []) (h : (s.runCheckpoint nanos).wal = some w) :
    w.uncommitted = [] := by
  unfold runCheckpoint at h
  cases hwal : s.wal with
  | none => simp [hwal] at h
  | some w₀ =>
      cases hfile : s.file with
      | none =>
          simp only [hwal, hfile, Option.some.injEq] at h
          rw [← h]
          exact hs w₀ hwal
      | some f =>
          simp only [hwal, hfile, Option.some.injEq] at h
          rw [← h]
          rcases Wal.checkpoint_cases w₀ f nanos with hcp | hcp
          · rw [hcp]
            exact hs w₀ hwal
          · rw [hcp]
            rfl

theorem page_endTransaction (s : Pager) (p : Nat) :
    (s.endTransaction.page p).data = (s.page p).data ∧
      (s.endTransaction.page p).dirty = (s.page p).dirty ∧
      ((s.page p).snapshotted = false → (s.endTransaction.page p).snapshotted = false) := by
  unfold endTransaction
  cases s.txnSnapshot with
  | none => exact ⟨rfl, rfl, fun h => h⟩
  | some snap =>
      simp only [page, List.getD_eq_getElem?_getD, List.getElem?_mapIdx]
      cases s.pages[p - 1]? with
      | none => exact ⟨rfl, rfl, fun h => h⟩
      | some pg =>
          simp only [Option.map_some, Option.getD_some]
          split_ifs
          · exact ⟨rfl, rfl, fun _ => rfl⟩
          · exact ⟨rfl, rfl, fun h => h⟩

theorem pages_length_endTransaction (s : Pager) : s.endTransaction.pages.length = s.pages.length := by
  unfold endTransaction
  cases s.txnSnapshot with
  | none => rfl
  | some snap => exact List.length_mapIdx

theorem maybeFailpoint_cases (fp : PagerFailpoint) (s : Pager) :
    maybeFailpoint fp s = .ok () s ∨ ∃ e, maybeFailpoint fp s = .error e s := by
  unfold maybeFailpoint
  rw [get_bind]
  by_cases h : s.failpoint = some fp
  · rw [if_pos h]
    cases s.failAction with
    | Error => exact .inr ⟨_, rfl⟩
    | AbortProcess => exact .inr ⟨_, rfl⟩
  · rw [if_neg h]
    exact .inl rfl

theorem maybeFailpoint_none (fp : PagerFailpoint) {s : Pager} (h : s.failpoint = none) :
    maybeFailpoint fp s = .ok () s := by
  unfold maybeFailpoint
  rw [get_bind, if_neg (by simp [h])]
  rfl

section Steps

variable [Lz4Flex] {base : Nat} {s : Pager} {p q : Nat}

-- The page survives the way to the storage and back. Without a WAL that is a
-- matter of the codec.
def Storable (s : Pager) (p : Nat) : Prop :=
  s.wal.isSome = true ∨ decodeSlot s.useLz4 p (encodeSlot s.useLz4 (s.page p).data) =
    .ok (s.page p).data

theorem stored_of_file {f : DbFile} (hw : s.readWal p = none) (hf : s.file = some f) :
    s.stored p = (f.readPage p).bind fun slot => (decodeSlot s.useLz4 p slot).toOption := by
  rw [stored, hw, hf]
  rfl

theorem readWal_storePage (s : Pager) (p q : Nat) : (s.storePage p).readWal q =
    if q = p ∧ s.wal.isSome = true then some (s.page p).data else s.readWal q := by
  unfold storePage
  cases hw : s.wal with
  | none => simp [readWal, hw]
  | some w => simp [readWal, hw, Wal.readPage_writePage]

theorem stored_storePage_self (hkeep : s.Storable p) (hfile : s.file.isSome = true) :
    (s.storePage p).stored p = some (s.page p).data := by
  have hread := readWal_storePage s p p
  cases hw : s.wal with
  | some w =>
      rw [hw, if_pos ⟨rfl, rfl⟩] at hread
      rw [stored, hread]
  | none =>
      obtain ⟨f, hf⟩ := Option.isSome_iff_exists.mp hfile
      have hnone : s.readWal p = none := by rw [readWal, hw]; rfl
      rw [hw, if_neg (by simp), hnone] at hread
      have hf' : (s.storePage p).file = some (f.writePage p (encodeSlot s.useLz4 (s.page p).data)) := by
        simp only [storePage, hw, hf, Option.map_some]
      have hlz : (s.storePage p).useLz4 = s.useLz4 := by simp only [storePage, hw]
      have hdec : decodeSlot s.useLz4 p (encodeSlot s.useLz4 (s.page p).data) =
          .ok (s.page p).data := by
        rcases hkeep with h | h
        · rw [hw] at h; cases h
        · exact h
      rw [stored_of_file hread hf', readPage_writePage_self, hlz, Option.bind_some, hdec]
      rfl

theorem stored_storePage_of_ne {data : PageData} (hne : q ≠ p) (h : s.stored q = some data) :
    (s.storePage p).stored q = some data := by
  have hread := readWal_storePage s p q
  rw [if_neg (fun h => hne h.1)] at hread
  cases hq : s.readWal q with
  | some d =>
      rw [stored, hread, hq]
      rwa [stored, hq] at h
  | none =>
      rw [hq] at hread
      cases hf : s.file with
      | none => rw [stored, hq, hf] at h; cases h
      | some f =>
          rw [stored_of_file hq hf] at h
          obtain ⟨slot, hslot, hdec⟩ := Option.bind_eq_some_iff.mp h
          cases hw : s.wal with
          | some w =>
              have hf' : (s.storePage p).file = some f := by simp only [storePage, hw, hf]
              have hlz : (s.storePage p).useLz4 = s.useLz4 := by simp only [storePage, hw]
              rw [stored_of_file hread hf', hslot, hlz, Option.bind_some, hdec]
          | none =>
              have hf' : (s.storePage p).file =
                  some (f.writePage p (encodeSlot s.useLz4 (s.page p).data)) := by
                simp only [storePage, hw, hf, Option.map_some]
              have hlz : (s.storePage p).useLz4 = s.useLz4 := by simp only [storePage, hw]
              rw [stored_of_file hread hf', readPage_writePage_of_ne hne hslot, hlz,
                Option.bind_some, hdec]

theorem storePage_rest (base : Nat) (s : Pager) (p : Nat) : ∃ file wal,
    s.storePage p = { s with file := file, wal := wal } ∧ file.isSome = s.file.isSome ∧
      wal.isSome = s.wal.isSome ∧
      ((∀ w, s.wal = some w → Fits base w) → ∀ w, wal = some w → Fits base w) := by
  unfold storePage
  cases hw : s.wal with
  | none =>
      refine ⟨_, none, rfl, ?_, rfl, fun _ w h => (nomatch h)⟩
      exact Option.isSome_map
  | some w =>
      refine ⟨s.file, _, rfl, rfl, rfl, fun h w' hw' => ?_⟩
      obtain rfl := Option.some.inj hw'
      exact ⟨(h w rfl).indexed, (h w rfl).covers⟩

theorem writeDirtyPage_flushed (hs : Coherent 2 base s) (hp : 2 < p)
    (hkeep : (s.page p).dirty = true → s.Storable p) (hfile : 0 < base → s.file.isSome = true) :
    Flushed base s (s.writeDirtyPage p) := by
  unfold writeDirtyPage
  by_cases hlen : s.pages.length < p
  · rw [if_pos hlen]
    exact Flushed.refl hs
  rw [if_neg hlen]
  by_cases hd : (s.page p).dirty = false
  · rw [if_pos hd]
    exact Flushed.refl hs
  rw [if_neg hd]
  have hdirty : (s.page p).dirty = true := by simpa using hd
  obtain ⟨file, wal, hrest, hfile', hwal, hfits⟩ := storePage_rest base s p
  have hstored : ((s.storePage p).setPage p { s.page p with dirty := false }).stored =
      (s.storePage p).stored := rfl
  have hpages : (s.storePage p).pages = s.pages := by rw [hrest]
  refine Flushed.of_stored hs (s.pages.set (p - 1) { s.page p with dirty := false })
    file wal s.dirtyPages ?_ (by simp) hfile' hwal hfits
    (fun _ h => h) ?_ ?_
  · rw [hrest]
    rfl
  · intro q hq _ data hclean hst
    have hne : q ≠ p := by
      rintro rfl
      have hl : s.isLoaded q = true := by
        rw [← Bool.not_eq_false]
        intro hl
        rw [(hs.unloaded q (by omega) hl).1] at hdirty
        cases hdirty
      rw [hclean hl] at hdirty
      cases hdirty
    rw [hstored]
    exact stored_storePage_of_ne hne hst
  · intro q hq
    by_cases hqp : q = p
    · subst hqp
      rw [page_setPage_self _ hq (by rw [hpages]; omega), hstored]
      refine ⟨rfl, fun _ => rfl, .inr ⟨rfl, fun _ hqueue _ => ?_⟩⟩
      have hb := hs.queue q hqueue
      exact stored_storePage_self (hkeep hdirty) (hfile (by omega))
    · have hpage : ((s.storePage p).setPage p { s.page p with dirty := false }).page q = s.page q := by
        rw [page_setPage_of_ne _ (by omega) hq hqp, page, hpages]
        rfl
      rw [hpage]
      exact ⟨rfl, fun _ => rfl, .inl rfl⟩

-- Every page that waits to be written survives the way to the storage and back.
def Durable (s : Pager) : Prop :=
  s.wal.isSome = true ∨ ∀ p, 2 < p → (s.page p).dirty = true →
    decodeSlot s.useLz4 p (encodeSlot s.useLz4 (s.content 2 p)) = .ok (s.content 2 p)

theorem durable_of_raw (h : s.useLz4 = false) : s.Durable :=
  .inr fun p _ _ => by simp [encodeSlot, decodeSlot, h]

theorem le_of_dirty (hs : Coherent 2 base s) (hd : (s.page p).dirty = true) :
    p ≤ s.header.totalPages := by
  by_contra hlt
  rw [page_of_lt (by rw [hs.pagesLength]; omega)] at hd
  cases hd

theorem loaded_of_dirty {lo : Nat} (hs : Coherent lo base s) (hp : 0 < p)
    (hd : (s.page p).dirty = true) : s.isLoaded p = true := by
  rw [← Bool.not_eq_false]
  intro hl
  rw [(hs.unloaded p hp hl).1] at hd
  cases hd

theorem Durable.storable (h : s.Durable) (hs : Coherent 2 base s) (hp : 2 < p)
    (hd : (s.page p).dirty = true) : s.Storable p := by
  rcases h with h | h
  · exact .inl h
  · have hdec := h p hp hd
    rw [content_of_loaded hp (le_of_dirty hs hd) (loaded_of_dirty hs (by omega) hd)] at hdec
    exact .inr hdec

theorem Flushed.useLz4 {s' : Pager} (h : Flushed base s s') : s'.useLz4 = s.useLz4 := by
  obtain ⟨_, _, _, _, rfl⟩ := h.rest
  rfl

theorem Flushed.durable {s' : Pager} (h : Flushed base s s') (hd : s.Durable) : s'.Durable := by
  rcases hd with hw | hall
  · exact .inl (h.wal.trans hw)
  · right
    intro p hp hdirty
    rw [h.content, h.useLz4]
    exact hall p hp (h.dirty p (by omega) hdirty)

theorem writeDirtyPages_flushed (nums : List Nat) (hs : Coherent 2 base s)
    (hpos : ∀ p ∈ nums, 0 < p) (hone : (s.page 1).dirty = false) (htwo : (s.page 2).dirty = false)
    (hdur : s.Durable) (hfile : 0 < base → s.file.isSome = true) :
    Flushed base s (nums.foldl writeDirtyPage s) := by
  induction nums generalizing s with
  | nil => exact Flushed.refl hs
  | cons p nums ih =>
      have hp := hpos p List.mem_cons_self
      have hstep : Flushed base s (s.writeDirtyPage p) := by
        by_cases h2 : 2 < p
        · exact writeDirtyPage_flushed hs h2 (fun hd => hdur.storable hs h2 hd) hfile
        · have hclean : (s.page p).dirty = false := by
            obtain rfl | rfl : p = 1 ∨ p = 2 := by omega
            · exact hone
            · exact htwo
          unfold writeDirtyPage
          rw [if_pos hclean, ite_self]
          exact Flushed.refl hs
      have hflag : ∀ q, 0 < q → (s.page q).dirty = false →
          ((s.writeDirtyPage p).page q).dirty = false := by
        intro q hq hd
        rw [← Bool.not_eq_true]
        intro h
        rw [hstep.dirty q hq h] at hd
        cases hd
      refine hstep.trans (ih hstep.coherent (fun q hq => hpos q (List.mem_cons_of_mem _ hq))
        (hflag 1 (by omega) hone) (hflag 2 (by omega) htwo) (hstep.durable hdur) ?_)
      rw [hstep.file]
      exact hfile

theorem walCommit_flushed (hs : Coherent 2 base s) (hw : ∀ w, s.wal = some w → Fits base w) :
    Flushed base s s.walCommit := by
  have hread : ∀ p, s.walCommit.readWal p = s.readWal p := by
    intro p
    simp only [readWal, walCommit]
    cases h : s.wal with
    | none => rfl
    | some w => exact Wal.readPage_commit (hw w h).indexed _ p
  have hstored : s.walCommit.stored = s.stored := by
    funext p
    rw [stored, stored, hread]
    rfl
  refine Flushed.of_stored hs s.pages s.file _ s.dirtyPages
    rfl rfl rfl Option.isSome_map ?_ (fun _ h => h) (fun p _ _ data _ h => by rw [hstored]; exact h)
    (fun p _ => ⟨rfl, fun _ => rfl, .inl rfl⟩)
  intro _ w' hw'
  obtain ⟨w, h, rfl⟩ := Option.map_eq_some_iff.mp hw'
  refine ⟨Wal.indexed_commit (hw w h).indexed _, ?_⟩
  unfold Wal.commit
  split_ifs
  · exact (hw w h).covers
  · exact .inr hs.base_le

theorem stored_writeFile {f : DbFile} {slot data : PageData} (hf : s.file = some f) (hne : q ≠ p)
    (h : s.stored q = some data) :
    stored { s with file := some (f.writePage p slot) } q = some data := by
  cases hq : s.readWal q with
  | some d =>
      have hq' : readWal { s with file := some (f.writePage p slot) } q = some d := hq
      rw [stored, hq']
      rwa [stored, hq] at h
  | none =>
      have hq' : readWal { s with file := some (f.writePage p slot) } q = none := hq
      rw [stored_of_file hq hf] at h
      obtain ⟨page, hpage, hdec⟩ := Option.bind_eq_some_iff.mp h
      rw [stored_of_file hq' rfl, readPage_writePage_of_ne hne hpage]
      exact hdec

theorem writeV2Superblock_flushed (slot : SuperblockSlot) (sb : SuperblockV2)
    (hs : Coherent 2 base s) : Flushed base s (s.writeV2Superblock slot sb) := by
  obtain ⟨hpos, hle⟩ := pageNum_le slot
  unfold writeV2Superblock
  cases hf : s.file with
  | some f =>
      exact Flushed.of_stored hs s.pages _ s.wal s.dirtyPages
        rfl rfl (by rw [hf]; rfl) rfl (fun h => h) (fun _ h => h)
        (fun p hp _ data _ hst => stored_writeFile hf (by omega) hst)
        (fun p _ => ⟨rfl, fun _ => rfl, .inl rfl⟩)
  | none =>
      refine Flushed.of_stored hs
        (s.pages.set (slot.pageNum - 1)
          { s.page slot.pageNum with data := sb.serialize, dirty := false })
        s.file s.wal s.dirtyPages
        rfl (by simp) rfl rfl (fun h => h) (fun _ h => h) (fun p _ _ data _ h => h) ?_
      intro p hp
      by_cases hps : p = slot.pageNum
      · subst hps
        by_cases hlen : slot.pageNum ≤ s.pages.length
        · rw [page_setPage_self _ hpos hlen]
          exact ⟨rfl, fun h => by omega, .inr ⟨rfl, fun h => by omega⟩⟩
        · have hnew : ∀ pg, (s.setPage slot.pageNum pg).page slot.pageNum = s.page slot.pageNum := by
            intro pg
            rw [page_of_lt (by simp [setPage]; omega), page_of_lt (by omega)]
          rw [hnew]
          exact ⟨rfl, fun _ => rfl, .inl rfl⟩
      · rw [page_setPage_of_ne _ hpos hp hps]
        exact ⟨rfl, fun _ => rfl, .inl rfl⟩

def activate (slot : SuperblockSlot) (sb : SuperblockV2) (s : Pager) : Pager :=
  { s with cow := { s.cow with activeSuperblock := sb, activeSlot := slot } }

structure Writable (base : Nat) (s : Pager) : Prop where
  coherent : Coherent 2 base s
  tracked : ∀ p ∈ s.dirtyPages, 0 < p
  durable : s.Durable
  file : 0 < base → s.file.isSome = true
  fits : ∀ w, s.wal = some w → Fits base w

theorem writeV2DataPages_cases (hs : Writable base s) :
    (∃ s', writeV2DataPages s = .ok () s' ∧ Flushed base s s') ∨
      ∃ e, writeV2DataPages s = .error e s := by
  unfold writeV2DataPages
  by_cases h : (s.page 1).dirty = true ∨ (s.page 2).dirty = true
  · rw [if_pos h]
    exact .inr ⟨_, rfl⟩
  · rw [if_neg h]
    have hdrain : Flushed base s { s with dirtyPages := [] } :=
      Flushed.of_stored hs.coherent s.pages s.file s.wal [] rfl rfl rfl
        rfl (fun h => h) (fun _ h => (nomatch h)) (fun _ _ _ _ _ h => h)
        (fun _ _ => ⟨rfl, fun _ => rfl, .inl rfl⟩)
    have hone : (s.page 1).dirty = false := by simpa using fun h' => h (.inl h')
    have htwo : (s.page 2).dirty = false := by simpa using fun h' => h (.inr h')
    exact .inl ⟨_, rfl, hdrain.trans (writeDirtyPages_flushed _ hdrain.coherent hs.tracked hone htwo
      (hdrain.durable hs.durable) hs.file)⟩

theorem persist_cases (slot : SuperblockSlot) (sb : SuperblockV2) (hs : Writable base s) :
    ∃ s', Flushed base s s' ∧
      ((persist slot sb s = .ok () (s'.activate slot sb) ∧
        ∀ w, s'.wal = some w → w.uncommitted = []) ∨ ∃ e, persist slot sb s = .error e s') := by
  rcases writeV2DataPages_cases hs with ⟨s₁, hdata, h₁⟩ | ⟨e, hdata⟩
  · have h₂ := h₁.trans (walCommit_flushed h₁.coherent (h₁.fits hs.fits))
    have h₃ := h₂.trans (writeV2Superblock_flushed slot sb h₂.coherent)
    unfold persist
    rw [bind_ok hdata, modify_bind]
    rcases maybeFailpoint_cases .AfterDataPagesWrite s₁.walCommit with hf | ⟨e, hf⟩
    · rw [bind_ok hf]
      rcases maybeFailpoint_cases .AfterDataPagesSync s₁.walCommit with hf | ⟨e, hf⟩
      · rw [bind_ok hf, modify_bind]
        rcases maybeFailpoint_cases .AfterSuperblockWrite
          (s₁.walCommit.writeV2Superblock slot sb) with hf | ⟨e, hf⟩
        · rw [bind_ok hf]
          rcases maybeFailpoint_cases .AfterSuperblockSync
            (s₁.walCommit.writeV2Superblock slot sb) with hf | ⟨e, hf⟩
          · rw [bind_ok hf]
            refine ⟨_, h₃, .inl ⟨rfl, fun w hw => uncommitted_walCommit (s := s₁) ?_⟩⟩
            rw [← hw, wal_writeV2Superblock]
          · exact ⟨_, h₃, .inr ⟨e, bind_error hf⟩⟩
        · exact ⟨_, h₃, .inr ⟨e, bind_error hf⟩⟩
      · exact ⟨_, h₂, .inr ⟨e, bind_error hf⟩⟩
    · exact ⟨_, h₂, .inr ⟨e, bind_error hf⟩⟩
  · exact ⟨s, Flushed.refl hs.coherent, .inr ⟨e, bind_error hdata⟩⟩

theorem Flushed.failpoint (h : Flushed base s s') : s'.failpoint = s.failpoint := by
  obtain ⟨_, _, _, _, rfl⟩ := h.rest
  rfl

-- Without a failpoint only the check up front can fail, and it changes nothing.
theorem persist_plain (slot : SuperblockSlot) (sb : SuperblockV2) (hs : Writable base s)
    (hfp : s.failpoint = none) :
    (∃ s', Flushed base s s' ∧ persist slot sb s = .ok () (s'.activate slot sb) ∧
      ∀ w, s'.wal = some w → w.uncommitted = []) ∨ ∃ e, persist slot sb s = .error e s := by
  rcases writeV2DataPages_cases hs with ⟨s₁, hdata, h₁⟩ | ⟨e, hdata⟩
  · have h₂ := h₁.trans (walCommit_flushed h₁.coherent (h₁.fits hs.fits))
    have h₃ := h₂.trans (writeV2Superblock_flushed slot sb h₂.coherent)
    have hf₂ := h₂.failpoint.trans hfp
    have hf₃ := h₃.failpoint.trans hfp
    refine .inl ⟨_, h₃, ?_, fun w hw => uncommitted_walCommit (s := s₁) ?_⟩
    · unfold persist
      rw [bind_ok hdata, modify_bind, bind_ok (maybeFailpoint_none _ hf₂),
        bind_ok (maybeFailpoint_none _ hf₂), modify_bind, bind_ok (maybeFailpoint_none _ hf₃),
        bind_ok (maybeFailpoint_none _ hf₃)]
      rfl
    · rw [← hw, wal_writeV2Superblock]
  · exact .inr ⟨e, bind_error hdata⟩

theorem runCheckpoint_flushed (nanos : Nat) (hs : Coherent 2 base s) (hlz : s.useLz4 = false)
    (hw : ∀ w, s.wal = some w → w.uncommitted = [] ∧ Fits base w) :
    Flushed base s (s.runCheckpoint nanos) := by
  cases hwal : s.wal with
  | none =>
      have heq : s.runCheckpoint nanos = s := by simp only [runCheckpoint, hwal]
      rw [heq]
      exact Flushed.refl hs
  | some w =>
      obtain ⟨hun, hidx, hcov⟩ := hw w hwal
      cases hfile : s.file with
      | none =>
          have heq : s.runCheckpoint nanos = s := by simp only [runCheckpoint, hwal, hfile]
          rw [heq]
          exact Flushed.refl hs
      | some f =>
          rcases Wal.checkpoint_cases w f nanos with hcp | hcp
          · have heq : s.runCheckpoint nanos = s := by
              simp only [runCheckpoint, hwal, hfile, hcp]
              rw [← hwal, ← hfile]
            rw [heq]
            exact Flushed.refl hs
          · have heq : s.runCheckpoint nanos = { s with
                wal := some (w.fullCheckpoint f nanos).1
                file := some (w.fullCheckpoint f nanos).2.1 } := by
              simp only [runCheckpoint, hwal, hfile, hcp]
            have hread : s.readWal = w.readPage := by
              funext p
              rw [readWal, hwal]
              rfl
            rw [heq]
            refine Flushed.of_stored hs s.pages _ _ s.dirtyPages rfl rfl
              (by rw [hfile]; rfl) (by rw [hwal]; rfl) ?_ (fun _ h => h) ?_
              (fun p _ => ⟨rfl, fun _ => rfl, .inl rfl⟩)
            · intro _ w' hw'
              obtain rfl := Option.some.inj hw'
              refine ⟨fun p idx hidx' => ?_, .inl rfl⟩
              simp [Wal.fullCheckpoint] at hidx'
            · intro p hp hb data _ hst
              have hdb : w.readPage p = none → p * PAGE_SIZE ≤ f.len := by
                intro hnone
                rw [stored, hread, hnone, hfile] at hst
                simp only [Option.bind_some] at hst
                obtain ⟨slot, hslot, -⟩ := Option.bind_eq_some_iff.mp hst
                unfold DbFile.readPage at hslot
                split_ifs at hslot with hle
                exact hle
              have hpage := Wal.readPage_fullCheckpoint nanos hidx hun
                (hcov.imp_right (Nat.le_trans hb)) hdb
              have hnone : readWal { s with
                  wal := some (w.fullCheckpoint f nanos).1
                  file := some (w.fullCheckpoint f nanos).2.1 } p = none := by
                simp [readWal, Wal.fullCheckpoint, Wal.readPage]
              rw [stored_of_file hnone rfl, hpage, Option.bind_some]
              simp only [decodeSlot, hlz, Bool.false_eq_true, false_and, if_false,
                Except.toOption]
              rw [← hst, stored, hread, hfile]
              cases hpg : w.readPage p with
              | some d => rfl
              | none =>
                  simp only [Option.getD_none, Option.bind_some, DbFile.readPage,
                    if_pos (hdb hpg), decodeSlot, hlz, Bool.false_eq_true, false_and, if_false,
                    Except.toOption]

theorem endTransaction_coherent {lo : Nat} (hs : Coherent lo base s) :
    Coherent lo base s.endTransaction where
  pagesLength := (pages_length_endTransaction s).trans hs.pagesLength
  loadedLength := hs.loadedLength
  base_le := hs.base_le
  queue := hs.queue
  appended := hs.appended
  unloaded := fun p hp hl => by
    obtain ⟨-, hdirty, hsnap⟩ := page_endTransaction s p
    obtain ⟨hd, hsn⟩ := hs.unloaded p hp hl
    exact ⟨hdirty.trans hd, hsnap hsn⟩
  readable := hs.readable
  clean := fun hmax p hp hlo hl hd => by
    obtain ⟨hdata, hdirty, -⟩ := page_endTransaction s p
    rw [hdata]
    exact hs.clean hmax p hp hlo hl (hdirty.symm.trans hd)

theorem content_endTransaction (lo : Nat) (s : Pager) :
    s.endTransaction.content lo = s.content lo := by
  funext p
  rw [content, content, (page_endTransaction s p).1]
  rfl

def nextSuperblock (s : Pager) (generation : Nat) : SuperblockV2 :=
  { s.cow.activeSuperblock with generation := generation, pageCount := s.header.totalPages }

def finishCommit : PagerM Unit := do
  linkFreedPages
  modify rotateFree
  modify endTransaction

theorem commitTransaction_none (h : s.cow.activeTx = none) : commitTransaction s = .ok () s := by
  unfold commitTransaction
  rw [get_bind, ite_apply_state, if_neg (by simp [inTransaction, h])]
  rfl

theorem commitTransaction_stale {tx : CowTxnState} (h : s.cow.activeTx = some tx)
    (hgen : tx.baseGeneration ≠ s.cow.activeSuperblock.generation) :
    ∃ e, commitTransaction s = .error e s := by
  unfold commitTransaction
  rw [get_bind, ite_apply_state, if_pos (by simp [inTransaction, h])]
  unfold commitTransactionV2
  rw [get_bind, h]
  dsimp only
  rw [if_pos hgen]
  exact ⟨_, rfl⟩

theorem commitTransaction_eq {tx : CowTxnState} (h : s.cow.activeTx = some tx)
    (hgen : tx.baseGeneration = s.cow.activeSuperblock.generation) :
    commitTransaction s = (persist s.cow.activeSlot.inactive
      (s.nextSuperblock tx.targetGeneration) >>= fun _ => finishCommit) s := by
  unfold commitTransaction
  rw [get_bind, ite_apply_state, if_pos (by simp [inTransaction, h])]
  unfold commitTransactionV2
  rw [get_bind, h]
  dsimp only
  rw [if_neg (by simpa using hgen)]
  rfl

theorem flush_active (nanos : Nat) (h : s.cow.activeTx.isSome = true) :
    flush nanos s = writeV2DataPages s := by
  unfold flush
  rw [get_bind, ite_apply_state, if_pos (by exact h)]

def autoCheckpoint (nanos : Nat) (s : Pager) : Pager :=
  match s.wal with
  | some w =>
      if 0 < s.walAutoCheckpoint ∧ s.walAutoCheckpoint ≤ w.committedFrames.length then
        runCheckpoint nanos s
      else s
  | none => s

-- The WAL has reached the number of committed frames that is checkpointed by itself.
def Overfull (s : Pager) : Prop :=
  ∃ w, s.wal = some w ∧ 0 < s.walAutoCheckpoint ∧ s.walAutoCheckpoint ≤ w.committedFrames.length

-- A flush outside a transaction, after which the WAL has that many frames.
def FlushCheckpoints (s : Pager) : Prop :=
  s.cow.activeTx = none ∧ ∃ s₁, persist s.cow.activeSlot.inactive
    (s.nextSuperblock (saturatingSucc s.cow.activeSuperblock.generation)) s = .ok () s₁ ∧ s₁.Overfull

def bumpTxid (s : Pager) : Pager :=
  { s with cow := { s.cow with nextTxid := saturatingSucc s.cow.nextTxid } }

theorem flush_idle (nanos : Nat) (h : s.cow.activeTx = none) :
    flush nanos s = (persist s.cow.activeSlot.inactive
      (s.nextSuperblock (saturatingSucc s.cow.activeSuperblock.generation)) >>= fun _ =>
        modify fun s => (s.rotateFree.bumpTxid).autoCheckpoint nanos) s := by
  unfold flush
  rw [get_bind, ite_apply_state, if_neg (by simp [inTransaction, h])]
  rfl

end Steps

theorem autoCheckpoint_cases (nanos : Nat) (s : Pager) :
    (s.Overfull ∧ s.autoCheckpoint nanos = runCheckpoint nanos s) ∨ s.autoCheckpoint nanos = s := by
  unfold autoCheckpoint
  cases hwal : s.wal with
  | none => exact .inr rfl
  | some w =>
      dsimp only
      split_ifs with hlong
      · exact .inl ⟨⟨w, hwal, hlong⟩, rfl⟩
      · exact .inr rfl

end Pager

end Kkdb
