import Kkdb.Pager.Open
import Kkdb.Pager.Persist
import Kkdb.Pager.Savepoint
import Kkdb.Wal.Recovery

namespace Kkdb

open Lib

namespace Pager

section Access

variable [Lz4Flex] {lo base : Nat} {s : Pager} {p : Nat}

theorem getPageMut_cases (hs : Coherent lo base s) (hp : 0 < p) (hle : p ≤ s.header.totalPages)
    (hsafe : lo < p → MutSafe s p) :
    ∃ s₁, Reload lo base s s₁ ∧ ((∃ e, getPageMut p s = .error e s₁) ∨
      (s₁.isLoaded p = true ∧ ∃ pg, getPageMut p s = .ok pg ((s₁.snapshotPage p).markDirty p) ∧
        (lo < p → pg.data = s.content lo p))) := by
  by_cases hlo : lo < p
  · obtain ⟨s₁, pg, hget, hdata, hload, hl, -⟩ := getPageMut_spec hs hlo hle (hsafe hlo)
    exact ⟨s₁, hload, .inr ⟨hl, pg, hget, fun _ => hdata⟩⟩
  unfold getPageMut
  rw [if_neg (by omega), if_neg (by rw [hs.loadedLength]; omega)]
  cases hl : s.isLoaded p with
  | true =>
      exact ⟨s.touch p, (touch_sweep hs hp hle).toReload,
        .inr ⟨by rw [isLoaded_touch]; exact hl, _, rfl, fun h => absurd h hlo⟩⟩
  | false =>
      cases hdisk : s.evictLruIfNeeded.loadPageFromDisk p with
      | error e => exact ⟨_, (evictLruIfNeeded_sweep hs).toReload, .inl ⟨e, rfl⟩⟩
      | ok data =>
          obtain ⟨hload, hl', -⟩ := load_reload data hs hp hle hl (fun h => absurd h hlo)
          exact ⟨_, hload, .inr ⟨hl', _, rfl, fun h => absurd h hlo⟩⟩

theorem writePage_mutate (lo : Nat) (f : PageData → PageData) (hs : Coherent lo base s)
    (hsafe : lo < p → MutSafe s p) :
    ∃ s₁, Reload lo base s s₁ ∧ (left (writePage p f) s = s₁ ∧ (lo < p → s.header.totalPages < p) ∨
      (0 < p ∧ p ≤ s.header.totalPages ∧ s₁.isLoaded p = true ∧
        ∃ data, left (writePage p f) s = s₁.mutate p data ∧
          (lo < p → data = f (s.content lo p)))) := by
  by_cases hr : p = 0 ∨ s.header.totalPages < p
  · have hget : getPageMut p s = .error (.Err (.PageOutOfRange p)) s := by
      unfold getPageMut
      rw [if_pos hr]
    refine ⟨s, Reload.refl hs, .inl ⟨left_error (bind_error hget), fun hlo => ?_⟩⟩
    omega
  obtain ⟨s₁, hload, ⟨e, hget⟩ | ⟨hl, pg, hget, hdata⟩⟩ :=
    getPageMut_cases (p := p) hs (by omega) (by omega) hsafe
  · refine ⟨s₁, hload, .inl ⟨left_error (bind_error hget), fun hlo => ?_⟩⟩
    obtain ⟨s₂, pg, hget', -⟩ := getPageMut_spec hs hlo (by omega) (hsafe hlo)
    rw [hget] at hget'
    cases hget'
  · refine ⟨s₁, hload, .inr ⟨by omega, by omega, hl, f pg.data, left_ok (a := ()) ?_, fun hlo => ?_⟩⟩
    · rw [writePage, modifyPage, bind_ok hget]
      rfl
    · rw [hdata hlo]

end Access

section Runs

variable [Lz4Flex] {base : Nat} {s s' : Pager} {p : Nat}

theorem content_mutate_of_le {lo : Nat} (data : PageData) (hs : Coherent lo base s) (hp : 0 < p)
    (hle : p ≤ s.header.totalPages) (hlo : p ≤ lo) :
    (s.mutate p data).content lo = s.content lo := by
  have hlen : p ≤ s.pages.length := by rw [hs.pagesLength]; exact hle
  obtain ⟨pages, dirtyPages, hrest⟩ := mutate_rest data hp hlen
  have hload : ∀ q, (s.mutate p data).isLoaded q = s.isLoaded q := fun q => by rw [hrest]; rfl
  have hheader : (s.mutate p data).header = s.header := by rw [hrest]
  have hstored : (s.mutate p data).stored = s.stored := by rw [hrest]; rfl
  funext q
  rw [content, content, hheader, hload, hstored]
  by_cases hr : lo < q ∧ q ≤ s.header.totalPages
  · rw [if_pos hr, if_pos hr, page_mutate_of_ne data hp hlen (by omega) (by omega)]
  · rw [if_neg hr, if_neg hr]

inductive BufferOp where
  | GetPage (page : Nat)
  | Write (page : Nat) (f : PageData → PageData)
  | BeginTransaction
  | CommitTransaction
  | Flush (nanos : Nat)
  | WalCheckpoint (nanos : Nat)

def BufferOp.step : BufferOp → Pager → Pager
  | .GetPage p => left (getPage p)
  | .Write p f => left (writePage p f)
  | .BeginTransaction => left beginTransaction
  | .CommitTransaction => left commitTransaction
  | .Flush nanos => left (flush nanos)
  | .WalCheckpoint nanos => left (walCheckpoint nanos)

def BufferOp.apply : BufferOp → (Nat → PageData) → Nat → PageData
  | .Write p f, last => Function.update last p (f (last p))
  | _, last => last

-- No write to an unloaded page that the WAL holds; a checkpoint, also the one that a
-- flush makes, only without compression and outside the frames of a transaction.
def BufferOp.Safe : BufferOp → Pager → Prop
  | .Write p _, s => MutSafe s p
  | .Flush _, s => s.FlushCheckpoints → s.useLz4 = false
  | .WalCheckpoint _, s => s.useLz4 = false ∧ ∀ w, s.wal = some w → w.uncommitted = []
  | _, _ => True

-- The buffer over a file and a WAL holds the pages as they were last written.
structure Buffered (base : Nat) (last : Nat → PageData) (s : Pager) : Prop where
  coherent : Coherent 2 base s
  tracked : ∀ p ∈ s.dirtyPages, 0 < p
  file : s.file.isSome = true
  wal : s.wal.isSome = true
  fits : ∀ w, s.wal = some w → Fits base w
  freed : ∀ tx, s.cow.activeTx = some tx → tx.freedRoot = none
  last : ∀ p, 2 < p → p ≤ s.header.totalPages → s.content 2 p = last p

variable {last : Nat → PageData}

theorem Buffered.writable (h : Buffered base last s) : Writable base s :=
  ⟨h.coherent, h.tracked, .inl h.wal, fun _ => h.file, h.fits⟩

theorem Buffered.reload (h : Buffered base last s) (hload : Reload 2 base s s') :
    Buffered base last s' := by
  have hcontent := hload.content
  have hcoh := hload.coherent
  obtain ⟨_, _, _, _, rfl⟩ := hload.rest
  exact ⟨hcoh, h.tracked, h.file, h.wal, h.fits, h.freed,
    fun p hp hle => by rw [hcontent]; exact h.last p hp hle⟩

theorem Buffered.flushed (h : Buffered base last s) (hflush : Flushed base s s') :
    Buffered base last s' := by
  have hheader : s'.header = s.header := by obtain ⟨_, _, _, _, rfl⟩ := hflush.rest; rfl
  have hcow : s'.cow = s.cow := by obtain ⟨_, _, _, _, rfl⟩ := hflush.rest; rfl
  exact ⟨hflush.coherent, fun p hp => h.tracked p (hflush.tracked p hp), hflush.file.trans h.file,
    hflush.wal.trans h.wal, hflush.fits h.fits, by rw [hcow]; exact h.freed,
    fun p hp hle => by rw [hflush.content]; exact h.last p hp (by rwa [hheader] at hle)⟩

theorem Buffered.of_eq (h : Buffered base last s) (hpages : s'.pages = s.pages)
    (hloaded : s'.loaded = s.loaded) (hheader : s'.header = s.header)
    (hqueue : s'.lruQueue = s.lruQueue) (hmax : s'.maxBufferPages = s.maxBufferPages)
    (hfile : s'.file = s.file) (hwal : s'.wal = s.wal) (hlz : s'.useLz4 = s.useLz4)
    (hdirty : s'.dirtyPages = s.dirtyPages)
    (hfreed : ∀ tx, s'.cow.activeTx = some tx → tx.freedRoot = none) :
    Buffered base last s' := by
  have hstored : s'.stored = s.stored := by
    funext p
    rw [stored, stored, readWal, readWal, hfile, hwal, hlz]
  refine ⟨h.coherent.of_eq hpages hloaded hheader hqueue hmax hstored, by rw [hdirty]; exact h.tracked,
    by rw [hfile]; exact h.file, by rw [hwal]; exact h.wal, by rw [hwal]; exact h.fits, hfreed, ?_⟩
  intro p hp hle
  rw [content_of_eq 2 hpages hloaded hheader hstored]
  exact h.last p hp (by rwa [hheader] at hle)

theorem buffered_write (f : PageData → PageData) (h : Buffered base last s) (hsafe : MutSafe s p) :
    Buffered base (Function.update last p (f (last p))) (left (writePage p f) s) := by
  obtain ⟨s₁, hload, ⟨hleft, hrange⟩ | ⟨hp, hle, hl, data, hleft, hdata⟩⟩ :=
    writePage_mutate 2 f h.coherent (fun _ => hsafe)
  · have h₁ := h.reload hload
    rw [hleft]
    refine { h₁ with last := fun q hq hle => ?_ }
    have hqp : q ≠ p := by
      rintro rfl
      rw [hload.header] at hle
      have := hrange hq
      omega
    rw [Function.update_of_ne hqp]
    exact h₁.last q hq hle
  · have h₁ := h.reload hload
    have hle₁ : p ≤ s₁.header.totalPages := by rw [hload.header]; exact hle
    have hlen : p ≤ s₁.pages.length := by rw [h₁.coherent.pagesLength]; exact hle₁
    have heq := mutate_eq data hp hlen
    rw [hleft]
    refine ⟨mutate_coherent data h₁.coherent hp hle₁ hl, ?_, by rw [heq]; exact h₁.file,
      by rw [heq]; exact h₁.wal, by rw [heq]; exact h₁.fits, by rw [heq]; exact h₁.freed, ?_⟩
    · intro q hq
      rw [heq] at hq
      simp only at hq
      split_ifs at hq
      · exact h₁.tracked q hq
      · rcases List.mem_append.mp hq with hq | hq
        · exact h₁.tracked q hq
        · rw [List.mem_singleton.mp hq]; exact hp
    · intro q hq hleq
      have hheader : (s₁.mutate p data).header = s₁.header := by rw [heq]; rfl
      rw [hheader] at hleq
      by_cases h2 : 2 < p
      · rw [content_mutate data h₁.coherent h2 hle₁ hl, hdata h2]
        by_cases hqp : q = p
        · rw [hqp, Function.update_self, Function.update_self, h.last p h2 hle]
        · rw [Function.update_of_ne hqp, Function.update_of_ne hqp]
          exact h₁.last q hq hleq
      · rw [content_mutate_of_le data h₁.coherent hp hle₁ (by omega),
          Function.update_of_ne (by omega)]
        exact h₁.last q hq hleq

theorem buffered_rotateFree (h : Buffered base last s) : Buffered base last s.rotateFree := by
  obtain ⟨c, hcow, htx⟩ := rotateFree_rest s
  rw [hcow]
  exact h.of_eq rfl rfl rfl rfl rfl rfl rfl rfl rfl (by rw [htx]; exact h.freed)

theorem buffered_begin (h : Buffered base last s) :
    Buffered base last (left beginTransaction s) := by
  cases hact : s.cow.activeTx with
  | some tx =>
      obtain ⟨e, hrun⟩ := beginTransaction_active (s := s) (by rw [inTransaction, hact]; rfl)
      rw [left_error hrun]
      exact h
  | none =>
      rw [left_ok (beginTransaction_eq hact)]
      refine h.of_eq rfl rfl rfl rfl rfl rfl rfl rfl rfl fun tx htx => ?_
      obtain rfl := Option.some.inj htx
      rfl

theorem buffered_endTransaction (h : Buffered base last s) :
    Buffered base last s.endTransaction :=
  ⟨endTransaction_coherent h.coherent, h.tracked, h.file, h.wal, h.fits, fun tx htx => (nomatch htx),
    fun p hp hle => by rw [content_endTransaction]; exact h.last p hp hle⟩

theorem linkFreedPages_eq (h : ∀ tx, s.cow.activeTx = some tx → tx.freedRoot = none) :
    linkFreedPages s = .ok () s := by
  have hroot : (s.cow.activeTx.bind (·.freedRoot)) = none := by
    cases htx : s.cow.activeTx with
    | none => rfl
    | some tx => exact h tx htx
  unfold linkFreedPages
  rw [get_bind, hroot]
  rfl

theorem Buffered.activate (h : Buffered base last s) (slot : SuperblockSlot) (sb : SuperblockV2) :
    Buffered base last (s.activate slot sb) :=
  h.of_eq rfl rfl rfl rfl rfl rfl rfl rfl rfl h.freed

theorem buffered_commit (h : Buffered base last s) :
    Buffered base last (left commitTransaction s) := by
  cases hact : s.cow.activeTx with
  | none =>
      rw [left_ok (commitTransaction_none hact)]
      exact h
  | some tx =>
      by_cases hgen : tx.baseGeneration = s.cow.activeSuperblock.generation
      · obtain ⟨s₁, hflush, ⟨hrun, -⟩ | ⟨e, hrun⟩⟩ := persist_cases s.cow.activeSlot.inactive
          (s.nextSuperblock tx.targetGeneration) h.writable
        · have h₁ := (h.flushed hflush).activate s.cow.activeSlot.inactive
            (s.nextSuperblock tx.targetGeneration)
          have hleft : commitTransaction s = .ok () (s₁.activate s.cow.activeSlot.inactive
              (s.nextSuperblock tx.targetGeneration)).rotateFree.endTransaction := by
            rw [commitTransaction_eq hact hgen, bind_ok hrun, finishCommit,
              bind_ok (linkFreedPages_eq h₁.freed), modify_bind]
            rfl
          rw [left_ok hleft]
          exact buffered_endTransaction (buffered_rotateFree h₁)
        · rw [left_error (by rw [commitTransaction_eq hact hgen, bind_error hrun])]
          exact h.flushed hflush
      · obtain ⟨e, hrun⟩ := commitTransaction_stale hact hgen
        rw [left_error hrun]
        exact h

theorem buffered_autoCheckpoint (nanos : Nat) (h : Buffered base last s)
    (hlz : s.Overfull → s.useLz4 = false) (hw : ∀ w, s.wal = some w → w.uncommitted = []) :
    Buffered base last (s.autoCheckpoint nanos) := by
  rcases autoCheckpoint_cases nanos s with ⟨hfull, hrun⟩ | hrun
  · rw [hrun]
    exact h.flushed (runCheckpoint_flushed nanos h.coherent (hlz hfull)
      (fun w hw' => ⟨hw w hw', h.fits w hw'⟩))
  · rw [hrun]
    exact h

theorem buffered_flush (nanos : Nat) (h : Buffered base last s)
    (hlz : s.FlushCheckpoints → s.useLz4 = false) : Buffered base last (left (flush nanos) s) := by
  cases hact : s.cow.activeTx with
  | some tx =>
      rw [show left (flush nanos) s = left writeV2DataPages s by
        rw [left, left, flush_active nanos (by rw [hact]; rfl)]]
      rcases writeV2DataPages_cases h.writable with ⟨s₁, hrun, hflush⟩ | ⟨e, hrun⟩
      · rw [left_ok hrun]
        exact h.flushed hflush
      · rw [left_error hrun]
        exact h
  | none =>
      obtain ⟨s₁, hflush, ⟨hrun, hun⟩ | ⟨e, hrun⟩⟩ := persist_cases s.cow.activeSlot.inactive
        (s.nextSuperblock (saturatingSucc s.cow.activeSuperblock.generation)) h.writable
      · have h₁ := (h.flushed hflush).activate s.cow.activeSlot.inactive
          (s.nextSuperblock (saturatingSucc s.cow.activeSuperblock.generation))
        have h₂ := buffered_rotateFree h₁
        obtain ⟨cow, hcow, -⟩ := rotateFree_rest (s₁.activate s.cow.activeSlot.inactive
          (s.nextSuperblock (saturatingSucc s.cow.activeSuperblock.generation)))
        rw [left_ok (by rw [flush_idle nanos hact, bind_ok hrun]; rfl)]
        refine buffered_autoCheckpoint nanos
          (h₂.of_eq rfl rfl rfl rfl rfl rfl rfl rfl rfl h₂.freed) ?_ ?_
        · rw [hcow]
          intro hfull
          have hraw := hlz ⟨hact, _, hrun, hfull⟩
          obtain ⟨_, _, _, _, rfl⟩ := hflush.rest
          exact hraw
        · rw [hcow]
          exact hun
      · rw [left_error (by rw [flush_idle nanos hact, bind_error hrun])]
        exact h.flushed hflush

theorem buffered_walCheckpoint (nanos : Nat) (h : Buffered base last s) (hlz : s.useLz4 = false)
    (hw : ∀ w, s.wal = some w → w.uncommitted = []) :
    Buffered base last (left (walCheckpoint nanos) s) := by
  have hleft : left (walCheckpoint nanos) s = s.runCheckpoint nanos := by
    unfold left walCheckpoint runCheckpoint
    cases s.wal <;> cases s.file <;> rfl
  rw [hleft]
  exact h.flushed (runCheckpoint_flushed nanos h.coherent hlz fun w hw' => ⟨hw w hw', h.fits w hw'⟩)

theorem buffered_step (op : BufferOp) (h : Buffered base last s) (hop : op.Safe s) :
    Buffered base (op.apply last) (op.step s) := by
  cases op with
  | GetPage p => exact h.reload (getPage_reload h.coherent p)
  | Write p f => exact buffered_write f h hop
  | BeginTransaction => exact buffered_begin h
  | CommitTransaction => exact buffered_commit h
  | Flush nanos => exact buffered_flush nanos h hop
  | WalCheckpoint nanos => exact buffered_walCheckpoint nanos h hop.1 hop.2

def lastWritten (ops : List BufferOp) (last : Nat → PageData) : Nat → PageData :=
  ops.foldl (fun last op => op.apply last) last

theorem buffered_run {ops : List BufferOp} (h : Buffered base last s)
    (hops : Meets BufferOp.step BufferOp.Safe ops s) :
    Buffered base (lastWritten ops last) (run BufferOp.step ops s) := by
  induction ops generalizing s last with
  | nil => exact h
  | cons op ops ih => exact ih (buffered_step op h hops.1) hops.2

def peekMut (s : Pager) (p : Nat) : Option PageData :=
  match getPageMut p s with
  | .ok pg _ => some pg.data
  | .error _ _ => none

theorem peekMut_eq (hs : Coherent 2 base s) (hp : 2 < p) (hle : p ≤ s.header.totalPages)
    (hsafe : MutSafe s p) : s.peekMut p = some (s.content 2 p) := by
  obtain ⟨_, pg, hget, hdata, -⟩ := getPageMut_spec hs hp hle hsafe
  rw [peekMut, hget, ← hdata]

theorem buffered_open {f : DbFile} {s₀ : Pager} {existing : Option (List UInt8)} {nanos max : Nat}
    (hopen : openCowV2 f = .ok s₀) (hwal : enableWal existing nanos (s₀.setMaxBufferPages max) = .ok () s)
    (hcovers : ∀ w, s.wal = some w →
      w.index.dbPageCount = 0 ∨ s.header.totalPages ≤ w.index.dbPageCount)
    (hlast : ∀ p, 2 < p → p ≤ s.header.totalPages → s.peek p = some (last p)) :
    Buffered s.header.totalPages last s := by
  obtain ⟨sb, slot, rfl, -, hlen⟩ := openCowV2_eq hopen
  obtain ⟨w, hs, hindexed, hun⟩ := enableWal_eq rfl rfl hwal
  have htotal : s.header.totalPages = sb.pageCount := by rw [hs]; rfl
  have hcoh : Coherent 2 sb.pageCount s := by
    refine opened_coherent 2 hs fun p hp hle => ?_
    have hbuf := opened_coherent sb.pageCount hs fun q hlt hq => by omega
    rw [stored_of_peek hbuf (by omega) (opened_isLoaded hs p) (by rw [hs]; rfl)
      (by rw [hs]; exact opened_evict f sb slot _ _) (hlast p hp (by rw [htotal]; exact hle))]
    rfl
  rw [htotal]
  refine ⟨hcoh, by rw [hs]; exact fun p hp => (nomatch hp), by rw [hs]; rfl, by rw [hs]; rfl,
    fun w' hw' => ?_, by rw [hs]; exact fun tx htx => (nomatch htx), fun p hp hle => ?_⟩
  · have hcov := hcovers w' hw'
    rw [hs] at hw'
    obtain rfl := Option.some.inj hw'
    exact ⟨hindexed, by rwa [htotal] at hcov⟩
  · have hpeek := peek_eq hcoh hp
    rw [hlast p hp hle, if_pos hle] at hpeek
    exact (Option.some.inj hpeek).symm

-- Readers and writers find the content last written as long as no page is written
-- that the WAL holds and the buffer does not, and no compressed page is checkpointed.
theorem peek_lastWritten {f : DbFile} {s₀ : Pager} {existing : Option (List UInt8)} {nanos max : Nat}
    (ops : List BufferOp) (hopen : openCowV2 f = .ok s₀)
    (hwal : enableWal existing nanos (s₀.setMaxBufferPages max) = .ok () s)
    (hcovers : ∀ w, s.wal = some w →
      w.index.dbPageCount = 0 ∨ s.header.totalPages ≤ w.index.dbPageCount)
    (hlast : ∀ p, 2 < p → p ≤ s.header.totalPages → s.peek p = some (last p))
    (hops : Meets BufferOp.step BufferOp.Safe ops s) (p : Nat) (hp : 2 < p)
    (hle : p ≤ s.header.totalPages) :
    (run BufferOp.step ops s).peek p = some (lastWritten ops last p) ∧
      (MutSafe (run BufferOp.step ops s) p →
        (run BufferOp.step ops s).peekMut p = some (lastWritten ops last p)) := by
  have h := buffered_run (buffered_open hopen hwal hcovers hlast) hops
  have hle' := Nat.le_trans hle h.coherent.base_le
  rw [← h.last p hp hle']
  refine ⟨?_, peekMut_eq h.coherent hp hle'⟩
  rw [peek_eq h.coherent hp, if_pos hle']

end Runs

section Evicted

attribute [local instance] Lz4Flex.incompressible

def walPager : Pager :=
  { fromSuperblock (createdFile Buf.zero) (createdSuperblock Buf.zero).stamp .A with
    wal := some (Wal.create Buf.zero 0)
    maxBufferPages := 1 }

theorem walPager_opened : openCowV2 (createdFile Buf.zero) =
      .ok (fromSuperblock (createdFile Buf.zero) (createdSuperblock Buf.zero).stamp .A) ∧
    enableWal none 0 (setMaxBufferPages 1 (fromSuperblock (createdFile Buf.zero)
      (createdSuperblock Buf.zero).stamp .A)) = .ok () walPager :=
  ⟨createCowV2_eq Buf.zero, rfl⟩

theorem peek_lastWritten_flushed :
    (run BufferOp.step [.Write 3 (setLink 7), .Flush 0] walPager).peek 3 =
        some (lastWritten [.Write 3 (setLink 7), .Flush 0] (createdFile Buf.zero).slot 3) ∧
      (MutSafe (run BufferOp.step [.Write 3 (setLink 7), .Flush 0] walPager) 3 →
        (run BufferOp.step [.Write 3 (setLink 7), .Flush 0] walPager).peekMut 3 =
          some (lastWritten [.Write 3 (setLink 7), .Flush 0] (createdFile Buf.zero).slot 3)) :=
  peek_lastWritten [.Write 3 (setLink 7), .Flush 0] walPager_opened.1 walPager_opened.2
    (fun w hw => by obtain rfl := Option.some.inj hw; exact .inl rfl)
    (fun p hp hle => by
      obtain rfl : p = 3 := by
        have hle' : p ≤ 3 := hle
        omega
      rfl)
    ⟨.inr rfl, fun _ => rfl, trivial⟩ 3 (by decide) (by decide)

-- The page is written and committed to the WAL, then reads of other pages evict
-- it. A writer gets the version in the database file.
theorem peekMut_misses_wal :
    ((run BufferOp.step [.Write 3 (setLink 7), .Flush 0, .GetPage 1, .GetPage 2]
        walPager).peekMut 3).map (·.u32 0) = some 13 ∧
      (lastWritten [.Write 3 (setLink 7), .Flush 0, .GetPage 1, .GetPage 2]
        (createdFile Buf.zero).slot 3).u32 0 = 7 := by
  decide

end Evicted

end Pager

end Kkdb
