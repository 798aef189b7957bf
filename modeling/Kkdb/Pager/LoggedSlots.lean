import Kkdb.Pager.Compression
import Kkdb.Pager.Held
import Kkdb.Pager.Persist
import Kkdb.Wal.Buffered

namespace Kkdb

open Lib Wal

-- The storage of a pager with a WAL and compressed pages: the log with its finished
-- commits, the database file, and each page as it was last committed.
structure LoggedFile where
  history : History
  db : DbFile
  committed : Nat → Option PageData

inductive LoggedOp where
  | WritePage (page : UInt32) (data : PageData)
  | Commit (dbPageCount : UInt32)
  | Rollback
  | WriteSuperblock (slot : SuperblockSlot) (sb : SuperblockV2)
  | Checkpoint (nanos : Nat)
  | Reopen

namespace LoggedFile

def start (dbUuid : Buf 16) (nanos : Nat) (db : DbFile) : LoggedFile where
  history := History.start dbUuid nanos
  db := db
  committed := fun _ => none

-- A commit takes the buffered pages, and pages beyond its page count are pages no more.
def commitPages (s : LoggedFile) (dbPageCount : Nat) (p : Nat) : Option PageData :=
  if s.history.wal.uncommitted = [] then s.committed p
  else if p ≤ dbPageCount then ((newest s.history.wal.uncommitted p).map (·.data)).or (s.committed p)
  else none

def step (op : LoggedOp) (s : LoggedFile) : LoggedFile :=
  match op with
  | .WritePage page data => { s with history := History.step (.WritePage page data) s.history }
  | .Commit count =>
      { s with history := History.step (.Commit count) s.history, committed := s.commitPages count.toNat }
  | .Rollback => { s with history := History.step .Rollback s.history }
  | .WriteSuperblock slot sb => { s with db := s.db.writePage slot.pageNum sb.serialize }
  | .Checkpoint nanos =>
      let r := s.history.wal.checkpoint s.db nanos
      { s with history := { wal := r.1, done := [] }, db := r.2.1 }
  | .Reopen => { s with history := History.step (.Crash 1 0) s.history }

section Load

variable [Lz4Flex]

def load (s : LoggedFile) (p : Nat) : Res PageData :=
  match s.history.wal.readPage p with
  | some data => .ok data
  | none =>
      match s.db.readPage p with
      | none => .error (corrupt ("short read for page " ++ toString p))
      | some slot => Pager.decodeSlot true p slot

-- A page without buffered writes is loaded as it was last committed.
def Loads (s : LoggedFile) : Prop :=
  ∀ p data, 2 < p → newest s.history.wal.uncommitted p = none → s.committed p = some data →
    s.load p = .ok data

-- The raw pages that a checkpoint writes are slots that hold these very pages.
def Decodes (op : LoggedOp) (s : LoggedFile) : Prop :=
  match op with
  | .Checkpoint _ => ∀ p data, 2 < p → s.committed p = some data →
      (s.history.wal.index.pageMap.lookup p).isSome → Pager.decompressFromDisk data = .ok data
  | _ => True

end Load

-- The log is whole, a page with a frame was last committed as in its newest frame, and
-- the others stand in their slots.
structure Kept [Lz4Flex] (s : LoggedFile) : Prop where
  intact : ∃ rest, s.history.Intact [] rest
  readers : s.history.wal.activeSnapshots = []
  logged : ∀ p data f, s.committed p = some data → newest s.history.done.flatten p = some f →
    f.data = data
  stored : ∀ p data, 2 < p → s.committed p = some data → newest s.history.done.flatten p = none →
    ∃ slot, s.db.readPage p = some slot ∧ Pager.decodeSlot true p slot = .ok data
  counted : ∀ p data, s.committed p = some data → s.history.done.flatten ≠ [] →
    p ≤ lastCount s.history.done.flatten

section Storage

theorem activeSnapshots_open {bytes : List UInt8} {w : Wal} (h : Wal.open bytes = .ok w) :
    w.activeSnapshots = [] := by
  unfold Wal.open at h
  split_ifs at h
  split at h
  · cases h
  · obtain rfl := Except.ok.inj h
    rfl

variable [Lz4Flex] {s : LoggedFile} {op : LoggedOp}

theorem kept_start (dbUuid : Buf 16) (nanos : Nat) (db : DbFile) : (start dbUuid nanos db).Kept where
  intact := ⟨[], History.intact_start dbUuid nanos⟩
  readers := rfl
  logged := fun _ _ _ h => (nomatch h)
  stored := fun _ _ _ h => (nomatch h)
  counted := fun _ _ h => (nomatch h)

theorem Kept.loads (h : s.Kept) : s.Loads := by
  obtain ⟨rest, hi⟩ := h.intact
  intro p data hp hclean hdata
  have hread : s.history.wal.readPage p = (newest s.history.done.flatten p).map (·.data) := by
    rw [readPage_eq, hclean, Option.map_none, Option.none_or, hi.holds.pages, hi.holds.committed,
      ← Buffering.newestIdx_bind]
    cases newestIdx s.history.done.flatten p <;> rfl
  rw [load, hread]
  cases hnew : newest s.history.done.flatten p with
  | some f => exact congrArg Except.ok (h.logged p data f hdata hnew)
  | none =>
      obtain ⟨slot, hslot, hdecode⟩ := h.stored p data hp hdata hnew
      rw [Option.map_none, hslot]
      exact hdecode

theorem Kept.of_log (h : s.Kept) {wal : Wal} {rest : List UInt8}
    (hi : History.Intact ⟨wal, s.history.done⟩ [] rest) (hreaders : wal.activeSnapshots = []) :
    Kept { s with history := ⟨wal, s.history.done⟩ } :=
  ⟨⟨rest, hi⟩, hreaders, h.logged, h.stored, h.counted⟩

theorem Kept.reopen (h : s.Kept) : (step .Reopen s).Kept := by
  obtain ⟨rest, hi⟩ := h.intact
  have hcut : s.history.wal.uncommitted = [] ∨ 0 < s.history.wal.uncommitted.length * WAL_FRAME_SIZE := by
    rcases List.eq_nil_or_concat s.history.wal.uncommitted with hnil | ⟨_, _, hconcat⟩
    · exact .inl hnil
    · right
      rw [hconcat, List.concat_eq_append, List.length_append]
      exact Nat.mul_pos (Nat.succ_pos _) (by decide)
  obtain ⟨rest', hcutted, -⟩ := hi.cut 1 hcut
  have hdone : History.step (.Crash 1 0) s.history =
      ⟨History.reopen s.history.wal 1 0, s.history.done⟩ := by
    rw [History.step, History.completes, if_pos hcut]
    rfl
  have hreaders : (History.reopen s.history.wal 1 0).activeSnapshots = [] := by
    unfold History.reopen
    split
    · rename_i w hopen
      obtain ⟨bytes, _, hw⟩ := Option.map_eq_some_iff.mp hopen
      exact activeSnapshots_open hw
    · exact h.readers
  rw [Nat.zero_div, List.take_zero, List.append_nil, hdone] at hcutted
  rw [step, hdone]
  exact h.of_log hcutted hreaders

theorem Kept.commit (h : s.Kept) {count : UInt32} (hpos : 0 < count.toNat) : (step (.Commit count) s).Kept := by
  obtain ⟨rest, hi⟩ := h.intact
  have htotal : s.history.wal.index.totalFrames = s.history.wal.committedFrames.length := by
    rw [hi.total, hi.holds.committed, List.append_nil]
  obtain ⟨tail, rest', hnext⟩ := History.Intact.commit ⟨[], rest, hi⟩ count fun n hn => by
    refine ⟨?_, htotal⟩
    rw [History.completes] at hn
    split_ifs at hn
    exact Option.some.inj hn ▸ hpos
  by_cases hnil : s.history.wal.uncommitted = []
  · have hstep : step (.Commit count) s = s := by
      have hsame : History.step (.Commit count) s.history = s.history := by
        simp only [History.step, History.completes, Wal.commit, hnil, if_true]
      have hpages : s.commitPages count.toNat = s.committed := funext fun p => if_pos hnil
      rw [step, hsame, hpages]
    rw [hstep]
    exact h
  have hcompletes : History.completes (.Commit count) s.history = some count.toNat := if_neg hnil
  have hflat : (History.step (.Commit count) s.history).done.flatten =
      s.history.done.flatten ++ markCommit s.history.wal.uncommitted count.toNat := by
    simp [History.step, hcompletes]
  obtain rfl := hnext.untailed (by
    show (s.history.wal.commit count.toNat).index.totalFrames =
      (s.history.wal.commit count.toNat).committedFrames.length
    rw [Wal.commit, if_neg hnil]
    simp)
  have hmark := fun p => newest_markCommit s.history.wal.uncommitted count.toNat p
  have hold : ∀ p data, s.commitPages count.toNat p = some data → p ≤ count.toNat ∧
      ((newest s.history.wal.uncommitted p).map (·.data)).or (s.committed p) = some data := by
    intro p data hdata
    rw [commitPages, if_neg hnil] at hdata
    split_ifs at hdata with hle
    exact ⟨hle, hdata⟩
  refine ⟨⟨rest', hnext⟩, ?_, fun p data f hdata hf => ?_, fun p data hp hdata hf => ?_,
    fun p data hdata _ => ?_⟩
  · show (s.history.wal.commit count.toNat).activeSnapshots = []
    rw [Wal.commit, if_neg hnil]
    exact h.readers
  · have hnew := (hold p data hdata).2
    change newest (History.step (.Commit count) s.history).done.flatten p = some f at hf
    rw [hflat, Buffering.newest_append] at hf
    rw [← hmark] at hnew
    cases hfound : newest (markCommit s.history.wal.uncommitted count.toNat) p with
    | some g =>
        rw [hfound] at hf hnew
        rw [← Option.some.inj hf]
        exact Option.some.inj hnew
    | none =>
        rw [hfound] at hf hnew
        exact h.logged p data f hnew hf
  · have hnew := (hold p data hdata).2
    change newest (History.step (.Commit count) s.history).done.flatten p = none at hf
    rw [hflat, Buffering.newest_append, Option.or_eq_none_iff] at hf
    rw [← hmark, hf.1] at hnew
    exact h.stored p data hp hnew hf.2
  · show p ≤ lastCount (History.step (.Commit count) s.history).done.flatten
    rw [hflat, lastCount_markCommit hnil]
    exact (hold p data hdata).1

theorem Kept.writeSuperblock (h : s.Kept) (slot : SuperblockSlot) (sb : SuperblockV2) :
    (step (.WriteSuperblock slot sb) s).Kept := by
  refine ⟨h.intact, h.readers, h.logged, fun p data hp hdata hf => ?_, h.counted⟩
  obtain ⟨old, hold, hdecode⟩ := h.stored p data hp hdata hf
  have hne : p ≠ slot.pageNum := Nat.ne_of_gt ((Pager.pageNum_le slot).2.trans_lt hp)
  exact ⟨old, Pager.readPage_writePage_of_ne hne hold, hdecode⟩

theorem Kept.checkpoint_eq (h : s.Kept) (nanos : Nat) :
    s.history.wal.checkpoint s.db nanos = s.history.wal.fullCheckpoint s.db nanos :=
  checkpoint_unblocked (fun hblocked => hblocked.2 h.readers) s.db nanos

theorem Kept.slot_checkpoint (h : s.Kept) (nanos : Nat) {p : Nat} {data : PageData} (hp : 2 < p)
    (hdata : s.committed p = some data) :
    ∃ slot, (s.history.wal.fullCheckpoint s.db nanos).2.1.readPage p = some slot ∧
      ((s.history.wal.index.pageMap.lookup p).isSome → slot = data) ∧
      (s.history.wal.index.pageMap.lookup p = none → Pager.decodeSlot true p slot = .ok data) := by
  obtain ⟨rest, hi⟩ := h.intact
  have hholds : s.history.wal.rollback.Holds s.history.done.flatten :=
    ⟨hi.holds.committed, hi.holds.pages, hi.holds.count⟩
  have hread := Buffering.readPage_newest hholds rfl p
  have hcount : s.history.wal.index.dbPageCount = 0 ∨ p ≤ s.history.wal.index.dbPageCount := by
    rw [hi.holds.count]
    by_cases hnil : s.history.done.flatten = []
    · rw [hnil]
      exact .inl rfl
    · exact .inr (h.counted p data hdata hnil)
  have hidx : s.history.wal.index.pageMap.lookup p = none ↔ newest s.history.done.flatten p = none := by
    rw [hi.holds.pages, ← Buffering.newestIdx_bind]
    cases hnewest : newestIdx s.history.done.flatten p with
    | none => exact iff_of_true rfl rfl
    | some idx =>
        have hlt := Buffering.indexed_of_holds hi.holds p idx ((hi.holds.pages p).trans hnewest)
        rw [hi.holds.committed] at hlt
        rw [Option.bind_some, List.getElem?_eq_getElem hlt]
        exact iff_of_false (Option.some_ne_none _) (Option.some_ne_none _)
  have hslot := readPage_fullCheckpoint (w := s.history.wal.rollback) nanos
    (Buffering.indexed_of_holds hholds) rfl hcount fun hnone => by
      rw [hread, Option.map_eq_none_iff] at hnone
      obtain ⟨slot, hslot, _⟩ := h.stored p data hp hdata hnone
      unfold DbFile.readPage at hslot
      split_ifs at hslot with hle
      exact hle
  rw [hread] at hslot
  refine ⟨_, hslot, fun hsome => ?_, fun hnone => ?_⟩
  · cases hnew : newest s.history.done.flatten p with
    | none =>
        rw [hidx.mpr hnew] at hsome
        cases hsome
    | some f => exact h.logged p data f hdata hnew
  · obtain ⟨slot, hold, hdecode⟩ := h.stored p data hp hdata (hidx.mp hnone)
    unfold DbFile.readPage at hold
    split_ifs at hold
    rw [hidx.mp hnone, Option.map_none, Option.getD_none, Option.some.inj hold]
    exact hdecode

theorem Kept.checkpoint (h : s.Kept) {nanos : Nat} (hdecodes : Decodes (.Checkpoint nanos) s) :
    (step (.Checkpoint nanos) s).Kept := by
  obtain ⟨rest, hi⟩ := h.intact
  rw [step, h.checkpoint_eq]
  refine ⟨⟨[], Buffering.intact_fullCheckpoint hi s.db nanos⟩, h.readers, fun _ _ _ _ hf => (nomatch hf),
    fun p data hp hdata _ => ?_, fun _ _ _ hne => absurd rfl hne⟩
  obtain ⟨slot, hslot, hsome, hnone⟩ := h.slot_checkpoint nanos hp hdata
  refine ⟨slot, hslot, ?_⟩
  cases hidx : s.history.wal.index.pageMap.lookup p with
  | none => exact hnone hidx
  | some idx =>
      have hlogged : (s.history.wal.index.pageMap.lookup p).isSome := by rw [hidx]; rfl
      rw [hsome hlogged, Pager.decodeSlot, if_pos ⟨rfl, hp⟩]
      exact hdecodes p data hp hdata hlogged

theorem Kept.decodes_of_loads {nanos : Nat} (h : s.Kept) (hloads : (step (.Checkpoint nanos) s).Loads) :
    Decodes (.Checkpoint nanos) s := by
  intro p data hp hdata hlogged
  obtain ⟨slot, hslot, hsome, _⟩ := h.slot_checkpoint nanos hp hdata
  rw [step, h.checkpoint_eq] at hloads
  have hload := hloads p data hp rfl hdata
  have hempty : (s.history.wal.fullCheckpoint s.db nanos).1.readPage p = none := rfl
  rw [load, hempty] at hload
  dsimp only at hload
  rw [hslot, hsome hlogged] at hload
  dsimp only at hload
  rwa [Pager.decodeSlot, if_pos ⟨rfl, hp⟩] at hload

-- Commits carry the page count of the database.
def Counted (op : LoggedOp) : Prop := ∀ count, op = .Commit count → 0 < count

theorem Kept.step (h : s.Kept) (hcounted : Counted op) (hdecodes : Decodes op s) :
    (LoggedFile.step op s).Kept := by
  obtain ⟨rest, hi⟩ := h.intact
  cases op with
  | WritePage page data => exact h.of_log (hi.write page data) h.readers
  | Commit count => exact h.commit (hcounted count rfl)
  | Rollback =>
      refine h.of_log ⟨hi.header, hi.file, hi.total, ?_, hi.fits, hi.ended, hi.unended, hi.short, ?_⟩
        h.readers
      · exact ⟨hi.holds.committed, hi.holds.pages, hi.holds.count⟩
      · exact fun _ hf => (nomatch hf)
  | WriteSuperblock slot sb => exact h.writeSuperblock slot sb
  | Checkpoint nanos => exact h.checkpoint hdecodes
  | Reopen => exact h.reopen

theorem kept_run {dbUuid : Buf 16} {nanos : Nat} {db : DbFile} {ops : List LoggedOp}
    (hcounted : ∀ op ∈ ops, Counted op)
    (hdecodes : Meets LoggedFile.step Decodes ops (start dbUuid nanos db)) :
    (run LoggedFile.step ops (start dbUuid nanos db)).Kept := by
  have hstart := kept_start dbUuid nanos db
  generalize start dbUuid nanos db = s at hstart hdecodes
  induction ops generalizing s with
  | nil => exact hstart
  | cons op ops ih =>
      have hnext := hstart.step (hcounted op List.mem_cons_self) hdecodes.1
      exact ih (fun op' hop' => hcounted op' (List.mem_cons_of_mem _ hop')) _ hnext hdecodes.2

-- Committed pages are loaded all through a run exactly when its checkpoints write no
-- other raw pages than those that are their own slots.
theorem loads_iff (dbUuid : Buf 16) (nanos : Nat) (db : DbFile) (ops : List LoggedOp)
    (hcounted : ∀ op ∈ ops, Counted op) :
    (∀ before after, ops = before ++ after → (run LoggedFile.step before (start dbUuid nanos db)).Loads) ↔
      Meets LoggedFile.step Decodes ops (start dbUuid nanos db) := by
  constructor
  · intro hloads
    refine meets_of_met fun before op after heq hmet => ?_
    have hkept := kept_run (fun op' hop' => hcounted op' (by rw [heq]; exact List.mem_append_left _ hop')) hmet
    cases op with
    | Checkpoint nanos' =>
        refine hkept.decodes_of_loads ?_
        have hnext := hloads (before ++ [.Checkpoint nanos']) after (by rw [heq, List.append_assoc]; rfl)
        rwa [run_append] at hnext
    | _ => trivial
  · rintro hmeets before after rfl
    refine (kept_run (fun op' hop' => hcounted op' (List.mem_append_left _ hop')) ?_).loads
    exact (meets_append hmeets).1

end Storage

section Example

attribute [local instance] Lz4Flex.literal

-- The checkpoint comes before the commit, and the page is read from the log.
theorem loads_after_reopen :
    (run step [.Checkpoint 7, .WritePage 4 History.oneByte, .Commit 4, .Reopen]
      (start Buf.zero 1 (History.emptyFile 4))).Loads := by
  refine (loads_iff Buf.zero 1 (History.emptyFile 4) _ ?_).mpr ?_ _ [] (List.append_nil _).symm
  · simp only [List.mem_cons, List.not_mem_nil, or_false]
    rintro op (rfl | rfl | rfl | rfl) count hop <;> cases hop
    decide
  · exact ⟨fun _ _ _ hdata => (nomatch hdata), trivial, trivial, trivial, trivial⟩

def onePage : LoggedFile :=
  run step [.WritePage 4 History.oneByte, .Commit 4] (start Buf.zero 1 (History.emptyFile 4))

theorem kept_onePage : onePage.Kept := by
  refine kept_run ?_ ⟨trivial, trivial, trivial⟩
  simp only [List.mem_cons, List.not_mem_nil, or_false]
  rintro op (rfl | rfl) count hop <;> cases hop
  decide

theorem decompressFromDisk_oneByte : (Pager.decompressFromDisk History.oneByte).toOption = none := by
  decide

-- The slot holds the raw page, and the load takes its first two bytes for a length.
theorem checkpointed_not_loads : Lz4Flex.Inverts ∧ ¬(step (.Checkpoint 7) onePage).Loads := by
  refine ⟨Lz4Flex.literal_inverts, fun hloads => ?_⟩
  have hdecode := kept_onePage.decodes_of_loads hloads 4 History.oneByte (by decide) rfl rfl
  have hfails := decompressFromDisk_oneByte
  rw [hdecode] at hfails
  cases hfails

end Example

end LoggedFile

end Kkdb
