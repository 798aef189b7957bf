import Kkdb.Lib.State
import Kkdb.Wal.Log

namespace Kkdb

open Lib

namespace Wal

-- `written` is how many of the commit's bytes a crash lets through. Behind every crash
-- the file is opened again.
inductive WalOp where
  | WritePage (page : UInt32) (data : PageData)
  | Commit (dbPageCount : UInt32)
  | Rollback
  | Crash (dbPageCount : UInt32) (written : Nat)

-- A WAL with the frames of the commits whose commit frame got to the file, in order.
structure History where
  wal : Wal
  done : List (List WalFrame)

namespace History

def start (dbUuid : Buf 16) (nanos : Nat) : History where
  wal := create dbUuid nanos
  done := []

def torn (w : Wal) (dbPageCount written : Nat) (bytes : List UInt8) : List UInt8 :=
  let data := (encode w.header.salt1 w.header.salt2 (markCommit w.uncommitted dbPageCount)).take written
  if data = [] then bytes
  else writeAt bytes (WAL_HEADER_SIZE + w.index.totalFrames * WAL_FRAME_SIZE) data

def reopen (w : Wal) (dbPageCount written : Nat) : Wal :=
  match w.file.map fun bytes => Wal.open (torn w dbPageCount written bytes) with
  | some (.ok w') => w'
  | _ => w

-- The page count of the commit whose last byte the call writes.
def completes (op : WalOp) (h : History) : Option Nat :=
  match op with
  | .Commit count => if h.wal.uncommitted = [] then none else some count.toNat
  | .Crash count written =>
      if h.wal.uncommitted = [] ∨ written < h.wal.uncommitted.length * WAL_FRAME_SIZE then none
      else some count.toNat
  | _ => none

def step (op : WalOp) (h : History) : History where
  wal := match op with
    | .WritePage page data => h.wal.writePage page.toNat data
    | .Commit count => h.wal.commit count.toNat
    | .Rollback => h.wal.rollback
    | .Crash count written => reopen h.wal count.toNat written
  done := match completes op h with
    | some count => h.done ++ [markCommit h.wal.uncommitted count]
    | none => h.done

-- A commit is made right behind the last commit frame, and is marked as one.
def Appends (op : WalOp) (h : History) : Prop :=
  ∀ count, completes op h = some count →
    0 < count ∧ h.wal.index.totalFrames = h.wal.committedFrames.length

-- The file holds the finished commits, then whole frames of unfinished ones, then less
-- than a frame.
structure Intact (h : History) (tail : List WalFrame) (rest : List UInt8) : Prop where
  header : h.wal.header.Valid
  file : h.wal.file = some (fileBytes h.wal.header (h.done.flatten ++ tail) rest)
  total : h.wal.index.totalFrames = (h.done.flatten ++ tail).length
  holds : h.wal.Holds h.done.flatten
  fits : ∀ f ∈ h.done.flatten ++ tail, f.Fits
  ended : committedPart h.done.flatten = h.done.flatten
  unended : ∀ f ∈ tail, f.commitSize = 0
  short : rest.length < WAL_FRAME_SIZE
  buffered : ∀ f ∈ h.wal.uncommitted, f.Fits ∧ f.commitSize = 0

theorem intact_start (dbUuid : Buf 16) (nanos : Nat) : (start dbUuid nanos).Intact [] [] where
  header := WalHeader.valid_new dbUuid nanos
  file := by simp [start, create, fileBytes, encode]
  total := rfl
  holds := ⟨rfl, fun _ => rfl, rfl⟩
  fits := fun _ hf => (nomatch hf)
  ended := rfl
  unended := fun _ hf => (nomatch hf)
  short := by decide
  buffered := fun _ hf => (nomatch hf)

variable {h : History} {tail : List WalFrame} {rest : List UInt8}

-- An interrupted commit leaves whole frames and less than one more behind the log.
theorem Intact.torn (hi : h.Intact tail rest) (count written : Nat) :
    ∃ rest', rest'.length < WAL_FRAME_SIZE ∧
      History.torn h.wal count written (fileBytes h.wal.header (h.done.flatten ++ tail) rest) =
        fileBytes h.wal.header (h.done.flatten ++ (tail ++
          (markCommit h.wal.uncommitted count).take (written / WAL_FRAME_SIZE))) rest' := by
  obtain ⟨part, hpart, htake⟩ := take_encode h.wal.header.salt1 h.wal.header.salt2
    (markCommit h.wal.uncommitted count) written
  generalize hnew : (markCommit h.wal.uncommitted count).take (written / WAL_FRAME_SIZE) = new at htake
  generalize hdata : (encode h.wal.header.salt1 h.wal.header.salt2
    (markCommit h.wal.uncommitted count)).take written = data at htake
  have hlen : data.length = new.length * WAL_FRAME_SIZE + part.length := by
    rw [htake, List.length_append, length_encode]
  have hfront : (h.wal.header.serialize ++
      encode h.wal.header.salt1 h.wal.header.salt2 (h.done.flatten ++ tail)).length =
        WAL_HEADER_SIZE + h.wal.index.totalFrames * WAL_FRAME_SIZE := by
    rw [List.length_append, WalHeader.length_serialize, length_encode, hi.total]
  have htorn : History.torn h.wal count written
      (fileBytes h.wal.header (h.done.flatten ++ tail) rest) =
        (h.wal.header.serialize ++
          encode h.wal.header.salt1 h.wal.header.salt2 (h.done.flatten ++ tail)) ++
          (data ++ rest.drop data.length) := by
    unfold History.torn
    dsimp only
    rw [hdata, fileBytes, ← List.append_assoc]
    by_cases hnil : data = []
    · rw [if_pos hnil, hnil]
      rfl
    · rw [if_neg hnil, ← hfront, writeAt_append]
  refine ⟨part ++ rest.drop data.length, ?_, ?_⟩
  · rw [List.length_append, List.length_drop]
    have hshort := hi.short
    rcases Nat.eq_zero_or_pos new.length with hzero | hpos
    · rw [hzero] at hlen
      omega
    · have := Nat.mul_le_mul_right WAL_FRAME_SIZE hpos
      omega
  · rw [htorn]
    generalize rest.drop data.length = back
    rw [htake, fileBytes, ← List.append_assoc h.done.flatten, encode_append _ _ _ new]
    simp only [List.append_assoc]

theorem intact_opened {header : WalHeader} (hv : header.Valid) {done : List (List WalFrame)}
    (hfits : ∀ f ∈ done.flatten ++ tail, f.Fits)
    (hended : committedPart done.flatten = done.flatten) (hunended : ∀ f ∈ tail, f.commitSize = 0)
    (hshort : rest.length < WAL_FRAME_SIZE) :
    ∃ w, Wal.open (fileBytes header (done.flatten ++ tail) rest) = .ok w ∧
      Opened header (done.flatten ++ tail) rest w ∧ Intact ⟨w, done⟩ tail rest := by
  obtain ⟨w, hopen, ho⟩ := open_fileBytes hv hfits (.inl hshort)
  have hholds := ho.holds
  rw [committedPart_append hunended, hended] at hholds
  refine ⟨w, hopen, ho, ⟨?_, ?_, ho.total, hholds, hfits, hended, hunended, hshort, ?_⟩⟩
  · rw [ho.header]
    exact hv
  · rw [ho.header]
    exact ho.file
  · rw [ho.clean]
    exact fun f hf => (nomatch hf)

theorem Intact.untailed
    (hi : h.Intact tail rest) (htotal : h.wal.index.totalFrames = h.wal.committedFrames.length) :
    tail = [] := by
  have hlen := hi.total
  rw [htotal, hi.holds.committed, List.length_append] at hlen
  exact List.eq_nil_of_length_eq_zero (by omega)

variable {written count : Nat}

theorem Intact.finished (hi : h.Intact tail rest) (hcount : count < 2 ^ 32)
    (hwritten : h.wal.uncommitted.length * WAL_FRAME_SIZE ≤ written) :
    ∃ rest', rest'.length < WAL_FRAME_SIZE ∧
      History.torn h.wal count written (fileBytes h.wal.header (h.done.flatten ++ tail) rest) =
        fileBytes h.wal.header (h.done.flatten ++ (tail ++ markCommit h.wal.uncommitted count)) rest' ∧
      ∀ f ∈ h.done.flatten ++ (tail ++ markCommit h.wal.uncommitted count), f.Fits := by
  obtain ⟨rest', hshort, htorn⟩ := hi.torn count written
  have hall : (markCommit h.wal.uncommitted count).take (written / WAL_FRAME_SIZE) =
      markCommit h.wal.uncommitted count := by
    refine List.take_of_length_le ?_
    rw [length_markCommit]
    exact (Nat.le_div_iff_mul_le (by decide)).mpr hwritten
  rw [hall] at htorn
  refine ⟨rest', hshort, htorn, fun f hf => ?_⟩
  rw [← List.append_assoc] at hf
  rcases List.mem_append.mp hf with hold | hnew
  · exact hi.fits f hold
  · exact fits_markCommit (fun f hf => (hi.buffered f hf).1) hcount f hnew

theorem file_commit {w : Wal} (hne : w.uncommitted ≠ []) (count : Nat) : (w.commit count).file =
    w.file.map (History.torn w count (w.uncommitted.length * WAL_FRAME_SIZE)) := by
  have hlen : (encode w.header.salt1 w.header.salt2 (markCommit w.uncommitted count)).length =
      w.uncommitted.length * WAL_FRAME_SIZE := by
    rw [length_encode, length_markCommit]
  have hsome : encode w.header.salt1 w.header.salt2 (markCommit w.uncommitted count) ≠ [] := by
    intro hnil
    rw [hnil, List.length_nil] at hlen
    have hpos := Nat.mul_pos (List.length_pos_iff.mpr hne) (by decide : 0 < WAL_FRAME_SIZE)
    omega
  have htorn : ∀ bytes, History.torn w count (w.uncommitted.length * WAL_FRAME_SIZE) bytes =
      writeAt bytes (WAL_HEADER_SIZE + w.index.totalFrames * WAL_FRAME_SIZE)
        (encode w.header.salt1 w.header.salt2 (markCommit w.uncommitted count)) := by
    intro bytes
    unfold History.torn
    dsimp only
    rw [List.take_of_length_le (Nat.le_of_eq hlen), if_neg hsome]
  rw [funext htorn, Wal.commit, if_neg hne]
  rfl

theorem Intact.commit (hi : ∃ tail rest, h.Intact tail rest) (count : UInt32)
    (hop : Appends (.Commit count) h) : ∃ tail rest, (History.step (.Commit count) h).Intact tail rest := by
  obtain ⟨tail, rest, hi⟩ := hi
  by_cases hne : h.wal.uncommitted = []
  · have hstep : History.step (.Commit count) h = h := by
      simp only [History.step, completes, Wal.commit, hne, if_true]
    rw [hstep]
    exact ⟨tail, rest, hi⟩
  have hcompletes : completes (.Commit count) h = some count.toNat := if_neg hne
  obtain ⟨hpos, htotal⟩ := hop _ hcompletes
  obtain rfl := hi.untailed htotal
  obtain ⟨rest', hshort, htorn, hfits⟩ := hi.finished count.toNat_lt (Nat.le_refl _)
  have hflat : (History.step (.Commit count) h).done.flatten =
      h.done.flatten ++ markCommit h.wal.uncommitted count.toNat := by
    simp [History.step, hcompletes]
  have hheader : (h.wal.commit count.toNat).header = h.wal.header := by
    rw [Wal.commit, if_neg hne]
  rw [List.nil_append] at htorn hfits
  refine ⟨[], rest', ?_, ?_, ?_, ?_, ?_, ?_, fun f hf => (by cases hf), hshort, ?_⟩
  · show (h.wal.commit count.toNat).header.Valid
    rw [hheader]
    exact hi.header
  · show (h.wal.commit count.toNat).file = some (fileBytes (h.wal.commit count.toNat).header _ _)
    rw [hflat, hheader, List.append_nil, ← htorn, file_commit hne, hi.file]
    rfl
  · show (h.wal.commit count.toNat).index.totalFrames = _
    rw [hflat, Wal.commit, if_neg hne]
    simp [hi.holds.committed]
  · rw [hflat]
    exact hi.holds.commit hne count.toNat
  · rw [hflat, List.append_nil]
    exact hfits
  · rw [hflat]
    exact committedPart_markCommit _ hne hpos
  · intro f hf
    rw [show (History.step (.Commit count) h).wal.uncommitted = [] from uncommitted_commit _ _] at hf
    cases hf

theorem reopen_eq {w w' : Wal} {bytes : List UInt8} (hfile : w.file = some bytes)
    (hopen : Wal.open (History.torn w count written bytes) = .ok w') : reopen w count written = w' := by
  rw [reopen, hfile, Option.map_some, hopen]

theorem Intact.cut (hi : h.Intact tail rest) (count : UInt32)
    (hcut : h.wal.uncommitted = [] ∨ written < h.wal.uncommitted.length * WAL_FRAME_SIZE) :
    ∃ rest', (History.step (.Crash count written) h).Intact
        (tail ++ h.wal.uncommitted.take (written / WAL_FRAME_SIZE)) rest' ∧
      Opened h.wal.header (h.done.flatten ++ (tail ++ h.wal.uncommitted.take (written / WAL_FRAME_SIZE)))
        rest' (History.step (.Crash count written) h).wal := by
  obtain ⟨rest', hshort, htorn⟩ := hi.torn count.toNat written
  have hnone : completes (.Crash count written) h = none := if_pos hcut
  have hpart : (markCommit h.wal.uncommitted count.toNat).take (written / WAL_FRAME_SIZE) =
      h.wal.uncommitted.take (written / WAL_FRAME_SIZE) := by
    rcases hcut with hnil | hlt
    · rw [hnil]
      rfl
    · exact take_markCommit ((Nat.div_lt_iff_lt_mul (by decide)).mpr hlt)
  rw [hpart] at htorn
  have hfits : ∀ f ∈ h.done.flatten ++
      (tail ++ h.wal.uncommitted.take (written / WAL_FRAME_SIZE)), f.Fits := by
    intro f hf
    rw [← List.append_assoc] at hf
    rcases List.mem_append.mp hf with hold | hnew
    · exact hi.fits f hold
    · exact (hi.buffered f (List.mem_of_mem_take hnew)).1
  have hunended : ∀ f ∈ tail ++ h.wal.uncommitted.take (written / WAL_FRAME_SIZE),
      f.commitSize = 0 := by
    intro f hf
    rcases List.mem_append.mp hf with hold | hnew
    · exact hi.unended f hold
    · exact (hi.buffered f (List.mem_of_mem_take hnew)).2
  obtain ⟨w, hopen, hopened, hintact⟩ := intact_opened hi.header hfits hi.ended hunended hshort
  rw [← htorn] at hopen
  refine ⟨rest', ?_⟩
  rw [History.step, hnone]
  dsimp only
  rw [reopen_eq hi.file hopen]
  exact ⟨hintact, hopened⟩

theorem Intact.crash (hi : ∃ tail rest, h.Intact tail rest) (count : UInt32)
    (written : Nat) (hop : Appends (.Crash count written) h) :
    ∃ tail rest, (History.step (.Crash count written) h).Intact tail rest := by
  obtain ⟨tail, rest, hi⟩ := hi
  by_cases hcut : h.wal.uncommitted = [] ∨ written < h.wal.uncommitted.length * WAL_FRAME_SIZE
  · obtain ⟨rest', hintact, -⟩ := hi.cut count hcut
    exact ⟨_, rest', hintact⟩
  · have hcompletes : completes (.Crash count written) h = some count.toNat := if_neg hcut
    rw [not_or, Nat.not_lt] at hcut
    obtain ⟨hpos, htotal⟩ := hop _ hcompletes
    obtain rfl := hi.untailed htotal
    obtain ⟨rest', hshort, htorn, hfits⟩ := hi.finished count.toNat_lt hcut.2
    have hflat : (h.done ++ [markCommit h.wal.uncommitted count.toNat]).flatten ++ [] =
        h.done.flatten ++ ([] ++ markCommit h.wal.uncommitted count.toNat) := by simp
    rw [← hflat] at htorn hfits
    have hended : committedPart (h.done ++ [markCommit h.wal.uncommitted count.toNat]).flatten =
        (h.done ++ [markCommit h.wal.uncommitted count.toNat]).flatten := by
      rw [List.append_nil, List.nil_append] at hflat
      rw [hflat]
      exact committedPart_markCommit _ hcut.1 hpos
    obtain ⟨w, hopen, -, hintact⟩ := intact_opened hi.header hfits hended
      (fun f hf => (nomatch hf)) hshort
    rw [← htorn] at hopen
    rw [History.step, hcompletes]
    refine ⟨[], rest', ?_⟩
    dsimp only
    rw [reopen_eq hi.file hopen]
    exact hintact

theorem Intact.write (hi : h.Intact tail rest)
    (page : UInt32) (data : PageData) : (History.step (.WritePage page data) h).Intact tail rest := by
  refine ⟨hi.header, hi.file, hi.total, ⟨hi.holds.committed, hi.holds.pages, hi.holds.count⟩, hi.fits,
    hi.ended, hi.unended, hi.short, fun f hf => ?_⟩
  rcases List.mem_append.mp hf with hold | hnew
  · exact hi.buffered f hold
  · rw [List.mem_singleton.mp hnew]
    exact ⟨⟨page.toNat_lt, Nat.two_pow_pos 32⟩, rfl⟩

theorem Intact.step {op : WalOp} (hi : ∃ tail rest, h.Intact tail rest)
    (hop : Appends op h) : ∃ tail rest, (History.step op h).Intact tail rest := by
  cases op with
  | WritePage page data =>
      obtain ⟨tail, rest, hi⟩ := hi
      exact ⟨tail, rest, hi.write page data⟩
  | Commit count => exact Intact.commit hi count hop
  | Rollback =>
      obtain ⟨tail, rest, hi⟩ := hi
      exact ⟨tail, rest, hi.header, hi.file, hi.total, ⟨hi.holds.committed, hi.holds.pages,
        hi.holds.count⟩, hi.fits, hi.ended, hi.unended, hi.short, fun f hf => (nomatch hf)⟩
  | Crash count written => exact Intact.crash hi count written hop

-- Both the running WAL and the one opened from its file show the finished commits.
structure Recovers (h : History) : Prop where
  running : h.wal.Holds h.done.flatten
  opened : ∃ bytes w, h.wal.file = some bytes ∧ Wal.open bytes = .ok w ∧ w.Holds h.done.flatten ∧
    w.uncommitted = []

theorem Intact.recovers (hi : h.Intact tail rest) : h.Recovers := by
  obtain ⟨w, hopen, ho⟩ := open_fileBytes hi.header hi.fits (.inl hi.short)
  have hholds := ho.holds
  rw [committedPart_append hi.unended, hi.ended] at hholds
  exact ⟨hi.holds, _, w, hi.file, hopen, hholds, ho.clean⟩

theorem Intact.completed (hi : h.Intact tail rest) {op : WalOp} (hcompletes : completes op h = some count) :
    h.wal.uncommitted ≠ [] ∧ ∃ rest', rest'.length < WAL_FRAME_SIZE ∧
      (History.step op h).wal.file = some (fileBytes h.wal.header
        (h.done.flatten ++ (tail ++ markCommit h.wal.uncommitted count)) rest') ∧
      ∀ f ∈ h.done.flatten ++ (tail ++ markCommit h.wal.uncommitted count), f.Fits := by
  cases op with
  | WritePage page data => cases hcompletes
  | Rollback => cases hcompletes
  | Commit count' =>
      unfold completes at hcompletes
      dsimp only at hcompletes
      split_ifs at hcompletes with hne
      obtain rfl := Option.some.inj hcompletes
      obtain ⟨rest', hshort, htorn, hfits⟩ := hi.finished count'.toNat_lt (Nat.le_refl _)
      refine ⟨hne, rest', hshort, ?_, hfits⟩
      show (h.wal.commit count'.toNat).file = _
      rw [← htorn, file_commit hne, hi.file]
      rfl
  | Crash count' written =>
      unfold completes at hcompletes
      dsimp only at hcompletes
      split_ifs at hcompletes with hcut
      obtain rfl := Option.some.inj hcompletes
      rw [not_or, Nat.not_lt] at hcut
      obtain ⟨rest', hshort, htorn, hfits⟩ := hi.finished count'.toNat_lt hcut.2
      obtain ⟨w, hopen, ho⟩ := open_fileBytes hi.header hfits (.inl hshort)
      refine ⟨hcut.1, rest', hshort, ?_, hfits⟩
      rw [← htorn] at hopen
      show (reopen h.wal count'.toNat written).file = _
      rw [reopen_eq hi.file hopen]
      exact ho.file

theorem Intact.breaks
    (hi : h.Intact tail rest) {op : WalOp} (hop : ¬Appends op h) : ¬(History.step op h).Recovers := by
  intro hrec
  simp only [Appends, not_forall] at hop
  obtain ⟨count, hcompletes, hbad⟩ := hop
  obtain ⟨hne, rest', hshort, hfile, hfits⟩ := hi.completed hcompletes
  obtain ⟨bytes, w, hbytes, hopen, hholds, -⟩ := hrec.opened
  obtain ⟨w', hopen', ho⟩ := open_fileBytes hi.header hfits (.inl hshort)
  obtain rfl := Option.some.inj (hfile.symm.trans hbytes)
  obtain rfl := Except.ok.inj (hopen.symm.trans hopen')
  have hframes := ho.holds.committed.symm.trans hholds.committed
  have hflat : (History.step op h).done.flatten =
      h.done.flatten ++ markCommit h.wal.uncommitted count := by
    simp [History.step, hcompletes]
  rw [hflat] at hframes
  have hlen := congrArg List.length hframes
  have hnew : 0 < (markCommit h.wal.uncommitted count).length := by
    rw [length_markCommit]
    exact List.length_pos_iff.mpr hne
  by_cases hpos : 0 < count
  · rw [← List.append_assoc, committedPart_markCommit _ hne hpos] at hlen
    simp only [List.length_append] at hlen
    refine hbad ⟨hpos, ?_⟩
    rw [hi.total, hi.holds.committed, List.length_append]
    omega
  · obtain rfl : count = 0 := by omega
    have hzero : ∀ f ∈ tail ++ markCommit h.wal.uncommitted 0, f.commitSize = 0 := by
      intro f hf
      rcases List.mem_append.mp hf with htail | hmark
      · exact hi.unended f htail
      · rcases mem_markCommit hmark with hmem | ⟨g, hmem, rfl⟩
        · exact (hi.buffered f hmem).2
        · rfl
    rw [committedPart_append hzero, hi.ended, List.length_append] at hlen
    omega

-- Every state of a run shows the finished commits, and only these, exactly when each
-- commit is written right behind the last one.
theorem recovers_iff_appends (dbUuid : Buf 16) (nanos : Nat) (ops : List WalOp) :
    (∀ before after, ops = before ++ after → (run step before (start dbUuid nanos)).Recovers) ↔
      Meets step Appends ops (start dbUuid nanos) := by
  have hintact : ∀ before, Meets step Appends before (start dbUuid nanos) →
      ∃ tail rest, (run step before (start dbUuid nanos)).Intact tail rest := fun before hbefore =>
    run_invariant (fun h => ∃ tail rest, Intact h tail rest) ⟨[], [], intact_start dbUuid nanos⟩
      (fun _ _ => Intact.step) hbefore
  constructor
  · intro h
    refine meets_of_met fun before op after heq hbefore => ?_
    obtain ⟨tail, rest, hi⟩ := hintact before hbefore
    by_contra hbad
    have hafter := h (before ++ [op]) after (by rw [heq, List.append_assoc]; rfl)
    rw [run_append] at hafter
    exact hi.breaks hbad hafter
  · intro h before after heq
    rw [heq] at h
    obtain ⟨tail, rest, hi⟩ := hintact before (meets_append h).1
    exact hi.recovers

-- A commit behind one that was cut off between two frames makes the first of them visible.
theorem Intact.swallows (hi : h.Intact [] rest) (hfirst : WAL_FRAME_SIZE ≤ written)
    (hlast : written < h.wal.uncommitted.length * WAL_FRAME_SIZE) (count count' page : UInt32)
    (data : PageData) :
    ¬(History.step (.Commit count') (History.step (.WritePage page data)
      (History.step (.Crash count written) h))).Recovers := by
  obtain ⟨rest', hcut, -⟩ := hi.cut count (.inr hlast)
  have htail := hcut.write page data
  refine htail.breaks fun happends => ?_
  have hcompletes : completes (.Commit count') (History.step (.WritePage page data)
      (History.step (.Crash count written) h)) = some count'.toNat := if_neg (by
    simp [History.step, writePage])
  have hnil := htail.untailed (happends _ hcompletes).2
  have hpos : 0 < written / WAL_FRAME_SIZE := Nat.div_pos hfirst (by decide)
  have hsome : h.wal.uncommitted ≠ [] := by
    rintro hunc
    rw [hunc] at hlast
    simp at hlast
  have hlen := congrArg List.length hnil
  rw [List.nil_append, List.length_take, List.length_nil] at hlen
  have := List.length_pos_iff.mpr hsome
  omega

def oneByte : PageData := Buf.ofList [1]

def twoPages : History :=
  step (.WritePage 5 Buf.zero) (step (.WritePage 4 oneByte) (start Buf.zero 1))

theorem intact_twoPages : twoPages.Intact [] [] :=
  ((intact_start Buf.zero 1).write 4 oneByte).write 5 Buf.zero

def tornCommit : List WalOp :=
  [.WritePage 4 oneByte, .WritePage 5 Buf.zero, .Crash 5 WAL_FRAME_SIZE, .WritePage 3 Buf.zero,
    .Commit 5]

theorem commit_after_torn : ¬∀ before after, tornCommit = before ++ after →
    (run step before (start Buf.zero 1)).Recovers := by
  intro h
  have hend := h tornCommit [] (List.append_nil _).symm
  have hrun : ∀ s : History, run step tornCommit s = step (.Commit 5) (step (.WritePage 3 Buf.zero)
      (step (.Crash 5 WAL_FRAME_SIZE) (step (.WritePage 5 Buf.zero)
        (step (.WritePage 4 oneByte) s)))) := fun _ => rfl
  rw [hrun] at hend
  have hlen : twoPages.wal.uncommitted.length = 2 := rfl
  exact intact_twoPages.swallows (Nat.le_refl _) (by rw [hlen]; decide) 5 5 3 Buf.zero hend

end History

end Wal

end Kkdb
