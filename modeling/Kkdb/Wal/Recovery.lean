import Kkdb.Wal.Theorems

namespace Kkdb

open Lib

namespace Wal

-- Every entry of the maps of a scan points at a frame that was read, and those of
-- the index at a committed one.
structure Scan.Sound (sc : Scan) : Prop where
  committed_le : sc.index.committedFrames ≤ sc.frames.length
  indexed : ∀ p idx, sc.index.pageMap.lookup p = some idx → idx < sc.index.committedFrames
  pending : ∀ p idx, sc.pending.lookup p = some idx → idx < sc.frames.length

theorem Scan.sound_push {sc : Scan} (h : sc.Sound) (frame : WalFrame) : (sc.push frame).Sound := by
  have hpending : ∀ p idx, (sc.pending.insert frame.pageNum sc.frames.length).lookup p = some idx →
      idx < sc.frames.length + 1 := by
    intro p idx hidx
    by_cases hp : p = frame.pageNum
    · rw [hp, AList.lookup_insert] at hidx
      have := Option.some.inj hidx
      omega
    · rw [AList.lookup_insert_ne hp] at hidx
      have := h.pending p idx hidx
      omega
  unfold push
  dsimp only
  split_ifs with hcommit
  · refine ⟨Nat.le_refl _, fun p idx hidx => ?_, fun p idx hidx => by simp at hidx⟩
    have hfold := lookup_foldl_insert ((sc.pending.insert frame.pageNum sc.frames.length).entries.map
      fun e => (e.1, e.2)) sc.index.pageMap p
    rw [List.foldl_map] at hfold
    simp only [hfold] at hidx
    simp only [List.length_append, List.length_singleton]
    cases hfind : ((sc.pending.insert frame.pageNum sc.frames.length).entries.map
        fun e => (e.1, e.2)).reverse.find? fun e => e.1 == p with
    | none =>
        rw [hfind] at hidx
        have := h.indexed p idx hidx
        have := h.committed_le
        omega
    | some e =>
        rw [hfind] at hidx
        have hmem := List.mem_reverse.mp (List.mem_of_find?_eq_some hfind)
        obtain ⟨entry, hentry, rfl⟩ := List.mem_map.mp hmem
        have hlt := hpending entry.1 entry.2 (AList.mem_lookup_iff.mpr hentry)
        have heq : entry.2 = idx := by simpa using hidx
        omega
  · refine ⟨?_, h.indexed, fun p idx hidx => ?_⟩
    · simp only [List.length_append, List.length_singleton]
      exact Nat.le_succ_of_le h.committed_le
    · simp only [List.length_append, List.length_singleton]
      exact hpending p idx hidx

theorem sound_scanFrames (salt1 salt2 fuel : Nat) (bytes : List UInt8) {sc : Scan} (h : sc.Sound) :
    (scanFrames salt1 salt2 fuel bytes sc).Sound := by
  induction fuel generalizing bytes sc with
  | zero => exact h
  | succ fuel ih =>
      unfold scanFrames
      split_ifs
      · exact h
      · cases WalFrame.deserialize (bytes.take WAL_FRAME_SIZE) salt1 salt2 with
        | error e => exact h
        | ok frame => exact ih _ (Scan.sound_push h frame)

theorem sound_start : ({ index := {}, frames := [], pending := ∅, frameIdx := 0 } : Scan).Sound where
  committed_le := Nat.le_refl _
  indexed := fun p idx h => by simp at h
  pending := fun p idx h => by simp at h

theorem indexed_openOrCreate {existing : Option (List UInt8)} {dbUuid : Buf 16} {nanos : Nat} {w : Wal}
    (h : openOrCreate existing dbUuid nanos = .ok w) : w.Indexed ∧ w.uncommitted = [] := by
  have hcreate : ∀ w', (Except.ok (create dbUuid nanos) : Res Wal) = .ok w' →
      w'.Indexed ∧ w'.uncommitted = [] := by
    intro w' hw
    obtain rfl := Except.ok.inj hw
    exact ⟨indexed_create dbUuid nanos, rfl⟩
  cases existing with
  | none => exact hcreate w h
  | some bytes =>
      simp only [openOrCreate] at h
      split_ifs at h with hlen
      · unfold Wal.open at h
        rw [if_neg (by omega)] at h
        cases hheader : WalHeader.deserialize (bytes.take WAL_HEADER_SIZE) with
        | error e => rw [hheader] at h; cases h
        | ok header =>
            rw [hheader] at h
            obtain rfl := Except.ok.inj h
            have hsound := sound_scanFrames header.salt1 header.salt2 bytes.length
              (bytes.drop WAL_HEADER_SIZE) sound_start
            refine ⟨fun p idx hidx => ?_, rfl⟩
            have hlt := hsound.indexed p idx hidx
            have hle := hsound.committed_le
            simp only [List.length_take]
            omega
      · exact hcreate w h

end Wal

end Kkdb
