import Kkdb.Binlog.Record
import Kkdb.Raft.LogStore

namespace Kkdb.Binlog

open Lib
open Raft (Fits leNat_length)

variable [Crc32fast]

theorem length_frame (payload : List UInt8) : (frame payload).length = 8 + payload.length := by
  simp [frame]
  omega

theorem nextFrame_frame {payload : List UInt8} (h : Fits payload) (rest : List UInt8) :
    nextFrame (frame payload ++ rest) = some (payload, rest) := by
  have hcrc : leNat (leBytes 4 (Crc32fast.hash payload).toNat) = (Crc32fast.hash payload).toNat :=
    leNat_leBytes_of_lt (Crc32fast.hash payload).toNat_lt
  have hsize : ¬(frame payload ++ rest).length < 8 := by
    rw [List.length_append, length_frame]
    omega
  have hlen : (frame payload ++ rest).take 4 = leBytes 4 payload.length := by simp [frame]
  have hsum : ((frame payload ++ rest).drop 4).take 4 = leBytes 4 (Crc32fast.hash payload).toNat := by simp [frame]
  have hdata : (frame payload ++ rest).drop 8 = payload ++ rest := by
    rw [← List.drop_drop (i := 4) (j := 4)]
    simp [frame]
  unfold nextFrame
  simp only [if_neg hsize, hlen, hsum, hdata, leNat_length h, hcrc]
  simp

theorem framing : Framing nextFrame frame Fits where
  read_write := fun _ rest h => nextFrame_frame h rest
  write_pos := fun payload => by
    rw [length_frame]
    omega

-- A frame is found exactly where one was written.
theorem nextFrame_eq_some {rest payload rest' : List UInt8} :
    nextFrame rest = some (payload, rest') ↔ rest = frame payload ++ rest' ∧ Fits payload := by
  constructor
  · intro h
    unfold nextFrame at h
    by_cases hsize : rest.length < 8
    · rw [if_pos hsize] at h
      cases h
    · simp only [if_neg hsize, List.length_drop] at h
      by_cases hdata : rest.length - 8 < leNat (rest.take 4)
      · rw [if_pos hdata] at h
        cases h
      · rw [if_neg hdata] at h
        by_cases hcrc : (Crc32fast.hash ((rest.drop 8).take (leNat (rest.take 4)))).toNat ≠
            leNat ((rest.drop 4).take 4)
        · rw [if_pos hcrc] at h
          cases h
        · rw [if_neg hcrc] at h
          rw [ne_eq, not_not] at hcrc
          cases h
          have hlen : ((rest.drop 8).take (leNat (rest.take 4))).length = leNat (rest.take 4) := by
            rw [List.length_take, List.length_drop]
            omega
          have hhead := leBytes_leNat (rest.take 4)
          have hsum := leBytes_leNat ((rest.drop 4).take 4)
          have hbound := leNat_lt (rest.take 4)
          rw [List.length_take, Nat.min_eq_left (by omega)] at hhead hbound
          rw [List.length_take, List.length_drop, Nat.min_eq_left (by omega)] at hsum
          refine ⟨?_, ?_⟩
          · rw [frame, hlen, hcrc, hhead, hsum, List.append_assoc, List.append_assoc, List.take_append_drop,
              ← List.drop_drop (i := 4) (j := 4), List.take_append_drop, List.take_append_drop]
          · rw [Fits, hlen]
            exact hbound
  · rintro ⟨rfl, h⟩
    exact nextFrame_frame h rest'

section Scans

def framesFrom : Nat → List LogRecord → List (Nat × List UInt8)
  | _, [] => []
  | pos, record :: records =>
      let next := pos + 8 + record.serialize.length
      (next, frame record.serialize) :: framesFrom next records

def binlog (records : List LogRecord) : List UInt8 := records.flatMap fun record => frame record.serialize

theorem length_binlog_cons (record : LogRecord) (records : List LogRecord) :
    (binlog (record :: records)).length = 8 + record.serialize.length + (binlog records).length := by
  rw [binlog, List.flatMap_cons, List.length_append, length_frame, binlog]

theorem flatMap_framesFrom (pos : Nat) (records : List LogRecord) :
    (framesFrom pos records).flatMap Prod.snd = binlog records := by
  induction records generalizing pos with
  | nil => rfl
  | cons record records ih => simp [framesFrom, ih, binlog]

theorem scanLoop_stop {rest : List UInt8} (h : nextFrame rest = none) (fuel pos : Nat) :
    scanLoop fuel pos rest = [] := by
  cases fuel with
  | zero => rfl
  | succ fuel => simp [scanLoop, h]

theorem scanLoop_records {records : List LogRecord} (h : ∀ record ∈ records, Fits record.serialize)
    (rest : List UInt8) {fuel : Nat} (hfuel : records.length ≤ fuel) (pos : Nat) :
    scanLoop fuel pos (binlog records ++ rest) =
      framesFrom pos records ++ scanLoop (fuel - records.length) (pos + (binlog records).length) rest := by
  induction records generalizing fuel pos with
  | nil => simp [binlog, framesFrom]
  | cons record records ih =>
      cases fuel with
      | zero => simp at hfuel
      | succ fuel =>
          rw [List.length_cons, Nat.add_le_add_iff_right] at hfuel
          have hnext := nextFrame_frame (h record (by simp)) (binlog records ++ rest)
          have hih := ih (fun r hr => h r (by simp [hr])) hfuel (pos + 8 + record.serialize.length)
          have hbytes : binlog (record :: records) ++ rest = frame record.serialize ++
              (binlog records ++ rest) := by
            simp [binlog]
          have htake : (frame record.serialize ++ (binlog records ++ rest)).take (8 + record.serialize.length) =
              frame record.serialize := by
            rw [← length_frame, List.take_left]
          rw [hbytes, scanLoop, hnext]
          simp only [framesFrom, hih, htake, length_binlog_cons, List.cons_append, List.length_cons]
          congr 3
          · omega
          · omega

theorem length_le_binlog (records : List LogRecord) : records.length ≤ (binlog records).length := by
  induction records with
  | nil => simp
  | cons record records ih =>
      rw [length_binlog_cons, List.length_cons]
      omega

theorem scanFrames_records (before : List LogRecord) {after : List LogRecord}
    (h : ∀ record ∈ after, Fits record.serialize) {rest : List UInt8} (hrest : nextFrame rest = none) :
    scanFrames (binlog before ++ binlog after ++ rest) (binlog before).length =
      framesFrom (binlog before).length after := by
  have hle := length_le_binlog after
  rw [scanFrames, List.append_assoc, List.drop_left, scanLoop_records h rest, scanLoop_stop hrest,
    List.append_nil]
  simp only [List.length_append]
  omega

theorem framesFrom_append (pos : Nat) (records more : List LogRecord) :
    framesFrom pos (records ++ more) = framesFrom pos records ++ framesFrom
      (pos + (binlog records).length) more := by
  induction records generalizing pos with
  | nil => simp [framesFrom, binlog]
  | cons record records ih =>
      simp only [List.cons_append, framesFrom, ih, length_binlog_cons]
      congr 3
      omega

theorem drop_framesFrom (pos n : Nat) (records : List LogRecord) :
    (framesFrom pos records).drop n =
      framesFrom (pos + (binlog (records.take n)).length) (records.drop n) := by
  induction n generalizing pos records with
  | zero => simp [binlog]
  | succ n ih =>
      cases records with
      | nil => simp [framesFrom]
      | cons record records =>
          simp only [framesFrom, List.drop_succ_cons, List.take_succ_cons, ih, length_binlog_cons]
          congr 1
          omega

theorem scanLoop_cut {records : List LogRecord} (h : ∀ record ∈ records, Fits record.serialize)
    (fuel pos : Nat) {rest : List UInt8} (hrest : rest <+: binlog records) :
    scanLoop fuel pos rest <+: framesFrom pos records := by
  induction records generalizing fuel pos rest with
  | nil =>
      have hnil : rest = [] := List.prefix_nil.mp hrest
      rw [hnil, scanLoop_stop rfl]
      exact List.nil_prefix
  | cons record records ih =>
      cases fuel with
      | zero => exact List.nil_prefix
      | succ fuel =>
          cases hnext : nextFrame rest with
          | none =>
              rw [scanLoop_stop hnext]
              exact List.nil_prefix
          | some found =>
              obtain ⟨payload, rest'⟩ := found
              obtain ⟨rfl, hfits⟩ := nextFrame_eq_some.mp hnext
              obtain ⟨tail, htail⟩ := hrest
              have hwhole := nextFrame_frame (h record (by simp)) (binlog records)
              have hbytes : binlog (record :: records) = frame record.serialize ++ binlog records := by
                simp [binlog]
              rw [← hbytes, ← htail, List.append_assoc, nextFrame_frame hfits] at hwhole
              obtain ⟨rfl, hrecords⟩ := Prod.mk.inj (Option.some.inj hwhole)
              have hih := ih (fun r hr => h r (by simp [hr])) fuel (pos + 8 + record.serialize.length)
                ⟨tail, hrecords⟩
              rw [scanLoop, hnext]
              simp only [framesFrom, ← length_frame, List.take_left]
              exact (List.prefix_append_right_inj [_]).mpr hih

theorem scanLoop_prefix (fuel pos : Nat) (rest : List UInt8) :
    (scanLoop fuel pos rest).flatMap Prod.snd <+: rest := by
  induction fuel generalizing pos rest with
  | zero => simp [scanLoop]
  | succ fuel ih =>
      cases hnext : nextFrame rest with
      | none => simp [scanLoop, hnext]
      | some found =>
          obtain ⟨payload, rest'⟩ := found
          obtain ⟨rfl, -⟩ := nextFrame_eq_some.mp hnext
          rw [scanLoop, hnext]
          simp only [List.flatMap_cons, ← length_frame, List.take_left]
          exact (List.prefix_append_right_inj _).mpr (ih _ _)

theorem scanLoop_length_lt (fuel pos : Nat) (rest : List UInt8) :
    ∀ found ∈ scanLoop fuel pos rest, found.2.length < 8 + 4294967296 := by
  induction fuel generalizing pos rest with
  | zero => simp [scanLoop]
  | succ fuel ih =>
      cases hnext : nextFrame rest with
      | none => simp [scanLoop, hnext]
      | some found =>
          obtain ⟨payload, rest'⟩ := found
          obtain ⟨-, hfits⟩ := nextFrame_eq_some.mp hnext
          rw [scanLoop, hnext]
          intro found hfound
          rcases List.mem_cons.mp hfound with rfl | hmem
          · rw [Fits] at hfits
            simp only [List.length_take]
            omega
          · exact ih _ _ _ hmem

theorem fits_of_scanLoop {fuel pos start : Nat} {rest : List UInt8} {records : List LogRecord}
    (h : scanLoop fuel pos rest = framesFrom start records) :
    (∀ record ∈ records, Fits record.serialize) ∧ binlog records <+: rest := by
  have hprefix := scanLoop_prefix fuel pos rest
  have hlen := scanLoop_length_lt fuel pos rest
  rw [h, flatMap_framesFrom] at hprefix
  rw [h] at hlen
  refine ⟨?_, hprefix⟩
  clear h hprefix
  induction records generalizing start with
  | nil => simp
  | cons record records ih =>
      simp only [framesFrom, List.forall_mem_cons, length_frame] at hlen
      rw [List.forall_mem_cons]
      exact ⟨by rw [Fits]; omega, ih hlen.2⟩

end Scans

end Kkdb.Binlog
