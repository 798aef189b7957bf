import Kkdb.Pager

namespace Kkdb

open Lib

-- `decompress_size_prepended` undoes `compress_into` behind the size of the page.
def Lz4Flex.Inverts [Lz4Flex] : Prop :=
  ∀ (data : PageData) (block : List UInt8), Lz4Flex.compressInto data.toList = some block →
    Lz4Flex.decompressSizePrepended (leBytes 4 PAGE_SIZE ++ block) = some data.toList

-- One LZ4 sequence of literals: the token with its literal length of 15 and more, the
-- bytes that carry the rest of the length, and the literals. This is the block of a
-- page in which no four bytes occur twice.
def Lz4Flex.literalBlock (bs : List UInt8) : List UInt8 :=
  let more := bs.length - 15
  0xF0 :: (List.replicate (more / 255) 255 ++ UInt8.ofNat (more % 255) :: bs)

@[reducible] def Lz4Flex.literal : Lz4Flex where
  compressInto := fun bs => some (Lz4Flex.literalBlock bs)
  decompressSizePrepended := fun bs =>
    some (bs.drop (4 + (1 + ((leNat (bs.take 4) - 15) / 255 + 1))))

theorem Lz4Flex.drop_literalBlock (bs : List UInt8) :
    (Lz4Flex.literalBlock bs).drop (1 + ((bs.length - 15) / 255 + 1)) = bs := by
  rw [Lz4Flex.literalBlock, Nat.add_comm 1, List.drop_succ_cons, ← List.drop_drop,
    List.drop_left' (List.length_replicate ..)]
  rfl

theorem Lz4Flex.literal_inverts : @Lz4Flex.Inverts Lz4Flex.literal := by
  intro data block hblock
  have hp : PAGE_SIZE = 4096 := rfl
  obtain rfl : Lz4Flex.literalBlock data.toList = block := Option.some.inj hblock
  have hsize : leNat ((leBytes 4 PAGE_SIZE ++ Lz4Flex.literalBlock data.toList).take 4) =
      data.toList.length := by
    rw [List.take_left' (by simp), leNat_leBytes_of_lt (by omega), Buf.length_toList]
  refine congrArg some ?_
  rw [hsize, ← List.drop_drop, List.drop_left' (by simp), Lz4Flex.drop_literalBlock]

namespace Pager

def rawSlot (data : PageData) : PageData :=
  Buf.ofList (leBytes 2 0xFFFF ++ data.slice 0 (PAGE_SIZE - 2))

theorem u16_ofList (n : Nat) (hn : n < 65536) (rest : List UInt8) :
    (Buf.ofList (leBytes 2 n ++ rest) : PageData).u16 0 = n := by
  have hp : PAGE_SIZE = 4096 := rfl
  rw [Buf.u16, Buf.slice_ofList (by omega) (by simp), List.drop_zero, List.take_left' (by simp),
    leNat_leBytes_of_lt (by omega)]

theorem slice_behind (n len : Nat) {rest : List UInt8} (hrest : rest.length = len)
    (hlen : len ≤ PAGE_SIZE - 2) : (Buf.ofList (leBytes 2 n ++ rest) : PageData).slice 2 len = rest := by
  have hp : PAGE_SIZE = 4096 := rfl
  rw [Buf.slice_ofList (by omega) (by simp [hrest]), List.drop_left' (by simp),
    List.take_of_length_le (by omega)]

theorem ofList_slice_eq_iff (data : PageData) :
    (Buf.ofList (data.slice 0 (PAGE_SIZE - 2)) : PageData) = data ↔
      data.slice (PAGE_SIZE - 2) 2 = [0, 0] := by
  have hlow : ∀ i, i < PAGE_SIZE - 2 →
      (Buf.ofList (data.slice 0 (PAGE_SIZE - 2)) : PageData).byte i = data.byte i := by
    intro i hi
    rw [Buf.byte_ofList _ (by omega), Buf.getD_slice _ _ _ _ hi, Nat.zero_add]
  have hhigh : ∀ i, PAGE_SIZE - 2 ≤ i → i < PAGE_SIZE →
      (Buf.ofList (data.slice 0 (PAGE_SIZE - 2)) : PageData).byte i = 0 := by
    intro i hi hlt
    rw [Buf.byte_ofList _ hlt, List.getD_eq_default _ _ (by simpa using hi)]
  have hlast : data.slice (PAGE_SIZE - 2) 2 =
      [data.byte (PAGE_SIZE - 2), data.byte (PAGE_SIZE - 1)] := rfl
  rw [hlast]
  constructor
  · intro h
    have h₀ := hhigh (PAGE_SIZE - 2) (Nat.le_refl _) (by decide)
    have h₁ := hhigh (PAGE_SIZE - 1) (by decide) (by decide)
    rw [h] at h₀ h₁
    rw [h₀, h₁]
  · intro h
    simp only [List.cons.injEq, and_true] at h
    refine Buf.ext_byte fun i hi => ?_
    by_cases hlt : i < PAGE_SIZE - 2
    · exact hlow i hlt
    · rw [hhigh i (by omega) hi]
      have hcase : i = PAGE_SIZE - 2 ∨ i = PAGE_SIZE - 1 := by omega
      rcases hcase with rfl | rfl
      · exact h.1.symm
      · exact h.2.symm

section Codec

variable [Lz4Flex]

-- The compressed page and its headers leave room in the slot.
def Compresses (data : PageData) : Prop :=
  ∃ block, Lz4Flex.compressInto data.toList = some block ∧ 4 + block.length < PAGE_SIZE - 2

theorem compressForDisk_raw {data : PageData} (h : ¬Compresses data) :
    compressForDisk data = rawSlot data := by
  unfold compressForDisk
  cases hb : Lz4Flex.compressInto data.toList with
  | none => rfl
  | some block => exact if_neg (fun hlt => h ⟨block, hb, hlt⟩)

theorem decompressFromDisk_compressed (hlz : Lz4Flex.Inverts) {data : PageData} (h : Compresses data) :
    decompressFromDisk (compressForDisk data) = .ok data := by
  obtain ⟨block, hb, hlt⟩ := h
  have hp : PAGE_SIZE = 4096 := rfl
  have hslot : compressForDisk data =
      Buf.ofList (leBytes 2 (4 + block.length) ++ (leBytes 4 PAGE_SIZE ++ block)) := by
    unfold compressForDisk
    rw [hb]
    exact if_pos hlt
  have hlen : (leBytes 4 PAGE_SIZE ++ block).length = 4 + block.length := by simp
  have hu : (Buf.ofList (leBytes 2 (4 + block.length) ++ (leBytes 4 PAGE_SIZE ++ block)) :
      PageData).u16 0 = 4 + block.length := u16_ofList _ (by omega) _
  have hslice := slice_behind (4 + block.length) (4 + block.length) hlen (by omega)
  have hmin : min (2 + (4 + block.length)) PAGE_SIZE - 2 = 4 + block.length := by omega
  unfold decompressFromDisk
  rw [hslot]
  simp only [hu]
  rw [if_neg (by omega), hmin, hslice, hlz data block hb]
  simp only [Buf.length_toList, if_true, Buf.ofList_toList]

theorem decompressFromDisk_raw (data : PageData) :
    decompressFromDisk (rawSlot data) = .ok (Buf.ofList (data.slice 0 (PAGE_SIZE - 2))) := by
  have hu : (rawSlot data).u16 0 = 0xFFFF := u16_ofList _ (by omega) _
  have hslice := slice_behind 0xFFFF (PAGE_SIZE - 2) (Buf.length_slice data 0 (PAGE_SIZE - 2))
    (Nat.le_refl _)
  unfold decompressFromDisk
  simp only [hu, if_true]
  rw [rawSlot, hslice]

-- A page survives the way to the disk exactly when it compresses or its last two bytes
-- are zero.
theorem decompressFromDisk_compressForDisk_iff (hlz : Lz4Flex.Inverts) (data : PageData) :
    decompressFromDisk (compressForDisk data) = .ok data ↔
      Compresses data ∨ data.slice (PAGE_SIZE - 2) 2 = [0, 0] := by
  by_cases hc : Compresses data
  · exact ⟨fun _ => .inl hc, fun _ => decompressFromDisk_compressed hlz hc⟩
  · rw [compressForDisk_raw hc, decompressFromDisk_raw, Except.ok.injEq, ofList_slice_eq_iff]
    exact ⟨.inr, fun h => h.resolve_left hc⟩

end Codec

section Literal

attribute [local instance] Lz4Flex.literal

theorem not_compresses_literal (data : PageData) : ¬Compresses data := by
  have hp : PAGE_SIZE = 4096 := rfl
  rintro ⟨block, hblock, hlt⟩
  obtain rfl : Lz4Flex.literalBlock data.toList = block := Option.some.inj hblock
  have hlen : PAGE_SIZE ≤ (Lz4Flex.literalBlock data.toList).length := by
    rw [Lz4Flex.literalBlock]
    simp only [List.length_cons, List.length_append, Buf.length_toList]
    omega
  omega

-- The page numbers its byte pairs, so that no four bytes occur twice in it.
def ramp : PageData := fun i => UInt8.ofNat (if i.val % 2 = 0 then i.val / 2 % 256 else i.val / 512)

theorem decompressFromDisk_compressForDisk_ramp :
    Lz4Flex.Inverts ∧ decompressFromDisk (compressForDisk ramp) ≠ .ok ramp := by
  refine ⟨Lz4Flex.literal_inverts, ?_⟩
  rw [compressForDisk_raw (not_compresses_literal _), decompressFromDisk_raw]
  intro h
  have hlast := (ofList_slice_eq_iff ramp).mp (Except.ok.inj h)
  exact absurd hlast (by decide)

-- The same page with free space at its end.
theorem decompressFromDisk_compressForDisk_padded :
    decompressFromDisk (compressForDisk (ramp.write (PAGE_SIZE - 2) [0, 0])) =
      .ok (ramp.write (PAGE_SIZE - 2) [0, 0]) := by
  refine (decompressFromDisk_compressForDisk_iff Lz4Flex.literal_inverts _).mpr (.inr ?_)
  exact Buf.slice_write_same ramp (PAGE_SIZE - 2) [0, 0] (by decide)

end Literal

end Pager

end Kkdb
