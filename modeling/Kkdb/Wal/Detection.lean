import Kkdb.Lib.Framed
import Kkdb.Wal.Codec
import Mathlib.Data.Nat.Bitwise
import Mathlib.Data.Nat.ModEq

namespace Kkdb

open Lib

section Checksum

def mix (h : Nat) (b : UInt8) : Nat := (h ^^^ b.toNat) * 16777619 % 4294967296

theorem checksum32_eq (bytes : List UInt8) : checksum32 bytes = bytes.foldl mix 0x811C9DC5 := rfl

theorem xor_byte_lt {h : Nat} (hh : h < 4294967296) (b : UInt8) : h ^^^ b.toNat < 4294967296 :=
  Nat.xor_lt_two_pow (n := 32) hh (Nat.lt_trans b.toNat_lt (by decide))

-- The prime is odd, so a product with it on 32 bits tells its other factor.
theorem mul_prime_inj {x y : Nat} (hx : x < 4294967296) (hy : y < 4294967296)
    (h : x * 16777619 % 4294967296 = y * 16777619 % 4294967296) : x = y := by
  have hmod : x ≡ y [MOD 4294967296] := Nat.ModEq.cancel_right_of_coprime (by decide) h
  rwa [Nat.ModEq, Nat.mod_eq_of_lt hx, Nat.mod_eq_of_lt hy] at hmod

theorem mix_lt (h : Nat) (b : UInt8) : mix h b < 4294967296 := Nat.mod_lt _ (by decide)

theorem mix_state (b : UInt8) : Set.InjOn (fun h => mix h b) {h | h < 4294967296} := by
  intro h hh h' hh' heq
  have hxor := mul_prime_inj (xor_byte_lt hh b) (xor_byte_lt hh' b) heq
  exact Nat.xor_left_injective hxor

theorem mix_read {h : Nat} (hh : h < 4294967296) : Function.Injective (mix h) := by
  intro b b' heq
  have hxor := mul_prime_inj (xor_byte_lt hh b) (xor_byte_lt hh b') heq
  exact UInt8.toNat_inj.mp (Nat.xor_right_injective hxor)

variable {bytes : List UInt8} {i : Nat} {b : UInt8}

theorem checksum32_set_ne (hi : i < bytes.length) (hb : b ≠ bytes.getD i 0) :
    checksum32 (bytes.set i b) ≠ checksum32 bytes := by
  rw [List.getD_eq_getElem _ _ hi] at hb
  rw [checksum32_eq, checksum32_eq]
  exact foldl_set_ne (S := {h | h < 4294967296}) (fun h _ b => mix_lt h b) mix_state
    (fun h hh => mix_read hh) hi hb
    (by decide)

theorem leNat_set_ne (hi : i < bytes.length) (hb : b ≠ bytes.getD i 0) : leNat (bytes.set i b) ≠
    leNat bytes := by
  intro h
  have hset := leBytes_leNat (bytes.set i b)
  rw [h, List.length_set, leBytes_leNat] at hset
  rw [hset, List.getD_eq_getElem _ _ (by rw [List.length_set]; exact hi), List.getElem_set_self] at hb
  exact hb rfl

theorem leNat_checksum (bytes : List UInt8) : leNat (leBytes 4 (checksum32 bytes)) = checksum32 bytes :=
  leNat_leBytes_of_lt (SuperblockV2.checksum32_lt bytes)

end Checksum

theorem slice_write_byte {n : Nat} (buf : Buf n) {i off len : Nat} (b : UInt8) (hlo : off ≤ i) (hn : i < n) :
    (buf.write i [b]).slice off len = (buf.slice off len).set (i - off) b := by
  apply List.ext_getElem
  · rw [List.length_set, Buf.length_slice, Buf.length_slice]
  · intro k hk _
    rw [Buf.length_slice] at hk
    rw [Buf.getElem_slice, Buf.byte_write _ (by rw [List.length_singleton]; omega), List.getElem_set,
      Buf.getElem_slice, List.length_singleton]
    by_cases hik : i = off + k
    · rw [if_pos (by omega), if_pos (by omega), hik, Nat.sub_self]
      rfl
    · rw [if_neg (by omega), if_neg (by omega)]

namespace SuperblockV2

structure Fits (sb : SuperblockV2) : Prop where
  formatVersion : sb.formatVersion < 2 ^ 16
  pageSize : sb.pageSize < 2 ^ 16
  flags : sb.flags < 2 ^ 32
  generation : sb.generation ≤ U64_MAX
  schemaRoot : sb.schemaRoot < 2 ^ 32
  freeRoot : sb.freeRoot < 2 ^ 32
  pendingFreeRoot : sb.pendingFreeRoot < 2 ^ 32
  pageCount : sb.pageCount < 2 ^ 32

theorem deserialize_checked {page : PageData} {sb : SuperblockV2} (h : deserialize page = .ok sb) :
    sb.formatVersion = 2 ∧ u16ToPageSize sb.pageSize = PAGE_SIZE ∧
      page.u32 64 = checksum32 (page.slice 0 64) := by
  unfold deserialize at h
  split_ifs at h with hmagic hversion hsize hsum
  obtain rfl := Except.ok.inj h
  exact ⟨Decidable.not_not.mp hversion, Decidable.not_not.mp hsize, Decidable.not_not.mp hsum⟩

theorem deserialize_fails {page : PageData} (h : ∀ sb, deserialize page ≠ .ok sb) :
    ∃ e, deserialize page = .error (.Err e) := by
  unfold deserialize at h ⊢
  split_ifs at h ⊢
  · exact ⟨_, rfl⟩
  · exact ⟨_, rfl⟩
  · exact ⟨_, rfl⟩
  · exact ⟨_, rfl⟩
  · exact absurd rfl (h _)

theorem u16ToPageSize_inj {v : Nat} (h : u16ToPageSize v = PAGE_SIZE) : v = pageSizeToU16 := by
  unfold u16ToPageSize at h
  split_ifs at h with hzero
  · exact absurd h (by decide)
  · exact h

theorem stamp_formatVersion (sb : SuperblockV2) : sb.stamp.formatVersion = sb.formatVersion := by
  rw [stamp]

theorem stamp_pageSize (sb : SuperblockV2) : sb.stamp.pageSize = sb.pageSize := by
  rw [stamp]

-- A superblock comes back exactly when it has the version and the page size of the build.
theorem deserialize_serialize_iff {sb : SuperblockV2} (h : sb.Fits) :
    deserialize sb.serialize = .ok sb.stamp ↔ sb.formatVersion = 2 ∧ u16ToPageSize sb.pageSize = PAGE_SIZE := by
  constructor
  · intro hok
    obtain ⟨hversion, hsize, -⟩ := deserialize_checked hok
    rw [stamp_formatVersion] at hversion
    rw [stamp_pageSize] at hsize
    exact ⟨hversion, hsize⟩
  · rintro ⟨hversion, hsize⟩
    exact deserialize_serialize sb ⟨hversion, u16ToPageSize_inj hsize, h.flags, h.generation, h.schemaRoot,
      h.freeRoot, h.pendingFreeRoot, h.pageCount⟩

theorem slice_body (sb : SuperblockV2) : sb.serialize.slice 0 64 = sb.body := by
  rw [slice_serialize sb (by omega), List.drop_zero, List.take_of_length_le (by rw [length_body])]

theorem deserialize_changed (sb : SuperblockV2) {i : Nat} (hi : i < COW_SUPERBLOCK_SIZE) {b : UInt8}
    (hb : b ≠ sb.serialize.byte i) : ∃ e, deserialize (sb.serialize.write i [b]) = .error (.Err e) := by
  refine deserialize_fails fun sb' hok => ?_
  have hpage : PAGE_SIZE = 4096 := rfl
  have hsize : COW_SUPERBLOCK_SIZE = 68 := rfl
  obtain ⟨-, -, hsum⟩ := deserialize_checked hok
  rw [Buf.u32] at hsum
  by_cases hbody : i < 64
  · rw [← Nat.zero_add i, ← Buf.getD_slice _ 0 64 i hbody, slice_body] at hb
    rw [Buf.slice_write_of_disjoint _ (.inr (by rw [List.length_singleton]; omega)), slice_checksum, leNat_checksum,
      slice_write_byte _ b (Nat.zero_le i) (by omega), Nat.sub_zero, slice_body] at hsum
    exact checksum32_set_ne (by rw [length_body]; exact hbody) hb hsum.symm
  · obtain ⟨k, rfl⟩ : ∃ k, i = 64 + k := ⟨i - 64, by omega⟩
    rw [← Buf.getD_slice _ 64 4 k (by omega), slice_checksum] at hb
    rw [slice_write_byte _ b (Nat.le_add_right 64 k) (by omega), Nat.add_sub_cancel_left, slice_checksum,
      Buf.slice_write_of_disjoint _ (.inl (by omega)), slice_body] at hsum
    exact leNat_set_ne (by rw [length_leBytes]; omega) hb (hsum.trans (leNat_checksum _).symm)

end SuperblockV2

namespace WalFrame

theorem deserialize_checked {bytes : List UInt8} {salt1 salt2 : Nat} {f : WalFrame}
    (h : deserialize bytes salt1 salt2 = .ok f) :
    leNat ((bytes.drop 16).take 4) =
      checksum32 ((bytes.drop 0).take 16 ++ (bytes.drop 24).take PAGE_SIZE) := by
  unfold deserialize at h
  dsimp only at h
  split_ifs at h with hlen hsalt hsum
  exact Decidable.not_not.mp hsum

theorem deserialize_fails {bytes : List UInt8} {salt1 salt2 : Nat}
    (h : ∀ f, deserialize bytes salt1 salt2 ≠ .ok f) :
    ∃ e, deserialize bytes salt1 salt2 = .error (.Err e) := by
  unfold deserialize at h ⊢
  dsimp only at h ⊢
  split_ifs at h ⊢
  · exact ⟨_, rfl⟩
  · exact ⟨_, rfl⟩
  · exact ⟨_, rfl⟩
  · exact absurd rfl (h _)

theorem getD_part {bytes part : List UInt8} {off len : Nat} (hpart : (bytes.drop off).take len = part) {k : Nat}
    (hk : k < len) : bytes.getD (off + k) 0 = part.getD k 0 := by
  rw [← hpart, List.getD_eq_getElem?_getD, List.getD_eq_getElem?_getD, List.getElem?_take_of_lt hk,
    List.getElem?_drop]

theorem part_set_inside {bytes part : List UInt8} {off len : Nat} (hpart : (bytes.drop off).take len = part)
    (k : Nat) (b : UInt8) : ((bytes.set (off + k) b).drop off).take len = part.set k b := by
  rw [List.drop_set, if_neg (by omega), Nat.add_sub_cancel_left, List.take_set, hpart]

theorem part_set_outside {bytes part : List UInt8} {off len i : Nat} (hpart : (bytes.drop off).take len = part)
    (hi : i < off ∨ off + len ≤ i) (b : UInt8) : ((bytes.set i b).drop off).take len = part := by
  rcases hi with hi | hi
  · rw [List.drop_set, if_pos hi, hpart]
  · rw [List.drop_set, if_neg (by omega), List.take_set, hpart, List.set_eq_of_length_le]
    rw [← hpart]
    exact Nat.le_trans (List.length_take_le _ _) (by omega)

-- A frame with one byte of its header or of its page changed is refused. The four reserved bytes of the
-- header are not covered.
theorem deserialize_changed (f : WalFrame) (salt1 salt2 : Nat) {i : Nat}
    (hi : i < 20 ∨ WAL_FRAME_HEADER_SIZE ≤ i ∧ i < WAL_FRAME_SIZE) {b : UInt8}
    (hb : b ≠ (f.serialize salt1 salt2).getD i 0) :
    ∃ e, deserialize ((f.serialize salt1 salt2).set i b) salt1 salt2 = .error (.Err e) := by
  refine deserialize_fails fun f' hok => ?_
  have hpage : PAGE_SIZE = 4096 := rfl
  have hheader : WAL_FRAME_HEADER_SIZE = 24 := rfl
  have htotal : WAL_FRAME_SIZE = 24 + PAGE_SIZE := rfl
  obtain ⟨-, -, -, -, hfront, hsum, hdrop⟩ := f.drop_serialize salt1 salt2
  have hdata : ((f.serialize salt1 salt2).drop 24).take PAGE_SIZE = f.data.toList := by
    rw [← hheader, hdrop]
    exact List.take_of_length_le (Nat.le_of_eq (Buf.length_toList _))
  have hfront' : ((f.serialize salt1 salt2).drop 0).take 16 = f.front salt1 salt2 := hfront
  have hlen := f.length_front salt1 salt2
  have hlen' : f.data.toList.length = PAGE_SIZE := Buf.length_toList _
  have hcheck := deserialize_checked hok
  generalize f.serialize salt1 salt2 = bytes at hcheck hfront' hsum hdata hb
  by_cases hin : i < 16
  · obtain ⟨k, rfl⟩ : ∃ k, i = 0 + k := ⟨i, by omega⟩
    rw [getD_part hfront' (by omega), ← List.getD_append _ f.data.toList _ _ (by omega)] at hb
    rw [part_set_inside hfront', part_set_outside hsum (.inl (by omega)), part_set_outside hdata
      (.inl (by omega)),
      leNat_checksum, ← List.set_append_left _ _ (by omega)] at hcheck
    exact checksum32_set_ne (by rw [List.length_append]; omega) hb hcheck.symm
  by_cases hfield : i < 20
  · obtain ⟨k, rfl⟩ : ∃ k, i = 16 + k := ⟨i - 16, by omega⟩
    rw [getD_part hsum (by omega)] at hb
    rw [part_set_outside hfront' (.inr (by omega)), part_set_inside hsum, part_set_outside hdata
      (.inl (by omega))]
      at hcheck
    exact leNat_set_ne (by rw [length_leBytes]; omega) hb (hcheck.trans (leNat_checksum _).symm)
  · obtain ⟨k, rfl⟩ : ∃ k, i = 24 + k := ⟨i - 24, by omega⟩
    have hpos : (f.front salt1 salt2 ++ f.data.toList).getD (16 + k) 0 = f.data.toList.getD k 0 := by
      rw [List.getD_append_right _ _ _ _ (by omega), hlen, Nat.add_sub_cancel_left]
    have hset : (f.front salt1 salt2 ++ f.data.toList).set (16 + k) b =
        f.front salt1 salt2 ++ f.data.toList.set k b := by
      rw [List.set_append_right _ _ (by omega), hlen, Nat.add_sub_cancel_left]
    rw [getD_part hdata (by omega), ← hpos] at hb
    rw [part_set_outside hfront' (.inr (by omega)), part_set_outside hsum (.inr (by omega)),
      part_set_inside hdata,
      leNat_checksum, ← hset] at hcheck
    exact checksum32_set_ne (by rw [List.length_append]; omega) hb hcheck.symm

end WalFrame

section Images

-- What is written is read back, and one changed byte of it is noticed. The reader of superblocks takes
-- only the version and the page size of the build.
theorem images_checked :
    (∀ sb : SuperblockV2, sb.Fits → (SuperblockV2.deserialize sb.serialize = .ok sb.stamp ↔
      sb.formatVersion = 2 ∧ u16ToPageSize sb.pageSize = PAGE_SIZE)) ∧
    (∀ (f : WalFrame) (salt1 salt2 : Nat), f.Fits → salt1 < 2 ^ 32 → salt2 < 2 ^ 32 →
      WalFrame.deserialize (f.serialize salt1 salt2) salt1 salt2 = .ok f) ∧
    (∀ (sb : SuperblockV2) (i : Nat) (b : UInt8), i < COW_SUPERBLOCK_SIZE → b ≠ sb.serialize.byte i →
      ∃ e, SuperblockV2.deserialize (sb.serialize.write i [b]) = .error (.Err e)) ∧
    ∀ (f : WalFrame) (salt1 salt2 i : Nat) (b : UInt8),
      i < 20 ∨ WAL_FRAME_HEADER_SIZE ≤ i ∧ i < WAL_FRAME_SIZE → b ≠ (f.serialize salt1 salt2).getD i 0 →
        ∃ e, WalFrame.deserialize ((f.serialize salt1 salt2).set i b) salt1 salt2 = .error (.Err e) :=
  ⟨fun _ h => SuperblockV2.deserialize_serialize_iff h,
    fun _ _ _ hf h₁ h₂ => WalFrame.deserialize_serialize hf h₁ h₂,
    fun sb _ _ hi hb => sb.deserialize_changed hi hb,
    fun f salt1 salt2 _ _ hi hb => f.deserialize_changed salt1 salt2 hi hb⟩

def nextFormat : SuperblockV2 := { SuperblockV2.new Buf.zero with formatVersion := 3 }

theorem new_fits (dbUuid : Buf 16) : (SuperblockV2.new dbUuid).Fits where
  formatVersion := (by decide : 2 < 2 ^ 16)
  pageSize := (by decide : pageSizeToU16 < 2 ^ 16)
  flags := (by decide : 0 < 2 ^ 32)
  generation := (by decide : 1 ≤ U64_MAX)
  schemaRoot := (by decide : 3 < 2 ^ 32)
  freeRoot := (by decide : 0 < 2 ^ 32)
  pendingFreeRoot := (by decide : 0 < 2 ^ 32)
  pageCount := (by decide : 2 < 2 ^ 32)

theorem images_checked_new :
    (SuperblockV2.deserialize (SuperblockV2.new Buf.zero).serialize = .ok (SuperblockV2.new Buf.zero).stamp ↔
      (SuperblockV2.new Buf.zero).formatVersion = 2 ∧
        u16ToPageSize (SuperblockV2.new Buf.zero).pageSize = PAGE_SIZE) ∧
    (∃ e, SuperblockV2.deserialize ((SuperblockV2.new Buf.zero).serialize.write 40 [1]) = .error (.Err e)) ∧
    ∃ e, WalFrame.deserialize ((WalFrame.serialize ⟨3, 0, Buf.zero⟩ 1 2).set 0 4) 1 2 = .error (.Err e) :=
  ⟨images_checked.1 _ (new_fits Buf.zero), images_checked.2.2.1 _ 40 1 (by decide) (by decide +kernel),
    images_checked.2.2.2 _ 1 2 0 4 (.inl (by decide)) (by decide +kernel)⟩

-- A new superblock has no checksum yet and comes back with one; another version does not come back.
theorem superblock_altered :
    (SuperblockV2.deserialize (SuperblockV2.new Buf.zero).serialize = .ok (SuperblockV2.new Buf.zero).stamp ∧
      (SuperblockV2.new Buf.zero).stamp.checksum ≠ (SuperblockV2.new Buf.zero).checksum) ∧
    SuperblockV2.deserialize nextFormat.serialize ≠ .ok nextFormat.stamp := by
  refine ⟨⟨(SuperblockV2.deserialize_serialize_iff (new_fits Buf.zero)).mpr ⟨rfl, by decide⟩,
    by decide +kernel⟩, ?_⟩
  intro h
  obtain ⟨hversion, -, -⟩ := SuperblockV2.deserialize_checked h
  rw [SuperblockV2.stamp_formatVersion] at hversion
  exact absurd hversion (by decide)

end Images

end Kkdb
