import Kkdb.Error
import Kkdb.Lib.Bytes

namespace Kkdb

open Lib

-- The default build; `KKDB_PAGE_SIZE` selects another power of two at compile time.
def PAGE_SIZE : Nat := 4096

def MAX_PAGES : Nat := 1048576

abbrev PageData := Buf PAGE_SIZE

-- The bytes of "KKDB COW v2" padded to sixteen.
def COW_MAGIC : List UInt8 :=
  [0x4B, 0x4B, 0x44, 0x42, 0x20, 0x43, 0x4F, 0x57, 0x20, 0x76, 0x32, 0, 0, 0, 0, 0]

def COW_SUPERBLOCK_SIZE : Nat := 68

def U64_MAX : Nat := 18446744073709551615

def saturatingSucc (n : Nat) : Nat := min (n + 1) U64_MAX

inductive SuperblockSlot where
  | A
  | B
  deriving DecidableEq, Repr

def SuperblockSlot.pageNum : SuperblockSlot → Nat
  | .A => 1
  | .B => 2

def SuperblockSlot.inactive : SuperblockSlot → SuperblockSlot
  | .A => .B
  | .B => .A

-- The on-disk u16 holds 65536 as 0.
def pageSizeToU16 : Nat := if PAGE_SIZE = 65536 then 0 else PAGE_SIZE

def u16ToPageSize (v : Nat) : Nat := if v = 0 then 65536 else v

-- FNV-1a on 32 bits; `wal.rs` has the same function under the name `fnv32`.
def checksum32 (bytes : List UInt8) : Nat :=
  bytes.foldl (fun h b => (h ^^^ b.toNat) * 16777619 % 4294967296) 0x811C9DC5

structure SuperblockV2 where
  formatVersion : Nat
  pageSize : Nat
  flags : Nat
  generation : Nat
  dbUuid : Buf 16
  schemaRoot : Nat
  freeRoot : Nat
  pendingFreeRoot : Nat
  pageCount : Nat
  checksum : Nat

namespace SuperblockV2

def new (dbUuid : Buf 16) : SuperblockV2 where
  formatVersion := 2
  pageSize := pageSizeToU16
  flags := 0
  generation := 1
  dbUuid := dbUuid
  schemaRoot := 3
  freeRoot := 0
  pendingFreeRoot := 0
  pageCount := 2
  checksum := 0

def fields (sb : SuperblockV2) : List (List UInt8) :=
  [COW_MAGIC, leBytes 2 sb.formatVersion, leBytes 2 sb.pageSize, leBytes 4 sb.flags,
    leBytes 8 sb.generation, sb.dbUuid.toList, leBytes 4 sb.schemaRoot, leBytes 4 sb.freeRoot,
    leBytes 4 sb.pendingFreeRoot, leBytes 4 sb.pageCount]

def body (sb : SuperblockV2) : List UInt8 := sb.fields.flatten

-- A zeroed page with the body and its checksum at the front.
def serialize (sb : SuperblockV2) : PageData :=
  Buf.ofList (sb.body ++ leBytes 4 (checksum32 sb.body))

def deserialize (page : PageData) : Res SuperblockV2 :=
  if page.slice 0 16 ≠ COW_MAGIC then .error (corrupt "invalid superblock magic")
  else if page.u16 16 ≠ 2 then
    .error (corrupt ("unsupported superblock version: " ++ toString (page.u16 16)))
  else if u16ToPageSize (page.u16 18) ≠ PAGE_SIZE then
    .error (corrupt ("unsupported page size: " ++ toString (page.u16 18)))
  else if page.u32 64 ≠ checksum32 (page.slice 0 64) then
    .error (corrupt "superblock checksum mismatch")
  else .ok {
    formatVersion := page.u16 16
    pageSize := page.u16 18
    flags := page.u32 20
    generation := page.u64 24
    dbUuid := Buf.ofList (page.slice 32 16)
    schemaRoot := page.u32 48
    freeRoot := page.u32 52
    pendingFreeRoot := page.u32 56
    pageCount := page.u32 60
    checksum := page.u32 64 }

-- The field ranges of the Rust struct, with the two constants every superblock
-- of this build carries.
structure Valid (sb : SuperblockV2) : Prop where
  version : sb.formatVersion = 2
  pageSize : sb.pageSize = pageSizeToU16
  flags : sb.flags < 2 ^ 32
  generation : sb.generation ≤ U64_MAX
  schemaRoot : sb.schemaRoot < 2 ^ 32
  freeRoot : sb.freeRoot < 2 ^ 32
  pendingFreeRoot : sb.pendingFreeRoot < 2 ^ 32
  pageCount : sb.pageCount < 2 ^ 32

theorem length_body (sb : SuperblockV2) : sb.body.length = 64 := by
  simp [body, fields, COW_MAGIC]

theorem checksum32_lt (bytes : List UInt8) : checksum32 bytes < 4294967296 := by
  unfold checksum32
  rcases List.eq_nil_or_concat bytes with rfl | ⟨front, b, rfl⟩
  · simp
  · rw [List.concat_eq_append, List.foldl_append, List.foldl_cons, List.foldl_nil]
    omega

theorem slice_serialize (sb : SuperblockV2) {off len : Nat} (h : off + len ≤ 64) :
    sb.serialize.slice off len = (sb.body.drop off).take len := by
  have hb := length_body sb
  have hp : PAGE_SIZE = 4096 := rfl
  rw [serialize, Buf.slice_ofList (by omega) (by simp only [List.length_append, hb]; omega),
    List.drop_append_of_le_length (by omega), List.take_append_of_le_length (by simp [hb]; omega)]

theorem slice_checksum (sb : SuperblockV2) :
    sb.serialize.slice 64 4 = leBytes 4 (checksum32 sb.body) := by
  have hb := length_body sb
  have hp : PAGE_SIZE = 4096 := rfl
  rw [serialize, Buf.slice_ofList (by omega) (by simp [hb])]
  rw [List.drop_left' hb, List.take_of_length_le (by simp)]

theorem slice_field (sb : SuperblockV2) (i off : Nat) (field : List UInt8)
    (hi : sb.fields[i]? = some field) (hoff : (sb.fields.take i).flatten.length = off) :
    sb.serialize.slice off field.length = field := by
  obtain ⟨hlt, hf⟩ := List.getElem?_eq_some_iff.mp hi
  have hsplit : sb.body = (sb.fields.take i).flatten ++ (field ++ (sb.fields.drop (i + 1)).flatten) := by
    rw [body, ← hf, ← List.flatten_cons, ← List.drop_eq_getElem_cons hlt, ← List.flatten_append,
      List.take_append_drop]
  have hlen := length_body sb
  rw [hsplit] at hlen
  simp only [List.length_append] at hlen
  rw [slice_serialize sb (by omega), hsplit, List.drop_left' hoff, List.take_left]

theorem leNat_field (sb : SuperblockV2) (i off width v : Nat)
    (hi : sb.fields[i]? = some (leBytes width v))
    (hoff : (sb.fields.take i).flatten.length = off) (hv : v < 256 ^ width) :
    leNat (sb.serialize.slice off width) = v := by
  have hs := slice_field sb i off _ hi hoff
  rw [length_leBytes] at hs
  rw [hs, leNat_leBytes_of_lt hv]

-- The superblock as it is read back, with the checksum that was written.
def stamp (sb : SuperblockV2) : SuperblockV2 := { sb with checksum := checksum32 sb.body }

@[simp] theorem stamp_generation (sb : SuperblockV2) : sb.stamp.generation = sb.generation := by
  rw [stamp]

@[simp] theorem stamp_pageCount (sb : SuperblockV2) : sb.stamp.pageCount = sb.pageCount := by
  rw [stamp]

@[simp] theorem stamp_flags (sb : SuperblockV2) : sb.stamp.flags = sb.flags := by
  rw [stamp]

@[simp] theorem stamp_dbUuid (sb : SuperblockV2) : sb.stamp.dbUuid = sb.dbUuid := by
  rw [stamp]

theorem deserialize_serialize (sb : SuperblockV2) (h : sb.Valid) :
    deserialize sb.serialize = .ok sb.stamp := by
  have hmagic : sb.serialize.slice 0 16 = COW_MAGIC := slice_field sb 0 0 COW_MAGIC rfl rfl
  have hver : sb.serialize.u16 16 = sb.formatVersion :=
    leNat_field sb 1 16 2 _ rfl (by simp [fields, COW_MAGIC]) (by rw [h.version]; decide)
  have hsize : sb.serialize.u16 18 = sb.pageSize :=
    leNat_field sb 2 18 2 _ rfl (by simp [fields, COW_MAGIC]) (by rw [h.pageSize]; decide)
  have hflags : sb.serialize.u32 20 = sb.flags :=
    leNat_field sb 3 20 4 _ rfl (by simp [fields, COW_MAGIC]) h.flags
  have hgen : sb.serialize.u64 24 = sb.generation :=
    leNat_field sb 4 24 8 _ rfl (by simp [fields, COW_MAGIC]) (Nat.lt_succ_of_le h.generation)
  have huuid : sb.serialize.slice 32 16 = sb.dbUuid.toList := by
    have hs := slice_field sb 5 32 sb.dbUuid.toList rfl (by simp [fields, COW_MAGIC])
    rwa [Buf.length_toList] at hs
  have hschema : sb.serialize.u32 48 = sb.schemaRoot :=
    leNat_field sb 6 48 4 _ rfl (by simp [fields, COW_MAGIC]) h.schemaRoot
  have hfree : sb.serialize.u32 52 = sb.freeRoot :=
    leNat_field sb 7 52 4 _ rfl (by simp [fields, COW_MAGIC]) h.freeRoot
  have hpending : sb.serialize.u32 56 = sb.pendingFreeRoot :=
    leNat_field sb 8 56 4 _ rfl (by simp [fields, COW_MAGIC]) h.pendingFreeRoot
  have hcount : sb.serialize.u32 60 = sb.pageCount :=
    leNat_field sb 9 60 4 _ rfl (by simp [fields, COW_MAGIC]) h.pageCount
  have hsum : sb.serialize.u32 64 = checksum32 sb.body := by
    rw [Buf.u32, slice_checksum, leNat_leBytes_of_lt (by simpa using checksum32_lt sb.body)]
  have hbody : sb.serialize.slice 0 64 = sb.body := by
    rw [slice_serialize sb (by omega), List.drop_zero, List.take_of_length_le (by rw [length_body])]
  have hpage : u16ToPageSize sb.pageSize = PAGE_SIZE := by rw [h.pageSize]; decide
  simp only [deserialize, stamp, hmagic, hver, hsize, hflags, hgen, huuid, hschema, hfree, hpending,
    hcount, hsum, hbody, hpage, h.version, Buf.ofList_toList, ne_eq, not_true_eq_false, if_false]

end SuperblockV2

end Kkdb
