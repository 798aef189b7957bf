import Kkdb.Error
import Kkdb.Lib.Bytes
import Kkdb.Lib.State

namespace Kkdb

open Lib

-- The bits as the bytes that hold them.
structure BloomFilter where
  bits : List UInt8
  numHashes : UInt32
  count : UInt64
  deriving DecidableEq, Repr

namespace BloomFilter

def fnv1a (seed : UInt64) (key : List UInt8) : UInt64 :=
  key.foldl (fun h b => (h ^^^ b.toUInt64) * 0x100000001b3) seed

def hashPair (key : List UInt8) : UInt64 × UInt64 :=
  (fnv1a 0xcbf29ce484222325 key, fnv1a 0x6c62272e07bb0142 key)

-- Sums and products that do not fit panic.
def checkedU64 (v : Nat) : Res UInt64 :=
  if v < 18446744073709551616 then .ok (UInt64.ofNat v) else .error .Panic

def new (sizeBytes : Nat) (numHashes : UInt32) : Res BloomFilter :=
  if sizeBytes = 0 ∨ numHashes = 0 then .error .Panic
  else .ok { bits := List.replicate sizeBytes 0, numHashes := min numHashes 16, count := 0 }

-- The place of the bit of one hash function. A remainder by zero panics.
def bitIdx (key : List UInt8) (numBits : UInt64) (i : Nat) : Res Nat :=
  if numBits = 0 then .error .Panic
  else .ok (((hashPair key).1 + (hashPair key).2 * UInt64.ofNat i) % numBits).toNat

def bitMask (idx : Nat) : UInt8 := 1 <<< UInt8.ofNat (idx % 8)

def setBit (bits : List UInt8) (idx : Nat) : Res (List UInt8) :=
  match bits[idx / 8]? with
  | some byte => .ok (bits.set (idx / 8) (byte ||| bitMask idx))
  | none => .error .Panic

def testBit (bits : List UInt8) (idx : Nat) : Res Bool :=
  match bits[idx / 8]? with
  | some byte => .ok (byte &&& bitMask idx ≠ 0)
  | none => .error .Panic

def insertLoop (key : List UInt8) (numBits : UInt64) : List Nat → List UInt8 → Res (List UInt8)
  | [], bits => .ok bits
  | i :: is, bits => do
      let idx ← bitIdx key numBits i
      let bits ← setBit bits idx
      insertLoop key numBits is bits

def containsLoop (key : List UInt8) (numBits : UInt64) (bits : List UInt8) : List Nat → Res Bool
  | [] => .ok true
  | i :: is => do
      let idx ← bitIdx key numBits i
      let found ← testBit bits idx
      if found then containsLoop key numBits bits is else return false

variable (f : BloomFilter)

def hashes : List Nat := List.range f.numHashes.toNat

def insert (key : List UInt8) : Res BloomFilter := do
  let numBits ← checkedU64 (f.bits.length * 8)
  let bits ← insertLoop key numBits f.hashes f.bits
  let count ← checkedU64 (f.count.toNat + 1)
  return { f with bits := bits, count := count }

def mayContain (key : List UInt8) : Res Bool := do
  let numBits ← checkedU64 (f.bits.length * 8)
  containsLoop key numBits f.bits f.hashes

def clear : BloomFilter :=
  { f with bits := f.bits.map fun _ => 0, count := 0 }

def merge (other : BloomFilter) : Res (BloomFilter × Bool) :=
  if f.bits.length ≠ other.bits.length ∨ f.numHashes ≠ other.numHashes then .ok (f, false)
  else do
    let count ← checkedU64 (f.count.toNat + other.count.toNat)
    return ({ f with bits := f.bits.zipWith (· ||| ·) other.bits, count := count }, true)

-- The length and the count are cut to 32 bits.
def toBytes : List UInt8 :=
  leBytes 4 f.bits.length ++ leBytes 4 f.numHashes.toNat ++ leBytes 4 f.count.toNat ++ f.bits

def fromBytes (data : List UInt8) : Option BloomFilter :=
  if data.length < 12 then none
  else
    let size := leNat (data.take 4)
    if data.length < 12 + size then none
    else
      some {
        bits := (data.drop 12).take size
        numHashes := UInt32.ofNat (leNat ((data.drop 4).take 4))
        count := UInt64.ofNat (leNat ((data.drop 8).take 4)) }

end BloomFilter

-- The filters that come out of runs, with the keys inserted since they were cleared. A filter that meets the
-- condition may be replaced by what its bytes are read as.
inductive Filled (meets : BloomFilter → Prop) : BloomFilter → List (List UInt8) → Prop where
  | new {sizeBytes : Nat} {numHashes : UInt32} {f : BloomFilter}
      (h : BloomFilter.new sizeBytes numHashes = .ok f) : Filled meets f []
  | insert {f f' : BloomFilter} {keys : List (List UInt8)} {key : List UInt8} (hf : Filled meets f keys)
      (h : f.insert key = .ok f') : Filled meets f' (key :: keys)
  | clear {f : BloomFilter} {keys : List (List UInt8)} (hf : Filled meets f keys) : Filled meets f.clear []
  | merge {f g f' : BloomFilter} {keys others : List (List UInt8)} (hf : Filled meets f keys)
      (hg : Filled meets g others) (h : f.merge g = .ok (f', true)) : Filled meets f' (keys ++ others)
  | reload {f f' : BloomFilter} {keys : List (List UInt8)} (hf : Filled meets f keys) (hmeets : meets f)
      (h : BloomFilter.fromBytes f.toBytes = some f') : Filled meets f' keys

namespace BloomFilter

variable {f g : BloomFilter} {bits bits' : List UInt8} {key : List UInt8} {idx idx' i : Nat} {is : List Nat}
  {numBits : UInt64}

theorem ok_bind {α β : Type} (a : α) (next : α → Res β) : ((.ok a : Res α) >>= next) = next a := rfl

theorem bitMask_ne_zero (idx : Nat) : bitMask idx ≠ 0 := by
  have hall : ∀ b < 8, (1 : UInt8) <<< UInt8.ofNat b ≠ 0 := by decide
  exact hall (idx % 8) (Nat.mod_lt _ (by decide))

theorem and_or_right (x y z : UInt8) : (x ||| y) &&& z = (x &&& z) ||| (y &&& z) :=
  UInt8.toBitVec_inj.mp BitVec.and_or_distrib_right

theorem or_ne_zero (x y : UInt8) (h : x ≠ 0 ∨ y ≠ 0) : x ||| y ≠ 0 := by
  intro hzero
  have hzero' := UInt8.or_eq_zero_iff.mp hzero
  exact h.elim (fun hx => hx hzero'.1) fun hy => hy hzero'.2

def Marked (bits : List UInt8) (idx : Nat) : Prop :=
  ∃ byte, bits[idx / 8]? = some byte ∧ byte &&& bitMask idx ≠ 0

structure Covers (bits bits' : List UInt8) : Prop where
  length : bits'.length = bits.length
  marked : ∀ idx, Marked bits idx → Marked bits' idx

theorem Covers.refl (bits : List UInt8) : Covers bits bits := ⟨rfl, fun _ => id⟩

theorem Covers.trans {bits'' : List UInt8} (h : Covers bits bits') (h' : Covers bits' bits'') :
    Covers bits bits'' :=
  ⟨h'.length.trans h.length, fun idx hidx => h'.marked idx (h.marked idx hidx)⟩

theorem setBit_ok (h : idx < bits.length * 8) :
    ∃ bits', setBit bits idx = .ok bits' ∧ Covers bits bits' ∧ Marked bits' idx := by
  have hbyte : idx / 8 < bits.length := by omega
  refine ⟨bits.set (idx / 8) (bits[idx / 8] ||| bitMask idx), ?_, ⟨List.length_set, ?_⟩, ?_⟩
  · rw [setBit, List.getElem?_eq_getElem hbyte]
  · rintro idx' ⟨byte, hget, hset⟩
    by_cases hsame : idx / 8 = idx' / 8
    · rw [← hsame, List.getElem?_eq_getElem hbyte] at hget
      obtain rfl := Option.some.inj hget
      refine ⟨_, by rw [← hsame]; exact List.getElem?_set_self hbyte, ?_⟩
      rw [and_or_right]
      exact or_ne_zero _ _ (.inl hset)
    · exact ⟨byte, by rw [List.getElem?_set_ne hsame]; exact hget, hset⟩
  · refine ⟨_, List.getElem?_set_self hbyte, ?_⟩
    rw [and_or_right, UInt8.and_self]
    exact or_ne_zero _ _ (.inr (bitMask_ne_zero idx))

theorem checkedU64_ok {v : Nat} {n : UInt64} (h : checkedU64 v = .ok n) :
    v < 18446744073709551616 ∧ n = UInt64.ofNat v := by
  rw [checkedU64] at h
  split_ifs at h with hfits
  exact ⟨hfits, (Except.ok.inj h).symm⟩

def numBitsOf (bits : List UInt8) : UInt64 := UInt64.ofNat (bits.length * 8)

theorem toNat_numBitsOf (hfits : bits.length * 8 < 18446744073709551616) :
    (numBitsOf bits).toNat = bits.length * 8 := UInt64.toNat_ofNat_of_lt' hfits

theorem bitIdx_ok (hpos : 0 < bits.length) (hfits : bits.length * 8 < 18446744073709551616)
    (key : List UInt8) (i : Nat) : ∃ idx < bits.length * 8, bitIdx key (numBitsOf bits) i = .ok idx := by
  have hbits := toNat_numBitsOf hfits
  have hne : numBitsOf bits ≠ 0 := by
    intro hzero
    rw [hzero] at hbits
    have hzero' : (0 : UInt64).toNat = 0 := rfl
    omega
  refine ⟨_, ?_, if_neg hne⟩
  rw [UInt64.toNat_mod, hbits]
  exact Nat.mod_lt _ (by omega)

def Hit (f : BloomFilter) (key : List UInt8) : Prop :=
  ∀ i ∈ f.hashes, ∀ idx, bitIdx key (numBitsOf f.bits) i = .ok idx → Marked f.bits idx

theorem insertLoop_ok (hpos : 0 < bits.length) (hfits : bits.length * 8 < 18446744073709551616)
    (key : List UInt8) (is : List Nat) :
    ∃ bits', insertLoop key (numBitsOf bits) is bits = .ok bits' ∧ Covers bits bits' ∧
      ∀ i ∈ is, ∀ idx, bitIdx key (numBitsOf bits) i = .ok idx → Marked bits' idx := by
  induction is generalizing bits with
  | nil => exact ⟨bits, rfl, .refl bits, fun i hi => absurd hi List.not_mem_nil⟩
  | cons i is ih =>
      obtain ⟨idx, hlt, hidx⟩ := bitIdx_ok hpos hfits key i
      obtain ⟨bits₁, hset, hcovers, hmarked⟩ := setBit_ok hlt
      have hbits : numBitsOf bits₁ = numBitsOf bits := by rw [numBitsOf, hcovers.length, numBitsOf]
      obtain ⟨bits₂, hloop, hcovers', hall⟩ :=
        ih (by rw [hcovers.length]; exact hpos) (by rw [hcovers.length]; exact hfits)
      rw [hbits] at hloop hall
      refine ⟨bits₂, ?_, hcovers.trans hcovers', List.forall_mem_cons.mpr ⟨fun idx' hidx' => ?_, hall⟩⟩
      · rw [insertLoop, hidx]
        exact (congrArg (· >>= insertLoop key (numBitsOf bits) is) hset).trans hloop
      · rw [← Except.ok.inj (hidx.symm.trans hidx')]
        exact hcovers'.marked idx hmarked

theorem containsLoop_ok (hpos : 0 < bits.length) (hfits : bits.length * 8 < 18446744073709551616)
    (key : List UInt8) (is : List Nat) :
    ∃ found, containsLoop key (numBitsOf bits) bits is = .ok found ∧
      ((∀ i ∈ is, ∀ idx, bitIdx key (numBitsOf bits) i = .ok idx → Marked bits idx) → found = true) := by
  induction is with
  | nil => exact ⟨true, rfl, fun _ => rfl⟩
  | cons i is ih =>
      obtain ⟨idx, hlt, hidx⟩ := bitIdx_ok hpos hfits key i
      obtain ⟨found, hloop, hfound⟩ := ih
      have hbyte : idx / 8 < bits.length := by omega
      have htest : testBit bits idx = .ok (decide (bits[idx / 8] &&& bitMask idx ≠ 0)) := by
        rw [testBit, List.getElem?_eq_getElem hbyte]
      rw [containsLoop, hidx]
      by_cases hset : bits[idx / 8] &&& bitMask idx ≠ 0
      · refine ⟨found, ?_, fun hall => hfound fun j hj => hall j (List.mem_cons_of_mem i hj)⟩
        rw [decide_eq_true hset] at htest
        rw [ok_bind, htest, ok_bind, if_pos rfl]
        exact hloop
      · refine ⟨false, ?_, fun hall => ?_⟩
        · rw [decide_eq_false hset] at htest
          rw [ok_bind, htest, ok_bind, if_neg Bool.false_ne_true]
          rfl
        · obtain ⟨byte, hget, hmarked⟩ := hall i List.mem_cons_self idx hidx
          rw [List.getElem?_eq_getElem hbyte] at hget
          exact absurd (Option.some.inj hget ▸ hmarked) hset

theorem insert_ok {f' : BloomFilter} (hpos : 0 < f.bits.length) (h : f.insert key = .ok f') :
    f.bits.length * 8 < 18446744073709551616 ∧ Covers f.bits f'.bits ∧ f'.numHashes = f.numHashes ∧
      f'.Hit key := by
  obtain ⟨numBits, hbits, h⟩ := ok_of_bind h
  obtain ⟨hfits, rfl⟩ := checkedU64_ok hbits
  obtain ⟨bits', hloop, hcovers, hall⟩ := insertLoop_ok hpos hfits key f.hashes
  obtain ⟨bits'', hloop', h⟩ := ok_of_bind h
  obtain rfl := Except.ok.inj (hloop.symm.trans hloop')
  obtain ⟨count, -, h⟩ := ok_of_bind h
  obtain rfl := Except.ok.inj h
  refine ⟨hfits, hcovers, rfl, ?_⟩
  rw [Hit, numBitsOf, hcovers.length]
  exact hall

theorem mayContain_hit (hpos : 0 < f.bits.length) (hfits : f.bits.length * 8 < 18446744073709551616)
    (h : f.Hit key) : f.mayContain key = .ok true := by
  obtain ⟨found, hloop, hfound⟩ := containsLoop_ok hpos hfits key f.hashes
  rw [mayContain, checkedU64, if_pos hfits, ok_bind]
  exact hloop.trans (congrArg _ (hfound h))

theorem Hit.covers (h : f.Hit key) (hcovers : Covers f.bits g.bits) (hhashes : g.numHashes = f.numHashes) :
    g.Hit key := by
  intro i hi idx hidx
  rw [hashes, hhashes] at hi
  rw [numBitsOf, hcovers.length] at hidx
  exact hcovers.marked idx (h i hi idx hidx)

theorem getElem?_zipWith_or (hlen : bits.length = bits'.length) (k : Nat) {byte : UInt8}
    (h : bits[k]? = some byte) : ∃ byte', bits'[k]? = some byte' ∧
      (bits.zipWith (· ||| ·) bits')[k]? = some (byte ||| byte') := by
  obtain ⟨hk, hget⟩ := List.getElem?_eq_some_iff.mp h
  have hget' := List.getElem?_eq_getElem (hlen ▸ hk)
  exact ⟨_, hget', by rw [List.getElem?_zipWith, h, hget']⟩

theorem covers_left (hlen : bits.length = bits'.length) : Covers bits (bits.zipWith (· ||| ·) bits') := by
  refine ⟨by rw [List.length_zipWith, hlen, Nat.min_self], ?_⟩
  rintro idx ⟨byte, hget, hset⟩
  obtain ⟨byte', -, hboth⟩ := getElem?_zipWith_or hlen (idx / 8) hget
  refine ⟨_, hboth, ?_⟩
  rw [and_or_right]
  exact or_ne_zero _ _ (.inl hset)

theorem covers_right (hlen : bits.length = bits'.length) : Covers bits' (bits.zipWith (· ||| ·) bits') := by
  have hcomm : bits.zipWith (· ||| ·) bits' = bits'.zipWith (· ||| ·) bits := by
    rw [List.zipWith_comm]
    simp only [UInt8.or_comm]
  rw [hcomm]
  exact covers_left hlen.symm

theorem merge_ok {f' : BloomFilter} (h : f.merge g = .ok (f', true)) :
    Covers f.bits f'.bits ∧ Covers g.bits f'.bits ∧ f'.numHashes = f.numHashes ∧
      f'.numHashes = g.numHashes := by
  rw [merge] at h
  split_ifs at h with hdiffer
  · exact absurd (Prod.mk.inj (Except.ok.inj h)).2 Bool.false_ne_true
  · rw [not_or, not_not, not_not] at hdiffer
    obtain ⟨count, -, h⟩ := ok_of_bind h
    obtain rfl := (Prod.mk.inj (Except.ok.inj h)).1
    exact ⟨covers_left hdiffer.1, covers_right hdiffer.1, rfl, hdiffer.2⟩

theorem fromBytes_some {data : List UInt8} (h : fromBytes data = some f) :
    12 ≤ data.length ∧ 12 + leNat (data.take 4) ≤ data.length ∧
      f = { bits := (data.drop 12).take (leNat (data.take 4))
            numHashes := UInt32.ofNat (leNat ((data.drop 4).take 4))
            count := UInt64.ofNat (leNat ((data.drop 8).take 4)) } := by
  simp only [fromBytes] at h
  split_ifs at h with hshort hcut
  exact ⟨by omega, by omega, (Option.some.inj h).symm⟩

theorem fromBytes_toBytes (hlen : f.bits.length < 4294967296) {f' : BloomFilter}
    (h : fromBytes f.toBytes = some f') : f'.bits = f.bits ∧ f'.numHashes = f.numHashes := by
  have hsize : leNat (f.toBytes.take 4) = f.bits.length := by
    rw [toBytes, List.append_assoc, List.append_assoc, List.take_left' (length_leBytes 4 _)]
    exact leNat_leBytes_of_lt hlen
  have hhashes : leNat ((f.toBytes.drop 4).take 4) = f.numHashes.toNat := by
    rw [toBytes, List.append_assoc, List.append_assoc, List.drop_left' (length_leBytes 4 _),
      List.take_left' (length_leBytes 4 _)]
    exact leNat_leBytes_of_lt f.numHashes.toNat_lt
  have hbody : f.toBytes.drop 12 = f.bits := by
    have hheader : (leBytes 4 f.bits.length ++ leBytes 4 f.numHashes.toNat ++
        leBytes 4 f.count.toNat).length = 12 := by simp
    exact List.drop_left' hheader
  obtain ⟨-, -, rfl⟩ := fromBytes_some h
  rw [hsize, hhashes, hbody]
  exact ⟨List.take_length, UInt32.ofNat_toNat⟩

structure Keeps (f : BloomFilter) (keys : List (List UInt8)) : Prop where
  pos : 0 < f.bits.length
  kept : ∀ key ∈ keys, f.bits.length * 8 < 18446744073709551616 ∧ f.Hit key

theorem Keeps.covers {keys : List (List UInt8)} (h : f.Keeps keys) (hcovers : Covers f.bits g.bits)
    (hhashes : g.numHashes = f.numHashes) : g.Keeps keys where
  pos := by rw [hcovers.length]; exact h.pos
  kept := by
    intro key hkey
    obtain ⟨hfits, hhit⟩ := h.kept key hkey
    exact ⟨by rwa [hcovers.length], hhit.covers hcovers hhashes⟩

-- Without bits the first remainder panics, unless there is no hash function.
theorem hashes_cons (h : f.numHashes ≠ 0) : ∃ is, f.hashes = 0 :: is := by
  have hpos : f.numHashes.toNat ≠ 0 := fun hzero => h (UInt32.toNat_inj.mp hzero)
  obtain ⟨n, hn⟩ := Nat.exists_eq_succ_of_ne_zero hpos
  exact ⟨_, by rw [hashes, hn, List.range_succ_eq_map]⟩

theorem insert_panics (hempty : f.bits = []) (h : f.numHashes ≠ 0) (key : List UInt8) :
    f.insert key = .error .Panic := by
  obtain ⟨is, his⟩ := hashes_cons h
  rw [insert, hempty, his]
  rfl

theorem numHashes_eq_zero_iff {v : Nat} (hlt : v < 4294967296) : UInt32.ofNat v = 0 ↔ v = 0 := by
  rw [← UInt32.toNat_inj, UInt32.toNat_ofNat_of_lt' hlt]
  rfl

theorem insert_returns (hpos : 0 < f.bits.length) (hfits : f.bits.length * 8 < 18446744073709551616)
    (hcount : f.count.toNat + 1 < 18446744073709551616) (key : List UInt8) : ∃ f', f.insert key = .ok f' := by
  obtain ⟨bits', hloop, -, -⟩ := insertLoop_ok hpos hfits key f.hashes
  refine ⟨{ f with bits := bits', count := UInt64.ofNat (f.count.toNat + 1) }, ?_⟩
  rw [insert, checkedU64, if_pos hfits, ok_bind]
  refine (congrArg (· >>= _) hloop).trans ?_
  rw [ok_bind, checkedU64, if_pos hcount]
  rfl

theorem mayContain_returns (hpos : 0 < f.bits.length) (hfits : f.bits.length * 8 < 18446744073709551616)
    (key : List UInt8) : ∃ found, f.mayContain key = .ok found := by
  obtain ⟨found, hloop, -⟩ := containsLoop_ok hpos hfits key f.hashes
  refine ⟨found, ?_⟩
  rw [mayContain, checkedU64, if_pos hfits, ok_bind]
  exact hloop

theorem hashes_nil (h : f.numHashes = 0) : f.hashes = [] := by
  rw [hashes, h]
  rfl

theorem insert_noHashes (h : f.numHashes = 0) (hfits : f.bits.length * 8 < 18446744073709551616)
    (hcount : f.count.toNat + 1 < 18446744073709551616) (key : List UInt8) : ∃ f', f.insert key = .ok f' := by
  refine ⟨{ f with count := UInt64.ofNat (f.count.toNat + 1) }, ?_⟩
  rw [insert, checkedU64, if_pos hfits, ok_bind, hashes_nil h, insertLoop, ok_bind, checkedU64, if_pos hcount]
  rfl

theorem mayContain_noHashes (h : f.numHashes = 0) (hfits : f.bits.length * 8 < 18446744073709551616)
    (key : List UInt8) : f.mayContain key = .ok true := by
  rw [mayContain, checkedU64, if_pos hfits, ok_bind, hashes_nil h, containsLoop]

def sizeField (data : List UInt8) : Nat := leNat (data.take 4)

def hashesField (data : List UInt8) : Nat := leNat ((data.drop 4).take 4)

theorem fields_lt {data : List UInt8} (h : 12 ≤ data.length) (k : Nat) (hk : k ≤ 8) :
    leNat ((data.drop k).take 4) < 4294967296 := by
  have hlen : ((data.drop k).take 4).length = 4 := by
    rw [List.length_take, List.length_drop]
    omega
  have hlt := leNat_lt ((data.drop k).take 4)
  rw [hlen] at hlt
  exact hlt

theorem fromBytes_returns_iff {data : List UInt8} (h : fromBytes data = some f) :
    (∀ key, (∃ f', f.insert key = .ok f') ∧ ∃ found, f.mayContain key = .ok found) ↔
      sizeField data ≠ 0 ∨ hashesField data = 0 := by
  obtain ⟨hlen, hbody, hf⟩ := fromBytes_some h
  have hsize := fields_lt hlen 0 (by decide)
  rw [List.drop_zero] at hsize
  have hbits : f.bits.length = sizeField data := by
    rw [hf, sizeField, List.length_take, List.length_drop]
    omega
  have hhashes : f.numHashes = 0 ↔ hashesField data = 0 := by
    rw [hf]
    exact numHashes_eq_zero_iff (fields_lt hlen 4 (by decide))
  have hfits : f.bits.length * 8 < 18446744073709551616 := by
    rw [hbits, sizeField]
    omega
  have hcount : f.count.toNat + 1 < 18446744073709551616 := by
    have hlt := fields_lt hlen 8 (by decide)
    rw [hf, UInt64.toNat_ofNat_of_lt' (Nat.lt_trans hlt (by decide))]
    omega
  rw [← hbits, ← hhashes]
  constructor
  · intro hreturns
    by_contra hnot
    rw [not_or, not_not] at hnot
    obtain ⟨⟨f', hinsert⟩, -⟩ := hreturns []
    rw [insert_panics (List.length_eq_zero_iff.mp hnot.1) hnot.2] at hinsert
    exact absurd hinsert (by simp)
  · rintro hfields key
    rcases hfields with hsome | hnone
    · have hpos := Nat.pos_of_ne_zero hsome
      exact ⟨insert_returns hpos hfits hcount key, mayContain_returns hpos hfits key⟩
    · exact ⟨insert_noHashes hnone hfits hcount key, ⟨true, mayContain_noHashes hnone hfits key⟩⟩

end BloomFilter

open BloomFilter

def Small (f : BloomFilter) : Prop := f.bits.length < 4294967296

theorem Filled.keeps {f : BloomFilter} {keys : List (List UInt8)} (h : Filled Small f keys) : f.Keeps keys := by
  induction h with
  | @new sizeBytes numHashes f h =>
      rw [BloomFilter.new] at h
      split_ifs at h with hzero
      obtain rfl := Except.ok.inj h
      rw [not_or] at hzero
      refine ⟨?_, fun key hkey => absurd hkey List.not_mem_nil⟩
      rw [List.length_replicate]
      exact Nat.pos_of_ne_zero hzero.1
  | @insert f f' keys key _ h ih =>
      obtain ⟨hfits, hcovers, hhashes, hhit⟩ := insert_ok ih.pos h
      have hkeeps := ih.covers hcovers hhashes
      refine ⟨hkeeps.pos, List.forall_mem_cons.mpr ⟨⟨?_, hhit⟩, hkeeps.kept⟩⟩
      rwa [hcovers.length]
  | @clear f keys _ ih =>
      refine ⟨?_, fun key hkey => absurd hkey List.not_mem_nil⟩
      rw [BloomFilter.clear, List.length_map]
      exact ih.pos
  | @merge f g f' keys others _ _ h ihf ihg =>
      obtain ⟨hleft, hright, hhashes, hhashes'⟩ := merge_ok h
      have hkeeps := ihf.covers hleft hhashes
      exact ⟨hkeeps.pos, List.forall_mem_append.mpr ⟨hkeeps.kept, (ihg.covers hright hhashes').kept⟩⟩
  | @reload f f' keys _ hsmall h ih =>
      obtain ⟨hbits, hhashes⟩ := fromBytes_toBytes hsmall h
      exact ih.covers (hbits ▸ Covers.refl f.bits) hhashes

theorem Filled.mayContain {f : BloomFilter} {keys : List (List UInt8)} (h : Filled Small f keys)
    {key : List UInt8} (hkey : key ∈ keys) : f.mayContain key = .ok true := by
  obtain ⟨hfits, hhit⟩ := h.keeps.kept key hkey
  exact mayContain_hit h.keeps.pos hfits hhit

-- A filter keeps the keys of every run in which it has fewer than 2^32 bytes whenever it is read back from its
-- bytes. The filter read from some bytes answers exactly when they give it bits, or no hash function.
theorem bloom_iff (f : BloomFilter) (keys : List (List UInt8)) (data : List UInt8) :
    (Filled Small f keys → ∀ key ∈ keys, f.mayContain key = .ok true) ∧
      (fromBytes data = some f →
        ((∀ key, (∃ f', f.insert key = .ok f') ∧ ∃ found, f.mayContain key = .ok found) ↔
          sizeField data ≠ 0 ∨ hashesField data = 0)) :=
  ⟨fun h _ hkey => h.mayContain hkey, fromBytes_returns_iff⟩

-- Two filters of one byte, merged and read back.
theorem bloom_iff_oneByte :
    ∃ empty f g both read, BloomFilter.new 1 1 = .ok empty ∧ empty.insert [7] = .ok f ∧ empty.insert [9] = .ok g ∧
      f.merge g = .ok (both, true) ∧ fromBytes both.toBytes = some read ∧
      ∀ key ∈ [[7], [9]], read.mayContain key = .ok true := by
  refine ⟨_, _, _, _, _, rfl, rfl, rfl, rfl, rfl, (bloom_iff _ _ []).1 ?_⟩
  have hempty : Filled Small _ [] := @Filled.new _ 1 1 _ rfl
  refine .reload (.merge (.insert hempty rfl) (.insert hempty rfl) rfl) ?_ rfl
  show 1 < 4294967296
  decide

def emptyBloomBytes : List UInt8 := [0, 0, 0, 0, 1, 0, 0, 0, 0, 0, 0, 0]

theorem insert_emptyBloom :
    ¬∀ (data : List UInt8) (f : BloomFilter), fromBytes data = some f →
      ∀ key, (∃ f', f.insert key = .ok f') ∧ ∃ found, f.mayContain key = .ok found := by
  intro hall
  obtain ⟨⟨f', hinsert⟩, -⟩ := hall emptyBloomBytes { bits := [], numHashes := 1, count := 0 } rfl []
  rw [insert_panics rfl (by decide)] at hinsert
  exact absurd hinsert (by simp)

end Kkdb
