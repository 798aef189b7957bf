import Mathlib.Algebra.Group.Nat.Defs
import Mathlib.Data.List.GetD
import Mathlib.Data.List.OfFn

namespace Lib

-- Little-endian encoding of a number on a fixed count of bytes. Digits beyond
-- the count are dropped, as a machine integer of that width drops them.
def leBytes : Nat → Nat → List UInt8
  | 0, _ => []
  | width + 1, value => UInt8.ofNat value :: leBytes width (value / 256)

def leNat : List UInt8 → Nat
  | [] => 0
  | b :: bs => b.toNat + 256 * leNat bs

@[simp] theorem length_leBytes (width value : Nat) : (leBytes width value).length = width := by
  induction width generalizing value with
  | zero => rfl
  | succ width ih => simp [leBytes, ih]

theorem leNat_lt (bs : List UInt8) : leNat bs < 256 ^ bs.length := by
  induction bs with
  | nil => simp [leNat]
  | cons b bs ih =>
      have hb := b.toNat_lt
      simp only [leNat, List.length_cons, Nat.pow_succ]
      omega

theorem leNat_leBytes (width value : Nat) : leNat (leBytes width value) = value % 256 ^ width := by
  induction width generalizing value with
  | zero => simp [leBytes, leNat, Nat.mod_one]
  | succ width ih =>
      simp only [leBytes, leNat, ih, UInt8.toNat_ofNat']
      rw [Nat.pow_succ 256, Nat.mul_comm (256 ^ width) 256, Nat.mod_mul]

theorem leNat_leBytes_of_lt {width value : Nat} (h : value < 256 ^ width) :
    leNat (leBytes width value) = value := by
  rw [leNat_leBytes, Nat.mod_eq_of_lt h]

theorem leBytes_leNat (bs : List UInt8) : leBytes bs.length (leNat bs) = bs := by
  induction bs with
  | nil => rfl
  | cons b bs ih =>
      have hb := b.toNat_lt
      have hdiv : (b.toNat + 256 * leNat bs) / 256 = leNat bs := by omega
      have hmod : UInt8.ofNat (b.toNat + 256 * leNat bs) = b := by
        apply UInt8.toNat_inj.mp
        rw [UInt8.toNat_ofNat']
        omega
      simp only [List.length_cons, leBytes, leNat, hdiv, hmod, ih]

-- A buffer of fixed size. Reads beyond the end give zero; the code that may
-- reach beyond the end checks its bounds before it reads.
def Buf (n : Nat) := Fin n → UInt8

namespace Buf

variable {n : Nat}

def zero : Buf n := fun _ => 0

def byte (b : Buf n) (i : Nat) : UInt8 := if h : i < n then b ⟨i, h⟩ else 0

def slice (b : Buf n) (off len : Nat) : List UInt8 :=
  (List.range len).map fun i => b.byte (off + i)

def write (b : Buf n) (off : Nat) (bs : List UInt8) : Buf n :=
  fun i => if off ≤ i.val ∧ i.val < off + bs.length then bs.getD (i.val - off) 0 else b i

-- Overlapping copy of `len` bytes from `src` to `dst`, as `memmove` does it.
def move (b : Buf n) (src dst len : Nat) : Buf n :=
  b.write dst (b.slice src len)

def ofList (bs : List UInt8) : Buf n := fun i => bs.getD i.val 0

def toList (b : Buf n) : List UInt8 := b.slice 0 n

def u16 (b : Buf n) (off : Nat) : Nat := leNat (b.slice off 2)

def u32 (b : Buf n) (off : Nat) : Nat := leNat (b.slice off 4)

def u64 (b : Buf n) (off : Nat) : Nat := leNat (b.slice off 8)

theorem ext_byte {a b : Buf n} (h : ∀ i, i < n → a.byte i = b.byte i) : a = b := by
  funext i
  simpa [byte, i.isLt] using h i.val i.isLt

theorem byte_write (b : Buf n) {off : Nat} {bs : List UInt8} (hfit : off + bs.length ≤ n)
    (i : Nat) : (b.write off bs).byte i =
      if off ≤ i ∧ i < off + bs.length then bs.getD (i - off) 0 else b.byte i := by
  by_cases hi : i < n
  · simp [byte, write, hi]
  · simp [byte, hi, show ¬i < off + bs.length by omega]

theorem byte_write_of_notMem (b : Buf n) (off : Nat) (bs : List UInt8) {i : Nat}
    (h : i < off ∨ off + bs.length ≤ i) : (b.write off bs).byte i = b.byte i := by
  by_cases hi : i < n
  · simp only [byte, write, hi, dite_true]
    rw [if_neg (by omega)]
  · simp [byte, hi]

@[simp] theorem length_slice (b : Buf n) (off len : Nat) : (b.slice off len).length = len := by
  simp [slice]

theorem getElem_slice (b : Buf n) (off len i : Nat) (h : i < (b.slice off len).length) :
    (b.slice off len)[i] = b.byte (off + i) := by
  simp [slice]

theorem getD_slice (b : Buf n) (off len i : Nat) (h : i < len) :
    (b.slice off len).getD i 0 = b.byte (off + i) := by
  rw [List.getD_eq_getElem _ _ (by simpa using h), getElem_slice]

theorem slice_congr {a b : Buf n} {off len off' : Nat}
    (h : ∀ i, i < len → a.byte (off + i) = b.byte (off' + i)) :
    a.slice off len = b.slice off' len := by
  simp only [slice, List.map_inj_left, List.mem_range]
  exact h

theorem slice_add (b : Buf n) (off len len' : Nat) :
    b.slice off (len + len') = b.slice off len ++ b.slice (off + len) len' := by
  simp [slice, List.range_add, Nat.add_assoc, Function.comp_def]

theorem drop_take_slice (b : Buf n) (off len a l : Nat) (h : a + l ≤ len) :
    ((b.slice off len).drop a).take l = b.slice (off + a) l := by
  apply List.ext_getElem
  · simp; omega
  · intro i _ _
    simp [slice, Nat.add_assoc]

theorem slice_write_same (b : Buf n) (off : Nat) (bs : List UInt8) (hfit : off + bs.length ≤ n) :
    (b.write off bs).slice off bs.length = bs := by
  apply List.ext_getElem
  · simp
  · intro i _ hi
    rw [getElem_slice, byte_write b hfit, if_pos (by omega), Nat.add_sub_cancel_left,
      List.getD_eq_getElem]

theorem slice_write_of_disjoint (b : Buf n) {off o len : Nat} {bs : List UInt8}
    (h : o + len ≤ off ∨ off + bs.length ≤ o) :
    (b.write off bs).slice o len = b.slice o len := by
  apply slice_congr
  intro i hi
  exact byte_write_of_notMem b off bs (by omega)

theorem byte_move (b : Buf n) {src dst len : Nat} (hfit : dst + len ≤ n) (i : Nat) :
    (b.move src dst len).byte i =
      if dst ≤ i ∧ i < dst + len then b.byte (src + (i - dst)) else b.byte i := by
  rw [move, byte_write b (by simpa using hfit), length_slice]
  split_ifs with h
  · rw [getD_slice _ _ _ _ (by omega)]
  · rfl

theorem u32_lt (b : Buf n) (off : Nat) : b.u32 off < 4294967296 := by
  have h := leNat_lt (b.slice off 4)
  simpa [u32] using h

theorem u16_congr {a b : Buf n} {off off' : Nat} (h₀ : a.byte off = b.byte off')
    (h₁ : a.byte (off + 1) = b.byte (off' + 1)) : a.u16 off = b.u16 off' := by
  unfold u16
  congr 1
  apply slice_congr
  intro i hi
  obtain rfl | rfl : i = 0 ∨ i = 1 := by omega
  · exact h₀
  · exact h₁

theorem u16_write_same (b : Buf n) {off v : Nat} (hfit : off + 2 ≤ n) (hv : v < 65536) :
    (b.write off (leBytes 2 v)).u16 off = v := by
  have h := slice_write_same b off (leBytes 2 v) (by simpa using hfit)
  rw [length_leBytes] at h
  rw [u16, h, leNat_leBytes_of_lt (by simpa using hv)]

theorem u16_write_of_disjoint (b : Buf n) {off o : Nat} {bs : List UInt8}
    (h : o + 2 ≤ off ∨ off + bs.length ≤ o) : (b.write off bs).u16 o = b.u16 o := by
  rw [u16, slice_write_of_disjoint b h, u16]

theorem u32_write_same (b : Buf n) {off v : Nat} (hfit : off + 4 ≤ n) (hv : v < 4294967296) :
    (b.write off (leBytes 4 v)).u32 off = v := by
  have h := slice_write_same b off (leBytes 4 v) (by simpa using hfit)
  rw [length_leBytes] at h
  rw [u32, h, leNat_leBytes_of_lt (by simpa using hv)]

theorem u32_write_of_disjoint (b : Buf n) {off o : Nat} {bs : List UInt8}
    (h : o + 4 ≤ off ∨ off + bs.length ≤ o) : (b.write off bs).u32 o = b.u32 o := by
  rw [u32, slice_write_of_disjoint b h, u32]

theorem byte_ofList (bs : List UInt8) {i : Nat} (h : i < n) :
    (ofList bs : Buf n).byte i = bs.getD i 0 := by
  simp [byte, ofList, h]

theorem slice_ofList {bs : List UInt8} {off len : Nat} (h : off + len ≤ n)
    (hb : off + len ≤ bs.length) : (ofList bs : Buf n).slice off len = (bs.drop off).take len := by
  apply List.ext_getElem
  · simp; omega
  · intro i h₁ h₂
    have hi : i < len := by simpa using h₁
    rw [getElem_slice]
    simp only [byte, ofList, show off + i < n by omega, dite_true, List.getElem_take,
      List.getElem_drop]
    rw [List.getD_eq_getElem _ _ (by omega)]

@[simp] theorem length_toList (b : Buf n) : b.toList.length = n := by
  simp [toList]

theorem ofList_toList (b : Buf n) : (ofList b.toList : Buf n) = b := by
  funext i
  rw [ofList, toList, getD_slice _ _ _ _ i.isLt]
  simp [byte]

end Buf

end Lib
