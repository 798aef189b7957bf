import Kkdb.Lib.Bytes
import Mathlib.Algebra.BigOperators.Group.Finset.Basic
import Mathlib.Algebra.GroupWithZero.Nat
import Mathlib.Algebra.Order.BigOperators.Group.Finset
import Mathlib.Data.List.InsertIdx
import Mathlib.Order.Interval.Finset.Nat

namespace Lib

theorem insertIdx_append_length {α : Type} (pre post : List α) (x : α) :
    (pre ++ post).insertIdx pre.length x = pre ++ x :: post := by
  induction pre with
  | nil => rfl
  | cons y pre ih => rw [List.cons_append, List.length_cons, List.insertIdx_succ_cons, ih]; rfl

section Slotted

variable {n : Nat}

def Apart (s t : Nat × List UInt8) : Prop := s.1 + s.2.length ≤ t.1 ∨ t.1 + t.2.length ≤ s.1

-- Whether cells are apart depends on their offsets and lengths only.
theorem pairwise_apart_of_shape {slots slots' : List (Nat × List UInt8)}
    (hshape : slots'.map (fun s => (s.1, s.2.length)) = slots.map fun s => (s.1, s.2.length))
    (h : slots.Pairwise Apart) : slots'.Pairwise Apart := by
  have hmap := List.pairwise_map (f := fun s : Nat × List UInt8 => (s.1, s.2.length))
    (R := fun a b => a.1 + a.2 ≤ b.1 ∨ b.1 + b.2 ≤ a.1) (l := slots)
  have hmap' := List.pairwise_map (f := fun s : Nat × List UInt8 => (s.1, s.2.length))
    (R := fun a b => a.1 + a.2 ≤ b.1 ∨ b.1 + b.2 ≤ a.1) (l := slots')
  exact hmap'.mp (hshape ▸ hmap.mpr h)

theorem Apart.symm {s t : Nat × List UInt8} (h : Apart s t) : Apart t s := Or.symm h

-- A slotted page: an array of two-byte pointers from `hdr` on, and above `lo` the cells they
-- point to. A slot is the offset of a cell and its bytes.
structure Slotted (hdr lo : Nat) (b : Buf n) (slots : List (Nat × List UInt8)) : Prop where
  array : hdr + 2 * slots.length ≤ lo
  lo_le : lo ≤ n
  small : n < 65536
  pointer : ∀ i (h : i < slots.length), b.u16 (hdr + 2 * i) = slots[i].1
  above : ∀ s ∈ slots, lo ≤ s.1
  within : ∀ s ∈ slots, s.1 + s.2.length ≤ n
  cell : ∀ s ∈ slots, b.slice s.1 s.2.length = s.2
  disjoint : slots.Pairwise Apart

variable {hdr lo : Nat} {b b' : Buf n} {slots : List (Nat × List UInt8)}

theorem slotted_nil (hlo : hdr ≤ lo) (hn : lo ≤ n) (hsmall : n < 65536) :
    Slotted hdr lo b [] where
  array := hlo
  lo_le := hn
  small := hsmall
  pointer := fun i h => absurd h (Nat.not_lt_zero i)
  above := fun _ h => absurd h List.not_mem_nil
  within := fun _ h => absurd h List.not_mem_nil
  cell := fun _ h => absurd h List.not_mem_nil
  disjoint := List.Pairwise.nil

-- Only the pointer array and what lies above `lo` matter.
theorem Slotted.congr (h : Slotted hdr lo b slots)
    (harray : ∀ i, hdr ≤ i → i < hdr + 2 * slots.length → b'.byte i = b.byte i)
    (habove : ∀ i, lo ≤ i → i < n → b'.byte i = b.byte i) : Slotted hdr lo b' slots := by
  refine ⟨h.array, h.lo_le, h.small, ?_, h.above, h.within, ?_, h.disjoint⟩
  · intro i hi
    rw [← h.pointer i hi]
    exact Buf.u16_congr (harray _ (by omega) (by omega)) (harray _ (by omega) (by omega))
  · intro s hs
    have habove' := h.above s hs
    have hwithin := h.within s hs
    conv => rhs; rw [← h.cell s hs]
    exact Buf.slice_congr fun k hk => habove _ (by omega) (by omega)

-- Put a cell below the others and its pointer at place `idx`, shifting the later pointers up.
def putCell (hdr : Nat) (b : Buf n) (count idx new : Nat) (cell : List UInt8) : Buf n :=
  ((b.write new cell).move (hdr + 2 * idx) (hdr + 2 * (idx + 1)) (2 * (count - idx))).write
    (hdr + 2 * idx) (leBytes 2 new)

-- Take the pointer at place `idx` out, shifting the later pointers down.
def dropPointer (hdr : Nat) (b : Buf n) (count idx : Nat) : Buf n :=
  b.move (hdr + 2 * (idx + 1)) (hdr + 2 * idx) (2 * (count - 1 - idx))

section Put

variable {count idx new : Nat} {cell : List UInt8}

theorem byte_putCell_of_header (hnew : hdr + 2 * (count + 1) ≤ new) (hidx : idx ≤ count)
    (hfit : new + cell.length ≤ n) {i : Nat} (hi : i < hdr) :
    (putCell hdr b count idx new cell).byte i = b.byte i := by
  rw [putCell, Buf.byte_write_of_notMem _ _ _ (by omega), Buf.byte_move _ (by omega),
    if_neg (by omega), Buf.byte_write_of_notMem _ _ _ (by omega)]

theorem byte_putCell_of_above (hnew : hdr + 2 * (count + 1) ≤ new) (hidx : idx ≤ count)
    (hfit : new + cell.length ≤ n) {i : Nat} (hi : new + cell.length ≤ i) :
    (putCell hdr b count idx new cell).byte i = b.byte i := by
  rw [putCell, Buf.byte_write_of_notMem _ _ _ (by simp; omega), Buf.byte_move _ (by omega),
    if_neg (by omega), Buf.byte_write_of_notMem _ _ _ (by omega)]

theorem slice_putCell_new (hnew : hdr + 2 * (count + 1) ≤ new) (hidx : idx ≤ count)
    (hfit : new + cell.length ≤ n) :
    (putCell hdr b count idx new cell).slice new cell.length = cell := by
  have h : (putCell hdr b count idx new cell).slice new cell.length =
      (b.write new cell).slice new cell.length := by
    apply Buf.slice_congr
    intro i hi
    rw [putCell, Buf.byte_write_of_notMem _ _ _ (by simp; omega), Buf.byte_move _ (by omega),
      if_neg (by omega)]
  rw [h, Buf.slice_write_same _ _ _ hfit]

theorem u16_putCell (hnew : hdr + 2 * (count + 1) ≤ new) (hidx : idx ≤ count)
    (hfit : new + cell.length ≤ n) (hsmall : n < 65536) {i : Nat} (hi : i < count + 1) :
    (putCell hdr b count idx new cell).u16 (hdr + 2 * i) =
      if i < idx then b.u16 (hdr + 2 * i) else if i = idx then new else b.u16 (hdr + 2 * (i - 1)) := by
  have hbelow : ∀ k, k < new → (b.write new cell).byte k = b.byte k := fun k hk =>
    Buf.byte_write_of_notMem _ _ _ (by omega)
  split_ifs with hlt heq
  · rw [putCell, Buf.u16_write_of_disjoint _ (by omega)]
    apply Buf.u16_congr
    · rw [Buf.byte_move _ (by omega), if_neg (by omega), hbelow _ (by omega)]
    · rw [Buf.byte_move _ (by omega), if_neg (by omega), hbelow _ (by omega)]
  · rw [putCell, heq, Buf.u16_write_same _ (by omega) (by omega)]
  · rw [putCell, Buf.u16_write_of_disjoint _ (by simp; omega)]
    apply Buf.u16_congr
    · rw [Buf.byte_move _ (by omega), if_pos (by omega), hbelow _ (by omega)]
      congr 1
      omega
    · rw [Buf.byte_move _ (by omega), if_pos (by omega), hbelow _ (by omega)]
      congr 1
      omega

end Put

theorem Slotted.put (h : Slotted hdr lo b slots) {idx new : Nat} {cell : List UInt8}
    (hidx : idx ≤ slots.length) (hlo : new + cell.length = lo)
    (hroom : hdr + 2 * (slots.length + 1) ≤ new) :
    Slotted hdr new (putCell hdr b slots.length idx new cell)
      (slots.insertIdx idx (new, cell)) := by
  have hn := h.lo_le
  have hlen : (slots.insertIdx idx (new, cell)).length = slots.length + 1 :=
    List.length_insertIdx_of_le_length hidx _
  have hmem : ∀ s, s ∈ slots.insertIdx idx (new, cell) → s = (new, cell) ∨ s ∈ slots := fun s hs =>
    (List.mem_insertIdx hidx).mp hs
  refine ⟨by rw [hlen]; exact hroom, by omega, h.small, ?_, ?_, ?_, ?_, ?_⟩
  · intro i hi
    rw [u16_putCell hroom hidx (by omega) h.small (by omega), List.getElem_insertIdx]
    split_ifs with hlt heq
    · exact h.pointer i (by omega)
    · rfl
    · exact h.pointer (i - 1) (by omega)
  · intro s hs
    rcases hmem s hs with rfl | hs
    · exact Nat.le_refl _
    · have := h.above s hs
      omega
  · intro s hs
    rcases hmem s hs with rfl | hs
    · show new + cell.length ≤ n
      omega
    · exact h.within s hs
  · intro s hs
    rcases hmem s hs with rfl | hs
    · exact slice_putCell_new hroom hidx (by omega)
    · have habove := h.above s hs
      conv => rhs; rw [← h.cell s hs]
      exact Buf.slice_congr fun k hk => byte_putCell_of_above hroom hidx (by omega) (by omega)
  · rw [(List.perm_insertIdx (new, cell) slots hidx).pairwise_iff fun hst => hst.symm]
    refine List.pairwise_cons.mpr ⟨fun s hs => .inl ?_, h.disjoint⟩
    have := h.above s hs
    show new + cell.length ≤ s.1
    omega

theorem byte_dropPointer {count idx : Nat} (hidx : idx < count) (hfit : hdr + 2 * count ≤ n) (i : Nat) :
    (dropPointer hdr b count idx).byte i =
      if hdr + 2 * idx ≤ i ∧ i < hdr + 2 * (count - 1) then b.byte (i + 2) else b.byte i := by
  rw [dropPointer, Buf.byte_move _ (by omega)]
  by_cases h : hdr + 2 * idx ≤ i ∧ i < hdr + 2 * (count - 1)
  · rw [if_pos (by omega), if_pos h]
    congr 1
    omega
  · rw [if_neg (by omega), if_neg h]

theorem Slotted.drop (h : Slotted hdr lo b slots) {idx : Nat} (hidx : idx < slots.length) :
    Slotted hdr lo (dropPointer hdr b slots.length idx) (slots.eraseIdx idx) := by
  have hn := h.lo_le
  have harray := h.array
  have hlen : (slots.eraseIdx idx).length = slots.length - 1 := List.length_eraseIdx_of_lt hidx
  have hmem : ∀ s, s ∈ slots.eraseIdx idx → s ∈ slots := fun s hs => List.mem_of_mem_eraseIdx hs
  have hbyte := fun i => byte_dropPointer (b := b) hidx (by omega : hdr + 2 * slots.length ≤ n) i
  refine ⟨by omega, hn, h.small, ?_, fun s hs => h.above s (hmem s hs),
    fun s hs => h.within s (hmem s hs), ?_, h.disjoint.sublist (List.eraseIdx_sublist slots idx)⟩
  · intro i hi
    rw [List.getElem_eraseIdx]
    split_ifs with hlt
    · rw [← h.pointer i (by omega)]
      apply Buf.u16_congr
      · rw [hbyte, if_neg (by omega)]
      · rw [hbyte, if_neg (by omega)]
    · rw [← h.pointer (i + 1) (by omega)]
      apply Buf.u16_congr
      · rw [hbyte, if_pos (by omega)]
        congr 1
      · rw [hbyte, if_pos (by omega)]
        congr 1
  · intro s hs
    have habove := h.above s (hmem s hs)
    conv => rhs; rw [← h.cell s (hmem s hs)]
    apply Buf.slice_congr
    intro k hk
    rw [hbyte, if_neg (by omega)]

theorem Slotted.patch (h : Slotted hdr lo b slots) {idx off : Nat} {bs cell : List UInt8}
    (hget : slots[idx]? = some (off, cell)) (hbs : bs.length ≤ cell.length) :
    Slotted hdr lo (b.write off bs) (slots.set idx (off, bs ++ cell.drop bs.length)) := by
  obtain ⟨hidx, hslot⟩ := List.getElem?_eq_some_iff.mp hget
  have hin : (off, cell) ∈ slots := List.mem_of_getElem? hget
  have habove := h.above _ hin
  have hwithin := h.within _ hin
  have harray := h.array
  have hlen : (bs ++ cell.drop bs.length).length = cell.length := by
    simp only [List.length_append, List.length_drop]
    omega
  have hmem : ∀ s ∈ slots.set idx (off, bs ++ cell.drop bs.length),
      s = (off, bs ++ cell.drop bs.length) ∨ s ∈ slots := fun s hs =>
    (List.mem_or_eq_of_mem_set hs).symm
  simp only at habove hwithin
  refine ⟨by rw [List.length_set]; exact harray, h.lo_le, h.small, ?_, ?_, ?_, ?_, ?_⟩
  · intro i hi
    rw [List.length_set] at hi
    rw [Buf.u16_write_of_disjoint _ (by omega), h.pointer i hi, List.getElem_set]
    split_ifs with heq
    · subst heq
      rw [hslot]
    · rfl
  · intro s hs
    rcases hmem s hs with rfl | hs
    · exact habove
    · exact h.above s hs
  · intro s hs
    rcases hmem s hs with rfl | hs
    · simp only [hlen]
      exact hwithin
    · exact h.within s hs
  · intro s hs
    obtain ⟨j, hj, rfl⟩ := List.getElem_of_mem hs
    rw [List.length_set] at hj
    rw [List.getElem_set]
    split_ifs with heq
    · simp only
      rw [hlen, show cell.length = bs.length + (cell.length - bs.length) by omega, Buf.slice_add,
        Buf.slice_write_same _ _ _ (by omega), Buf.slice_write_of_disjoint _ (by omega)]
      have hcell := h.cell _ hin
      simp only at hcell
      have hsub := Buf.drop_take_slice b off cell.length bs.length (cell.length - bs.length) (by omega)
      rw [hcell, List.take_of_length_le (by simp)] at hsub
      rw [← hsub]
    · have hapart : Apart (off, cell) slots[j] := by
        rw [← hslot]
        rcases Nat.lt_or_gt_of_ne heq with hlt | hlt
        · exact List.pairwise_iff_getElem.mp h.disjoint idx j hidx hj hlt
        · exact (List.pairwise_iff_getElem.mp h.disjoint j idx hj hidx hlt).symm
      have hcell := h.cell _ (List.getElem_mem hj)
      have hsep : slots[j].1 + slots[j].2.length ≤ off ∨ off + bs.length ≤ slots[j].1 := by
        rcases hapart with hle | hle
        · simp only at hle
          omega
        · simp only at hle
          omega
      rw [Buf.slice_write_of_disjoint _ hsep]
      exact hcell
  · have hshape : (slots.set idx (off, bs ++ cell.drop bs.length)).map (fun s => (s.1, s.2.length)) =
        slots.map fun s => (s.1, s.2.length) := by
      rw [List.map_set, hlen]
      have hidx' : idx < (slots.map fun s => (s.1, s.2.length)).length := by simpa using hidx
      have hsame := List.set_getElem_self hidx'
      rw [List.getElem_map, hslot] at hsame
      exact hsame
    exact pairwise_apart_of_shape hshape h.disjoint

end Slotted

end Lib

namespace Lib

-- Intervals that lie apart between two bounds are together no longer than the way between the bounds.
theorem sum_apart_le {place size : Nat → Nat} {count lo hi : Nat}
    (hin : ∀ i < count, lo ≤ place i ∧ place i + size i ≤ hi)
    (hapart : ∀ i < count, ∀ j < i, place j + size j ≤ place i ∨ place i + size i ≤ place j) :
    ∑ i ∈ Finset.range count, size i ≤ hi - lo := by
  have hdisjoint : ∀ i ∈ Finset.range count, ∀ j ∈ Finset.range count, i ≠ j →
      Disjoint (Finset.Ico (place i) (place i + size i)) (Finset.Ico (place j) (place j + size j)) := by
    intro i hi' j hj' hne
    rw [Finset.mem_range] at hi' hj'
    refine Finset.disjoint_left.mpr fun k hk hk' => ?_
    rw [Finset.mem_Ico] at hk hk'
    rcases Nat.lt_or_gt_of_ne hne with hlt | hlt
    · have := hapart j hj' i hlt
      omega
    · have := hapart i hi' j hlt
      omega
  have hsub : (Finset.range count).biUnion (fun i => Finset.Ico (place i) (place i + size i)) ⊆
      Finset.Ico lo hi := by
    intro k hk
    obtain ⟨i, hi', hk⟩ := Finset.mem_biUnion.mp hk
    have := hin i (Finset.mem_range.mp hi')
    rw [Finset.mem_Ico] at hk ⊢
    omega
  have hcard := Finset.card_le_card hsub
  rw [Finset.card_biUnion hdisjoint, Nat.card_Ico] at hcard
  simpa using hcard

section Packed

variable {n hdr lo top i : Nat} {b : Buf n} {slots : List (Nat × List UInt8)} {cells : List (List UInt8)}

theorem Buf.move_zero (b : Buf n) (src dst : Nat) : b.move src dst 0 = b := by
  refine Buf.ext_byte fun i _ => ?_
  by_cases hle : dst ≤ n
  · rw [Buf.byte_move _ (by omega), if_neg (by omega)]
  · rw [Buf.move, Buf.byte_write_of_notMem _ _ _ (by omega)]

theorem Slotted.append (h : Slotted hdr lo b slots) {new : Nat} {cell : List UInt8}
    (hlo : new + cell.length = lo) (hroom : hdr + 2 * (slots.length + 1) ≤ new) :
    Slotted hdr new ((b.write new cell).write (hdr + 2 * slots.length) (leBytes 2 new))
      (slots ++ [(new, cell)]) := by
  have hput := h.put (Nat.le_refl _) hlo hroom
  rwa [List.insertIdx_length_self, putCell, Nat.sub_self, Nat.mul_zero, Buf.move_zero] at hput

-- Cells that lie one below the other, the first of them below `top`.
def packed (top : Nat) : List (List UInt8) → List (Nat × List UInt8)
  | [] => []
  | cell :: cells => (top - cell.length, cell) :: packed (top - cell.length) cells

def totalLength (cells : List (List UInt8)) : Nat := (cells.map List.length).sum

@[simp] theorem totalLength_nil : totalLength [] = 0 := rfl

@[simp] theorem totalLength_cons (cell : List UInt8) :
    totalLength (cell :: cells) = cell.length + totalLength cells := rfl

@[simp] theorem map_snd_packed (top : Nat) (cells : List (List UInt8)) :
    (packed top cells).map Prod.snd = cells := by
  induction cells generalizing top with
  | nil => rfl
  | cons cell cells ih => rw [packed, List.map_cons, ih]

@[simp] theorem length_packed (top : Nat) (cells : List (List UInt8)) :
    (packed top cells).length = cells.length := by
  rw [← List.length_map (f := Prod.snd), map_snd_packed]

theorem totalLength_map_range (f : Nat → List UInt8) (count : Nat) :
    totalLength ((List.range count).map f) = ∑ i ∈ Finset.range count, (f i).length := by
  rw [totalLength, List.map_map]
  rfl

theorem packed_zero {slot : Nat × List UInt8} (hfit : totalLength cells ≤ top)
    (hget : (packed top cells)[0]? = some slot) : slot.1 + slot.2.length = top := by
  cases cells with
  | nil => cases hget
  | cons cell cells =>
      obtain rfl := Option.some.inj hget
      rw [totalLength_cons] at hfit
      show top - cell.length + cell.length = top
      omega

theorem packed_succ {slot slot' : Nat × List UInt8} (hfit : totalLength cells ≤ top)
    (hget : (packed top cells)[i]? = some slot) (hget' : (packed top cells)[i + 1]? = some slot') :
    slot'.1 + slot'.2.length = slot.1 := by
  induction cells generalizing top i with
  | nil => cases hget
  | cons cell cells ih =>
      rw [totalLength_cons] at hfit
      rw [packed, List.getElem?_cons_succ] at hget'
      cases i with
      | zero =>
          obtain rfl := Option.some.inj hget
          exact packed_zero (by omega) hget'
      | succ i =>
          rw [packed, List.getElem?_cons_succ] at hget
          exact ih (by omega) hget hget'

end Packed

end Lib
