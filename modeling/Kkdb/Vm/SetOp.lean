import Kkdb.Lib.Copies
import Kkdb.Sql.Ast
import Kkdb.Types.Row

namespace Kkdb.Vm

open Lib Varint

-- `row_key`. The length of a value is cut down to its low 32 bits.
def rowKey (row : Row) : List UInt8 := row.flatMap fun v => leBytes 4 v.serialize.length ++ v.serialize

-- The rows of `exec_set_op` before its ORDER BY and LIMIT.
def setOpRows (kind : SetOpKind) (leftRows rightRows : List Row) : List Row :=
  match kind with
  | .UnionAll => leftRows ++ rightRows
  | .UnionDistinct => keepFirst (fun _ => true) rowKey [] (leftRows ++ rightRows)
  | .IntersectAll => takeCounted rowKey (countKeys rowKey rightRows) leftRows
  | .IntersectDistinct => keepFirst (fun k => k ∈ rightRows.map rowKey) rowKey [] leftRows
  | .ExceptAll => dropCounted rowKey (countKeys rowKey rightRows) leftRows
  | .ExceptDistinct => keepFirst (fun k => k ∉ rightRows.map rowKey) rowKey [] leftRows

-- The values that fit in memory: no allocation is of 2^63 bytes or more.
def Fits : Value → Prop
  | .Text v => (textBytes v).length < 2 ^ 63
  | .Blob v => v.length < 2 ^ 63
  | _ => True

section Key

variable {v w : Value} {a b : List UInt8} {row other : Row}

theorem writeVarintU64_append_inj {m n : UInt64} (h : writeVarintU64 m ++ a = writeVarintU64 n ++ b) :
    m = n ∧ a = b := by
  have hread := readVarintU64_write m a
  rw [h, readVarintU64_write n b] at hread
  have hval := congrArg Prod.fst (Except.ok.inj hread)
  obtain rfl : n = m := UInt64.toNat_inj.mp hval
  exact ⟨rfl, List.append_cancel_left h⟩

theorem lengthPrefixed_inj {bytes other : List UInt8} (hbytes : bytes.length < 2 ^ 63)
    (hother : other.length < 2 ^ 63)
    (h : writeVarintU64 (UInt64.ofNat bytes.length) ++ bytes ++ a =
      writeVarintU64 (UInt64.ofNat other.length) ++ other ++ b) : bytes = other ∧ a = b := by
  rw [List.append_assoc, List.append_assoc] at h
  obtain ⟨hlen, hrest⟩ := writeVarintU64_append_inj h
  have hnat := congrArg UInt64.toNat hlen
  rw [UInt64.toNat_ofNat', UInt64.toNat_ofNat'] at hnat
  exact List.append_inj hrest (by omega)

theorem serialize_append_inj (hv : Fits v) (hw : Fits w) (h : v.serialize ++ a = w.serialize ++ b) :
    v = w ∧ a = b := by
  cases v <;> cases w
  case Null.Null => exact ⟨rfl, (List.cons.inj h).2⟩
  case Integer.Integer m n =>
      obtain ⟨henc, hrest⟩ := writeVarintU64_append_inj (List.cons.inj h).2
      have hdec := congrArg zigzagDecode henc
      rw [zigzagDecode_encode, zigzagDecode_encode] at hdec
      exact ⟨congrArg _ hdec, hrest⟩
  case Real.Real m n =>
      obtain ⟨hbytes, hrest⟩ := List.append_inj (List.cons.inj h).2
        ((length_leBytes 8 m.toNat).trans (length_leBytes 8 n.toNat).symm)
      have hnat := congrArg leNat hbytes
      rw [leNat_leBytes_of_lt (show m.toNat < 256 ^ 8 from m.toNat_lt),
        leNat_leBytes_of_lt (show n.toNat < 256 ^ 8 from n.toNat_lt)] at hnat
      exact ⟨congrArg _ (UInt64.toNat_inj.mp hnat), hrest⟩
  case Text.Text m n =>
      obtain ⟨hbytes, hrest⟩ := lengthPrefixed_inj hv hw (List.cons.inj h).2
      exact ⟨congrArg _ (textBytes_inj.mp hbytes), hrest⟩
  case Blob.Blob m n =>
      obtain ⟨hbytes, hrest⟩ := lengthPrefixed_inj hv hw (List.cons.inj h).2
      exact ⟨congrArg _ hbytes, hrest⟩
  all_goals exact absurd (List.cons.inj h).1 (by decide)

theorem serialize_ne_nil (v : Value) : v.serialize ≠ [] := by
  cases v <;> exact List.cons_ne_nil _ _

theorem rowKey_cons (v : Value) (row : Row) :
    rowKey (v :: row) = leBytes 4 v.serialize.length ++ (v.serialize ++ rowKey row) := by
  rw [rowKey, List.flatMap_cons, List.append_assoc]
  rfl

theorem rowKey_cons_ne_nil (v : Value) (row : Row) : rowKey (v :: row) ≠ [] := by
  intro h
  rw [rowKey_cons] at h
  exact serialize_ne_nil v (List.append_eq_nil_iff.mp (List.append_eq_nil_iff.mp h).2).1

-- The bytes of a value say where they end, so the key needs no whole length.
theorem rowKey_inj (hrow : ∀ v ∈ row, Fits v) (hother : ∀ v ∈ other, Fits v) (h : rowKey row = rowKey other) :
    row = other := by
  induction row generalizing other with
  | nil =>
      cases other with
      | nil => rfl
      | cons w other => exact absurd h.symm (rowKey_cons_ne_nil w other)
  | cons v row ih =>
      cases other with
      | nil => exact absurd h (rowKey_cons_ne_nil v row)
      | cons w other =>
          rw [rowKey_cons, rowKey_cons] at h
          have hrest := (List.append_inj h ((length_leBytes 4 _).trans (length_leBytes 4 _).symm)).2
          obtain ⟨rfl, hkeys⟩ := serialize_append_inj (hrow v List.mem_cons_self)
              (hother w List.mem_cons_self) hrest
          rw [ih (fun x hx => hrow x (List.mem_cons_of_mem v hx))
            (fun x hx => hother x (List.mem_cons_of_mem v hx)) hkeys]

def fitting : Set Row := {row | ∀ v ∈ row, Fits v}

theorem injOn_rowKey : Set.InjOn rowKey fitting := fun _ hrow _ hother h => rowKey_inj hrow hother h

end Key

-- The number of copies that SQL gives a row with l copies on the left and r on the right.
def copies : SetOpKind → Nat → Nat → Nat
  | .UnionAll, l, r => l + r
  | .UnionDistinct, l, r => min 1 (l + r)
  | .IntersectAll, l, r => min l r
  | .IntersectDistinct, l, r => min 1 (min l r)
  | .ExceptAll, l, r => l - r
  | .ExceptDistinct, l, r => if r = 0 then min 1 l else 0

def scanned : SetOpKind → List Row → List Row → List Row
  | .UnionAll, left, right | .UnionDistinct, left, right => left ++ right
  | _, left, _ => left

def wanted (kind : SetOpKind) (right : List Row) (row : Row) (n : Nat) : Bool :=
  match kind with
  | .UnionAll => true
  | .UnionDistinct => n == 0
  | .IntersectAll => n < right.count row
  | .IntersectDistinct => decide (row ∈ right) && n == 0
  | .ExceptAll => right.count row ≤ n
  | .ExceptDistinct => decide (row ∉ right) && n == 0

section Rows

variable {left right : List Row} {row : Row}

theorem mem_map_rowKey (hright : ∀ row ∈ right, row ∈ fitting) (hrow : row ∈ fitting) :
    rowKey row ∈ right.map rowKey ↔ row ∈ right := by
  constructor
  · intro h
    obtain ⟨other, hother, hkey⟩ := List.mem_map.mp h
    rw [← injOn_rowKey (hright other hother) hrow hkey]
    exact hother
  · exact List.mem_map_of_mem

theorem setOpRows_eq (kind : SetOpKind) (hleft : ∀ row ∈ left, row ∈ fitting) (hright : ∀ row ∈ right,
    row ∈ fitting) :
    setOpRows kind left right = keepCopies (wanted kind right) [] (scanned kind left right) := by
  have hcounts := countsLeft_countKeys injOn_rowKey hright
  have hseen : ∀ (allowed : List UInt8 → Bool) (row : Row), row ∈ fitting → allowed (rowKey row) = true →
      (rowKey row ∈ ([] : List (List UInt8)) ↔ row ∈ ([] : List Row)) := fun _ _ _ _ =>
    iff_of_false List.not_mem_nil List.not_mem_nil
  cases kind with
  | UnionAll => exact (keepCopies_true [] _).symm
  | UnionDistinct =>
      have hall : ∀ row ∈ left ++ right, row ∈ fitting := fun row hrow =>
        (List.mem_append.mp hrow).elim (hleft row) (hright row)
      rw [setOpRows, keepFirst_eq injOn_rowKey _ hall (hseen _)]
      exact keepCopies_congr fun _ _ _ => Bool.true_and _
  | IntersectAll => exact takeCounted_eq injOn_rowKey hleft hcounts
  | IntersectDistinct =>
      rw [setOpRows, keepFirst_eq injOn_rowKey _ hleft (hseen _)]
      refine keepCopies_congr fun row hrow n => ?_
      rw [wanted, decide_eq_decide.mpr (mem_map_rowKey hright (hleft row hrow))]
  | ExceptAll => exact dropCounted_eq injOn_rowKey hleft hcounts
  | ExceptDistinct =>
      rw [setOpRows, keepFirst_eq injOn_rowKey _ hleft (hseen _)]
      refine keepCopies_congr fun row hrow n => ?_
      rw [wanted, decide_eq_decide.mpr (not_congr (mem_map_rowKey hright (hleft row hrow)))]

theorem count_wanted (kind : SetOpKind) (left right : List Row) (row : Row) :
    (keepCopies (wanted kind right) [] (scanned kind left right)).count row =
      copies kind (left.count row) (right.count row) := by
  rw [count_keepCopies]
  cases kind with
  | UnionAll =>
      change ((List.range ((left ++ right).count row)).countP fun _ => true) = left.count row + right.count row
      rw [List.countP_true, List.length_range, List.count_append]
  | UnionDistinct =>
      rw [scanned, List.count_append]
      exact countP_first _ true
  | IntersectAll => exact countP_lt _ _
  | IntersectDistinct =>
      refine (countP_first _ _).trans ?_
      change (if decide (row ∈ right) then min 1 (left.count row) else 0) =
          min 1 (min (left.count row) (right.count row))
      by_cases hrow : row ∈ right
      · have hpos := List.count_pos_iff.mpr hrow
        rw [if_pos (decide_eq_true hrow)]
        omega
      · rw [if_neg fun h => hrow (of_decide_eq_true h), List.count_eq_zero.mpr hrow]
        omega
  | ExceptAll => exact countP_ge _ _
  | ExceptDistinct =>
      refine (countP_first _ _).trans ?_
      change (if decide (row ∉ right) then min 1 (left.count row) else 0) = if right.count row = 0 then min 1
          (left.count row) else 0
      by_cases hrow : row ∈ right
      · rw [if_neg (by simpa using hrow), if_neg (List.count_pos_iff.mpr hrow).ne']
      · rw [if_pos (decide_eq_true hrow), if_pos (List.count_eq_zero.mpr hrow)]

theorem firsts_scanned (kind : SetOpKind) (left right : List Row) :
    (firsts (scanned kind left right)).Sublist (firsts (left ++ right)) := by
  cases kind with
  | UnionAll | UnionDistinct => exact List.Sublist.refl _
  | IntersectAll | IntersectDistinct | ExceptAll | ExceptDistinct =>
      exact (prefix_distinctBy id [] left right).sublist

-- Every operation but EXCEPT ALL keeps a later copy of a row only where it keeps the first one.
theorem wanted_first {kind : SetOpKind} (hkind : kind ≠ .ExceptAll) {n : Nat}
    (h : wanted kind right row n = true) :
    wanted kind right row 0 = true := by
  cases kind with
  | UnionAll | UnionDistinct => rfl
  | IntersectAll => exact decide_eq_true (Nat.lt_of_le_of_lt (Nat.zero_le n) (of_decide_eq_true h))
  | IntersectDistinct | ExceptDistinct => exact Bool.and_eq_true_iff.mpr ⟨(Bool.and_eq_true_iff.mp h).1, rfl⟩
  | ExceptAll => exact absurd rfl hkind

theorem setOpRows_multiset (kind : SetOpKind) (left right : List Row) (hleft : ∀ row ∈ left, row ∈ fitting)
    (hright : ∀ row ∈ right, row ∈ fitting) :
    (∀ row, (setOpRows kind left right).count row = copies kind (left.count row) (right.count row)) ∧
      (setOpRows kind left right).Sublist (left ++ right) ∧
      (kind ≠ .ExceptAll → (firsts (setOpRows kind left right)).Sublist (firsts (left ++ right))) ∧
      (kind = .ExceptAll →
        setOpRows kind left right = keepCopies (fun row n => right.count row ≤ n) [] left) ∧
      Set.InjOn rowKey fitting := by
  have hrows := setOpRows_eq kind hleft hright
  have hscanned : (scanned kind left right).Sublist (left ++ right) := by
    cases kind with
    | UnionAll | UnionDistinct => exact List.Sublist.refl _
    | IntersectAll | IntersectDistinct | ExceptAll | ExceptDistinct => exact List.sublist_append_left left right
  refine ⟨fun row => ?_, ?_, fun hkind => ?_, fun hkind => ?_, injOn_rowKey⟩
  · rw [hrows]
    exact count_wanted kind left right row
  · rw [hrows]
    exact (keepCopies_sublist _ _ _).trans hscanned
  · rw [hrows]
    exact (firsts_keepCopies (fun row n h => wanted_first hkind h) _).trans (firsts_scanned kind left right)
  · subst hkind
    exact hrows

theorem setOpRows_multiset_sample :
    (setOpRows .ExceptAll [[.Integer 1], [.Integer 2], [.Integer 1]] [[.Integer 1]]).count [.Integer 1] = 1 :=
  (setOpRows_multiset .ExceptAll [[.Integer 1], [.Integer 2], [.Integer 1]] [[.Integer 1]]
    (by simp [fitting, Fits]) (by simp [fitting, Fits])).1 [.Integer 1]

-- The first copies are the ones that EXCEPT ALL drops, so that the rows that first occurred in the order
-- 1, 2 come out as 2, 1.
theorem exceptAll_reorders :
    ¬∀ (kind : SetOpKind) (left right : List Row), (∀ row ∈ left, row ∈ fitting) →
      (∀ row ∈ right, row ∈ fitting) →
      (∀ row, (setOpRows kind left right).count row = copies kind (left.count row) (right.count row)) ∧
      (firsts (setOpRows kind left right)).Sublist (firsts (left ++ right)) ∧ Set.InjOn rowKey fitting := by
  intro h
  have hrows : setOpRows .ExceptAll [[.Integer 1], [.Integer 2], [.Integer 1]] [[.Integer 1]] =
      [[.Integer 2], [.Integer 1]] := by decide
  have hbad := (h .ExceptAll [[.Integer 1], [.Integer 2], [.Integer 1]] [[.Integer 1]]
    (by simp [fitting, Fits]) (by simp [fitting, Fits])).2.1
  rw [hrows] at hbad
  revert hbad
  decide

end Rows

end Kkdb.Vm
