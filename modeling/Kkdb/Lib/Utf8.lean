import Mathlib.Data.List.Basic

namespace Lib

def utf8Len : List Char → Nat
  | [] => 0
  | c :: s => c.utf8Size + utf8Len s

def splitBytes : Nat → List Char → Option (List Char × List Char)
  | 0, s => some ([], s)
  | _ + 1, [] => none
  | n + 1, c :: s =>
      if c.utf8Size ≤ n + 1 then (splitBytes (n + 1 - c.utf8Size) s).map fun x => (c :: x.1, x.2) else none

def byteSlice (s : List Char) (start stop : Nat) : Option (List Char) :=
  if start ≤ stop then
    (splitBytes start s).bind fun x => (splitBytes (stop - start) x.2).map Prod.fst
  else none

section Utf8

variable {s a b m : List Char} {c : Char} {n start stop : Nat}

@[simp] theorem utf8Len_nil : utf8Len [] = 0 := rfl

@[simp] theorem utf8Len_cons : utf8Len (c :: s) = c.utf8Size + utf8Len s := rfl

@[simp] theorem utf8Len_append : utf8Len (a ++ b) = utf8Len a + utf8Len b := by
  induction a with
  | nil => rw [List.nil_append, utf8Len_nil, Nat.zero_add]
  | cons c a ih => rw [List.cons_append, utf8Len_cons, utf8Len_cons, ih, Nat.add_assoc]

theorem utf8Len_eq_zero : utf8Len s = 0 ↔ s = [] := by
  cases s with
  | nil => simp only [utf8Len_nil]
  | cons c s =>
      have hpos := c.utf8Size_pos
      rw [utf8Len_cons]
      exact iff_of_false (by omega) (List.cons_ne_nil c s)

theorem eq_singleton_of_utf8Len (h : utf8Len s = 1) : ∃ c, s = [c] ∧ c.utf8Size = 1 := by
  cases s with
  | nil => cases h
  | cons c s =>
      have hpos := c.utf8Size_pos
      rw [utf8Len_cons] at h
      exact ⟨c, by rw [utf8Len_eq_zero.mp (show utf8Len s = 0 by omega)], by omega⟩

theorem splitBytes_cons (h : 0 < n) : splitBytes n (c :: s) =
    if c.utf8Size ≤ n then (splitBytes (n - c.utf8Size) s).map fun x => (c :: x.1, x.2) else none := by
  obtain ⟨n, rfl⟩ := Nat.exists_eq_add_one_of_ne_zero (Nat.ne_of_gt h)
  rw [splitBytes]

theorem splitBytes_append (a b : List Char) : splitBytes (utf8Len a) (a ++ b) = some (a, b) := by
  induction a with
  | nil => cases b <;> rfl
  | cons c a ih =>
      have hpos := c.utf8Size_pos
      rw [List.cons_append, utf8Len_cons, splitBytes_cons (by omega), if_pos (by omega),
        Nat.add_sub_cancel_left, ih]
      rfl

theorem splitBytes_eq_some_iff : splitBytes n s = some (a, b) ↔ s = a ++ b ∧ utf8Len a = n := by
  constructor
  · intro h
    induction s generalizing n a with
    | nil =>
        cases n with
        | zero => cases h; exact ⟨rfl, rfl⟩
        | succ n => cases h
    | cons c s ih =>
        cases n with
        | zero => cases h; exact ⟨rfl, rfl⟩
        | succ n =>
            rw [splitBytes_cons (Nat.succ_pos n)] at h
            split_ifs at h with hle
            obtain ⟨⟨a', b'⟩, hrest, heq⟩ := Option.map_eq_some_iff.mp h
            cases heq
            obtain ⟨rfl, hlen⟩ := ih hrest
            exact ⟨rfl, by rw [utf8Len_cons, hlen]; omega⟩
  · rintro ⟨rfl, rfl⟩
    exact splitBytes_append a b

theorem byteSlice_eq_some_iff : byteSlice s start stop = some m ↔
    ∃ a b, s = a ++ m ++ b ∧ utf8Len a = start ∧ stop = start + utf8Len m := by
  unfold byteSlice
  constructor
  · intro h
    split_ifs at h with hle
    obtain ⟨⟨a, r⟩, hfirst, h⟩ := Option.bind_eq_some_iff.mp h
    obtain ⟨⟨m', b⟩, hsecond, rfl⟩ := Option.map_eq_some_iff.mp h
    obtain ⟨rfl, ha⟩ := splitBytes_eq_some_iff.mp hfirst
    obtain ⟨hr, hm⟩ := splitBytes_eq_some_iff.mp hsecond
    dsimp only at hr hm ⊢
    exact ⟨a, b, by rw [hr, List.append_assoc], ha, by omega⟩
  · rintro ⟨a, b, rfl, rfl, rfl⟩
    rw [if_pos (Nat.le_add_right _ _), List.append_assoc, splitBytes_append, Option.bind_some,
      Nat.add_sub_cancel_left, splitBytes_append]
    rfl

theorem byteSlice_append (a m b : List Char) :
    byteSlice (a ++ m ++ b) (utf8Len a) (utf8Len a + utf8Len m) = some m :=
  byteSlice_eq_some_iff.mpr ⟨a, b, rfl, rfl, rfl⟩

theorem byteSlice_strip_iff (hc : c.utf8Size = 1) :
    byteSlice (c :: s) 1 (utf8Len (c :: s) - 1) = some m ↔ ∃ d, s = m ++ [d] ∧ d.utf8Size = 1 := by
  rw [byteSlice_eq_some_iff]
  constructor
  · rintro ⟨a, b, hs, ha, hstop⟩
    obtain ⟨c', rfl, -⟩ := eq_singleton_of_utf8Len ha
    rw [List.append_assoc, List.singleton_append, List.cons.injEq] at hs
    obtain ⟨rfl, rfl⟩ := hs
    rw [utf8Len_cons, utf8Len_append, hc] at hstop
    obtain ⟨d, rfl, hd⟩ := eq_singleton_of_utf8Len (s := b) (by omega)
    exact ⟨d, rfl, hd⟩
  · rintro ⟨d, rfl, hd⟩
    refine ⟨[c], [d], rfl, by rw [utf8Len_cons, hc, utf8Len_nil], ?_⟩
    simp only [utf8Len_cons, utf8Len_append, utf8Len_nil, hc, hd]
    omega

end Utf8

end Lib
