import Mathlib.Data.List.Basic
import Mathlib.Data.Set.Function

namespace Lib

-- Files that are read record by record until a read fails.
section Framed

variable {α β : Type} (read : List β → Option (α × List β))

def scan : Nat → List β → List α
  | 0, _ => []
  | fuel + 1, bytes =>
      match read bytes with
      | none => []
      | some (record, rest) => record :: scan fuel rest

def readTimes : Nat → List β → Option (List α × List β)
  | 0, bytes => some ([], bytes)
  | n + 1, bytes => do
      let (record, rest) ← read bytes
      let (records, rest) ← readTimes n rest
      return (record :: records, rest)

-- Reading takes back the records that are admissible, whatever stands behind them.
structure Framing (write : α → List β) (admits : α → Prop) : Prop where
  read_write : ∀ record rest, admits record → read (write record ++ rest) = some (record, rest)
  write_pos : ∀ record, 0 < (write record).length

variable {read} {write : α → List β} {admits : α → Prop}

theorem readTimes_flatMap {records : List α}
    (h : ∀ record ∈ records, ∀ rest, read (write record ++ rest) = some (record, rest)) (rest : List β) :
    readTimes read records.length (records.flatMap write ++ rest) = some (records, rest) := by
  induction records with
  | nil => rfl
  | cons record records ih =>
      have hread := h record List.mem_cons_self (records.flatMap write ++ rest)
      have htail := ih fun r hr => h r (List.mem_cons_of_mem _ hr)
      rw [List.flatMap_cons, List.append_assoc, List.length_cons, readTimes, hread]
      simp only [Option.bind_eq_bind, Option.bind_some, htail]
      rfl

theorem length_readTimes {n : Nat} {bytes rest : List β} {records : List α}
    (h : readTimes read n bytes = some (records, rest)) : records.length = n := by
  induction n generalizing bytes rest records with
  | zero =>
      rw [readTimes, Option.some.injEq, Prod.mk.injEq] at h
      rw [← h.1, List.length_nil]
  | succ n ih =>
      obtain ⟨first, -, h⟩ := Option.bind_eq_some_iff.mp h
      obtain ⟨more, hmore, h⟩ := Option.bind_eq_some_iff.mp h
      have hrecords : first.1 :: more.1 = records := congrArg Prod.fst (Option.some.inj h)
      rw [← hrecords, List.length_cons, ih hmore]

theorem scan_stop {bytes : List β} (h : read bytes = none) (fuel : Nat) : scan read fuel bytes = [] := by
  cases fuel with
  | zero => rfl
  | succ fuel => simp [scan, h]

theorem Framing.length_le (hf : Framing read write admits) (records : List α) :
    records.length ≤ (records.flatMap write).length := by
  induction records with
  | nil => simp
  | cons record records ih =>
      have hpos := hf.write_pos record
      simp only [List.flatMap_cons, List.length_append, List.length_cons]
      omega

theorem Framing.scan_append (hf : Framing read write admits) {records : List α}
    (hadmits : ∀ record ∈ records, admits record) {rest : List β} (hrest : read rest = none) {fuel : Nat}
    (hfuel : records.length ≤ fuel) : scan read fuel (records.flatMap write ++ rest) = records := by
  induction records generalizing fuel with
  | nil => simpa using scan_stop hrest fuel
  | cons record records ih =>
      cases fuel with
      | zero => simp at hfuel
      | succ fuel =>
          have hread := hf.read_write record (records.flatMap write ++ rest) (hadmits record (by simp))
          have hlen : records.length ≤ fuel := by simpa using hfuel
          have htail := ih (fun r hr => hadmits r (by simp [hr])) hlen
          simp [scan, hread, htail]

theorem Framing.scan_file (hf : Framing read write admits) {records : List α}
    (hadmits : ∀ record ∈ records, admits record) {rest : List β} (hrest : read rest = none) :
    scan read (records.flatMap write ++ rest).length (records.flatMap write ++ rest) = records := by
  apply hf.scan_append hadmits hrest
  have hle := hf.length_le records
  simp only [List.length_append]
  omega

end Framed

-- A digest that reads a list step by step, each step one-to-one in the state and in what is read.
section Fold

variable {σ α : Type} {f : σ → α → σ} {S : Set σ} {s s' : σ}

theorem foldl_ne (hmem : ∀ s ∈ S, ∀ a, f s a ∈ S) (hstate : ∀ a, Set.InjOn (fun s => f s a) S) (l : List α)
    (hs : s ∈ S) (hs' : s' ∈ S) (hne : s ≠ s') : l.foldl f s ≠ l.foldl f s' := by
  induction l generalizing s s' with
  | nil => exact hne
  | cons a l ih => exact ih (hmem s hs a) (hmem s' hs' a) fun h => hne (hstate a hs hs' h)

theorem foldl_set_ne (hmem : ∀ s ∈ S, ∀ a, f s a ∈ S) (hstate : ∀ a, Set.InjOn (fun s => f s a) S)
    (hread : ∀ s ∈ S, Function.Injective (f s)) {l : List α} {i : Nat} (hi : i < l.length) {a : α}
    (ha : a ≠ l[i]) (hs : s ∈ S) : (l.set i a).foldl f s ≠ l.foldl f s := by
  induction l generalizing s i with
  | nil => cases hi
  | cons b l ih =>
      cases i with
      | zero => exact foldl_ne hmem hstate l (hmem s hs a) (hmem s hs b) fun h => ha (hread s hs h)
      | succ i => exact ih (Nat.lt_of_succ_lt_succ hi) ha (hmem s hs b)

end Fold

end Lib
