import Kkdb.Binlog.Record
import Kkdb.Types.Decode

namespace Kkdb.Binlog

open Lib Varint

inductive Field where
  | varint
  | text
  | row
  | optionalRow

def fields (tag : UInt8) : List Field :=
  if tag = 1 then [.varint]
  else if tag = 2 then [.varint, .text, .varint, .row]
  else if tag = 3 then [.varint, .text, .varint, .row, .row]
  else if tag = 4 then [.varint, .text, .varint, .optionalRow]
  else if tag = 5 then [.varint]
  else if tag = 6 then [.varint]
  else if tag = 7 then [.varint]
  else if tag = 8 then [.varint, .text, .text]
  else []

-- The length in front of the bytes leaves their end a u64, and so does what comes behind them.
def BytesFit (valid next : List UInt8 → Prop) (data : List UInt8) : Prop :=
  ∀ len n, readVarintU64 data = .ok (len, n) →
    n + len < 2 ^ 64 ∧ (n + len ≤ data.length → valid ((data.drop n).take len) → next (data.drop (n + len)))

def IsText (bytes : List UInt8) : Prop := ∃ s, fromUtf8 bytes = some s

def IsRow (bytes : List UInt8) : Prop := ∃ row, deserializeRow bytes = .ok row

-- No field claims a length whose end is beyond a u64, up to the first field that is not there or not whole.
def Fitting : List Field → List UInt8 → Prop
  | [], _ => True
  | .varint :: rest, data => ∀ v n, readVarintU64 data = .ok (v, n) → Fitting rest (data.drop n)
  | .text :: rest, data => BytesFit IsText (Fitting rest) data
  | .row :: rest, data => BytesFit IsRow (Fitting rest) data
  | .optionalRow :: rest, data =>
      ∀ hasRow tail, data = hasRow :: tail →
        if hasRow ≠ 0 then BytesFit IsRow (Fitting rest) tail else Fitting rest tail

def LengthsFit (data : List UInt8) (pos : Nat) : Prop :=
  ∀ tag rest, data.drop pos = tag :: rest → Fitting (fields tag) rest

def Returns {α : Type} (x : OptionT Res α) : Prop := ∃ o, x.run = .ok o

section Returns

variable {α β : Type} {x : OptionT Res α} {f : α → OptionT Res β} {fault : Fault} {a : α}

theorem returns_lift (o : Option α) : Returns (lift o) := ⟨o, rfl⟩

theorem not_returns (h : x.run = .error fault) : ¬Returns x := by
  rintro ⟨o, ho⟩
  rw [h] at ho
  cases ho

theorem returns_pure (a : α) : Returns (pure a : OptionT Res α) := ⟨some a, rfl⟩

theorem okOrNone_ok {x : Res α} (h : x = .ok a) : okOrNone x = lift (some a) := by rw [h, okOrNone]

theorem okOrNone_err {x : Res α} (hx : NoFault x) (h : ∀ a, x ≠ .ok a) : okOrNone x = lift none := by
  cases x with
  | ok a => exact absurd rfl (h a)
  | error fault =>
      obtain ⟨e, rfl⟩ := hx fault rfl
      rfl

end Returns

section Readers

variable {α β : Type} {data rest : List UInt8} {off n : Nat} {a : α} {next : List UInt8 → Prop}
  {read : List UInt8 → OptionT Res (α × Nat)} {k : α × Nat → OptionT Res β}

theorem At.some_bind (h : At data off rest) (hlen : data.length < 2 ^ 64) (hn : n ≤ rest.length)
    (hread : read rest = lift (some (a, n))) :
    At data (off + n) (rest.drop n) ∧ (readAt read data off >>= k) = k (a, off + n) := by
  have hsplit : At data off (rest.take n ++ rest.drop n) := by rwa [List.take_append_drop]
  have hlength : (rest.take n).length = n := by rw [List.length_take, Nat.min_eq_left hn]
  have hnext := hsplit.next
  rw [hlength] at hnext
  have hat : readAt read data off = lift (some (a, off + (rest.take n).length)) :=
    hsplit.readAt_eq hlen (by rw [List.take_append_drop, hlength, hread])
  rw [hat, lift_some_bind, hlength]
  exact ⟨hnext, rfl⟩

theorem At.none_bind (h : At data off rest) (hread : read rest = lift none) :
    Returns (readAt read data off >>= k) := by
  rw [h.readAt_none hread, lift_none_bind]
  exact returns_lift none

theorem At.panicked_bind (h : At data off rest) (hread : read rest = panicked) :
    ¬Returns (readAt read data off >>= k) := by
  have hle := h.le
  rw [readAt, sliceFrom, if_neg (by omega), lift_some_bind, h.drop, hread]
  exact not_returns rfl

theorem At.varint_bind {k : Nat × Nat → OptionT Res β} (h : At data off rest) (hlen : data.length < 2 ^ 64)
    (hk : ∀ v n, At data (off + n) (rest.drop n) → (Returns (k (v, off + n)) ↔ next (rest.drop n))) :
    Returns (readAt readVarint data off >>= k) ↔ ∀ v n, readVarintU64 rest = .ok (v, n) →
      next (rest.drop n) := by
  by_cases hread : ∃ x, readVarintU64 rest = .ok x
  · obtain ⟨⟨v, n⟩, hread⟩ := hread
    have hvarint : readVarint rest = lift (some (v, n)) := okOrNone_ok hread
    obtain ⟨hnext, heq⟩ := h.some_bind (k := k) hlen (readVarintU64_consumed hread).2 hvarint
    rw [heq, hk v n hnext]
    constructor
    · rintro hgoes v' n' hread'
      obtain ⟨rfl, rfl⟩ := Prod.mk.inj (Except.ok.inj (hread.symm.trans hread'))
      exact hgoes
    · exact fun hall => hall v n hread
  · push Not at hread
    have hvarint : readVarint rest = lift none := okOrNone_err readGroups_noFault hread
    exact iff_of_true (h.none_bind hvarint) fun v n hv => absurd hv (hread (v, n))

variable {parse : List UInt8 → OptionT Res α} {valid : List UInt8 → Prop}

theorem At.parsed_bind (hparse : ∀ bytes, (valid bytes ∧ ∃ a, parse bytes = lift (some a)) ∨
      (¬valid bytes ∧ parse bytes = lift none)) (h : At data off rest) (hlen : data.length < 2 ^ 64)
    (hk : ∀ a n, At data (off + n) (rest.drop n) → (Returns (k (a, off + n)) ↔ next (rest.drop n))) :
    Returns (readAt (readParsed parse) data off >>= k) ↔ BytesFit valid next rest := by
  by_cases hread : ∃ x, readVarintU64 rest = .ok x
  · obtain ⟨⟨len, n⟩, hread⟩ := hread
    have hvarint : readVarint rest = lift (some (len, n)) := okOrNone_ok hread
    have hfit : BytesFit valid next rest ↔ n + len < 2 ^ 64 ∧
        (n + len ≤ rest.length → valid ((rest.drop n).take len) → next (rest.drop (n + len))) := by
      constructor
      · exact fun hall => hall len n hread
      · rintro hone len' n' hread'
        obtain ⟨rfl, rfl⟩ := Prod.mk.inj (Except.ok.inj (hread.symm.trans hread'))
        exact hone
    rw [hfit]
    by_cases hbig : 2 ^ 64 ≤ n + len
    · have hpanics : readParsed parse rest = panicked := by
        rw [readParsed, readBytes, hvarint, lift_some_bind]
        simp only [if_pos hbig]
        rfl
      exact iff_of_false (h.panicked_bind hpanics) fun hall => absurd hall.1 (by omega)
    · by_cases hshort : rest.length < n + len
      · have hnone : readParsed parse rest = lift none := by
          rw [readParsed, readBytes, hvarint, lift_some_bind]
          simp only [if_neg hbig, if_pos hshort]
          rfl
        exact iff_of_true (h.none_bind hnone) ⟨by omega, fun hall => absurd hall (by omega)⟩
      · have hbytes : readBytes rest = lift (some ((rest.drop n).take len, n + len)) := by
          rw [readBytes, hvarint, lift_some_bind]
          simp only [if_neg hbig, if_neg hshort]
          rfl
        rcases hparse ((rest.drop n).take len) with ⟨hvalid, a, ha⟩ | ⟨hvalid, hnone⟩
        · have hparsed : readParsed parse rest = lift (some (a, n + len)) := by
            rw [readParsed, hbytes, lift_some_bind]
            simp only [ha, lift_some_bind]
            rfl
          obtain ⟨hnext, heq⟩ := h.some_bind (k := k) hlen (by omega) hparsed
          rw [heq, hk a (n + len) hnext]
          exact ⟨fun hgoes => ⟨by omega, fun _ _ => hgoes⟩, fun hall => hall.2 (by omega) hvalid⟩
        · have hparsed : readParsed parse rest = lift none := by
            rw [readParsed, hbytes, lift_some_bind]
            simp only [hnone, lift_none_bind]
          exact iff_of_true (h.none_bind hparsed) ⟨by omega, fun _ hv => absurd hv hvalid⟩
  · push Not at hread
    have hvarint : readVarint rest = lift none := okOrNone_err readGroups_noFault hread
    have hnone : readParsed parse rest = lift none := by
      rw [readParsed, readBytes, hvarint, lift_none_bind, lift_none_bind]
    exact iff_of_true (h.none_bind hnone) fun len n hv => absurd hv (hread (len, n))

theorem At.text_bind {k : String × Nat → OptionT Res β} (h : At data off rest) (hlen : data.length < 2 ^ 64)
    (hk : ∀ s n, At data (off + n) (rest.drop n) → (Returns (k (s, off + n)) ↔ next (rest.drop n))) :
    Returns (readAt readString data off >>= k) ↔ BytesFit IsText next rest := by
  refine h.parsed_bind (fun bytes => ?_) hlen hk
  unfold IsText
  cases fromUtf8 bytes with
  | none => exact .inr ⟨by simp, rfl⟩
  | some s => exact .inl ⟨⟨s, rfl⟩, s, rfl⟩

theorem At.row_bind {k : Row × Nat → OptionT Res β} (h : At data off rest) (hlen : data.length < 2 ^ 64)
    (hk : ∀ row n, At data (off + n) (rest.drop n) → (Returns (k (row, off + n)) ↔ next (rest.drop n))) :
    Returns (readAt readRow data off >>= k) ↔ BytesFit IsRow next rest := by
  refine h.parsed_bind (fun bytes => ?_) hlen hk
  by_cases hrow : IsRow bytes
  · obtain ⟨row, hrow⟩ := hrow
    exact .inl ⟨⟨row, hrow⟩, row, okOrNone_ok hrow⟩
  · exact .inr ⟨hrow, okOrNone_err (deserializeRow_noFault bytes) fun row h => hrow ⟨row, h⟩⟩

end Readers

namespace LogRecord

section Fields

variable {data rest : List UInt8} {off : Nat}

theorem returns_optionalRow (found : Row → LogRecord) (missing : LogRecord) (h : At data off rest)
    (hlen : data.length < 2 ^ 64) :
    Returns (do
      let hasRow ← lift data[off]?
      let off ← advance off 1
      if hasRow ≠ 0 then do
        let (row, off) ← readAt readRow data off
        return (found row, off)
      else return (missing, off)) ↔ Fitting [.optionalRow] rest := by
  cases rest with
  | nil =>
      rw [← List.head?_drop, h.drop, List.head?_nil, lift_none_bind]
      exact iff_of_true (returns_lift none) fun hasRow tail heq => absurd heq (by simp)
  | cons hasRow tail =>
      obtain ⟨hadvance, hnext⟩ := h.step hlen
      have hfit : Fitting [.optionalRow] (hasRow :: tail) ↔
          if hasRow ≠ 0 then BytesFit IsRow (Fitting []) tail else Fitting [] tail := by
        constructor
        · exact fun hall => hall hasRow tail rfl
        · rintro hone hasRow' tail' heq
          obtain ⟨rfl, rfl⟩ := List.cons.inj heq
          exact hone
      rw [h.head, lift_some_bind, hadvance, lift_some_bind, hfit]
      by_cases hflag : hasRow ≠ 0
      · rw [if_pos hflag, if_pos hflag]
        exact hnext.row_bind hlen fun row n _ => iff_of_true (returns_pure _) trivial
      · rw [if_neg hflag, if_neg hflag]
        exact iff_of_true (returns_pure _) trivial

-- Each field moves the position behind itself, and the last one leaves the record.
theorem returns_deserializeBody (tag : UInt8) (h : At data off rest) (hlen : data.length < 2 ^ 64) :
    Returns (deserializeBody tag data off) ↔ Fitting (fields tag) rest := by
  have hdone : ∀ {x : LogRecord × Nat} {last : List UInt8}, Returns (return x : OptionT Res (LogRecord × Nat)) ↔
      Fitting [] last := iff_of_true (returns_pure _) trivial
  unfold deserializeBody fields
  by_cases h1 : tag = 1
  · rw [if_pos h1, if_pos h1]
    exact h.varint_bind hlen fun txid n _ => hdone
  rw [if_neg h1, if_neg h1]
  by_cases h2 : tag = 2
  · rw [if_pos h2, if_pos h2]
    exact h.varint_bind hlen fun txid n h => h.text_bind hlen fun tableName n h =>
      h.varint_bind hlen fun rowid n h => h.row_bind hlen fun row n _ => hdone
  rw [if_neg h2, if_neg h2]
  by_cases h3 : tag = 3
  · rw [if_pos h3, if_pos h3]
    exact h.varint_bind hlen fun txid n h => h.text_bind hlen fun tableName n h =>
      h.varint_bind hlen fun rowid n h => h.row_bind hlen fun oldRow n h =>
        h.row_bind hlen fun newRow n _ => hdone
  rw [if_neg h3, if_neg h3]
  by_cases h4 : tag = 4
  · rw [if_pos h4, if_pos h4]
    refine h.varint_bind hlen fun txid n h => h.text_bind hlen fun tableName n h =>
      h.varint_bind hlen fun rowid n h => ?_
    exact returns_optionalRow (fun row => Delete _ tableName _ (some row)) (Delete _ tableName _ none) h hlen
  rw [if_neg h4, if_neg h4]
  by_cases h5 : tag = 5
  · rw [if_pos h5, if_pos h5]
    exact h.varint_bind hlen fun txid n _ => hdone
  rw [if_neg h5, if_neg h5]
  by_cases h6 : tag = 6
  · rw [if_pos h6, if_pos h6]
    exact h.varint_bind hlen fun txid n _ => hdone
  rw [if_neg h6, if_neg h6]
  by_cases h7 : tag = 7
  · rw [if_pos h7, if_pos h7]
    exact h.varint_bind hlen fun txid n _ => hdone
  rw [if_neg h7, if_neg h7]
  by_cases h8 : tag = 8
  · rw [if_pos h8, if_pos h8]
    exact h.varint_bind hlen fun index n h => h.text_bind hlen fun sql n h =>
      h.text_bind hlen fun userId n _ => hdone
  rw [if_neg h8, if_neg h8]
  exact iff_of_true (returns_lift none) trivial

theorem returns_iff_lengthsFit {pos : Nat} (hlen : data.length < 2 ^ 64) :
    Returns (deserialize data pos) ↔ LengthsFit data pos := by
  unfold LengthsFit
  cases hdrop : data.drop pos with
  | nil =>
      rw [deserialize, ← List.head?_drop, hdrop, List.head?_nil, lift_none_bind]
      exact iff_of_true (returns_lift none) fun tag rest heq => absurd heq (by simp)
  | cons tag rest =>
      have hpos := congrArg List.length hdrop
      rw [List.length_drop, List.length_cons] at hpos
      have hat : At data pos (tag :: rest) := ⟨by omega, hdrop⟩
      rw [deserialize_at hlen hat, returns_deserializeBody tag (hat.step hlen).2 hlen]
      constructor
      · rintro hone tag' rest' heq
        obtain ⟨rfl, rfl⟩ := List.cons.inj heq
        exact hone
      · exact fun hall => hall tag rest rfl

end Fields

end LogRecord

-- In a slice, which holds fewer than 2^63 bytes, every record is read back from where it was written, with the
-- position behind it, and reading ends with `Some` or `None` exactly where no length reaches beyond a u64.
theorem deserialize_exact_and_returns_iff (record : LogRecord) (p s data : List UInt8) (pos : Nat) :
    (record.Readable → (p ++ record.serialize ++ s).length < 2 ^ 63 →
      (LogRecord.deserialize (p ++ record.serialize ++ s) p.length).run =
        .ok (some (record, p.length + record.serialize.length))) ∧
    (data.length < 2 ^ 63 → (Returns (LogRecord.deserialize data pos) ↔ LengthsFit data pos)) := by
  constructor
  · intro hread hlen
    have hat : At (p ++ record.serialize ++ s) p.length (record.serialize ++ s) := by
      refine ⟨?_, by rw [List.append_assoc, List.drop_left]⟩
      rw [List.append_assoc, List.length_append]
      exact Nat.le_add_right _ _
    rw [LogRecord.deserialize_located hread (lt_trans hlen (by decide)) hat, run_lift]
  · exact fun hlen => LogRecord.returns_iff_lengthsFit (lt_trans hlen (by decide))

def hugeLength : List UInt8 := [8, 0, 255, 255, 255, 255, 255, 255, 255, 255, 255, 1]

theorem hugeLength_panics :
    ¬∀ (data : List UInt8) (pos : Nat), data.length < 2 ^ 63 → Returns (LogRecord.deserialize data pos) := by
  intro hall
  exact not_returns rfl (hall hugeLength 0 (by decide))

end Kkdb.Binlog
