import Kkdb.Lib.Template
import Mathlib.Tactic.IntervalCases

namespace Lib

structure Codec (α : Type) where
  write : α → List UInt8
  read : List UInt8 → Option (α × List UInt8)

namespace Codec

variable {α β : Type}

def Lawful (c : Codec α) : Prop := ∀ a rest, c.read (c.write a ++ rest) = some (a, rest)

def Starts (c : Codec α) (b : UInt8) : Prop := ∀ a, ∃ tail, c.write a = b :: tail

def word (text : List UInt8) : Codec Unit where
  write _ := text
  read bytes := (stripPrefix text bytes).map fun rest => ((), rest)

def number (stop : UInt8) : Codec Nat where
  write n := decimal n ++ [stop]
  read bytes :=
    let (n, rest) := takeNumber 0 bytes
    (stripPrefix [stop] rest).map fun rest => (n, rest)

def seq (c : Codec α) (d : Codec β) : Codec (α × β) where
  write ab := c.write ab.1 ++ d.write ab.2
  read bytes := do
    let (a, rest) ← c.read bytes
    let (b, rest) ← d.read rest
    return ((a, b), rest)

def after (text : List UInt8) (c : Codec α) : Codec α where
  write a := text ++ c.write a
  read bytes := (stripPrefix text bytes).bind c.read

def before (c : Codec α) (text : List UInt8) : Codec α where
  write a := c.write a ++ text
  read bytes := do
    let (a, rest) ← c.read bytes
    let rest ← stripPrefix text rest
    return (a, rest)

def mapped (f : α → Option β) (g : β → α) (c : Codec α) : Codec β where
  write b := c.write (g b)
  read bytes := do
    let (a, rest) ← c.read bytes
    let b ← f a
    return (b, rest)

def optional (none : List UInt8) (c : Codec α) : Codec (Option α) where
  write
    | some a => c.write a
    | .none => none
  read bytes :=
    match stripPrefix none bytes with
    | some rest => some (.none, rest)
    | .none => (c.read bytes).map fun (a, rest) => (some a, rest)

def writeTail (c : Codec α) : List α → List UInt8
  | [] => [93]
  | a :: as => 44 :: (c.write a ++ writeTail c as)

def readTail (c : Codec α) : Nat → List UInt8 → Option (List α × List UInt8)
  | 0, _ => none
  | _ + 1, 93 :: rest => some ([], rest)
  | fuel + 1, 44 :: rest => do
      let (a, rest) ← c.read rest
      let (as, rest) ← readTail c fuel rest
      return (a :: as, rest)
  | _ + 1, _ => none

def list (c : Codec α) : Codec (List α) where
  write
    | [] => [91, 93]
    | a :: as => 91 :: (c.write a ++ c.writeTail as)
  read bytes :=
    match bytes with
    | 91 :: 93 :: rest => some ([], rest)
    | 91 :: rest => do
        let (a, rest) ← c.read rest
        let (as, rest) ← c.readTail rest.length rest
        return (a :: as, rest)
    | _ => none

def hexDigit (n : Nat) : UInt8 := if n < 10 then UInt8.ofNat (48 + n) else UInt8.ofNat (87 + n)

def hexValue (b : UInt8) : Nat := if isDigit b then b.toNat - 48 else b.toNat - 87

-- Inside quotes: the quote, the backslash and the control characters are escaped.
def escape (b : UInt8) : List UInt8 :=
  if b = 34 ∨ b = 92 then [92, b]
  else if b = 8 then [92, 98]
  else if b = 9 then [92, 116]
  else if b = 10 then [92, 110]
  else if b = 12 then [92, 102]
  else if b = 13 then [92, 114]
  else if b.toNat < 32 then [92, 117, 48, 48, hexDigit (b.toNat / 16), hexDigit (b.toNat % 16)]
  else [b]

def unescape (b : UInt8) : UInt8 :=
  if b = 98 then 8
  else if b = 116 then 9
  else if b = 110 then 10
  else if b = 102 then 12
  else if b = 114 then 13
  else b

def readQuoted : List UInt8 → Option (List UInt8 × List UInt8)
  | [] => none
  | 34 :: rest => some ([], rest)
  | 92 :: 117 :: 48 :: 48 :: h :: l :: rest =>
      (readQuoted rest).map fun (bs, rest) => (UInt8.ofNat (16 * hexValue h + hexValue l) :: bs, rest)
  | 92 :: b :: rest => (readQuoted rest).map fun (bs, rest) => (unescape b :: bs, rest)
  | b :: rest => (readQuoted rest).map fun (bs, rest) => (b :: bs, rest)

def quoted : Codec (List UInt8) where
  write bytes := 34 :: (bytes.flatMap escape ++ [34])
  read bytes := (stripPrefix [34] bytes).bind readQuoted

variable {c : Codec α} {d : Codec β}

theorem word_lawful (text : List UInt8) : (word text).Lawful := by
  intro a rest
  simp [word, stripPrefix_append]

theorem number_lawful (stop : UInt8) (h : isDigit stop = false) : (number stop).Lawful := by
  intro n rest
  simp only [number, List.append_assoc, List.singleton_append, takeNumber_decimal n h]
  simpa using stripPrefix_append [stop] rest

theorem seq_lawful (hc : c.Lawful) (hd : d.Lawful) : (c.seq d).Lawful := by
  intro ab rest
  simp [seq, List.append_assoc, hc ab.1, hd ab.2]

theorem after_lawful (text : List UInt8) (hc : c.Lawful) : (c.after text).Lawful := by
  intro a rest
  simp [after, List.append_assoc, stripPrefix_append, hc a]

theorem before_lawful (hc : c.Lawful) (text : List UInt8) : (c.before text).Lawful := by
  intro a rest
  simp [before, List.append_assoc, hc a, stripPrefix_append]

theorem mapped_lawful (hc : c.Lawful) {f : α → Option β} {g : β → α} (h : ∀ b, f (g b) = some b) :
    (c.mapped f g).Lawful := by
  intro b rest
  simp [mapped, hc (g b), h b]

theorem after_starts (b : UInt8) (text : List UInt8) (c : Codec α) : (c.after (b :: text)).Starts b :=
  fun a => ⟨text ++ c.write a, rfl⟩

theorem mapped_starts {b : UInt8} (h : c.Starts b) (f : α → Option β) (g : β → α) :
    (c.mapped f g).Starts b :=
  fun a => h (g a)

theorem stripPrefix_other {b b' : UInt8} (h : b ≠ b') (text bytes : List UInt8) :
    stripPrefix (b :: text) (b' :: bytes) = none := by
  simp [stripPrefix, h.symm]

theorem optional_lawful (hc : c.Lawful) {b b' : UInt8} (h : c.Starts b') (hb : b ≠ b')
    (text : List UInt8) : (c.optional (b :: text)).Lawful := by
  intro a rest
  cases a with
  | none => simp only [optional, stripPrefix_append]
  | some a =>
      obtain ⟨tail, htail⟩ := h a
      have hread := hc a rest
      rw [htail, List.cons_append] at hread
      simp only [optional, htail, List.cons_append, stripPrefix_other hb, hread, Option.map_some]

theorem readTail_lawful (hc : c.Lawful) (as : List α) {fuel : Nat} (hfuel : as.length < fuel)
    (rest : List UInt8) : c.readTail fuel (c.writeTail as ++ rest) = some (as, rest) := by
  induction as generalizing fuel with
  | nil =>
      obtain ⟨fuel, rfl⟩ := Nat.exists_eq_add_of_lt hfuel
      rfl
  | cons a as ih =>
      cases fuel with
      | zero => simp at hfuel
      | succ fuel =>
          have hless : as.length < fuel := by simpa using hfuel
          have htail := ih hless
          simp [writeTail, readTail, List.append_assoc, hc a, htail]

theorem length_writeTail (as : List α) : as.length < (c.writeTail as).length := by
  induction as with
  | nil => simp [writeTail]
  | cons a as ih =>
      simp only [writeTail, List.length_cons, List.length_append]
      omega

theorem list_lawful (hc : c.Lawful) {b : UInt8} (h : c.Starts b) (hb : b ≠ 93) : c.list.Lawful := by
  intro as rest
  cases as with
  | nil => rfl
  | cons a as =>
      obtain ⟨tail, htail⟩ := h a
      have hread := hc a (c.writeTail as ++ rest)
      have hlength := length_writeTail (c := c) as
      have hfuel : as.length < (c.writeTail as ++ rest).length := by
        rw [List.length_append]
        omega
      rw [htail, List.cons_append] at hread
      simp only [list, htail, List.cons_append, List.append_assoc]
      split
      case h_1 heq =>
          cases heq
          exact absurd rfl hb
      case h_2 heq =>
          cases heq
          rw [hread]
          simp [-List.length_append, readTail_lawful hc as hfuel]
      case h_3 hno => exact absurd rfl (hno _)

theorem hexValue_hexDigit {n : Nat} (h : n < 16) : hexValue (hexDigit n) = n := by
  interval_cases n <;> rfl

theorem readQuoted_escape (b : UInt8) (bytes : List UInt8) :
    readQuoted (escape b ++ bytes) = (readQuoted bytes).map fun (bs, rest) => (b :: bs, rest) := by
  unfold escape
  split_ifs with hquote h8 h9 h10 h12 h13 hcontrol
  · rcases hquote with rfl | rfl <;> rfl
  · subst h8; rfl
  · subst h9; rfl
  · subst h10; rfl
  · subst h12; rfl
  · subst h13; rfl
  · have hhigh := hexValue_hexDigit (n := b.toNat / 16) (by omega)
    have hlow := hexValue_hexDigit (n := b.toNat % 16) (by omega)
    have hsum : 16 * (b.toNat / 16) + b.toNat % 16 = b.toNat := by omega
    simp [readQuoted, hhigh, hlow, hsum]
  · rw [not_or] at hquote
    rw [List.singleton_append, readQuoted]
    · exact hquote.1
    · intro _ _ _ heq
      exact absurd heq hquote.2
    · intro _ _ heq
      exact absurd heq hquote.2

theorem quoted_lawful : quoted.Lawful := by
  intro bytes rest
  have hread : readQuoted (bytes.flatMap escape ++ 34 :: rest) = some (bytes, rest) := by
    induction bytes with
    | nil => rfl
    | cons b bytes ih => rw [List.flatMap_cons, List.append_assoc, readQuoted_escape, ih]; rfl
  have hopen := stripPrefix_append [34] (bytes.flatMap escape ++ 34 :: rest)
  rw [List.singleton_append] at hopen
  simp [quoted, hopen, hread]

end Codec

end Lib
