import Mathlib.Data.List.Basic
import Mathlib.Tactic.Common

namespace Lib

def decimalDigits : Nat → Nat → List UInt8
  | 0, _ => []
  | fuel + 1, n =>
      if n < 10 then [UInt8.ofNat (48 + n)]
      else decimalDigits fuel (n / 10) ++ [UInt8.ofNat (48 + n % 10)]

def decimal (n : Nat) : List UInt8 := decimalDigits (n + 1) n

def isDigit (b : UInt8) : Bool := 48 ≤ b.toNat && b.toNat ≤ 57

def takeNumber : Nat → List UInt8 → Nat × List UInt8
  | n, [] => (n, [])
  | n, b :: bs => if isDigit b then takeNumber (10 * n + (b.toNat - 48)) bs else (n, b :: bs)

inductive Token where
  | Fixed (text : List UInt8)
  | Number

def render : List Token → List Nat → List UInt8
  | [], _ => []
  | .Fixed text :: tokens, ns => text ++ render tokens ns
  | .Number :: tokens, [] => render tokens []
  | .Number :: tokens, n :: ns => decimal n ++ render tokens ns

def stripPrefix (text bytes : List UInt8) : Option (List UInt8) :=
  if bytes.take text.length = text then some (bytes.drop text.length) else none

def parse : List Token → List UInt8 → Option (List Nat)
  | [], bytes => if bytes = [] then some [] else none
  | .Fixed text :: tokens, bytes => do
      let rest ← stripPrefix text bytes
      parse tokens rest
  | .Number :: tokens, bytes => do
      let (n, rest) := takeNumber 0 bytes
      let ns ← parse tokens rest
      return n :: ns

def numbers : List Token → Nat
  | [] => 0
  | .Fixed _ :: tokens => numbers tokens
  | .Number :: tokens => numbers tokens + 1

-- Behind every number stands a fixed part that does not start with a digit.
def Delimited : List Token → Prop
  | [] => True
  | .Fixed _ :: tokens => Delimited tokens
  | .Number :: .Fixed (b :: _) :: tokens => isDigit b = false ∧ Delimited tokens
  | .Number :: _ => False

instance delimitedDecidable : ∀ tokens, Decidable (Delimited tokens)
  | [] => inferInstanceAs (Decidable True)
  | .Fixed _ :: tokens => delimitedDecidable tokens
  | .Number :: .Fixed (b :: _) :: tokens =>
      have := delimitedDecidable tokens
      inferInstanceAs (Decidable (isDigit b = false ∧ Delimited tokens))
  | [.Number] => inferInstanceAs (Decidable False)
  | .Number :: .Number :: _ => inferInstanceAs (Decidable False)
  | .Number :: .Fixed [] :: _ => inferInstanceAs (Decidable False)

theorem toNat_digit {d : Nat} (h : d < 10) : (UInt8.ofNat (48 + d)).toNat = 48 + d := by
  rw [UInt8.toNat_ofNat']
  omega

theorem isDigit_digit {d : Nat} (h : d < 10) : isDigit (UInt8.ofNat (48 + d)) = true := by
  simp only [isDigit, toNat_digit h, Bool.and_eq_true, decide_eq_true_eq]
  omega

theorem takeNumber_digits {fuel n : Nat} (hfuel : n < fuel) (acc : Nat) (bytes : List UInt8) :
    ∃ scale, takeNumber acc (decimalDigits fuel n ++ bytes) = takeNumber (acc * scale + n) bytes := by
  induction fuel generalizing n acc bytes with
  | zero => omega
  | succ fuel ih =>
      rw [decimalDigits]
      by_cases hn : n < 10
      · refine ⟨10, ?_⟩
        rw [if_pos hn]
        simp only [List.cons_append, List.nil_append, takeNumber, isDigit_digit hn, toNat_digit hn, if_true]
        congr 1
        omega
      · have hlast : n % 10 < 10 := by omega
        have hsmall : n / 10 < fuel := by omega
        obtain ⟨scale, hscale⟩ := ih hsmall acc (UInt8.ofNat (48 + n % 10) :: bytes)
        refine ⟨scale * 10, ?_⟩
        rw [if_neg hn, List.append_assoc, List.singleton_append, hscale, takeNumber,
          if_pos (isDigit_digit hlast), toNat_digit hlast]
        congr 1
        rw [← Nat.mul_assoc]
        omega

theorem takeNumber_decimal (n : Nat) {b : UInt8} (hb : isDigit b = false) (bytes : List UInt8) :
    takeNumber 0 (decimal n ++ b :: bytes) = (n, b :: bytes) := by
  obtain ⟨scale, hscale⟩ := takeNumber_digits (Nat.lt_succ_self n) 0 (b :: bytes)
  rw [decimal, hscale, takeNumber, hb]
  simp

theorem stripPrefix_append (text bytes : List UInt8) : stripPrefix text (text ++ bytes) = some bytes := by
  simp [stripPrefix]

theorem parse_render (tokens : List Token) (h : Delimited tokens) (ns : List Nat)
    (hn : ns.length = numbers tokens) : parse tokens (render tokens ns) = some ns := by
  induction tokens generalizing ns with
  | nil => simpa [parse, render, numbers, eq_comm] using hn
  | cons token tokens ih =>
      cases token with
      | Fixed text => simpa [parse, render, stripPrefix_append] using ih h ns hn
      | Number =>
          cases ns with
          | nil => simp [numbers] at hn
          | cons n ns =>
              match tokens, h, ih, hn with
              | .Fixed (b :: text) :: tokens, h, ih, hn =>
                  have hrest := ih h.2 ns (by simpa [numbers] using hn)
                  rw [render] at hrest
                  simp only [parse, render, List.cons_append, takeNumber_decimal n h.1]
                  simp only [parse, List.cons_append] at hrest
                  simp [hrest]

def fixedCount (b : UInt8) : List Token → Nat
  | [] => 0
  | .Fixed text :: tokens => text.count b + fixedCount b tokens
  | .Number :: tokens => fixedCount b tokens

theorem takeNumber_suffix (n : Nat) (bytes : List UInt8) :
    ∃ digits, bytes = digits ++ (takeNumber n bytes).2 := by
  induction bytes generalizing n with
  | nil => exact ⟨[], rfl⟩
  | cons b bytes ih =>
      rw [takeNumber]
      split_ifs
      · obtain ⟨digits, hdigits⟩ := ih (10 * n + (b.toNat - 48))
        exact ⟨b :: digits, by rw [List.cons_append, ← hdigits]⟩
      · exact ⟨[], rfl⟩

theorem fixedCount_le (b : UInt8) {tokens : List Token} {bytes : List UInt8} {ns : List Nat}
    (h : parse tokens bytes = some ns) : fixedCount b tokens ≤ bytes.count b := by
  induction tokens generalizing bytes ns with
  | nil => simp [fixedCount]
  | cons token tokens ih =>
      cases token with
      | Fixed text =>
          rw [parse, stripPrefix] at h
          by_cases htext : bytes.take text.length = text
          · rw [if_pos htext] at h
            have hrest := ih h
            have hsplit : bytes.count b = (bytes.take text.length).count b +
                (bytes.drop text.length).count b := by
              rw [← List.count_append, List.take_append_drop]
            rw [htext] at hsplit
            simp only [fixedCount]
            omega
          · rw [if_neg htext] at h
            cases h
      | Number =>
          obtain ⟨digits, hdigits⟩ := takeNumber_suffix 0 bytes
          simp only [parse, Option.bind_eq_bind, Option.bind_eq_some_iff] at h
          obtain ⟨ns', hparse, -⟩ := h
          have hrest := ih hparse
          have hcount : (takeNumber 0 bytes).2.count b ≤ bytes.count b := by
            rw [hdigits, List.count_append]
            rw [← hdigits]
            omega
          simp only [fixedCount]
          omega

theorem count_decimalDigits {b : UInt8} (hb : isDigit b = false) (fuel n : Nat) :
    (decimalDigits fuel n).count b = 0 := by
  have hdigit : ∀ d, d < 10 → [UInt8.ofNat (48 + d)].count b = 0 := by
    intro d hd
    apply List.count_eq_zero.mpr
    rw [List.mem_singleton]
    intro heq
    rw [heq, isDigit_digit hd] at hb
    cases hb
  induction fuel generalizing n with
  | zero => rfl
  | succ fuel ih =>
      rw [decimalDigits]
      split_ifs with hn
      · exact hdigit n hn
      · rw [List.count_append, ih, hdigit (n % 10) (by omega)]

theorem count_render {b : UInt8} (hb : isDigit b = false) (tokens : List Token) (ns : List Nat) :
    (render tokens ns).count b = fixedCount b tokens := by
  induction tokens generalizing ns with
  | nil => rfl
  | cons token tokens ih =>
      cases token with
      | Fixed text => simp [render, fixedCount, List.count_append, ih]
      | Number =>
          cases ns with
          | nil => simp [render, fixedCount, ih]
          | cons n ns =>
              simp [render, fixedCount, List.count_append, ih, decimal, count_decimalDigits hb]

theorem parse_few {tokens : List Token} {b : UInt8} {bytes : List UInt8}
    (hlt : bytes.count b < fixedCount b tokens) : parse tokens bytes = none := by
  cases hparse : parse tokens bytes with
  | none => rfl
  | some ns =>
      have hle := fixedCount_le b hparse
      omega

theorem parse_other (tokens other : List Token) {b : UInt8} (hb : isDigit b = false)
    (hlt : fixedCount b other < fixedCount b tokens) (ns : List Nat) (written : Nat) :
    parse tokens ((render other ns).take written) = none := by
  have hall := count_render hb other ns
  have hsub := (List.take_sublist written (render other ns)).count_le b
  apply parse_few (b := b)
  omega

theorem render_concat (tokens : List Token) (text : List UInt8) (ns : List Nat) :
    render (tokens ++ [.Fixed text]) ns = render tokens ns ++ text := by
  induction tokens generalizing ns with
  | nil => simp [render]
  | cons token tokens ih =>
      cases token with
      | Fixed text' => simp [render, ih]
      | Number =>
          cases ns with
          | nil => simp [render, ih]
          | cons n ns => simp [render, ih]

theorem parse_take (tokens : List Token) (text : List UInt8) {b : UInt8} (hb : isDigit b = false)
    (ns : List Nat) {written : Nat}
    (hw : written < (render (tokens ++ [.Fixed (text ++ [b])]) ns).length) :
    parse (tokens ++ [.Fixed (text ++ [b])])
      ((render (tokens ++ [.Fixed (text ++ [b])]) ns).take written) = none := by
  have hall := count_render hb (tokens ++ [.Fixed (text ++ [b])]) ns
  have hsub := (List.take_sublist written (render tokens ns ++ text)).count_le b
  apply parse_few (b := b)
  rw [← hall]
  rw [render_concat, ← List.append_assoc] at hw ⊢
  rw [List.length_append, List.length_singleton] at hw
  rw [List.take_append_of_le_length (by omega), List.count_append, List.count_singleton_self]
  omega

end Lib
