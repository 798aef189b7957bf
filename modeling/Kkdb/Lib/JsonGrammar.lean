import Mathlib.Data.List.Basic

namespace Lib.Json

section Tokens

def isBlank (c : Char) : Bool := c = ' ' || c = '\t' || c = '\n' || c = '\r'

def Blank (s : List Char) : Prop := ∀ c ∈ s, isBlank c = true

-- A character that a string may hold as it is.
def isPlain (c : Char) : Bool := c ≠ '"' && c ≠ '\\' && 0x20 ≤ c.toNat

def shortEscapes : List (Char × Char) :=
  [('"', '"'), ('\\', '\\'), ('/', '/'), ('b', Char.ofNat 8), ('f', Char.ofNat 12), ('n', '\n'), ('r', '\r'),
    ('t', '\t')]

def hexDigit (c : Char) : Option Nat :=
  if c.isDigit then some (c.toNat - 48)
  else if 65 ≤ c.toNat ∧ c.toNat ≤ 70 then some (c.toNat - 55)
  else if 97 ≤ c.toNat ∧ c.toNat ≤ 102 then some (c.toNat - 87)
  else none

def hexCode (digits : List Char) : Option Nat :=
    (digits.mapM hexDigit).map (List.foldl (fun n d => 16 * n + d) 0)

-- The ways to write a character in a string. One beyond the basic plane takes two codes.
inductive Piece : List Char → Char → Prop where
  | plain {c : Char} (hc : isPlain c = true) : Piece [c] c
  | short {e c : Char} (he : (e, c) ∈ shortEscapes) : Piece ['\\', e] c
  | code {d₁ d₂ d₃ d₄ c : Char} (hcode : hexCode [d₁, d₂, d₃, d₄] = some c.toNat) :
      Piece ['\\', 'u', d₁, d₂, d₃, d₄] c
  | pair {d₁ d₂ d₃ d₄ d₅ d₆ d₇ d₈ c : Char} (hc : 0x10000 ≤ c.toNat)
      (hhigh : hexCode [d₁, d₂, d₃, d₄] = some (0xD800 + (c.toNat - 0x10000) / 0x400))
      (hlow : hexCode [d₅, d₆, d₇, d₈] = some (0xDC00 + (c.toNat - 0x10000) % 0x400)) :
      Piece ['\\', 'u', d₁, d₂, d₃, d₄, '\\', 'u', d₅, d₆, d₇, d₈] c

-- A string: its characters, each with how it is written.
structure Str where
  pieces : List (List Char × Char)
  formed : ∀ p ∈ pieces, Piece p.1 p.2

def Str.body (s : Str) : List Char := s.pieces.flatMap Prod.fst

def Str.text (s : Str) : List Char := '"' :: s.body ++ ['"']

def Str.chars (s : Str) : List Char := s.pieces.map Prod.snd

def Digits (s : List Char) : Prop := s ≠ [] ∧ ∀ c ∈ s, c.isDigit = true

def exponentMarks : List (List Char) := [['e'], ['E'], ['e', '+'], ['E', '+'], ['e', '-'], ['E', '-']]

structure Number where
  negative : Bool
  whole : List Char
  fraction : Option (List Char)
  exponent : Option (List Char × List Char)
  whole_formed : whole = ['0'] ∨ (Digits whole ∧ whole.head? ≠ some '0')
  fraction_formed : ∀ ds ∈ fraction, Digits ds
  exponent_formed : ∀ e ∈ exponent, e.1 ∈ exponentMarks ∧ Digits e.2

namespace Number

def sign (n : Number) : List Char := if n.negative then ['-'] else []

def fractionText (n : Number) : List Char :=
  match n.fraction with
  | some ds => '.' :: ds
  | none => []

def exponentText (n : Number) : List Char :=
  match n.exponent with
  | some e => e.1 ++ e.2
  | none => []

def text (n : Number) : List Char := n.sign ++ n.whole ++ n.fractionText ++ n.exponentText

end Number

end Tokens

section Values

def joined : List (List Char) → List Char
  | [] => []
  | [t] => t
  | t :: t' :: ts => t ++ ',' :: joined (t' :: ts)

-- What stands between the brackets: the parts, or white space if there are none.
def inner (pad : List Char) (ts : List (List Char)) : List Char := if ts = [] then pad else joined ts

structure Item where
  before : List Char
  value : List Char
  after : List Char
  before_blank : Blank before
  after_blank : Blank after

def Item.text (i : Item) : List Char := i.before ++ i.value ++ i.after

structure Member where
  key : Str
  beforeKey : List Char
  afterKey : List Char
  item : Item
  beforeKey_blank : Blank beforeKey
  afterKey_blank : Blank afterKey

def Member.text (m : Member) : List Char := m.beforeKey ++ m.key.text ++ m.afterKey ++ ':' :: m.item.text

def arrayText (pad : List Char) (items : List Item) : List Char :=
    '[' :: inner pad (items.map Item.text) ++ [']']

def objectText (pad : List Char) (ms : List Member) : List Char :=
    '{' :: inner pad (ms.map Member.text) ++ ['}']

inductive Value : List Char → Prop where
  | null : Value "null".toList
  | true : Value "true".toList
  | false : Value "false".toList
  | number (n : Number) : Value n.text
  | string (s : Str) : Value s.text
  | array {pad : List Char} {items : List Item} (hpad : Blank pad) (hvalues : ∀ i ∈ items, Value i.value) :
      Value (arrayText pad items)
  | object {pad : List Char} {ms : List Member} (hpad : Blank pad) (hvalues : ∀ m ∈ ms, Value m.item.value) :
      Value (objectText pad ms)

def Compound (s : List Char) : Prop := Value s ∧ (s.head? = some '[' ∨ s.head? = some '{')

end Values

section Characters

variable {c d : Char} {s t : List Char}

theorem hexDigit_of_hexCode {digits : List Char} {n : Nat} (h : hexCode digits = some n) :
    ∀ d ∈ digits, ∃ k, hexDigit d = some k := by
  obtain ⟨ks, hks, -⟩ := Option.map_eq_some_iff.mp h
  clear h
  induction digits generalizing ks with
  | nil => exact fun _ hmem => nomatch hmem
  | cons d digits ih =>
      rw [List.mapM_cons] at hks
      cases hd : hexDigit d with
      | none =>
          rw [hd] at hks
          cases hks
      | some k =>
          cases hrest : digits.mapM hexDigit with
          | none =>
              rw [hd, hrest] at hks
              cases hks
          | some ks => exact List.forall_mem_cons.mpr ⟨⟨k, hd⟩, ih ks hrest⟩

theorem not_quote_of_hexCode {digits : List Char} {n : Nat} (h : hexCode digits = some n) :
    ∀ d ∈ digits, d ≠ '"' ∧ d ≠ '\\' := by
  intro d hd
  obtain ⟨k, hk⟩ := hexDigit_of_hexCode h d hd
  constructor
  · rintro rfl
    cases hk
  · rintro rfl
    cases hk

def isNumberChar (c : Char) : Bool := c.isDigit || ['-', '+', '.', 'e', 'E'].contains c

theorem isNumberChar_of_isDigit (h : c.isDigit = true) : isNumberChar c = true :=
    by rw [isNumberChar, h, Bool.true_or]

namespace Number

variable {n : Number}

theorem whole_digits (n : Number) : Digits n.whole := by
  rcases n.whole_formed with hzero | hdigits
  · rw [hzero]
    exact ⟨List.cons_ne_nil _ _, List.forall_mem_singleton.mpr rfl⟩
  · exact hdigits.1

theorem sign_chars (n : Number) : ∀ c ∈ n.sign, isNumberChar c = true := by
  unfold sign
  cases n.negative with
  | true => exact List.forall_mem_singleton.mpr rfl
  | false => exact fun _ hmem => nomatch hmem

theorem fraction_chars (n : Number) : ∀ c ∈ n.fractionText, isNumberChar c = true := by
  unfold fractionText
  cases hfraction : n.fraction with
  | none => exact fun _ hmem => nomatch hmem
  | some ds =>
      have hdigits := (n.fraction_formed ds hfraction).2
      exact List.forall_mem_cons.mpr ⟨by decide, fun c hc => isNumberChar_of_isDigit (hdigits c hc)⟩

theorem exponent_chars (n : Number) : ∀ c ∈ n.exponentText, isNumberChar c = true := by
  unfold exponentText
  cases hexponent : n.exponent with
  | none => exact fun _ hmem => nomatch hmem
  | some e =>
      obtain ⟨hmark, -, hdigits⟩ := n.exponent_formed e hexponent
      have hmarks : ∀ mark ∈ exponentMarks, mark.all isNumberChar = true := List.all_eq_true.mp rfl
      intro c hc
      rcases List.mem_append.mp hc with hc | hc
      · exact List.all_eq_true.mp (hmarks e.1 hmark) c hc
      · exact isNumberChar_of_isDigit (hdigits c hc)

theorem text_chars (n : Number) : ∀ c ∈ n.text, isNumberChar c = true := by
  intro c hc
  rw [text, List.mem_append, List.mem_append, List.mem_append] at hc
  rcases hc with ((hc | hc) | hc) | hc
  · exact n.sign_chars c hc
  · exact isNumberChar_of_isDigit (n.whole_digits.2 c hc)
  · exact n.fraction_chars c hc
  · exact n.exponent_chars c hc

theorem text_ne_nil (n : Number) : n.text ≠ [] := by
  have hwhole := n.whole_digits.1
  simp [text, hwhole]

end Number

theorem Compound.ends (h : Compound t) :
    ∃ c m d, t = c :: m ++ [d] ∧ (c = '[' ∨ c = '{') ∧ (d = ']' ∨ d = '}') := by
  obtain ⟨hvalue, hhead⟩ := h
  cases hvalue with
  | null => exact absurd hhead (by decide)
  | true => exact absurd hhead (by decide)
  | false => exact absurd hhead (by decide)
  | number n =>
      have hchars := n.text_chars
      rcases hhead with hhead | hhead
      · exact absurd (hchars _ (List.mem_of_mem_head? hhead)) (by decide)
      · exact absurd (hchars _ (List.mem_of_mem_head? hhead)) (by decide)
  | string s =>
      rcases hhead with hhead | hhead
      · exact absurd (Option.some.inj hhead) (by decide)
      · exact absurd (Option.some.inj hhead) (by decide)
  | array hpad hvalues => exact ⟨'[', _, ']', rfl, .inl rfl, .inl rfl⟩
  | object hpad hvalues => exact ⟨'{', _, '}', rfl, .inr rfl, .inr rfl⟩

end Characters

end Lib.Json
