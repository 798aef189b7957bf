import Kkdb.Types.Row
import Kkdb.Vm.JsonPath

namespace Kkdb.Unnest

open Lib JsonPath

section Parsing

def dropSign (s : Text) : Text := if s.head? = some '+' ∨ s.head? = some '-' then s.tail else s

def decimal (digits : Text) : Nat := digits.foldl (fun n d => n * 10 + (d.toNat - 48)) 0

def inRange (v : Int) : Bool := -9223372036854775808 ≤ v && v ≤ 9223372036854775807

def parseI64 (s : Text) : Option Int64 :=
  let digits := dropSign s
  let v : Int := if s.head? = some '-' then -(decimal digits : Int) else decimal digits
  if digits ≠ [] ∧ digits.all Char.isDigit ∧ inRange v then some (Int64.ofInt v) else none

def isExponent : Text → Bool
  | [] => true
  | c :: s => (c = 'e' || c = 'E') && dropSign s ≠ [] && (dropSign s).all Char.isDigit

-- Digits with at most one point among or around them, and an exponent.
def isDecimal (s : Text) : Bool :=
  let rest := s.dropWhile Char.isDigit
  if rest.head? = some '.' then
    (s.takeWhile Char.isDigit ≠ [] || rest.tail.takeWhile Char.isDigit ≠ []) &&
      isExponent (rest.tail.dropWhile Char.isDigit)
  else s.takeWhile Char.isDigit ≠ [] && isExponent rest

-- The texts that `parse::<f64>` takes.
def isFloat (s : Text) : Bool :=
  ["inf".toList, "infinity".toList, "nan".toList].contains ((dropSign s).map Char.toLower) || isDecimal
  (dropSign s)

def unescapeQuotes : Text → Text
  | c :: d :: s => if c = '\\' ∧ d = '"' then '"' :: unescapeQuotes s else c :: unescapeQuotes (d :: s)
  | s => s

end Parsing

structure Tokens where
  token : Text
  inString : Bool
  escape : Bool
  result : List Value

def Tokens.start : Tokens := ⟨[], false, false, []⟩

section Loop

-- The number nearest to a text that `parse::<f64>` takes.
variable (toF64 : Text → UInt64)

def parseJsonScalar (s : Text) : Res Value :=
  let s := trimText s
  if s = "null".toList then .ok .Null
  else if s = "true".toList then .ok (.Integer 1)
  else if s = "false".toList then .ok (.Integer 0)
  else if s.head? = some '"' ∧ s.getLast? = some '"' ∧ 2 ≤ utf8Len s then do
    let quoted ← slice s 1 (utf8Len s - 1)
    return .Text (String.ofList (unescapeQuotes quoted))
  else
    match parseI64 s with
    | some i => .ok (.Integer i)
    | none => if isFloat s then .ok (.Real (toF64 s)) else .ok (.Text (String.ofList s))

namespace Tokens

-- A token that is not blank is one more row.
def flush (st : Tokens) : Res Tokens :=
  let t := trimText st.token
  if t = [] then .ok { st with token := [] }
  else do return { st with token := [], result := st.result ++ [← parseJsonScalar toF64 t] }

def step (st : Tokens) (c : Char) : Res Tokens :=
  if c = '\\' ∧ st.inString = true then .ok { st with escape := true, token := st.token ++ [c] }
  else if st.escape = true then .ok { st with escape := false, token := st.token ++ [c] }
  else if c = '"' then .ok { st with inString := !st.inString, token := st.token ++ [c] }
  else if c = ',' ∧ st.inString = false then st.flush toF64
  else .ok { st with token := st.token ++ [c] }

end Tokens

def unnestValue : Value → Res (List Value)
  | .Text s =>
      let trimmed := trimText s.toList
      if trimmed.head? = some '[' ∧ trimmed.getLast? = some ']' then do
        let inner ← slice trimmed 1 (utf8Len trimmed - 1)
        let st ← inner.foldlM (Tokens.step toF64) .start
        return (← st.flush toF64).result
      else .ok ((s.toList.splitOn ',').map fun part => .Text (String.ofList (trimText part)))
  | .Null => .ok []
  | v => .ok [v]

-- The rows of `UNNEST`, with the values of its arguments.
def unnestRows (args : List Value) : Res (List Row) :=
  (unnestValue toF64 (args.headD .Null)).map fun values => values.map fun v => [v]

end Loop

section Total

variable {toF64 : Text → UInt64} {c d : Char} {s t : Text}

theorem slice_inner (hc : c.utf8Size = 1) (hd : d.utf8Size = 1) (m : Text) :
    slice (c :: m ++ [d]) 1 (utf8Len (c :: m ++ [d]) - 1) = .ok m := by
  have hslice : byteSlice (c :: (m ++ [d])) 1 (utf8Len (c :: (m ++ [d])) - 1) = some m :=
    (byteSlice_strip_iff hc).mpr ⟨d, rfl, hd⟩
  rw [slice, List.cons_append, hslice]

theorem exists_between (hhead : s.head? = some c) (hlast : s.getLast? = some d) (hne : c = d → 2 ≤ utf8Len s)
    (hc : c.utf8Size = 1) : ∃ m, s = c :: m ++ [d] := by
  obtain ⟨r, rfl⟩ := List.head?_eq_some_iff.mp hhead
  obtain rfl | ⟨m, e, rfl⟩ := List.eq_nil_or_concat r
  · have hcd : c = d := Option.some.inj hlast
    have hlen := hne hcd
    rw [utf8Len_cons, hc, utf8Len_nil] at hlen
    omega
  · rw [List.concat_eq_append, ← List.cons_append, List.getLast?_append_cons] at hlast
    have hed : e = d := Option.some.inj hlast
    exact ⟨m, by rw [List.concat_eq_append, List.cons_append, hed]⟩

variable (toF64)

def scalarValue (s : Text) : Value := (parseJsonScalar toF64 s).toOption.getD .Null

theorem parseJsonScalar_ok (s : Text) : parseJsonScalar toF64 s = .ok (scalarValue toF64 s) := by
  have hok : ∃ v, parseJsonScalar toF64 s = .ok v := by
    unfold parseJsonScalar
    dsimp only
    split_ifs with hnull htrue hfalse hquoted hfloat
    · exact ⟨_, rfl⟩
    · exact ⟨_, rfl⟩
    · exact ⟨_, rfl⟩
    · obtain ⟨hhead, hlast, hlen⟩ := hquoted
      obtain ⟨m, hm⟩ := exists_between hhead hlast (fun _ => hlen) (by decide)
      rw [hm, slice_inner (by decide) (by decide)]
      exact ⟨_, rfl⟩
    · cases parseI64 (trimText s) <;> exact ⟨_, rfl⟩
    · cases parseI64 (trimText s) <;> exact ⟨_, rfl⟩
  obtain ⟨v, hv⟩ := hok
  rw [scalarValue, hv]
  rfl

namespace Tokens

def row (token : Text) : List Value := if trimText token = [] then [] else [scalarValue toF64 (trimText token)]

def flushed (st : Tokens) : Tokens := { st with token := [], result := st.result ++ row toF64 st.token }

def stepped (st : Tokens) (c : Char) : Tokens :=
  if c = '\\' ∧ st.inString = true then { st with escape := true, token := st.token ++ [c] }
  else if st.escape = true then { st with escape := false, token := st.token ++ [c] }
  else if c = '"' then { st with inString := !st.inString, token := st.token ++ [c] }
  else if c = ',' ∧ st.inString = false then st.flushed toF64
  else { st with token := st.token ++ [c] }

theorem flush_ok (st : Tokens) : st.flush toF64 = .ok (st.flushed toF64) := by
  unfold flush flushed row
  dsimp only
  by_cases hblank : trimText st.token = []
  · rw [if_pos hblank, if_pos hblank, List.append_nil]
  · rw [if_neg hblank, if_neg hblank, parseJsonScalar_ok]
    rfl

theorem step_ok (st : Tokens) (c : Char) : st.step toF64 c = .ok (st.stepped toF64 c) := by
  unfold step stepped
  split_ifs
  · rfl
  · rfl
  · rfl
  · exact flush_ok toF64 st
  · rfl

theorem foldlM_ok (s : Text) (st : Tokens) : s.foldlM (step toF64) st = .ok (s.foldl (stepped toF64) st) := by
  induction s generalizing st with
  | nil => rfl
  | cons c s ih =>
      rw [List.foldlM_cons, step_ok, List.foldl_cons]
      exact ih _

end Tokens

def tokenValues (inner : Text) : List Value :=
    ((inner.foldl (Tokens.stepped toF64) .start).flushed toF64).result

theorem unnestValue_array {m : Text} (h : trimText s = '[' :: m ++ [']']) :
    unnestValue toF64 (.Text (String.ofList s)) = .ok (tokenValues toF64 m) := by
  have hbrackets : ('[' :: m ++ [']']).head? = some '[' ∧ ('[' :: m ++ [']']).getLast? = some ']' :=
    ⟨rfl, by rw [List.getLast?_append_cons]; rfl⟩
  unfold unnestValue
  simp only [String.toList_ofList, h, if_pos hbrackets, slice_inner (c := '[') (d := ']') (by decide)
    (by decide),
    bind, Except.bind, Tokens.foldlM_ok, Tokens.flush_ok, pure, Except.pure]
  rfl

theorem unnestRows_ok (args : List Value) : ∃ rows, unnestRows toF64 args = .ok rows := by
  have hok : ∀ v, ∃ values, unnestValue toF64 v = .ok values := by
    intro v
    cases v with
    | Text s =>
        by_cases hbrackets : (trimText s.toList).head? = some '[' ∧ (trimText s.toList).getLast? = some ']'
        · obtain ⟨m, hm⟩ := exists_between hbrackets.1 hbrackets.2 (fun h => absurd h (by decide)) (by decide)
          have harray := unnestValue_array toF64 hm
          rw [String.ofList_toList] at harray
          exact ⟨_, harray⟩
        · exact ⟨_, if_neg hbrackets⟩
    | _ => exact ⟨_, rfl⟩
  obtain ⟨values, hvalues⟩ := hok (args.headD .Null)
  rw [unnestRows, hvalues]
  exact ⟨_, rfl⟩

end Total

-- What the loop knows of quotes: whether it is in a string, and whether a backslash stands right before.
structure Quotes where
  inString : Bool
  escape : Bool
  deriving DecidableEq

namespace Quotes

def outside : Quotes := ⟨false, false⟩

def next (q : Quotes) (c : Char) : Quotes :=
  if c = '\\' ∧ q.inString = true then { q with escape := true }
  else if q.escape = true then { q with escape := false }
  else if c = '"' then { q with inString := !q.inString }
  else q

def run (q : Quotes) (s : Text) : Quotes := s.foldl next q

def cutsAt (q : Quotes) (c : Char) : Bool := c = ',' && !q.escape && !q.inString

-- No comma of the text ends a token.
def keeps : Quotes → Text → Bool
  | _, [] => true
  | q, c :: s => !q.cutsAt c && (q.next c).keeps s

variable {q : Quotes} {c : Char} {s t : Text}

theorem run_append (q : Quotes) (s t : Text) : q.run (s ++ t) = (q.run s).run t := List.foldl_append

theorem keeps_append : q.keeps (s ++ t) = (q.keeps s && (q.run s).keeps t) := by
  induction s generalizing q with
  | nil => rfl
  | cons c s ih =>
      rw [List.cons_append, keeps, keeps, ih, Bool.and_assoc]
      rfl

theorem exists_cut (h : q.keeps s = false) :
    ∃ a b, s = a ++ ',' :: b ∧ q.keeps a = true ∧ q.run a = outside := by
  induction s generalizing q with
  | nil => cases h
  | cons c s ih =>
      by_cases hcut : q.cutsAt c = true
      · refine ⟨[], s, ?_, rfl, ?_⟩
        · rw [cutsAt, Bool.and_eq_true, Bool.and_eq_true, decide_eq_true_eq] at hcut
          rw [hcut.1.1, List.nil_append]
        · rw [cutsAt, Bool.and_eq_true, Bool.and_eq_true, Bool.not_eq_true', Bool.not_eq_true'] at hcut
          obtain ⟨⟨-, hescape⟩, hin⟩ := hcut
          cases q
          cases hescape
          cases hin
          rfl
      · rw [keeps, Bool.eq_false_iff.mpr hcut, Bool.not_false, Bool.true_and] at h
        obtain ⟨a, b, rfl, hkeeps, hrun⟩ := ih h
        refine ⟨c :: a, b, rfl, ?_, hrun⟩
        rw [keeps, Bool.eq_false_iff.mpr hcut, Bool.not_false, Bool.true_and, hkeeps]

theorem quiet_outside (h : ∀ c ∈ s, c ≠ '"' ∧ c ≠ ',') : outside.keeps s = true ∧ outside.run s = outside := by
  induction s with
  | nil => exact ⟨rfl, rfl⟩
  | cons c s ih =>
      obtain ⟨⟨hquote, hcomma⟩, hrest⟩ := List.forall_mem_cons.mp h
      have hnext : outside.next c = outside := by
        rw [next, if_neg (fun h => nomatch h.2), if_neg (fun h => nomatch h), if_neg hquote]
      have hcut : outside.cutsAt c = false := by
        rw [cutsAt, decide_eq_false hcomma]
        rfl
      obtain ⟨hkeeps, hrun⟩ := ih hrest
      constructor
      · rw [keeps, hcut, hnext, hkeeps]
        rfl
      · rw [run, List.foldl_cons, hnext]
        exact hrun

theorem next_escape (h : c ≠ '\\') : (q.next c).escape = false := by
  rw [next, if_neg fun hc => h hc.1]
  split_ifs with hescape hquote
  · rfl
  · exact Bool.eq_false_iff.mpr hescape
  · exact Bool.eq_false_iff.mpr hescape

theorem keeps_inString (h : c ≠ '"' ∨ q.escape = true) (hin : q.inString = true) :
    q.cutsAt c = false ∧ (q.next c).inString = true := by
  constructor
  · rw [cutsAt, hin, Bool.not_true, Bool.and_false]
  · rw [next]
    split_ifs with hslash hescape hquote
    · exact hin
    · exact hin
    · exact absurd hquote (h.resolve_right hescape)
    · exact hin

end Quotes

namespace Tokens

variable (toF64 : Text → UInt64) {st : Tokens} {c : Char} {s t token : Text}

def quotes (st : Tokens) : Quotes := ⟨st.inString, st.escape⟩

def withToken (q : Quotes) (token : Text) (result : List Value) : Tokens :=
    ⟨token, q.inString, q.escape, result⟩

theorem stepped_of_not_cutsAt {q : Quotes} {result : List Value} (h : q.cutsAt c = false) :
    (withToken q token result).stepped toF64 c = withToken (q.next c) (token ++ [c]) result := by
  by_cases hslash : c = '\\' ∧ q.inString = true
  · have hnext : q.next c = { q with escape := true } := if_pos hslash
    rw [hnext]
    exact if_pos hslash
  · by_cases hescape : q.escape = true
    · have hnext : q.next c = { q with escape := false } := (if_neg hslash).trans (if_pos hescape)
      rw [hnext]
      exact (if_neg hslash).trans (if_pos hescape)
    · by_cases hquote : c = '"'
      · have hnext : q.next c = { q with inString := !q.inString } :=
          (if_neg hslash).trans ((if_neg hescape).trans (if_pos hquote))
        rw [hnext]
        exact (if_neg hslash).trans ((if_neg hescape).trans (if_pos hquote))
      · have hnext : q.next c = q := (if_neg hslash).trans ((if_neg hescape).trans (if_neg hquote))
        have hcomma : ¬(c = ',' ∧ q.inString = false) := by
          rintro ⟨rfl, hin⟩
          rw [Quotes.cutsAt, hin, Bool.eq_false_iff.mpr hescape] at h
          cases h
        rw [hnext]
        exact (if_neg hslash).trans ((if_neg hescape).trans ((if_neg hquote).trans (if_neg hcomma)))

theorem foldl_of_keeps {q : Quotes} {result : List Value} (h : q.keeps s = true) :
    s.foldl (stepped toF64) (withToken q token result) = withToken (q.run s) (token ++ s) result := by
  induction s generalizing q token with
  | nil => rw [List.append_nil]; rfl
  | cons c s ih =>
      rw [Quotes.keeps, Bool.and_eq_true, Bool.not_eq_true'] at h
      rw [List.foldl_cons, stepped_of_not_cutsAt toF64 h.1, ih h.2, List.append_assoc]
      rfl

theorem foldl_result (s : Text) (q : Quotes) (token : Text) (result : List Value) :
    ((s.foldl (stepped toF64) (withToken q token result)).flushed toF64).result =
      result ++ ((s.foldl (stepped toF64) (withToken q token [])).flushed toF64).result := by
  induction s generalizing q token result with
  | nil => rfl
  | cons c s ih =>
      rw [List.foldl_cons, List.foldl_cons]
      by_cases hcut : q.cutsAt c = true
      · rw [Quotes.cutsAt, Bool.and_eq_true, Bool.and_eq_true, decide_eq_true_eq, Bool.not_eq_true',
          Bool.not_eq_true'] at hcut
        obtain ⟨⟨rfl, hescape⟩, hin⟩ := hcut
        have hstep : ∀ result, (withToken q token result).stepped toF64 ',' =
            withToken q [] (result ++ row toF64 token) := by
          intro result
          have hno : ¬(withToken q token result).escape = true := Bool.eq_false_iff.mp hescape
          rw [stepped, if_neg (fun h => absurd h.1 (by decide)), if_neg hno, if_neg (by decide),
            if_pos ⟨rfl, hin⟩]
          rfl
        rw [hstep, hstep, ih, ih q [] ([] ++ row toF64 token), List.nil_append, List.append_assoc]
      · have hkeep : q.cutsAt c = false := Bool.eq_false_iff.mpr hcut
        rw [stepped_of_not_cutsAt toF64 hkeep, stepped_of_not_cutsAt toF64 hkeep, ih]

end Tokens

section Digits

variable {s : Text}

theorem decimal_eq (s : Text) : decimal s = Nat.ofDigitChars 10 s 0 := by
  unfold decimal Nat.ofDigitChars
  congr
  funext n d
  rw [Nat.mul_comm]
  rfl

theorem utf8Size_digit {c : Char} (h : c.isDigit = true) : c.utf8Size = 1 := by
  rw [Char.isDigit, Bool.and_eq_true, decide_eq_true_eq, decide_eq_true_eq] at h
  have hle : c.val.toNat ≤ 57 := h.2
  exact Char.utf8Size_eq_one_iff.mpr (Nat.le_trans hle (by decide))

theorem utf8Len_digits (h : ∀ c ∈ s, c.isDigit = true) : utf8Len s = s.length := by
  induction s with
  | nil => rfl
  | cons c s ih =>
      obtain ⟨hc, hs⟩ := List.forall_mem_cons.mp h
      rw [utf8Len_cons, utf8Size_digit hc, ih hs, List.length_cons, Nat.add_comm]

theorem length_le_utf8Len (s : Text) : s.length ≤ utf8Len s := by
  induction s with
  | nil => exact Nat.le_refl 0
  | cons c s ih =>
      have hpos := c.utf8Size_pos
      rw [List.length_cons, utf8Len_cons]
      omega

theorem inRange_iff {v : Int} : inRange v = true ↔ -9223372036854775808 ≤ v ∧ v ≤ 9223372036854775807 := by
  rw [inRange, Bool.and_eq_true, decide_eq_true_eq, decide_eq_true_eq]

theorem parseI64_digits (hne : s ≠ []) (hdigits : ∀ c ∈ s, c.isDigit = true)
    (hfits : decimal s ≤ 9223372036854775807) :
    parseI64 s = some (Int64.ofInt (decimal s)) := by
  obtain ⟨c, s, rfl⟩ := List.exists_cons_of_ne_nil hne
  have hminus : c ≠ '-' := by
    rintro rfl
    exact absurd (hdigits '-' List.mem_cons_self) (by decide)
  have hplus : c ≠ '+' := by
    rintro rfl
    exact absurd (hdigits '+' List.mem_cons_self) (by decide)
  have hdrop : dropSign (c :: s) = c :: s := by
    rw [dropSign, List.head?_cons]
    exact if_neg (not_or.mpr ⟨fun h => hplus (Option.some.inj h), fun h => hminus (Option.some.inj h)⟩)
  simp only [parseI64]
  rw [hdrop, List.head?_cons, if_neg fun h => hminus (Option.some.inj h),
    if_pos ⟨hne, List.all_eq_true.mpr hdigits, inRange_iff.mpr ⟨by omega, by omega⟩⟩]

theorem parseI64_minus (hne : s ≠ []) (hdigits : ∀ c ∈ s, c.isDigit = true)
    (hfits : decimal s ≤ 9223372036854775808) :
    parseI64 ('-' :: s) = some (Int64.ofInt (-decimal s)) := by
  have hdrop : dropSign ('-' :: s) = s := rfl
  simp only [parseI64]
  rw [hdrop, List.head?_cons, if_pos rfl,
    if_pos ⟨hne, List.all_eq_true.mpr hdigits, inRange_iff.mpr ⟨by omega, by omega⟩⟩]

def intText (v : Int) : Text := if v < 0 then '-' :: Nat.toDigits 10 v.natAbs else Nat.toDigits 10 v.natAbs

theorem isDigit_toDigits {n : Nat} {c : Char} (h : c ∈ Nat.toDigits 10 n) : c.isDigit = true :=
  Nat.isDigit_of_mem_toDigits (by decide) (by decide) h

theorem decimal_toDigits (n : Nat) : decimal (Nat.toDigits 10 n) = n := by
  rw [decimal_eq, Nat.ofDigitChars_ten_toDigits]

theorem parseI64_intText (v : Int64) : parseI64 (intText v.toInt) = some v := by
  have hlow := v.le_toInt
  have hhigh := v.toInt_lt
  have hvalue := decimal_toDigits v.toInt.natAbs
  rw [intText]
  split_ifs with hneg
  · rw [parseI64_minus Nat.toDigits_ne_nil (fun _ => isDigit_toDigits) (by omega), hvalue]
    have habs : (-(v.toInt.natAbs : Int)) = v.toInt := by omega
    rw [habs, Int64.ofInt_toInt]
  · rw [parseI64_digits Nat.toDigits_ne_nil (fun _ => isDigit_toDigits) (by omega), hvalue]
    have habs : (v.toInt.natAbs : Int) = v.toInt := by omega
    rw [habs, Int64.ofInt_toInt]

end Digits

end Kkdb.Unnest
