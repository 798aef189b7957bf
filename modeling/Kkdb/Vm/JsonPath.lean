import Kkdb.Error
import Kkdb.Lib.State
import Kkdb.Lib.Utf8
import Kkdb.Vm.QueryCache

namespace Kkdb.JsonPath

open Lib

abbrev Text := List Char

def trimStart (s : Text) : Text := s.dropWhile isWhitespace

def trimEnd (s : Text) : Text := (s.reverse.dropWhile isWhitespace).reverse

def trimText (s : Text) : Text := trimEnd (trimStart s)

-- `&s[start..stop]`, which panics unless both are boundaries of characters in order.
def slice (s : Text) (start stop : Nat) : Res Text :=
  match byteSlice s start stop with
  | some m => .ok m
  | none => .error .Panic

def sliceFrom (s : Text) (start : Nat) : Res Text := slice s start (utf8Len s)

-- The byte position of the first occurrence.
def findText (needle : Text) : Text → Option Nat
  | [] => if needle = [] then some 0 else none
  | c :: s => if needle.isPrefixOf (c :: s) then some 0 else (findText needle s).map (c.utf8Size + ·)

def findAny (stops : List Char) : Text → Option Nat
  | [] => none
  | c :: s => if stops.contains c then some 0 else (findAny stops s).map (c.utf8Size + ·)

def dropDollarDots : Text → Text
  | '$' :: '.' :: s => dropDollarDots s
  | s => s

-- A path without its `$.`.
def pathKey (path : Text) : Text := (dropDollarDots path).dropWhile (· = '$')

def flushPart (parts : List Text) (current part : Text) : List Text × Text :=
  if current = [] then (parts, current) else (parts ++ [part], [])

def pathStep (st : List Text × Text) (c : Char) : List Text × Text :=
  if c = '.' ∨ c = '[' then flushPart st.1 st.2 st.2
  else if c = ']' then flushPart st.1 st.2 ('[' :: st.2 ++ [']'])
  else (st.1, st.2 ++ [c])

-- The keys of a path, and its indexes in brackets.
def pathParts (p : Text) : List Text :=
  let st := p.foldl pathStep ([], [])
  if st.2 = [] then st.1 else st.1 ++ [st.2]

-- `parse::<usize>`.
def parseUsize (s : Text) : Option Nat :=
  let digits := if s.head? = some '+' then s.tail else s
  let value := digits.foldl (fun n d => n * 10 + (d.toNat - 48)) 0
  if digits ≠ [] ∧ digits.all Char.isDigit ∧ value < 2 ^ 64 then some value else none

-- Where the scanning loops are: how deep in brackets, inside a string, behind a backslash.
structure Scan where
  depth : Int := 0
  inString : Bool := false
  escape : Bool := false

-- One character of the loops, and whether it is a comma between two elements. Some loops take a backslash
-- for an escape outside of strings too.
def Scan.next (anywhere : Bool) (s : Scan) (c : Char) : Scan × Bool :=
  if s.escape then ({ s with escape := false }, false)
  else if c = '\\' ∧ (anywhere ∨ s.inString) then ({ s with escape := true }, false)
  else if c = '"' then ({ s with inString := !s.inString }, false)
  else if s.inString then (s, false)
  else if c = '{' ∨ c = '[' then ({ s with depth := s.depth + 1 }, false)
  else if c = '}' ∨ c = ']' then ({ s with depth := s.depth - 1 }, false)
  else (s, c = ',' ∧ s.depth = 0)

-- The text between the brackets, where there is one longer than `n` bytes.
def innerOf (n : Nat) (t : Text) : Res Text :=
  if n < utf8Len t then slice t 1 (utf8Len t - 1) else .ok []

section Extract

def closingQuote (escape : Bool) (i : Nat) : Text → Option Nat
  | [] => none
  | c :: s =>
      if escape then closingQuote false (i + c.utf8Size) s
      else if c = '\\' then closingQuote true (i + c.utf8Size) s
      else if c = '"' then some i
      else closingQuote false (i + c.utf8Size) s

def closingBracket (opening closing : Char) (depth : Int) (i : Nat) : Text → Option Nat
  | [] => none
  | c :: s =>
      let depth := if c = opening then depth + 1 else depth
      if c = closing then
        if depth - 1 = 0 then some i else closingBracket opening closing (depth - 1) (i + c.utf8Size) s
      else closingBracket opening closing depth (i + c.utf8Size) s

def bracketed (opening closing : Char) (rest : Text) : Res (Option Text) :=
  match closingBracket opening closing 0 0 rest with
  | some i => do
      let v ← slice rest 0 (i + 1)
      return some v
  | none => return none

def jsonValueAtStart (rest : Text) : Res (Option Text) :=
  match rest with
  | '"' :: stripped => do
      let v ← slice rest 0 (((closingQuote false 0 stripped).map (· + 2)).getD 1)
      return some v
  | '{' :: _ => bracketed '{' '}' rest
  | '[' :: _ => bracketed '[' ']' rest
  | _ => do
      let v ← slice rest 0 ((findAny [',', '}', ']', ' ', '\n', '\t'] rest).getD (utf8Len rest))
      return some v

def arrayGetLoop (inner : Text) (targetIdx : Nat) (scan : Scan) (idx start i : Nat) : Text → Res (Option Text)
  | [] =>
      if idx = targetIdx ∧ start < utf8Len inner then do
        let e ← sliceFrom inner start
        return some (trimText e)
      else return none
  | c :: s =>
      let next := scan.next true c
      if next.2 then
        if idx = targetIdx then do
          let e ← slice inner start i
          return some (trimText e)
        else arrayGetLoop inner targetIdx next.1 (idx + 1) (i + 1) (i + c.utf8Size) s
      else arrayGetLoop inner targetIdx next.1 idx start (i + c.utf8Size) s

def jsonArrayGet (json : Text) (targetIdx : Nat) : Res (Option Text) := do
  let json := trimText json
  if json.head? ≠ some '[' then return none
  let inner ← slice json 1 (utf8Len json - 1)
  let inner := trimText inner
  if inner = [] then return none
  arrayGetLoop inner targetIdx {} 0 0 0 inner

def isIndexPart (part : Text) : Bool := part.head? = some '[' && part.getLast? = some ']'

def extractStep (part json : Text) : Res (Option Text) :=
  if isIndexPart part then do
    let digits ← slice part 1 (utf8Len part - 1)
    match parseUsize digits with
    | some idx => jsonArrayGet json idx
    | none => return none
  else
    let search := '"' :: part ++ ['"', ':']
    match findText search json with
    | some pos => do
        let rest ← sliceFrom json (pos + utf8Len search)
        jsonValueAtStart (trimStart rest)
    | none => return none

def extractParts : List Text → Text → Res (Option Text)
  | [], json => return some json
  | part :: parts, json => do
      let found ← extractStep part json
      match found with
      | some next => extractParts parts next
      | none => return none

def jsonExtractPrimitive (json path : Text) : Res (Option Text) :=
  extractParts (pathParts (pathKey path)) (trimText json)

end Extract

section Other

def arrayContainsLoop (inner targetVal : Text) (scan : Scan) (start i : Nat) : Text → Res Bool
  | [] =>
      if start < utf8Len inner then do
        let e ← sliceFrom inner start
        return trimText e = targetVal
      else return false
  | c :: s =>
      let next := scan.next true c
      if next.2 then do
        let e ← slice inner start i
        if trimText e = targetVal then return true
        arrayContainsLoop inner targetVal next.1 (i + 1) (i + c.utf8Size) s
      else arrayContainsLoop inner targetVal next.1 start (i + c.utf8Size) s

def jsonArrayContains (json targetVal : Text) : Res Bool := do
  let json := trimText json
  if json.head? ≠ some '[' then return false
  let inner ← slice json 1 (utf8Len json - 1)
  let inner := trimText inner
  if inner = [] then return false
  arrayContainsLoop inner targetVal {} 0 0 inner

def commas (scan : Scan) : Text → Nat
  | [] => 0
  | c :: s =>
      let next := scan.next false c
      (if next.2 then 1 else 0) + commas next.1 s

def jsonLength (s : Text) : Res Nat := do
  let t := trimText s
  if t = ['n', 'u', 'l', 'l'] ∨ t = [] then return 0
  if t.head? = some '[' ∨ t.head? = some '{' then
    let inner ← innerOf 1 t
    if trimText inner = [] then return 0
    return 1 + commas {} inner
  else return 1

-- The rest of the members behind the next comma between two of them.
def skipMember (scan : Scan) (j : Nat) : Text → Text × Nat
  | [] => ([], j)
  | c :: s =>
      let next := scan.next false c
      if next.2 then (s, j + 1) else skipMember next.1 (j + 1) s

theorem length_skipMember (scan : Scan) (j : Nat) (s : Text) : (skipMember scan j s).1.length ≤ s.length := by
  induction s generalizing scan j with
  | nil => exact Nat.le_refl 0
  | cons c s ih =>
      rw [skipMember]
      split_ifs
      · exact Nat.le_succ _
      · exact Nat.le_succ_of_le (ih _ _)

-- `chars[start..=i]`.
def charSlice (chars : List Char) (start i : Nat) : Res Text :=
  if start ≤ i + 1 ∧ i < chars.length then .ok ((chars.drop start).take (i + 1 - start)) else .error .Panic

-- The loop of `json_keys`. All characters but the quotes change its state as in the other loops.
def keysLoop (chars : List Char) (scan : Scan) (start i : Nat) (keys : List Text) (rest : List Char) :
    Res (List Text) :=
  match rest with
  | [] => .ok keys
  | c :: s =>
      if scan.escape = false ∧ c = '"' then
        if scan.inString then
          if scan.depth = 0 then do
            let keyRaw ← charSlice chars start i
            let j := i + 1 + (s.takeWhile isWhitespace).length
            match _hafter : s.dropWhile isWhitespace with
            | ':' :: value =>
                keysLoop chars { scan with inString := false } start (skipMember {} (j + 1) value).2
                  (keys ++ [keyRaw]) (skipMember {} (j + 1) value).1
            | _ => keysLoop chars { scan with inString := false } start (i + 1) keys s
          else keysLoop chars { scan with inString := false } start (i + 1) keys s
        else keysLoop chars { scan with inString := true } i (i + 1) keys s
      else keysLoop chars (scan.next false c).1 start (i + 1) keys s
termination_by rest.length
decreasing_by
  · have hskip : (skipMember {} (i + 1 + (s.takeWhile isWhitespace).length + 1) value).1.length ≤
        value.length :=
      length_skipMember _ _ _
    have hdrop := (List.dropWhile_suffix (l := s) isWhitespace).length_le
    rw [_hafter, List.length_cons] at hdrop
    rw [List.length_cons]
    omega
  all_goals exact Nat.lt_succ_self _

def jsonKeys (s : Text) : Res Text := do
  let t := trimText s
  if t.head? ≠ some '{' then return ['[', ']']
  let inner ← innerOf 1 t
  if trimText inner = [] then return ['[', ']']
  let keys ← keysLoop inner {} 0 0 [] inner
  return '[' :: List.intercalate [',', ' '] keys ++ [']']

-- Where the value ends at the next comma between two members.
def topComma (scan : Scan) (i : Nat) : Text → Option Nat
  | [] => none
  | c :: s =>
      let next := scan.next false c
      if next.2 then some i else topComma next.1 (i + c.utf8Size) s

def trimEndCommas (s : Text) : Text := (s.reverse.dropWhile (· = ',')).reverse

def jsonRemovePath (json path : Text) : Res (Option Text) := do
  let t := trimText json
  let key := pathKey path
  if key = [] then return some t
  if t.head? ≠ some '{' then return some t
  let inner ← slice t 1 (utf8Len t - 1)
  let searchKey := '"' :: key ++ ['"', ':']
  let altKey := '"' :: key ++ ['"', ' ', ':']
  match (findText searchKey inner).or (findText altKey inner) with
  | some pos => do
      let rest ← sliceFrom inner (pos + utf8Len searchKey)
      let rest := trimStart rest
      let valLen := (topComma {} 0 rest).getD (utf8Len rest)
      let before ← slice inner 0 pos
      let before := trimEnd (trimEndCommas before)
      let afterVal ← sliceFrom rest valLen
      let kept := trimText (afterVal.dropWhile (· = ','))
      let newInner :=
        if before = [] then kept
        else if trimStart afterVal = [] then before
        else before ++ [',', ' '] ++ kept
      return some ('{' :: newInner ++ ['}'])
  | none => return some t

def jsonSetPath (json path value : Text) : Res (Option Text) := do
  let t := trimText json
  let key := pathKey path
  let member := '"' :: key ++ ['"', ':', ' '] ++ value
  if key = [] then return some value
  if t.head? ≠ some '{' then return some ('{' :: member ++ ['}'])
  let inner ← innerOf 2 t
  let searchKey := '"' :: key ++ ['"', ':']
  match findText searchKey inner with
  | some pos => do
      let rest ← sliceFrom inner (pos + utf8Len searchKey)
      let rest := trimStart rest
      let valLen := (topComma {} 0 rest).getD (utf8Len rest)
      let suffix ← sliceFrom rest valLen
      let before ← slice inner 0 pos
      return some ('{' :: before ++ member ++ suffix ++ ['}'])
  | none =>
      if trimText inner = [] then return some ('{' :: member ++ ['}'])
      else return some ('{' :: inner ++ [',', ' '] ++ member ++ ['}'])

end Other

section Slices

variable {s t a b m : Text} {c d : Char} {n i : Nat}

def Returns {α : Type} (x : Res α) : Prop := ∃ a, x = .ok a

theorem Returns.ok {α : Type} (a : α) : Returns (.ok a) := ⟨a, rfl⟩

theorem Returns.bind {α β : Type} {x : Res α} {f : α → Res β} (hx : Returns x)
    (hf : ∀ a, x = .ok a → Returns (f a)) : Returns (x >>= f) := by
  obtain ⟨a, rfl⟩ := hx
  exact hf a rfl

theorem returns_bind_iff {α β : Type} {x : Res α} {f : α → Res β} (hf : ∀ a, x = .ok a → Returns (f a)) :
    Returns (x >>= f) ↔ Returns x := by
  refine ⟨?_, fun hx => hx.bind hf⟩
  rintro ⟨b, hb⟩
  obtain ⟨a, ha, -⟩ := ok_of_bind hb
  exact ⟨a, ha⟩

theorem slice_eq {start stop : Nat} (hs : s = a ++ m ++ b) (hstart : utf8Len a = start)
    (hstop : stop = start + utf8Len m) : slice s start stop = .ok m := by
  rw [slice, byteSlice_eq_some_iff.mpr ⟨a, b, hs, hstart, hstop⟩]

theorem slice_append (a m b : Text) : slice (a ++ m ++ b) (utf8Len a) (utf8Len a + utf8Len m) = .ok m := by
  rw [slice, byteSlice_append]

theorem slice_prefix (a b : Text) : slice (a ++ b) 0 (utf8Len a) = .ok a := by
  have h := slice_append [] a b
  rwa [List.nil_append, utf8Len_nil, Nat.zero_add] at h

theorem sliceFrom_append (a b : Text) : sliceFrom (a ++ b) (utf8Len a) = .ok b := by
  have h := slice_append a b []
  rwa [List.append_nil, ← utf8Len_append] at h

theorem returns_slice_iff {start stop : Nat} : Returns (slice s start stop) ↔ ∃ m, byteSlice s start stop =
    some m := by
  unfold slice
  cases byteSlice s start stop with
  | some m => exact iff_of_true (.ok m) ⟨m, rfl⟩
  | none =>
      refine iff_of_false ?_ ?_
      · rintro ⟨a, h⟩
        cases h
      · rintro ⟨m, h⟩
        cases h

-- The last character can be cut off as one byte.
def OneByteEnd (t : Text) : Prop := ∀ d ∈ t.getLast?, d.utf8Size = 1

theorem returns_strip_iff (hc : c.utf8Size = 1) (hhead : t.head? = some c) :
    Returns (slice t 1 (utf8Len t - 1)) ↔ 2 ≤ t.length ∧ OneByteEnd t := by
  obtain ⟨s, rfl⟩ := List.head?_eq_some_iff.mp hhead
  rw [returns_slice_iff]
  simp only [byteSlice_strip_iff hc]
  constructor
  · rintro ⟨m, d, rfl, hd⟩
    refine ⟨by rw [List.length_cons, List.length_append, List.length_singleton]; omega, ?_⟩
    intro d' hd'
    rw [← List.cons_append, List.getLast?_concat, Option.mem_some_iff] at hd'
    exact hd' ▸ hd
  · rintro ⟨hlen, hend⟩
    obtain rfl | ⟨m, d, rfl⟩ := List.eq_nil_or_concat s
    · exact absurd hlen (by rw [List.length_singleton]; decide)
    · refine ⟨m, d, List.concat_eq_append, hend d ?_⟩
      rw [List.concat_eq_append, ← List.cons_append, List.getLast?_concat, Option.mem_some_iff]

end Slices

end Kkdb.JsonPath
