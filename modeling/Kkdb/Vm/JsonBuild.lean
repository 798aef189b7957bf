import Kkdb.Vm.UnnestArray

namespace Kkdb.JsonBuild

open Lib JsonPath Unnest

section Functions

-- `replace` of one character.
def replaceChar (c : Char) (new : Text) (t : Text) : Text := t.flatMap fun d => if d = c then new else [d]

def escapeText (t : Text) : Text := replaceChar '"' ['\\', '"'] (replaceChar '\\' ['\\', '\\'] t)

def quotedText (t : Text) : Text := '"' :: (escapeText t ++ ['"'])

-- `replace("\\\\", "\\")`.
def unescapeBackslashes : Text → Text
  | c :: d :: s =>
      if c = '\\' ∧ d = '\\' then '\\' :: unescapeBackslashes s else c :: unescapeBackslashes (d :: s)
  | s => s

def unescapeText (t : Text) : Text := unescapeBackslashes (unescapeQuotes t)

-- `to_string` of a float, the number nearest to a text, and what a value that is no text shows.
variable (realText : UInt64 → Text) (toF64 : Text → UInt64) (display : Value → Text)

def jsonText : Value → Text
  | .Null => "null".toList
  | .Integer i => intText i.toInt
  | .Real f => realText f
  | .Text t => quotedText t.toList
  | .Blob _ => "\"<blob>\"".toList

def joined : List Text → Text := List.intercalate [',', ' ']

def jsonArray (args : List Value) : Value :=
  .Text (String.ofList ('[' :: joined (args.map (jsonText realText)) ++ [']']))

def keyText : Value → Text
  | .Text t => escapeText t.toList
  | v => escapeText (display v)

def memberText (k v : Value) : Text := '"' :: keyText display k ++ ['"', ':', ' '] ++ jsonText realText v

def members : List Value → List Text
  | k :: v :: args => memberText realText display k v :: members args
  | _ => []

def jsonObject (args : List Value) : Value :=
  .Text (String.ofList ('{' :: joined (members realText display args) ++ ['}']))

-- `json_scalar_to_value`.
def jsonScalarToValue (s : Text) : Res Value :=
  let t := trimText s
  if t = "null".toList then .ok .Null
  else if t = "true".toList then .ok (.Integer 1)
  else if t = "false".toList then .ok (.Integer 0)
  else if t.head? = some '"' ∧ t.getLast? = some '"' ∧ 2 ≤ utf8Len t then do
    let inner ← slice t 1 (utf8Len t - 1)
    return .Text (String.ofList (unescapeText inner))
  else
    match parseI64 t with
    | some i => .ok (.Integer i)
    | none => if isFloat t then .ok (.Real (toF64 t)) else .ok (.Text (String.ofList t))

def jsonExtract : List Value → Res Value
  | .Text s :: .Text p :: _ => do
      match ← jsonExtractPrimitive s.toList p.toList with
      | some extracted => jsonScalarToValue toF64 extracted
      | none => return .Null
  | _ => .ok .Null

def jsonQuote : List Value → Value
  | [] => .Null
  | .Text t :: _ => .Text (String.ofList (quotedText t.toList))
  | .Integer i :: _ => .Text (String.ofList (intText i.toInt))
  | .Real f :: _ => .Text (String.ofList (realText f))
  | .Null :: _ => .Text "null"
  | .Blob _ :: _ => .Null

def jsonUnquote : List Value → Res Value
  | [] => .ok .Null
  | .Text s :: _ => do
      let t := trimText s.toList
      if t.head? = some '"' ∧ t.getLast? = some '"' ∧ 2 ≤ utf8Len t then
        let inner ← slice t 1 (utf8Len t - 1)
        return .Text (String.ofList (unescapeText inner))
      else return .Text s
  | v :: _ => .ok v

end Functions

section Escapes

variable {c : Char} {s t : Text}

def escapeChar (c : Char) : Text :=
  if c = '\\' then ['\\', '\\'] else if c = '"' then ['\\', '"'] else [c]

theorem escapeText_eq (t : Text) : escapeText t = t.flatMap escapeChar := by
  rw [escapeText, replaceChar, replaceChar, List.flatMap_assoc]
  refine congrArg (List.flatMap · t) (funext fun c => ?_)
  rw [escapeChar]
  split_ifs with hslash hquote
  · rfl
  · rw [List.flatMap_singleton, if_pos hquote]
  · rw [List.flatMap_singleton, if_neg hquote]

theorem escapeText_cons (c : Char) (t : Text) : escapeText (c :: t) = escapeChar c ++ escapeText t := by
  rw [escapeText_eq, escapeText_eq, List.flatMap_cons]

theorem unescapeQuotes_cons (h : c ≠ '\\' ∨ s.head? ≠ some '"') :
    unescapeQuotes (c :: s) = c :: unescapeQuotes s := by
  cases s with
  | nil => rfl
  | cons d s =>
      rw [unescapeQuotes, if_neg]
      rintro ⟨rfl, rfl⟩
      exact h.elim (fun hc => hc rfl) fun hd => hd rfl

theorem unescapeBackslashes_cons (h : c ≠ '\\') :
    unescapeBackslashes (c :: s) = c :: unescapeBackslashes s := by
  cases s with
  | nil => rfl
  | cons d s => rw [unescapeBackslashes, if_neg fun hboth => h hboth.1]

theorem head_ne_quote (h : c ≠ '"') : (c :: s).head? ≠ some '"' := fun hhead => h (Option.some.inj hhead)

-- An escaped text never starts with a quote.
theorem head_escapeText (t : Text) : (escapeText t).head? ≠ some '"' := by
  cases t with
  | nil => rw [escapeText_eq]; decide
  | cons c t =>
      rw [escapeText_cons, escapeChar]
      split_ifs with hslash hquote
      · exact head_ne_quote (by decide)
      · exact head_ne_quote (by decide)
      · exact head_ne_quote hquote

theorem unescapeQuotes_escape (t : Text) : unescapeQuotes (escapeText t) = replaceChar '\\' ['\\', '\\'] t := by
  induction t with
  | nil => rfl
  | cons c t ih =>
      rw [escapeText_cons, escapeChar, replaceChar, List.flatMap_cons, ← replaceChar, ← ih]
      split_ifs with hslash hquote
      · rw [List.cons_append, List.singleton_append, unescapeQuotes_cons (.inr (head_ne_quote (by decide))),
          unescapeQuotes_cons (.inr (head_escapeText t))]
        rfl
      · rw [hquote]
        rfl
      · rw [List.singleton_append, unescapeQuotes_cons (.inl hslash)]
        rfl

theorem unescapeBackslashes_replace (t : Text) : unescapeBackslashes (replaceChar '\\' ['\\', '\\'] t) = t := by
  induction t with
  | nil => rfl
  | cons c t ih =>
      rw [replaceChar, List.flatMap_cons, ← replaceChar]
      split_ifs with hslash
      · rw [List.cons_append, List.singleton_append, unescapeBackslashes, if_pos ⟨rfl, rfl⟩, ih, hslash]
      · rw [List.singleton_append, unescapeBackslashes_cons hslash, ih]

theorem unescapeText_escape (t : Text) : unescapeText (escapeText t) = t := by
  rw [unescapeText, unescapeQuotes_escape, unescapeBackslashes_replace]

end Escapes

section Scanning

variable {c : Char} {e s t : Text} {st st' : Scan}

-- The state behind a text that has no comma between elements.
def quiet (st : Scan) : Text → Option Scan
  | [] => some st
  | c :: s => if (st.next true c).2 then none else quiet (st.next true c).1 s

theorem quiet_append (st : Scan) (e s : Text) :
    quiet st (e ++ s) = (quiet st e).bind fun st' => quiet st' s := by
  induction e generalizing st with
  | nil => rfl
  | cons c e ih =>
      rw [List.cons_append, quiet, quiet]
      split_ifs
      · rfl
      · exact ih _

theorem next_inString (hslash : c ≠ '\\') (hquote : c ≠ '"') :
    Scan.next true { inString := true } c = ({ inString := true }, false) := by
  rw [Scan.next]
  simp [hslash, hquote]

theorem next_plain (h : c ∉ ['\\', '"', '{', '[', '}', ']', ',']) : Scan.next true {} c = ({}, false) := by
  simp only [List.mem_cons, List.not_mem_nil, or_false, not_or] at h
  obtain ⟨hslash, hquote, hbrace, hbracket, hbrace', hbracket', hcomma⟩ := h
  rw [Scan.next]
  simp [hslash, hquote, hbrace, hbracket, hbrace', hbracket', hcomma]

theorem quiet_inString (t : Text) : quiet { inString := true } (escapeText t) = some { inString := true } := by
  induction t with
  | nil => rfl
  | cons c t ih =>
      rw [escapeText_cons, quiet_append]
      have hchar : quiet { inString := true } (escapeChar c) = some { inString := true } := by
        rw [escapeChar]
        split_ifs with hslash hquote
        · rfl
        · rfl
        · rw [quiet, next_inString hslash hquote]
          rfl
      rw [hchar, Option.bind_some, ih]

-- Texts that leave the scanner where it was.
def Whole (e : Text) : Prop := quiet {} e = some {}

theorem whole_quoted (t : Text) : Whole (quotedText t) := by
  have hopen : quiet {} ['"'] = some { inString := true } := rfl
  have hclose : quiet { inString := true } ['"'] = some {} := rfl
  rw [Whole, quotedText, ← List.singleton_append, quiet_append, hopen, Option.bind_some, quiet_append,
    quiet_inString, Option.bind_some, hclose]

theorem whole_of_plain (h : ∀ c ∈ e, c ∉ ['\\', '"', '{', '[', '}', ']', ',']) : Whole e := by
  induction e with
  | nil => rfl
  | cons c e ih =>
      obtain ⟨hc, he⟩ := List.forall_mem_cons.mp h
      rw [Whole, quiet, next_plain hc]
      exact ih he

def tailText (es : List Text) : Text := es.flatMap fun e => ',' :: ' ' :: e

theorem tailText_cons (e : Text) (es : List Text) : tailText (e :: es) = ',' :: ' ' :: e ++ tailText es := by
  rw [tailText, List.flatMap_cons, ← tailText]

theorem joined_cons (e : Text) (es : List Text) : joined (e :: es) = e ++ tailText es := by
  induction es generalizing e with
  | nil => rw [joined, List.intercalate_singleton, tailText, List.flatMap_nil, List.append_nil]
  | cons e' es ih =>
      have hjoin : joined (e :: e' :: es) = e ++ [',', ' '] ++ joined (e' :: es) := by
        simp [joined, List.intercalate, List.intersperse]
      rw [hjoin, ih, tailText_cons, List.append_assoc]
      rfl

theorem arrayGetLoop_quiet {inner : Text} {targetIdx idx start : Nat} (h : quiet st e = some st') (i : Nat) :
    arrayGetLoop inner targetIdx st idx start i (e ++ s) =
      arrayGetLoop inner targetIdx st' idx start (i + utf8Len e) s := by
  induction e generalizing st i with
  | nil =>
      obtain rfl := Option.some.inj h
      rfl
  | cons c e ih =>
      rw [quiet] at h
      split_ifs at h with hcomma
      rw [List.cons_append, arrayGetLoop, if_neg hcomma, ih h, utf8Len_cons, Nat.add_assoc]

theorem whole_blank (h : Whole e) : Whole (' ' :: e) := by
  rw [Whole, quiet, next_plain (by decide)]
  exact h

theorem arrayGetLoop_joined (pre e : Text) (es : List Text) (hall : ∀ x ∈ e :: es, Whole x ∧ x ≠ [])
    {idx targetIdx : Nat} (hle : idx ≤ targetIdx) :
    arrayGetLoop (pre ++ e ++ tailText es) targetIdx {} idx (utf8Len pre) (utf8Len pre) (e ++ tailText es) =
      .ok (((e :: es.map (' ' :: ·))[targetIdx - idx]?).map trimText) := by
  induction es generalizing pre e idx with
  | nil =>
      obtain ⟨hwhole, hne⟩ := hall e List.mem_cons_self
      have hnil : tailText [] = [] := rfl
      have hpos : utf8Len e ≠ 0 := fun h => hne (utf8Len_eq_zero.mp h)
      rw [arrayGetLoop_quiet hwhole, hnil, arrayGetLoop, List.append_nil, utf8Len_append]
      by_cases hidx : idx = targetIdx
      · rw [if_pos ⟨hidx, by omega⟩, sliceFrom_append, hidx, Nat.sub_self]
        rfl
      · obtain ⟨k, hk⟩ := Nat.exists_eq_add_of_lt (Nat.lt_of_le_of_ne hle hidx)
        have hbehind : targetIdx - idx = k + 1 := by omega
        rw [if_neg fun h => hidx h.1, hbehind]
        rfl
  | cons e' es ih =>
      obtain ⟨⟨hwhole, -⟩, hrest⟩ := List.forall_mem_cons.mp hall
      obtain ⟨⟨hwhole', -⟩, hes⟩ := List.forall_mem_cons.mp hrest
      rw [arrayGetLoop_quiet hwhole, tailText_cons, List.cons_append, List.cons_append, arrayGetLoop]
      have hcomma : Scan.next true {} ',' = ({}, true) := rfl
      rw [hcomma, if_pos rfl]
      by_cases hidx : idx = targetIdx
      · rw [if_pos hidx, slice_append, hidx, Nat.sub_self]
        rfl
      · have hcomma' : utf8Len [','] = 1 := by decide
        have hstart : utf8Len pre + utf8Len e + 1 = utf8Len (pre ++ e ++ [',']) := by
          rw [utf8Len_append, utf8Len_append, hcomma']
        have hsize : Char.utf8Size ',' = 1 := by decide
        have hsplit : pre ++ e ++ ',' :: ' ' :: (e' ++ tailText es) =
            pre ++ e ++ [','] ++ ' ' :: e' ++ tailText es := by
          simp only [List.append_assoc, List.cons_append, List.nil_append]
        obtain ⟨k, hk⟩ := Nat.exists_eq_add_of_lt (Nat.lt_of_le_of_ne hle hidx)
        have hbehind : targetIdx - idx = k + 1 := by omega
        have hbehind' : targetIdx - (idx + 1) = k := by omega
        have hlater := @ih (pre ++ e ++ [',']) (' ' :: e')
          (List.forall_mem_cons.mpr ⟨⟨whole_blank hwhole', List.cons_ne_nil _ _⟩, hes⟩) (idx + 1) (by omega)
        rw [if_neg hidx, hsize, hstart, hsplit]
        refine hlater.trans ?_
        rw [hbehind, hbehind', List.map_cons]
        rfl

end Scanning

section Values

variable {realText : UInt64 → Text} {toF64 : Text → UInt64} {v : Value} {s t : Text}

-- The values that the two constructors and the extraction have in common.
def Plain : Value → Prop
  | .Null | .Integer _ | .Text _ => True
  | _ => False

theorem solid_of_all (hne : s ≠ []) (h : ∀ c ∈ s, isWhitespace c = false ∧ c ≠ '\\') : Solid s := by
  obtain ⟨c, r, rfl⟩ := List.exists_cons_of_ne_nil hne
  refine ⟨⟨c, r, rfl, (h c List.mem_cons_self).1⟩, ?_⟩
  have hlast := List.dropLast_append_getLast hne
  have hmem := List.getLast_mem hne
  exact ⟨_, _, hlast.symm, (h _ hmem).1, (h _ hmem).2⟩

theorem number_ne {c d : Char} (h : c.isDigit = true ∨ c = '-') (hd : d.toNat < 45 ∨ 57 < d.toNat) : c ≠ d := by
  rintro rfl
  rcases h with hdigit | rfl
  · have hdigits := Char.isDigit_iff_toNat.mp hdigit
    have hlow : '0'.toNat = 48 := rfl
    have hhigh : '9'.toNat = 57 := rfl
    omega
  · exact absurd hd (by decide)

theorem digit_plain {c : Char} (h : c.isDigit = true ∨ c = '-') :
    (isWhitespace c = false ∧ c ≠ '\\') ∧ c ∉ ['\\', '"', '{', '[', '}', ']', ','] := by
  have hnumber : Json.isNumberChar c = true := by
    rw [Json.isNumberChar, Bool.or_eq_true]
    exact h.imp id fun hminus => by rw [hminus]; rfl
  have hne : ∀ d : Char, (d.toNat < 45 ∨ 57 < d.toNat) → c ≠ d := fun d hd => number_ne h hd
  have hslash : c ≠ '\\' := hne '\\' (by decide)
  refine ⟨⟨Element.isWhitespace_of_isNumberChar hnumber, hslash⟩, ?_⟩
  simp only [List.mem_cons, List.not_mem_nil, or_false, not_or]
  exact ⟨hslash, hne _ (by decide), hne _ (by decide), hne _ (by decide), hne _ (by decide), hne _ (by decide),
    hne _ (by decide)⟩

theorem intText_chars (v : Int) {c : Char} (h : c ∈ intText v) : c.isDigit = true ∨ c = '-' := by
  rw [intText] at h
  split_ifs at h with hneg
  · rcases List.mem_cons.mp h with rfl | hdigit
    · exact .inr rfl
    · exact .inl (isDigit_toDigits hdigit)
  · exact .inl (isDigit_toDigits h)

theorem intText_ne_nil (v : Int) : intText v ≠ [] := by
  rw [intText]
  split_ifs
  · exact List.cons_ne_nil _ _
  · exact Nat.toDigits_ne_nil

theorem solid_intText (v : Int) : Solid (intText v) :=
  solid_of_all (intText_ne_nil v) fun _ hc => (digit_plain (intText_chars v hc)).1

theorem solid_quoted (t : Text) : Solid (quotedText t) :=
  ⟨⟨'"', _, rfl, by decide⟩, ⟨'"' :: escapeText t, '"', rfl, by decide, by decide⟩⟩

theorem solid_jsonText (h : Plain v) : Solid (jsonText realText v) := by
  cases v with
  | Null => exact ⟨⟨'n', "ull".toList, rfl, by decide⟩, ⟨"nul".toList, 'l', rfl, by decide, by decide⟩⟩
  | Integer i => exact solid_intText i.toInt
  | Text t => exact solid_quoted t.toList
  | Real f => exact h.elim
  | Blob b => exact h.elim

theorem whole_jsonText (h : Plain v) : Whole (jsonText realText v) := by
  cases v with
  | Null => rfl
  | Integer i => exact whole_of_plain fun c hc => (digit_plain (intText_chars i.toInt hc)).2
  | Text t => exact whole_quoted t.toList
  | Real f => exact h.elim
  | Blob b => exact h.elim

theorem ne_word {c : Char} {w : Text} (hhead : t.head? = some c) (hw : w.head? ≠ some c) : t ≠ w :=
  fun h => hw (h ▸ hhead)

theorem getLast_quoted (t : Text) : (quotedText t).getLast? = some '"' := by
  rw [quotedText, ← List.cons_append, List.getLast?_concat]

theorem length_quoted (t : Text) : 2 ≤ utf8Len (quotedText t) := by
  have hsize : Char.utf8Size '"' = 1 := by decide
  rw [quotedText, utf8Len_cons, utf8Len_append, utf8Len_cons, utf8Len_nil, hsize]
  omega

theorem slice_quoted (t : Text) : slice (quotedText t) 1 (utf8Len (quotedText t) - 1) = .ok (escapeText t) :=
  slice_inner (by decide) (by decide) (escapeText t)

theorem scalar_quoted (t : Text) : jsonScalarToValue toF64 (quotedText t) = .ok (.Text (String.ofList t)) := by
  have hhead : (quotedText t).head? = some '"' := rfl
  simp only [jsonScalarToValue]
  rw [(solid_quoted t).trimText_self, if_neg (ne_word hhead (by decide)), if_neg (ne_word hhead (by decide)),
    if_neg (ne_word hhead (by decide)), if_pos ⟨hhead, getLast_quoted t, length_quoted t⟩, slice_quoted]
  exact congrArg (fun text => Except.ok (Value.Text (String.ofList text))) (unescapeText_escape t)

theorem scalar_intText (i : Int64) : jsonScalarToValue toF64 (intText i.toInt) = .ok (.Integer i) := by
  obtain ⟨c, s, hs⟩ := List.exists_cons_of_ne_nil (intText_ne_nil i.toInt)
  have hc := intText_chars i.toInt (hs ▸ List.mem_cons_self)
  have hhead : (intText i.toInt).head? = some c := by rw [hs]; rfl
  have hword : ∀ {d : Char} {w : Text}, w.head? = some d → (d.toNat < 45 ∨ 57 < d.toNat) →
      intText i.toInt ≠ w := by
    intro d w hw hd
    refine ne_word hhead ?_
    rw [hw]
    exact fun h => number_ne hc hd (Option.some.inj h).symm
  have hquote : ¬((intText i.toInt).head? = some '"' ∧ (intText i.toInt).getLast? = some '"' ∧
      2 ≤ utf8Len (intText i.toInt)) := by
    rintro ⟨h, -⟩
    exact number_ne hc (show ('"' : Char).toNat < 45 ∨ 57 < '"'.toNat by decide)
      (Option.some.inj (hhead.symm.trans h))
  simp only [jsonScalarToValue]
  rw [(solid_intText i.toInt).trimText_self, if_neg (hword rfl (by decide)), if_neg (hword rfl (by decide)),
    if_neg (hword rfl (by decide)), if_neg hquote, parseI64_intText]

theorem scalar_jsonText (h : Plain v) : jsonScalarToValue toF64 (jsonText realText v) = .ok v := by
  cases v with
  | Null => rfl
  | Integer i => exact scalar_intText i
  | Text t =>
      refine (scalar_quoted t.toList).trans ?_
      rw [String.ofList_toList]
  | Real f => exact h.elim
  | Blob b => exact h.elim

theorem jsonUnquote_quote (s : String) : jsonUnquote [jsonQuote realText [.Text s]] = .ok (.Text s) := by
  have hhead : (quotedText s.toList).head? = some '"' := rfl
  simp only [jsonQuote, jsonUnquote]
  rw [String.toList_ofList, (solid_quoted _).trimText_self,
    if_pos ⟨hhead, getLast_quoted _, length_quoted _⟩, slice_quoted]
  refine (congrArg (fun text => Except.ok (Value.Text (String.ofList text))) (unescapeText_escape _)).trans ?_
  rw [String.ofList_toList]

end Values

section Arrays

variable {realText : UInt64 → Text} {toF64 : Text → UInt64} {v : Value} {vs : List Value} {e s t : Text}
  {es : List Text} {i : Nat}

theorem solid_joined (he : Solid e) (hes : ∀ x ∈ es, Solid x) : Solid (e ++ tailText es) := by
  induction es generalizing e with
  | nil =>
      have hnil : e ++ tailText [] = e := List.append_nil e
      rw [hnil]
      exact he
  | cons e' es ih =>
      obtain ⟨he', hes'⟩ := List.forall_mem_cons.mp hes
      obtain ⟨c, r, hhead, hc⟩ := he.head
      obtain ⟨a, d, hlast, hd, hslash⟩ := (ih he' hes').last
      refine ⟨⟨c, r ++ tailText (e' :: es), by rw [hhead]; rfl, hc⟩, ⟨e ++ ',' :: ' ' :: a, d, ?_, hd, hslash⟩⟩
      rw [tailText_cons, List.cons_append, List.cons_append, hlast, List.append_assoc]
      rfl

theorem solid_brackets {c d : Char} (hc : isWhitespace c = false) (hd : isWhitespace d = false ∧ d ≠ '\\')
    (m : Text) : Solid (c :: m ++ [d]) :=
  ⟨⟨c, m ++ [d], rfl, hc⟩, ⟨c :: m, d, rfl, hd.1, hd.2⟩⟩

theorem Solid.ne_nil (h : Solid t) : t ≠ [] := by
  obtain ⟨c, r, rfl, -⟩ := h.head
  exact List.cons_ne_nil c r

theorem trimmed_pieces (he : Solid e) (hes : ∀ x ∈ es, Solid x) (i : Nat) :
    ((e :: es.map (' ' :: ·))[i]?).map trimText = (e :: es)[i]? := by
  cases i with
  | zero => exact congrArg some he.trimText_self
  | succ i =>
      rw [List.getElem?_cons_succ, List.getElem?_cons_succ, List.getElem?_map, Option.map_map]
      cases hget : es[i]? with
      | none => rfl
      | some x =>
          have hblank : Json.Blank [' '] := fun c hc => by rw [List.mem_singleton.mp hc]; rfl
          have htrim := (hes x (List.mem_of_getElem? hget)).trimText_eq hblank blank_nil
          rw [List.append_nil] at htrim
          exact congrArg some htrim

theorem jsonArrayGet_joined (hes : ∀ x ∈ e :: es, Solid x ∧ Whole x) (i : Nat) :
    jsonArrayGet ('[' :: joined (e :: es) ++ [']']) i = .ok ((e :: es)[i]?) := by
  have hsolid : ∀ x ∈ e :: es, Solid x := fun x hx => (hes x hx).1
  obtain ⟨he, hrest⟩ := List.forall_mem_cons.mp hsolid
  have hinner := solid_joined he hrest
  have hpieces : ∀ x ∈ e :: es, Whole x ∧ x ≠ [] := fun x hx => ⟨(hes x hx).2, Solid.ne_nil (hes x hx).1⟩
  have hloop := arrayGetLoop_joined [] e es hpieces (Nat.zero_le i)
  rw [Nat.sub_zero, trimmed_pieces he hrest, List.nil_append] at hloop
  have hhead : ¬('[' :: (e ++ tailText es) ++ [']']).head? ≠ some '[' := fun h => h rfl
  rw [jsonArrayGet, joined_cons, (solid_brackets (by decide) (by decide) _).trimText_self, if_neg hhead,
    slice_inner (by decide) (by decide)]
  have hne : trimText (e ++ tailText es) ≠ [] := by
    rw [hinner.trimText_self]
    exact Solid.ne_nil hinner
  refine (if_neg hne).trans ?_
  rw [hinner.trimText_self]
  exact hloop

theorem foldl_pathStep {parts : List Text} {current : Text} (h : ∀ c ∈ s, c ≠ '.' ∧ c ≠ '[' ∧ c ≠ ']') :
    s.foldl pathStep (parts, current) = (parts, current ++ s) := by
  induction s generalizing current with
  | nil => rw [List.append_nil]; rfl
  | cons c s ih =>
      obtain ⟨⟨hdot, hopen, hclose⟩, hs⟩ := List.forall_mem_cons.mp h
      have hstep : pathStep (parts, current) c = (parts, current ++ [c]) := by
        rw [pathStep, if_neg (not_or.mpr ⟨hdot, hopen⟩), if_neg hclose]
      rw [List.foldl_cons, hstep, ih hs, List.append_assoc]
      rfl

def indexPath (i : Nat) : Text := '$' :: '[' :: (Nat.toDigits 10 i ++ [']'])

theorem pathParts_index (i : Nat) :
    pathParts (pathKey (indexPath i)) = ['[' :: Nat.toDigits 10 i ++ [']']] := by
  have hkey : pathKey (indexPath i) = '[' :: (Nat.toDigits 10 i ++ [']']) := rfl
  have hdigits : ∀ c ∈ Nat.toDigits 10 i, c ≠ '.' ∧ c ≠ '[' ∧ c ≠ ']' := by
    intro c hc
    obtain ⟨-, hplain⟩ := digit_plain (.inl (isDigit_toDigits hc))
    simp only [List.mem_cons, List.not_mem_nil, or_false, not_or] at hplain
    refine ⟨?_, hplain.2.2.2.1, hplain.2.2.2.2.2.1⟩
    rintro rfl
    exact absurd (isDigit_toDigits hc) (by decide)
  have hfold : (Nat.toDigits 10 i ++ [']']).foldl pathStep ([], []) =
      (['[' :: Nat.toDigits 10 i ++ [']']], []) := by
    rw [List.foldl_append, foldl_pathStep hdigits, List.nil_append, List.foldl_cons, List.foldl_nil, pathStep,
      if_neg (by decide), if_pos rfl, flushPart, if_neg Nat.toDigits_ne_nil]
    rfl
  rw [hkey, pathParts, List.foldl_cons]
  exact (congrArg (fun st : List Text × Text => if st.2 = [] then st.1 else st.1 ++ [st.2]) hfold).trans rfl

theorem parseUsize_toDigits (h : i < 18446744073709551616) : parseUsize (Nat.toDigits 10 i) = some i := by
  obtain ⟨c, s, hs⟩ := List.exists_cons_of_ne_nil (Nat.toDigits_ne_nil (n := i) (b := 10))
  have hvalue := decimal_toDigits i
  have hplus : ¬(Nat.toDigits 10 i).head? = some '+' := by
    rw [hs]
    intro hhead
    have hdigit : c.isDigit = true := isDigit_toDigits (hs ▸ List.mem_cons_self)
    rw [Option.some.inj hhead] at hdigit
    exact absurd hdigit (by decide)
  rw [Unnest.decimal] at hvalue
  simp only [parseUsize]
  rw [if_neg hplus, hvalue,
    if_pos ⟨Nat.toDigits_ne_nil, List.all_eq_true.mpr fun _ => isDigit_toDigits, h⟩]

theorem extract_array (hvs : ∀ v ∈ vs, Plain v) (hi : vs[i]? = some v)
    (hlt : vs.length < 18446744073709551616) :
    jsonExtract toF64 [jsonArray realText vs, .Text (String.ofList (indexPath i))] = .ok v := by
  obtain ⟨hlen, -⟩ := List.getElem?_eq_some_iff.mp hi
  obtain ⟨w, ws, rfl⟩ := List.exists_cons_of_ne_nil (List.ne_nil_of_length_pos (Nat.zero_lt_of_lt hlen))
  have hes : ∀ x ∈ (w :: ws).map (jsonText realText), Solid x ∧ Whole x := by
    intro x hx
    obtain ⟨u, hu, rfl⟩ := List.mem_map.mp hx
    exact ⟨solid_jsonText (hvs u hu), whole_jsonText (hvs u hu)⟩
  have hget := jsonArrayGet_joined hes i
  have harray : '[' :: joined ((w :: ws).map (jsonText realText)) ++ [']'] = trimText
      ('[' :: joined ((w :: ws).map (jsonText realText)) ++ [']']) :=
    (solid_brackets (by decide) (by decide) _).trimText_self.symm
  have hstep : extractStep ('[' :: Nat.toDigits 10 i ++ [']'])
      ('[' :: joined ((w :: ws).map (jsonText realText)) ++ [']']) = .ok (some (jsonText realText v)) := by
    have hindex : isIndexPart ('[' :: Nat.toDigits 10 i ++ [']']) = true := by
      rw [isIndexPart, List.getLast?_concat]
      rfl
    have hvalue : ((w :: ws).map (jsonText realText))[i]? = some (jsonText realText v) := by
      rw [List.getElem?_map, hi]
      rfl
    rw [extractStep, if_pos hindex, slice_inner (by decide) (by decide)]
    simp only [bind, Except.bind]
    rw [parseUsize_toDigits (Nat.lt_trans hlen hlt)]
    exact hget.trans (congrArg Except.ok hvalue)
  simp only [jsonArray, jsonExtract]
  rw [String.toList_ofList, String.toList_ofList, jsonExtractPrimitive, pathParts_index, ← harray, extractParts,
    hstep]
  exact scalar_jsonText (hvs v (List.mem_of_getElem? hi))

end Arrays

section Objects

variable {realText : UInt64 → Text} {toF64 : Text → UInt64} {display : Value → Text} {v : Value} {k s t : Text}
  {pairs : List (String × Value)} {i : Nat}

def pairArgs (pairs : List (String × Value)) : List Value := pairs.flatMap fun p => [.Text p.1, p.2]

def pairText (realText : UInt64 → Text) (p : String × Value) : Text :=
  '"' :: escapeText p.1.toList ++ ['"', ':', ' '] ++ jsonText realText p.2

def objectText (realText : UInt64 → Text) (pairs : List (String × Value)) : Text :=
  '{' :: joined (pairs.map (pairText realText)) ++ ['}']

theorem members_pairArgs (pairs : List (String × Value)) :
    members realText display (pairArgs pairs) = pairs.map (pairText realText) := by
  induction pairs with
  | nil => rfl
  | cons p pairs ih =>
      have hargs : pairArgs (p :: pairs) = .Text p.1 :: p.2 :: pairArgs pairs := rfl
      rw [hargs, members, ih]
      rfl

def leading (es : List Text) : Text := es.flatMap fun e => e ++ [',', ' ']

theorem leading_cons (e : Text) (es : List Text) : leading (e :: es) = e ++ [',', ' '] ++ leading es := by
  rw [leading, List.flatMap_cons, ← leading]

theorem joined_split (es : List Text) (e : Text) (es' : List Text) :
    joined (es ++ e :: es') = leading es ++ e ++ tailText es' := by
  induction es with
  | nil => exact joined_cons e es'
  | cons x es ih =>
      have hjoin : joined (x :: (es ++ e :: es')) = x ++ [',', ' '] ++ joined (es ++ e :: es') := by
        cases es <;> simp [joined, List.intercalate, List.intersperse]
      rw [List.cons_append, hjoin, ih, leading_cons]
      simp only [List.append_assoc]

def search (k : Text) : Text := '"' :: k ++ ['"', ':']

-- Where the text of an object has the member with an index.
def memberPlace (realText : UInt64 → Text) (pairs : List (String × Value)) (i : Nat) : Nat :=
  utf8Len ('{' :: leading ((pairs.take i).map (pairText realText)))

-- A key that is written as it is, and is searched for nowhere before its own member.
structure FirstAt (realText : UInt64 → Text) (pairs : List (String × Value)) (i : Nat) (k : Text) : Prop where
  unescaped : ∀ c ∈ k, c ≠ '"' ∧ c ≠ '\\'
  found : findText (search k) (objectText realText pairs) = some (memberPlace realText pairs i)

theorem escapeText_plain (h : ∀ c ∈ k, c ≠ '"' ∧ c ≠ '\\') : escapeText k = k := by
  induction k with
  | nil => rfl
  | cons c k ih =>
      obtain ⟨⟨hquote, hslash⟩, hk⟩ := List.forall_mem_cons.mp h
      rw [escapeText_cons, escapeChar, if_neg hslash, if_neg hquote, ih hk]
      rfl

theorem closingQuote_escape (t after : Text) (n : Nat) :
    closingQuote false n (escapeText t ++ '"' :: after) = some (n + utf8Len (escapeText t)) := by
  induction t generalizing n with
  | nil => rfl
  | cons c t ih =>
      rw [escapeText_cons, utf8Len_append, ← Nat.add_assoc, ← ih, escapeChar]
      split_ifs with hslash hquote
      · rfl
      · rfl
      · rw [List.singleton_append, List.cons_append, closingQuote, if_neg Bool.false_ne_true, if_neg hslash,
          if_neg hquote]
        rfl

theorem findAny_append {stops : List Char} {d : Char} (h : ∀ c ∈ s, stops.contains c = false)
    (hd : stops.contains d = true) (after : Text) : findAny stops (s ++ d :: after) = some (utf8Len s) := by
  induction s with
  | nil => rw [List.nil_append, findAny, if_pos hd]; rfl
  | cons c s ih =>
      obtain ⟨hc, hs⟩ := List.forall_mem_cons.mp h
      rw [List.cons_append, findAny, if_neg (by rw [hc]; exact Bool.false_ne_true), ih hs]
      rfl

theorem valueAtStart_quoted (t after : Text) :
    jsonValueAtStart (quotedText t ++ after) = .ok (some (quotedText t)) := by
  have hsize : Char.utf8Size '"' = 1 := by decide
  have hsplit : quotedText t ++ after = '"' :: (escapeText t ++ '"' :: after) := by
    rw [quotedText, List.cons_append, List.append_assoc]
    rfl
  have hlen : utf8Len (escapeText t) + 2 = utf8Len (quotedText t) := by
    rw [quotedText, utf8Len_cons, utf8Len_append, utf8Len_cons, utf8Len_nil, hsize]
    omega
  rw [hsplit, jsonValueAtStart, closingQuote_escape, Nat.zero_add, ← hsplit, Option.map_some, Option.getD_some,
    hlen, slice_prefix]
  rfl

theorem valueAtStart_word {d : Char} (hne : s ≠ [])
    (h : ∀ c ∈ s, c ∉ ['"', '{', '[', ',', '}', ']', ' ', '\n', '\t']) (hd : d = ',' ∨ d = '}') (after : Text) :
    jsonValueAtStart (s ++ d :: after) = .ok (some s) := by
  obtain ⟨c, r, rfl⟩ := List.exists_cons_of_ne_nil hne
  have hc := h c List.mem_cons_self
  have hfind : findAny [',', '}', ']', ' ', '\n', '\t'] (c :: r ++ d :: after) = some (utf8Len (c :: r)) := by
    refine findAny_append (fun x hx => ?_) (by rcases hd with rfl | rfl <;> rfl) after
    have hmem := h x hx
    simp only [List.mem_cons, List.not_mem_nil, or_false, not_or] at hmem
    rw [← Bool.not_eq_true, List.contains_iff_mem]
    simp [hmem]
  simp only [List.mem_cons, List.not_mem_nil, or_false, not_or] at hc
  obtain ⟨hquote, hbrace, hbracket, -⟩ := hc
  rw [List.cons_append] at hfind ⊢
  unfold jsonValueAtStart
  split
  · rename_i heq
    exact absurd (List.cons.inj heq).1 hquote
  · rename_i heq
    exact absurd (List.cons.inj heq).1 hbrace
  · rename_i heq
    exact absurd (List.cons.inj heq).1 hbracket
  · rw [hfind, Option.getD_some, ← List.cons_append, slice_prefix]
    rfl

theorem valueAtStart_jsonText {d : Char} (h : Plain v) (hd : d = ',' ∨ d = '}') (after : Text) :
    jsonValueAtStart (jsonText realText v ++ d :: after) = .ok (some (jsonText realText v)) := by
  cases v with
  | Null =>
      refine valueAtStart_word (List.cons_ne_nil _ _) (fun c hc => ?_) hd after
      have hchars : c = 'n' ∨ c = 'u' ∨ c = 'l' ∨ c = 'l' := by
        have hmem : c ∈ ['n', 'u', 'l', 'l'] := hc
        simpa only [List.mem_cons, List.not_mem_nil, or_false] using hmem
      rcases hchars with rfl | rfl | rfl | rfl <;> decide
  | Integer i =>
      refine valueAtStart_word (intText_ne_nil _) (fun c hc => ?_) hd after
      have hne : ∀ d : Char, (d.toNat < 45 ∨ 57 < d.toNat) → c ≠ d := fun d hd =>
        number_ne (intText_chars _ hc) hd
      simp only [List.mem_cons, List.not_mem_nil, or_false, not_or]
      exact ⟨hne _ (by decide), hne _ (by decide), hne _ (by decide), hne _ (by decide), hne _ (by decide),
        hne _ (by decide), hne _ (by decide), hne _ (by decide), hne _ (by decide)⟩
  | Text t => exact valueAtStart_quoted t.toList (d :: after)
  | Real f => exact h.elim
  | Blob b => exact h.elim

theorem trimStart_blank (h : Solid t) (after : Text) : trimStart (' ' :: (t ++ after)) = t ++ after := by
  obtain ⟨c, r, rfl, hc⟩ := h.head
  rw [trimStart, List.dropWhile_cons_of_pos (by decide), List.cons_append,
    List.dropWhile_cons_of_neg (by rw [hc]; exact Bool.false_ne_true)]

theorem objectText_split (realText : UInt64 → Text) {p : String × Value} (hi : pairs[i]? = some p) :
    ∃ d after, (d = ',' ∨ d = '}') ∧ objectText realText pairs =
      '{' :: leading ((pairs.take i).map (pairText realText)) ++ (pairText realText p ++ d :: after) := by
  obtain ⟨hlt, rfl⟩ := List.getElem?_eq_some_iff.mp hi
  have hpairs : pairs = pairs.take i ++ pairs[i] :: pairs.drop (i + 1) := by
    rw [← List.drop_eq_getElem_cons hlt, List.take_append_drop]
  have htext : objectText realText pairs = '{' :: leading ((pairs.take i).map (pairText realText)) ++
      (pairText realText pairs[i] ++ (tailText ((pairs.drop (i + 1)).map (pairText realText)) ++ ['}'])) := by
    rw [objectText]
    conv_lhs => rw [hpairs]
    rw [List.map_append, List.map_cons, joined_split]
    simp only [List.append_assoc, List.cons_append]
  rw [htext]
  cases hrest : (pairs.drop (i + 1)).map (pairText realText) with
  | nil => exact ⟨'}', [], .inr rfl, rfl⟩
  | cons e es => exact ⟨',', ' ' :: e ++ tailText es ++ ['}'], .inl rfl, by rw [tailText_cons]; rfl⟩

theorem extractStep_member {p : String × Value} (hi : pairs[i]? = some p) (hp : Plain p.2)
    (hkey : isIndexPart p.1.toList = false) (hfirst : FirstAt realText pairs i p.1.toList) :
    extractStep p.1.toList (objectText realText pairs) = .ok (some (jsonText realText p.2)) := by
  obtain ⟨d, after, hd, htext⟩ := objectText_split realText hi
  have hmember : pairText realText p ++ d :: after =
      search p.1.toList ++ (' ' :: (jsonText realText p.2 ++ d :: after)) := by
    rw [pairText, escapeText_plain hfirst.unescaped, search]
    simp only [List.append_assoc, List.cons_append, List.nil_append]
  have hrest : sliceFrom (objectText realText pairs)
      (memberPlace realText pairs i + utf8Len (search p.1.toList)) =
        .ok (' ' :: (jsonText realText p.2 ++ d :: after)) := by
    rw [htext, hmember, ← List.append_assoc, memberPlace, ← utf8Len_append]
    exact sliceFrom_append _ _
  rw [extractStep, if_neg (by rw [hkey]; exact Bool.false_ne_true)]
  have hfound := hfirst.found
  rw [search] at hfound
  dsimp only
  rw [hfound]
  dsimp only
  rw [← search, hrest]
  simp only [bind, Except.bind]
  rw [trimStart_blank (solid_jsonText hp)]
  exact valueAtStart_jsonText hp hd after

-- Keys that a path can name.
structure PathKey (k : Text) : Prop where
  ne_nil : k ≠ []
  chars : ∀ c ∈ k, c ≠ '.' ∧ c ≠ '[' ∧ c ≠ ']' ∧ c ≠ '$'

def keyPath (k : Text) : Text := '$' :: '.' :: k

theorem PathKey.head (h : PathKey k) : ∃ c r, k = c :: r ∧ c ≠ '[' ∧ c ≠ '$' := by
  obtain ⟨c, r, rfl⟩ := List.exists_cons_of_ne_nil h.ne_nil
  obtain ⟨-, hopen, -, hdollar⟩ := h.chars c List.mem_cons_self
  exact ⟨c, r, rfl, hopen, hdollar⟩

theorem pathParts_key (h : PathKey k) : pathParts (pathKey (keyPath k)) = [k] := by
  obtain ⟨c, r, hk, -, hdollar⟩ := h.head
  have hstop : dropDollarDots k = k := by
    rw [hk]
    unfold dropDollarDots
    split
    · rename_i heq
      exact absurd (List.cons.inj heq).1 hdollar
    · rfl
  have hkey : pathKey (keyPath k) = k := by
    rw [pathKey, keyPath, dropDollarDots, hstop, hk,
      List.dropWhile_cons_of_neg (by rw [decide_eq_true_eq]; exact hdollar)]
  have hplain : ∀ c ∈ k, c ≠ '.' ∧ c ≠ '[' ∧ c ≠ ']' := fun c hc =>
    ⟨(h.chars c hc).1, (h.chars c hc).2.1, (h.chars c hc).2.2.1⟩
  rw [hkey, pathParts, foldl_pathStep hplain, List.nil_append, if_neg h.ne_nil]
  rfl

theorem isIndexPart_key (h : PathKey k) : isIndexPart k = false := by
  obtain ⟨c, r, rfl, hopen, -⟩ := h.head
  rw [isIndexPart, List.head?_cons, decide_eq_false fun hc => hopen (Option.some.inj hc), Bool.false_and]

theorem extract_object {p : String × Value} (hi : pairs[i]? = some p) (hp : Plain p.2)
    (hkey : PathKey p.1.toList) (hfirst : FirstAt realText pairs i p.1.toList) :
    jsonExtract toF64 [jsonObject realText display (pairArgs pairs),
      .Text (String.ofList (keyPath p.1.toList))] = .ok p.2 := by
  have htrim : trimText (objectText realText pairs) = objectText realText pairs :=
    (solid_brackets (by decide) (by decide) _).trimText_self
  have hstep := extractStep_member hi hp (isIndexPart_key hkey) hfirst
  have hobject : jsonObject realText display (pairArgs pairs) =
      .Text (String.ofList (objectText realText pairs)) := by
    rw [jsonObject, members_pairArgs, objectText]
  rw [hobject]
  simp only [jsonExtract]
  rw [String.toList_ofList, String.toList_ofList, jsonExtractPrimitive, pathParts_key hkey, htrim, extractParts,
    hstep]
  exact scalar_jsonText hp

-- No match of a text starts in another, with what stands behind that.
def Clear (needle : Text) : Text → Text → Prop
  | [], _ => True
  | c :: a, b => ¬needle <+: c :: (a ++ b) ∧ Clear needle a b

theorem clear_append {needle a a' b : Text} (h : Clear needle a (a' ++ b)) (h' : Clear needle a' b) :
    Clear needle (a ++ a') b := by
  induction a with
  | nil => exact h'
  | cons c a ih =>
      refine ⟨?_, ih h.2⟩
      have hassoc : c :: (a ++ a' ++ b) = c :: (a ++ (a' ++ b)) := by rw [List.append_assoc]
      exact hassoc ▸ h.1

theorem findText_clear {needle a b : Text} (h : Clear needle a b) :
    findText needle (a ++ b) = (findText needle b).map (utf8Len a + ·) := by
  induction a with
  | nil =>
      have hzero : (fun n => utf8Len [] + n) = id := funext fun n => Nat.zero_add n
      rw [hzero, Option.map_id, List.nil_append]
      rfl
  | cons c a ih =>
      rw [List.cons_append, findText, if_neg fun hprefix => h.1 (List.isPrefixOf_iff_prefix.mp hprefix), ih h.2,
        Option.map_map]
      refine congrArg (Option.map · (findText needle b)) (funext fun n => ?_)
      exact (Nat.add_assoc _ _ _).symm

def PlainKey (k : Text) : Prop := ∀ c ∈ k, c ≠ '"' ∧ c ≠ '\\'

theorem clear_of_noQuote (h : ∀ c ∈ s, c ≠ '"') (k b : Text) : Clear (search k) s b := by
  induction s with
  | nil => trivial
  | cons c s ih =>
      obtain ⟨hc, hs⟩ := List.forall_mem_cons.mp h
      exact ⟨fun hprefix => hc (List.cons_prefix_cons.mp hprefix).1.symm, ih hs⟩

theorem clear_quote {b : Text} (h : ¬(k ++ ['"', ':']) <+: b) : Clear (search k) ['"'] b :=
  ⟨fun hprefix => h (List.cons_prefix_cons.mp hprefix).2, trivial⟩

theorem eq_of_isPrefix {key x y : Text} (hk : ∀ c ∈ k, c ≠ '"') (hkey : ∀ c ∈ key, c ≠ '"')
    (h : k ++ '"' :: x <+: key ++ '"' :: y) : k = key := by
  induction k generalizing key with
  | nil =>
      cases key with
      | nil => rfl
      | cons d key => exact absurd (List.cons_prefix_cons.mp h).1.symm (hkey d List.mem_cons_self)
  | cons c k ih =>
      cases key with
      | nil => exact absurd (List.cons_prefix_cons.mp h).1 (hk c List.mem_cons_self)
      | cons d key =>
          obtain ⟨rfl, hrest⟩ := List.cons_prefix_cons.mp h
          have hk' : ∀ c ∈ k, c ≠ '"' := fun x hx => hk x (List.mem_cons_of_mem c hx)
          have hkey' : ∀ c ∈ key, c ≠ '"' := fun x hx => hkey x (List.mem_cons_of_mem c hx)
          rw [ih hk' hkey' hrest]

-- What stands between two strings of an object starts with a character and a blank.
theorem not_prefix_between {d : Char} {b : Text} (hne : k ≠ []) (hd : ¬[d, ' '] <+: k) :
    ¬(k ++ ['"', ':']) <+: d :: ' ' :: b := by
  intro hprefix
  obtain ⟨c, r, rfl⟩ := List.exists_cons_of_ne_nil hne
  obtain ⟨rfl, hrest⟩ := List.cons_prefix_cons.mp hprefix
  cases r with
  | nil => exact absurd (List.cons_prefix_cons.mp hrest).1 (by decide)
  | cons e r =>
      obtain ⟨rfl, -⟩ := List.cons_prefix_cons.mp hrest
      exact hd ⟨r, rfl⟩

theorem not_prefix_escape (hk : PlainKey k) (t b : Text) :
    ¬(k ++ ['"', ':']) <+: escapeText t ++ '"' :: ',' :: b := by
  induction t generalizing k with
  | nil =>
      intro hprefix
      cases k with
      | nil => exact absurd (List.cons_prefix_cons.mp (List.cons_prefix_cons.mp hprefix).2).1 (by decide)
      | cons d k => exact (hk d List.mem_cons_self).1 (List.cons_prefix_cons.mp hprefix).1
  | cons c t ih =>
      have hslash : ∀ x : Text, ¬(k ++ ['"', ':']) <+: '\\' :: x := by
        intro x hprefix
        cases k with
        | nil => exact absurd (List.cons_prefix_cons.mp hprefix).1 (by decide)
        | cons d k => exact (hk d List.mem_cons_self).2 (List.cons_prefix_cons.mp hprefix).1
      rw [escapeText_cons, escapeChar]
      split_ifs with hbackslash hquote
      · exact hslash _
      · exact hslash _
      · intro hprefix
        cases k with
        | nil => exact hquote (List.cons_prefix_cons.mp hprefix).1.symm
        | cons d k =>
            exact ih (fun c hc => hk c (List.mem_cons_of_mem d hc)) (List.cons_prefix_cons.mp hprefix).2

theorem clear_escape (hk : PlainKey k) (t b : Text) : Clear (search k) (escapeText t) ('"' :: ',' :: b) := by
  induction t with
  | nil => trivial
  | cons c t ih =>
      rw [escapeText_cons]
      refine clear_append ?_ ih
      have hone : ∀ {x : Char}, x ≠ '"' → ∀ y, Clear (search k) [x] y := fun hx y =>
        clear_of_noQuote (fun c hc => by rw [List.mem_singleton.mp hc]; exact hx) k y
      rw [escapeChar]
      split_ifs with hslash hquote
      · exact clear_append (a := ['\\']) (hone (by decide) _) (hone (by decide) _)
      · exact clear_append (a := ['\\']) (hone (by decide) _) (clear_quote (not_prefix_escape hk t b))
      · exact hone hquote _

theorem clear_jsonText (hk : PlainKey k) (hne : k ≠ []) (hcomma : ¬[',', ' '] <+: k) (hv : Plain v) (b : Text) :
    Clear (search k) (jsonText realText v) (',' :: ' ' :: b) := by
  cases v with
  | Null =>
      refine clear_of_noQuote (fun c hc => ?_) k _
      have hmem : c ∈ ['n', 'u', 'l', 'l'] := hc
      rintro rfl
      exact absurd hmem (by decide)
  | Integer i => exact clear_of_noQuote (fun c hc => number_ne (intText_chars _ hc) (by decide)) k _
  | Text t =>
      have hclose : Clear (search k) (escapeText t.toList ++ ['"']) (',' :: ' ' :: b) :=
        clear_append (clear_escape hk t.toList (' ' :: b)) (clear_quote (not_prefix_between hne hcomma))
      have hassoc : escapeText t.toList ++ ['"'] ++ ',' :: ' ' :: b =
          escapeText t.toList ++ '"' :: ',' :: ' ' :: b := by
        rw [List.append_assoc]
        rfl
      have hopen := clear_quote (not_prefix_escape hk t.toList (' ' :: b))
      rw [← hassoc] at hopen
      exact clear_append hopen hclose
  | Real f => exact hv.elim
  | Blob b => exact hv.elim

theorem clear_member {p : String × Value} {b : Text} (hk : PlainKey k) (hne : k ≠ [])
    (hcomma : ¬[',', ' '] <+: k) (hcolon : ¬[':', ' '] <+: k) (hp : Plain p.2) (hkey : PlainKey p.1.toList)
    (hother : k ≠ p.1.toList) :
    Clear (search k) (pairText realText p ++ [',', ' ']) b := by
  have hnoQuote : ∀ c ∈ p.1.toList, c ≠ '"' := fun c hc => (hkey c hc).1
  have hblank : ∀ {d : Char}, d ≠ '"' → ∀ b, Clear (search k) [d, ' '] b := fun hd b =>
    clear_of_noQuote (fun c hc => by
      rcases List.mem_cons.mp hc with rfl | hc
      · exact hd
      · rw [List.mem_singleton.mp hc]
        decide) k b
  have hopen : ¬(k ++ ['"', ':']) <+:
      p.1.toList ++ '"' :: ':' :: ' ' :: (jsonText realText p.2 ++ ',' :: ' ' :: b) :=
    fun hprefix => hother (eq_of_isPrefix (fun c hc => (hk c hc).1) hnoQuote hprefix)
  have hclose : ¬(k ++ ['"', ':']) <+: ':' :: ' ' :: (jsonText realText p.2 ++ ',' :: ' ' :: b) :=
    not_prefix_between hne hcolon
  have hpieces : pairText realText p ++ [',', ' '] =
      ['"'] ++ (p.1.toList ++ (['"'] ++ ([':', ' '] ++ (jsonText realText p.2 ++ [',', ' '])))) := by
    rw [pairText, escapeText_plain hkey]
    simp only [List.append_assoc, List.cons_append, List.nil_append]
  have hcommas : Clear (search k) (jsonText realText p.2 ++ [',', ' ']) b :=
    clear_append (clear_jsonText hk hne hcomma hp b) (hblank (by decide) b)
  have hcolons : Clear (search k) ([':', ' '] ++ (jsonText realText p.2 ++ [',', ' '])) b :=
    clear_append (hblank (by decide) _) hcommas
  have hassoc : ∀ x y : Text, x ++ (y ++ [',', ' ']) ++ b = x ++ (y ++ ',' :: ' ' :: b) := fun x y => by
    rw [List.append_assoc, List.append_assoc]
    rfl
  have hquoted : Clear (search k) (['"'] ++ ([':', ' '] ++ (jsonText realText p.2 ++ [',', ' ']))) b := by
    refine clear_append (clear_quote ?_) hcolons
    rw [hassoc]
    exact hclose
  rw [hpieces]
  refine clear_append (clear_quote ?_) (clear_append (clear_of_noQuote hnoQuote k _) hquoted)
  rw [List.append_assoc, List.append_assoc, hassoc]
  exact hopen

theorem clear_leading {ps : List (String × Value)} {b : Text} (hk : PlainKey k) (hne : k ≠ [])
    (hcomma : ¬[',', ' '] <+: k) (hcolon : ¬[':', ' '] <+: k)
    (hps : ∀ p ∈ ps, Plain p.2 ∧ PlainKey p.1.toList ∧ k ≠ p.1.toList) :
    Clear (search k) (leading (ps.map (pairText realText))) b := by
  induction ps with
  | nil => trivial
  | cons p ps ih =>
      obtain ⟨⟨hp, hkey, hother⟩, hrest⟩ := List.forall_mem_cons.mp hps
      rw [List.map_cons, leading_cons]
      exact clear_append (clear_member hk hne hcomma hcolon hp hkey hother) (ih hrest)

theorem findText_self (needle b : Text) (hne : needle ≠ []) : findText needle (needle ++ b) = some 0 := by
  obtain ⟨c, r, rfl⟩ := List.exists_cons_of_ne_nil hne
  have hprefix : (c :: r).isPrefixOf (c :: (r ++ b)) = true := List.isPrefixOf_iff_prefix.mpr ⟨b, rfl⟩
  rw [List.cons_append, findText, if_pos hprefix]

-- Keys without quotes and backslashes are first found at their members, unless they start as what stands
-- between two strings does.
theorem firstAt_of_plain {p : String × Value} (hplain : ∀ q ∈ pairs, Plain q.2)
    (hkeys : ∀ q ∈ pairs, PlainKey q.1.toList) (hnodup : (pairs.map Prod.fst).Nodup) (hi : pairs[i]? = some p)
    (hne : p.1.toList ≠ []) (hcomma : ¬[',', ' '] <+: p.1.toList) (hcolon : ¬[':', ' '] <+: p.1.toList) :
    FirstAt realText pairs i p.1.toList := by
  have hk := hkeys p (List.mem_of_getElem? hi)
  refine ⟨hk, ?_⟩
  obtain ⟨d, after, -, htext⟩ := objectText_split realText hi
  obtain ⟨hlt, hget⟩ := List.getElem?_eq_some_iff.mp hi
  have hsplit : pairs.map Prod.fst =
      (pairs.take i).map Prod.fst ++ p.1 :: (pairs.drop (i + 1)).map Prod.fst := by
    rw [← List.map_cons, ← List.map_append, ← hget, ← List.drop_eq_getElem_cons hlt, List.take_append_drop]
  rw [hsplit] at hnodup
  have hbefore : ∀ q ∈ pairs.take i, Plain q.2 ∧ PlainKey q.1.toList ∧ p.1.toList ≠ q.1.toList := by
    intro q hq
    have hmem := List.mem_of_mem_take hq
    have hdiffer := (List.nodup_append.mp hnodup).2.2 q.1 (List.mem_map_of_mem hq) p.1 List.mem_cons_self
    exact ⟨hplain q hmem, hkeys q hmem, fun hsame => hdiffer (String.toList_injective hsame.symm)⟩
  have hclear : Clear (search p.1.toList) (leading ((pairs.take i).map (pairText realText)))
      (pairText realText p ++ d :: after) := clear_leading hk hne hcomma hcolon hbefore
  have hbrace : Clear (search p.1.toList) ['{']
      (leading ((pairs.take i).map (pairText realText)) ++ (pairText realText p ++ d :: after)) :=
    clear_of_noQuote (fun c hc => by rw [List.mem_singleton.mp hc]; decide) _ _
  have hmember : pairText realText p ++ d :: after =
      search p.1.toList ++ (' ' :: (jsonText realText p.2 ++ d :: after)) := by
    rw [pairText, escapeText_plain hk, search]
    simp only [List.append_assoc, List.cons_append, List.nil_append]
  have hall := findText_clear (clear_append hbrace hclear)
  have hself := findText_self (search p.1.toList) (' ' :: (jsonText realText p.2 ++ d :: after)) (by
    rw [search]
    exact List.cons_ne_nil _ _)
  rw [hmember, hself] at hall
  rw [htext, hmember, memberPlace]
  exact hall.trans (congrArg some (Nat.add_zero _))

-- Elements of arrays and quoted texts are always read back. A member of an object is read back when its key is
-- written as it is and first found at the member, as keys without quotes and backslashes mostly are.
theorem json_readBack (realText : UInt64 → Text) (toF64 : Text → UInt64) (display : Value → Text) :
    (∀ (vs : List Value) (i : Nat) (v : Value), (∀ w ∈ vs, Plain w) → vs.length < 18446744073709551616 →
      vs[i]? = some v →
        jsonExtract toF64 [jsonArray realText vs, .Text (String.ofList (indexPath i))] = .ok v) ∧
    (∀ (pairs : List (String × Value)) (i : Nat) (p : String × Value), (∀ q ∈ pairs, Plain q.2) →
      (∀ q ∈ pairs, PathKey q.1.toList) → (pairs.map Prod.fst).Nodup → pairs[i]? = some p →
        (FirstAt realText pairs i p.1.toList →
          jsonExtract toF64 [jsonObject realText display (pairArgs pairs),
            .Text (String.ofList (keyPath p.1.toList))] = .ok p.2) ∧
        ((∀ q ∈ pairs, PlainKey q.1.toList) → ¬[',', ' '] <+: p.1.toList → ¬[':', ' '] <+: p.1.toList →
          FirstAt realText pairs i p.1.toList)) ∧
    ∀ s : String, jsonUnquote [jsonQuote realText [.Text s]] = .ok (.Text s) := by
  refine ⟨fun vs i v hvs hlt hi => extract_array hvs hi hlt, fun pairs i p hplain hkeys hnodup hi => ?_,
    jsonUnquote_quote⟩
  have hmem := List.mem_of_getElem? hi
  exact ⟨extract_object hi (hplain p hmem) (hkeys p hmem),
    fun hall hcomma hcolon => firstAt_of_plain hplain hall hnodup hi (hkeys p hmem).ne_nil hcomma hcolon⟩

theorem json_readBack_array : jsonExtract (fun _ => 0) [jsonArray (fun _ => []) [.Null, .Text "],\"\\"],
    .Text (String.ofList (indexPath 1))] = .ok (.Text "],\"\\") :=
  (json_readBack (fun _ => []) (fun _ => 0) (fun _ => [])).1 _ 1 _
    (List.forall_mem_cons.mpr ⟨trivial, List.forall_mem_singleton.mpr trivial⟩) (by decide) rfl

def quotedKey : List (String × Value) := [("a\"b", .Integer 1)]

theorem quotedKey_path : PathKey "a\"b".toList := by
  refine ⟨List.cons_ne_nil _ _, fun c hc => ?_⟩
  have hmem : c ∈ ['a', '"', 'b'] := hc
  simp only [List.mem_cons, List.not_mem_nil, or_false] at hmem
  rcases hmem with rfl | rfl | rfl <;> decide

theorem json_quotedKey : ¬∀ (pairs : List (String × Value)) (i : Nat) (p : String × Value),
    (∀ q ∈ pairs, Plain q.2) → (∀ q ∈ pairs, PathKey q.1.toList) → (pairs.map Prod.fst).Nodup →
      pairs[i]? = some p → jsonExtract (fun _ => 0) [jsonObject (fun _ => []) (fun _ => []) (pairArgs pairs),
        .Text (String.ofList (keyPath p.1.toList))] = .ok p.2 := by
  intro hall
  have hread := hall quotedKey 0 _ (List.forall_mem_singleton.mpr trivial)
    (List.forall_mem_singleton.mpr quotedKey_path) (by decide) rfl
  have hnull : jsonExtract (fun _ => 0) [jsonObject (fun _ => []) (fun _ => []) (pairArgs quotedKey),
      .Text (String.ofList (keyPath "a\"b".toList))] = .ok .Null := by rfl
  exact absurd (Except.ok.inj (hnull.symm.trans hread)) (by decide)

end Objects

end Kkdb.JsonBuild
