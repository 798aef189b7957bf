import Kkdb.Vm.EvalExpr
import Kkdb.Vm.JsonBuild
import Mathlib.Tactic.IntervalCases

namespace Kkdb.Csv

open Lib JsonPath Unnest JsonBuild

section Writing

def needsQuotes (t : Text) : Bool := t.contains ',' || t.contains '"' || t.contains '\n'

def quote (t : Text) : Text := '"' :: (replaceChar '"' ['"', '"'] t ++ ['"'])

-- `{:02X}`.
def hexByte (b : UInt8) : Text :=
  [(Nat.digitChar (b.toNat / 16)).toUpper, (Nat.digitChar (b.toNat % 16)).toUpper]

-- `join(",")`.
def joined : List Text → Text
  | [] => []
  | [f] => f
  | f :: fs => f ++ ',' :: joined fs

-- `realText` is `Display` of `f64`.
variable (realText : UInt64 → Text)

def cell : Value → Text
  | .Null => []
  | .Integer i => intText i.toInt
  | .Real f => realText f
  | .Text t => if needsQuotes t.toList then quote t.toList else t.toList
  | .Blob b => 'X' :: '\'' :: (b.flatMap hexByte ++ ['\''])

def csvLine (row : Row) : Text := joined (row.map (cell realText))

def header (columns : List String) : Text := joined (columns.map fun c => quote c.toList)

-- `export_csv`, from the result of its query.
def exportCsv (columns : List String) (rows : List Row) : Text :=
  (header columns :: rows.map (csvLine realText)).flatMap fun line => line ++ ['\n']

end Writing

section Reading

def stripCr (line : Text) : Text := if line.getLast? = some '\r' then line.dropLast else line

-- `BufRead::lines`.
def readLines (current : Text) : Text → List Text
  | [] => if current = [] then [] else [current]
  | c :: s => if c = '\n' then stripCr current :: readLines [] s else readLines (current ++ [c]) s

-- The loop over the characters of a line: its fields, each with whether it was quoted.
def scanFields (current : Text) (inQuotes wasQuoted : Bool) : Text → List (Text × Bool)
  | [] => [(current, wasQuoted)]
  | '"' :: '"' :: s =>
      if inQuotes then scanFields (current ++ ['"']) true wasQuoted s
      else scanFields current true true ('"' :: s)
  | '"' :: s => scanFields current (!inQuotes) (wasQuoted || !inQuotes) s
  | c :: s =>
      if c = ',' ∧ inQuotes = false then (current, wasQuoted) :: scanFields [] inQuotes false s
      else scanFields (current ++ [c]) inQuotes wasQuoted s

-- A field that is not quoted is a number when it looks like one.
def looksNumeric (f : Text) : Bool :=
  (parseI64 f).isSome || (isFloat f && (f.contains '.' || (f.map Char.toLower).contains 'e'))

inductive Literal where
  | null
  | number (f : Text)
  | text (f : Text)

def valLiteral (field : Text × Bool) : Literal :=
  if field.1 = [] then .null
  else if field.2 = false ∧ looksNumeric field.1 = true then .number field.1
  else .text field.1

def Literal.sql : Literal → Text
  | null => "NULL".toList
  | number f => f
  | text f => '\'' :: (replaceChar '\'' ['\'', '\''] f ++ ['\''])

def lineLiterals (line : Text) : List Literal := (scanFields [] false false line).map valLiteral

def dataLines (file : Text) : List Text := (readLines [] file).tail.filter fun line => trimText line ≠ []

-- What `parse::<f64>` makes of the texts that it takes.
variable (toF64 : Text → UInt64)

def parseNumberLiteral (raw : Text) : Except KkdbError Expr :=
  let isReal := raw.contains '.' || raw.contains 'e' || raw.contains 'E'
  match if isReal then none else parseI64 raw with
  | some v => .ok (.IntegerLiteral v)
  | none =>
      if isFloat raw then .ok (.RealLiteral (toF64 raw))
      else .error (.ParseError ("invalid numeric literal `" ++ String.ofList raw ++ "`"))

-- The parser takes the sign of a number for an operator.
def signedNumber : Text → Except KkdbError Expr
  | '-' :: f => (parseNumberLiteral toF64 f).map (.UnaryOp .Minus)
  | '+' :: f => parseNumberLiteral toF64 f
  | f => parseNumberLiteral toF64 f

def Literal.expr : Literal → Except KkdbError Expr
  | null => .ok .Null
  | number f => signedNumber toF64 f
  | text f => .ok (.StringLiteral (String.ofList f))

variable (env : EvalEnv)

def Literal.value (l : Literal) : Res Value :=
  match l.expr toF64 with
  | .ok e => env.evalExpr e [] []
  | .error e => .error (.Err e)

def lineValues (line : Text) : Res Row := (lineLiterals line).mapM (Literal.value toF64 env)

-- The rows that `import_csv` has inserted from a file.
def importedRows (file : Text) : Res (List Row) := (dataLines file).mapM (lineValues toF64 env)

end Reading

def Keeps : Value → Prop
  | .Null => True
  | .Integer i => i ≠ Int64.minValue
  | .Text t => t.toList ≠ [] ∧ (needsQuotes t.toList = true ∨ looksNumeric t.toList = false)
  | _ => False

-- The rows that come back. A line of blanks is skipped, and a carriage return at the end of a line goes with it.
structure Survives (row : Row) : Prop where
  values : ∀ v ∈ row, Keeps v
  oneLine : ∀ t, .Text t ∈ row → '\n' ∉ t.toList
  shown : row ≠ [] ∧ row ≠ [.Null] ∧ ∀ t, row = [.Text t] → ¬∀ c ∈ t.toList, isWhitespace c = true
  ending : ∀ t, row.getLast? = some (.Text t) → needsQuotes t.toList = true ∨ t.toList.getLast? ≠ some '\r'

section Scanning

variable {current t s : Text} {q w : Bool} {c : Char} {f : Text × Bool} {fs : List (Text × Bool)}

theorem scan_plain (hc : c ≠ '"') (h : c ≠ ',' ∨ q = true) :
    scanFields current q w (c :: s) = scanFields (current ++ [c]) q w s := by
  rw [scanFields, if_neg]
  · rintro ⟨hcomma, hq⟩
    rcases h with h | h
    · exact h hcomma
    · exact absurd (hq.symm.trans h) Bool.false_ne_true
  · exact fun _ hquote _ => hc hquote
  · exact hc

theorem scan_comma : scanFields current false w (',' :: s) = (current, w) :: scanFields [] false false s := by
  rw [scanFields, if_pos ⟨rfl, rfl⟩]
  · exact fun _ h _ => absurd h (by decide)
  · decide

theorem scan_text (h : ∀ c ∈ t, c ≠ '"' ∧ c ≠ ',') :
    scanFields current false w (t ++ s) = scanFields (current ++ t) false w s := by
  induction t generalizing current with
  | nil => rw [List.nil_append, List.append_nil]
  | cons c t ih =>
      obtain ⟨hc, ht⟩ := List.forall_mem_cons.mp h
      rw [List.cons_append, scan_plain hc.1 (.inl hc.2), ih ht, List.append_assoc, List.singleton_append]

theorem scan_open (s : Text) : scanFields current false w ('"' :: s) = scanFields current true true s := by
  by_cases hs : s.head? = some '"'
  · obtain ⟨s', rfl⟩ := List.head?_eq_some_iff.mp hs
    rw [scanFields, if_neg Bool.false_ne_true]
  · rw [scanFields, Bool.not_false, Bool.or_true]
    rintro s' rfl
    exact hs rfl

theorem scan_close (h : s.head? ≠ some '"') :
    scanFields current true w ('"' :: s) = scanFields current false w s := by
  rw [scanFields, Bool.not_true, Bool.or_false]
  rintro s' rfl
  exact h rfl

theorem scan_inside (h : s.head? ≠ some '"') :
    scanFields current true w (replaceChar '"' ['"', '"'] t ++ '"' :: s) = scanFields (current ++ t) false w s := by
  induction t generalizing current with
  | nil => rw [List.append_nil]; exact scan_close h
  | cons c t ih =>
      by_cases hc : c = '"'
      · have hreplace : replaceChar '"' ['"', '"'] (c :: t) = '"' :: '"' :: replaceChar '"' ['"', '"'] t := by
          rw [replaceChar, List.flatMap_cons, if_pos hc]
          rfl
        rw [hreplace, List.cons_append, List.cons_append, scanFields, if_pos rfl, ih, List.append_assoc, hc,
          List.singleton_append]
      · have hreplace : replaceChar '"' ['"', '"'] (c :: t) = c :: replaceChar '"' ['"', '"'] t := by
          rw [replaceChar, List.flatMap_cons, if_neg hc]
          rfl
        rw [hreplace, List.cons_append, scan_plain hc (.inr rfl), ih, List.append_assoc, List.singleton_append]

def cellText (f : Text × Bool) : Text := if f.2 then quote f.1 else f.1

-- What is written without quotes has none, and no commas.
def Bare (f : Text × Bool) : Prop := f.2 = false → ∀ c ∈ f.1, c ≠ '"' ∧ c ≠ ','

theorem scan_cell (hf : Bare f) (h : s.head? ≠ some '"') :
    scanFields [] false false (cellText f ++ s) = scanFields f.1 false f.2 s := by
  obtain ⟨t, q⟩ := f
  cases q with
  | false =>
      show scanFields [] false false (t ++ s) = _
      rw [scan_text (hf rfl), List.nil_append]
  | true =>
      have hquote : cellText (t, true) ++ s = '"' :: (replaceChar '"' ['"', '"'] t ++ '"' :: s) := by
        show '"' :: (replaceChar '"' ['"', '"'] t ++ ['"']) ++ s = _
        rw [List.cons_append, List.append_assoc, List.singleton_append]
      rw [hquote, scan_open, scan_inside h, List.nil_append]

theorem scan_joined (hne : fs ≠ []) (hfs : ∀ f ∈ fs, Bare f) :
    scanFields [] false false (joined (fs.map cellText)) = fs := by
  induction fs with
  | nil => exact absurd rfl hne
  | cons f fs ih =>
      obtain ⟨hf, hrest⟩ := List.forall_mem_cons.mp hfs
      cases fs with
      | nil =>
          have hlast := scan_cell hf (s := []) (by decide)
          rw [List.append_nil] at hlast
          exact hlast
      | cons g fs =>
          have hcomma : (',' :: joined ((g :: fs).map cellText)).head? ≠ some '"' := by
            intro h
            exact absurd (Option.some.inj h) (by decide)
          show scanFields [] false false (cellText f ++ ',' :: joined ((g :: fs).map cellText)) = _
          rw [scan_cell hf hcomma, scan_comma, ih (List.cons_ne_nil _ _) hrest]

theorem scan_notMem {d : Char} (hcurrent : d ∉ current) (hs : d ∉ s) (h : f ∈ scanFields current q w s) :
    d ∉ f.1 := by
  induction current, q, w, s using scanFields.induct with
  | case1 current q w =>
      rw [scanFields, List.mem_singleton] at h
      rw [h]
      exact hcurrent
  | case2 current w s ih =>
      rw [scanFields, if_pos rfl] at h
      obtain ⟨hd, hs⟩ := not_or.mp fun h => hs (List.mem_cons.mpr h)
      refine ih ?_ (fun hmem => hs (List.mem_cons_of_mem _ hmem)) h
      rw [List.mem_append, List.mem_singleton]
      exact not_or.mpr ⟨hcurrent, hd⟩
  | case3 current q w s hq ih =>
      rw [scanFields, if_neg hq] at h
      exact ih hcurrent (fun hmem => hs (List.mem_cons_of_mem _ hmem)) h
  | case4 current q w s hnext ih =>
      rw [scanFields] at h
      · exact ih hcurrent (fun hmem => hs (List.mem_cons_of_mem _ hmem)) h
      · exact hnext
  | case5 current q w c s hnext hc hcomma ih =>
      rw [scanFields, if_pos hcomma] at h
      · rcases List.mem_cons.mp h with rfl | h
        · exact hcurrent
        · exact ih List.not_mem_nil (fun hmem => hs (List.mem_cons_of_mem _ hmem)) h
      · exact hnext
      · exact hc
  | case6 current q w c s hnext hc hcomma ih =>
      rw [scanFields, if_neg hcomma] at h
      · obtain ⟨hd, hs⟩ := not_or.mp fun h => hs (List.mem_cons.mpr h)
        refine ih ?_ hs h
        rw [List.mem_append, List.mem_singleton]
        exact not_or.mpr ⟨hcurrent, hd⟩
      · exact hnext
      · exact hc

end Scanning

section Lines

variable {s t line : Text} {f : Text × Bool} {fs : List (Text × Bool)}

theorem stripCr_append (ht : t ≠ []) (s : Text) : stripCr (s ++ t) = s ++ stripCr t := by
  have hlast : (s ++ t).getLast? = t.getLast? := by
    rw [List.getLast?_append_of_ne_nil _ ht]
  unfold stripCr
  rw [hlast]
  split_ifs
  · exact List.dropLast_append_of_ne_nil ht
  · rfl

theorem stripCr_of_last {c : Char} (hc : c ≠ '\r') (s : Text) : stripCr (s ++ [c]) = s ++ [c] := by
  rw [stripCr, List.getLast?_concat, if_neg]
  exact fun h => hc (Option.some.inj h)

theorem stripCr_comma (t : Text) : stripCr (',' :: t) = ',' :: stripCr t := by
  by_cases ht : t = []
  · rw [ht]
    rfl
  · exact stripCr_append ht [',']

theorem notMem_stripCr {d : Char} (h : d ∉ line) : d ∉ stripCr line := by
  unfold stripCr
  split_ifs
  · exact fun hmem => h (List.mem_of_mem_dropLast hmem)
  · exact h

-- Only the last field of a line can lose a carriage return, when it has no quotes.
def stripFields : List (Text × Bool) → List (Text × Bool)
  | [] => []
  | [f] => [if f.2 then f else (stripCr f.1, false)]
  | f :: g :: fs => f :: stripFields (g :: fs)

theorem stripCr_joined (fs : List (Text × Bool)) :
    stripCr (joined (fs.map cellText)) = joined ((stripFields fs).map cellText) := by
  induction fs with
  | nil => rfl
  | cons f fs ih =>
      cases fs with
      | nil =>
          obtain ⟨t, q⟩ := f
          cases q with
          | false => rfl
          | true => exact stripCr_of_last (by decide) ('"' :: replaceChar '"' ['"', '"'] t)
      | cons g fs =>
          have hcons : ∃ h hs, stripFields (g :: fs) = h :: hs := by
            cases fs with
            | nil => exact ⟨_, _, rfl⟩
            | cons h hs => exact ⟨_, _, rfl⟩
          obtain ⟨h, hs, hstrip⟩ := hcons
          rw [hstrip] at ih
          show stripCr (cellText f ++ ',' :: joined ((g :: fs).map cellText)) =
            joined (cellText f :: (stripFields (g :: fs)).map cellText)
          rw [stripCr_append (List.cons_ne_nil _ _), stripCr_comma, ih, hstrip]
          rfl

theorem stripFields_ne_nil (h : fs ≠ []) : stripFields fs ≠ [] := by
  cases fs with
  | nil => exact absurd rfl h
  | cons f fs => cases fs <;> exact List.cons_ne_nil _ _

theorem bare_stripFields (h : ∀ f ∈ fs, Bare f) : ∀ f ∈ stripFields fs, Bare f := by
  induction fs with
  | nil => exact h
  | cons f fs ih =>
      obtain ⟨hf, hrest⟩ := List.forall_mem_cons.mp h
      cases fs with
      | nil =>
          intro g hg
          rw [stripFields, List.mem_singleton] at hg
          rw [hg]
          split_ifs with hq
          · exact hf
          · intro _ c hc
            refine hf (Bool.eq_false_of_not_eq_true hq) c ?_
            by_contra hmem
            exact notMem_stripCr hmem hc
      | cons g fs =>
          exact List.forall_mem_cons.mpr ⟨hf, ih hrest⟩

theorem readLines_line {current : Text} (h : '\n' ∉ t) (s : Text) :
    readLines current (t ++ '\n' :: s) = stripCr (current ++ t) :: readLines [] s := by
  induction t generalizing current with
  | nil => rw [List.nil_append, readLines, if_pos rfl, List.append_nil]
  | cons c t ih =>
      obtain ⟨hc, ht⟩ := not_or.mp fun hmem => h (List.mem_cons.mpr hmem)
      rw [List.cons_append, readLines, if_neg fun heq => hc heq.symm, ih ht, List.append_assoc,
        List.singleton_append]

theorem readLines_lines {lines : List Text} (h : ∀ line ∈ lines, '\n' ∉ line) :
    readLines [] (lines.flatMap fun line => line ++ ['\n']) = lines.map stripCr := by
  induction lines with
  | nil => rfl
  | cons line lines ih =>
      obtain ⟨hline, hrest⟩ := List.forall_mem_cons.mp h
      rw [List.flatMap_cons, List.append_assoc, List.singleton_append, readLines_line hline, ih hrest,
        List.nil_append, List.map_cons]

theorem notMem_readLines {current : Text} (hcurrent : '\n' ∉ current) (h : line ∈ readLines current s) :
    '\n' ∉ line := by
  induction s generalizing current with
  | nil =>
      rw [readLines] at h
      split_ifs at h
      · exact absurd h List.not_mem_nil
      · rw [List.mem_singleton.mp h]
        exact hcurrent
  | cons c s ih =>
      rw [readLines] at h
      split_ifs at h with hc
      · rcases List.mem_cons.mp h with rfl | h
        · exact notMem_stripCr hcurrent
        · exact ih List.not_mem_nil h
      · refine ih ?_ h
        rw [List.mem_append, List.mem_singleton]
        exact not_or.mpr ⟨hcurrent, fun heq => hc heq.symm⟩

theorem trimText_eq_nil_iff (s : Text) : trimText s = [] ↔ ∀ c ∈ s, isWhitespace c = true := by
  constructor
  · intro h
    by_contra hno
    have hne : trimStart s ≠ [] := fun hnil => hno (List.dropWhile_eq_nil_iff.mp hnil)
    obtain ⟨c, r, hcons⟩ := List.exists_cons_of_ne_nil hne
    have hc : isWhitespace c = false := by
      have hhead := List.head_dropWhile_not isWhitespace hne
      have hhead' : (trimStart s).head hne = c := by simp [hcons]
      rw [← hhead']
      exact hhead
    obtain ⟨w, hw⟩ := trimEnd_extend hc [] r
    rw [List.nil_append] at hw
    rw [trimText, hcons, hw] at h
    exact List.cons_ne_nil _ _ h
  · intro h
    rw [trimText, trimStart, List.dropWhile_eq_nil_iff.mpr h]
    rfl

theorem blank_stripCr (line : Text) :
    (∀ c ∈ stripCr line, isWhitespace c = true) ↔ ∀ c ∈ line, isWhitespace c = true := by
  unfold stripCr
  split_ifs with hlast
  · have hsplit : line = line.dropLast ++ ['\r'] := (List.dropLast_append_getLast? _ hlast).symm
    constructor
    · intro h c hc
      rw [hsplit, List.mem_append, List.mem_singleton] at hc
      rcases hc with hc | rfl
      · exact h c hc
      · decide
    · exact fun h c hc => h c (List.mem_of_mem_dropLast hc)
  · exact Iff.rfl

end Lines

section Cells

variable {realText : UInt64 → Text} {v : Value} {row : Row}

theorem upperDigit_ascii {n : Nat} (h : n < 16) :
    48 ≤ ((Nat.digitChar n).toUpper).toNat ∧ ((Nat.digitChar n).toUpper).toNat ≤ 70 := by
  interval_cases n <;> decide

theorem hexByte_ascii {b : UInt8} {c : Char} (h : c ∈ hexByte b) : 48 ≤ c.toNat ∧ c.toNat ≤ 70 := by
  have hb := b.toNat_lt
  rcases List.mem_cons.mp h with rfl | h
  · exact upperDigit_ascii (by omega)
  · rw [List.mem_singleton.mp h]
    exact upperDigit_ascii (by omega)

variable (realText) in
def fieldOf : Value → Text × Bool
  | .Text t => (t.toList, needsQuotes t.toList)
  | v => (cell realText v, false)

theorem cell_eq (v : Value) : cell realText v = cellText (fieldOf realText v) := by
  cases v <;> rfl

theorem csvLine_eq (row : Row) : csvLine realText row = joined ((row.map (fieldOf realText)).map cellText) := by
  rw [csvLine, List.map_map]
  exact congrArg joined (List.map_congr_left fun v _ => cell_eq v)

theorem cell_ascii {c : Char} (hreal : ∀ b, v ≠ .Real b) (htext : ∀ t, v ≠ .Text t) (h : c ∈ cell realText v) :
    c = '\'' ∨ c = '-' ∨ 48 ≤ c.toNat ∧ c.toNat ≤ 88 := by
  cases v with
  | Null => exact absurd h List.not_mem_nil
  | Integer i =>
      rcases intText_chars i.toInt h with hdigit | hminus
      · have hdigits := Char.isDigit_iff_toNat.mp hdigit
        have hlow : '0'.toNat = 48 := rfl
        have hhigh : '9'.toNat = 57 := rfl
        exact .inr (.inr (by omega))
      · exact .inr (.inl hminus)
  | Real b => exact absurd rfl (hreal b)
  | Text t => exact absurd rfl (htext t)
  | Blob b =>
      rcases List.mem_cons.mp h with rfl | h
      · exact .inr (.inr (by decide))
      rcases List.mem_cons.mp h with rfl | h
      · exact .inl rfl
      rcases List.mem_append.mp h with h | h
      · obtain ⟨byte, -, hc⟩ := List.mem_flatMap.mp h
        have hascii := hexByte_ascii hc
        exact .inr (.inr (by omega))
      · exact .inl (List.mem_singleton.mp h)

theorem ne_of_ascii {c d : Char} (h : c = '\'' ∨ c = '-' ∨ 48 ≤ c.toNat ∧ c.toNat ≤ 88) (hd : d ≠ '\'')
    (hminus : d ≠ '-') (hlow : d.toNat < 48) : c ≠ d := by
  rintro rfl
  rcases h with h | h | h
  · exact hd h
  · exact hminus h
  · omega

theorem needsQuotes_iff (t : Text) : needsQuotes t = true ↔ ',' ∈ t ∨ '"' ∈ t ∨ '\n' ∈ t := by
  simp only [needsQuotes, Bool.or_eq_true, List.contains_iff_mem, or_assoc]

theorem bare_fieldOf (hreal : ∀ b, v ≠ .Real b) : Bare (fieldOf realText v) := by
  have hother : (∀ t, v ≠ .Text t) → ∀ c ∈ cell realText v, c ≠ '"' ∧ c ≠ ',' := fun htext c hc =>
    ⟨ne_of_ascii (cell_ascii hreal htext hc) (by decide) (by decide) (by decide),
      ne_of_ascii (cell_ascii hreal htext hc) (by decide) (by decide) (by decide)⟩
  intro hplain c hc
  cases v with
  | Null => exact hother (fun _ h => by cases h) c hc
  | Integer i => exact hother (fun _ h => by cases h) c hc
  | Real b => exact absurd rfl (hreal b)
  | Blob b => exact hother (fun _ h => by cases h) c hc
  | Text t =>
      have hnone : ¬(',' ∈ t.toList ∨ '"' ∈ t.toList ∨ '\n' ∈ t.toList) := fun h =>
        absurd ((needsQuotes_iff t.toList).mpr h) (by rw [show needsQuotes t.toList = false from hplain]; decide)
      obtain ⟨hcomma, hquotes, -⟩ := not_or.mp hnone |>.imp id not_or.mp
      constructor
      · rintro rfl
        exact hquotes hc
      · rintro rfl
        exact hcomma hc

theorem noBreak_cell (hreal : ∀ b, v ≠ .Real b) (htext : ∀ t, v = .Text t → '\n' ∉ t.toList) :
    '\n' ∉ cell realText v := by
  by_cases hv : ∃ t, v = .Text t
  · obtain ⟨t, rfl⟩ := hv
    intro h
    rw [cell] at h
    split_ifs at h with hq
    · rw [quote, List.mem_cons, List.mem_append, List.mem_singleton] at h
      rcases h with h | h | h
      · exact absurd h (by decide)
      · obtain ⟨c, hc, hin⟩ := List.mem_flatMap.mp h
        split_ifs at hin with hquote
        · exact absurd hin (by decide)
        · rw [List.mem_singleton] at hin
          exact htext t rfl (hin ▸ hc)
      · exact absurd h (by decide)
    · exact htext t rfl h
  · intro h
    have hascii := cell_ascii hreal (fun t ht => hv ⟨t, ht⟩) h
    exact ne_of_ascii hascii (by decide) (by decide) (by decide) rfl

theorem mem_joined {fs : List Text} {c : Char} (h : c ∈ joined fs) : c = ',' ∨ ∃ f ∈ fs, c ∈ f := by
  induction fs with
  | nil => exact absurd h List.not_mem_nil
  | cons f fs ih =>
      cases fs with
      | nil => exact .inr ⟨f, List.mem_cons_self, h⟩
      | cons g fs =>
          rcases List.mem_append.mp h with h | h
          · exact .inr ⟨f, List.mem_cons_self, h⟩
          rcases List.mem_cons.mp h with rfl | h
          · exact .inl rfl
          · rcases ih h with rfl | ⟨x, hx, hc⟩
            · exact .inl rfl
            · exact .inr ⟨x, List.mem_cons_of_mem _ hx, hc⟩

theorem noBreak_csvLine (hreal : ∀ v ∈ row, ∀ b, v ≠ .Real b) (htext : ∀ t, .Text t ∈ row → '\n' ∉ t.toList) :
    '\n' ∉ csvLine realText row := by
  intro h
  rcases mem_joined h with h | ⟨f, hf, hc⟩
  · exact absurd h (by decide)
  · obtain ⟨v, hv, rfl⟩ := List.mem_map.mp hf
    exact noBreak_cell (hreal v hv) (fun t ht => htext t (ht ▸ hv)) hc

end Cells

section Values

variable {toF64 : Text → UInt64} {env : EvalEnv} {realText : UInt64 → Text} {v : Value} {row : Row} {f t : Text}

theorem value_null : Literal.null.value toF64 env = .ok .Null := by
  simp only [Literal.value, Literal.expr, EvalEnv.evalExpr]

theorem value_text (f : Text) : (Literal.text f).value toF64 env = .ok (.Text (String.ofList f)) := by
  simp only [Literal.value, Literal.expr, EvalEnv.evalExpr]

def IsNumber (v : Value) : Prop := (∃ i, v = .Integer i) ∨ ∃ b, v = .Real b

theorem parseNumberLiteral_cases {e : Expr} (h : parseNumberLiteral toF64 f = .ok e) :
    (∃ i, e = .IntegerLiteral i) ∨ ∃ b, e = .RealLiteral b := by
  unfold parseNumberLiteral at h
  dsimp only at h
  split at h
  · exact .inl ⟨_, (Except.ok.inj h).symm⟩
  · split_ifs at h
    exact .inr ⟨_, (Except.ok.inj h).symm⟩

theorem signedNumber_cases {e : Expr} (h : signedNumber toF64 f = .ok e) :
    ∃ raw e', parseNumberLiteral toF64 raw = .ok e' ∧ (e = e' ∨ e = .UnaryOp .Minus e') := by
  unfold signedNumber at h
  split at h
  · next f =>
      cases hraw : parseNumberLiteral toF64 f with
      | ok e' =>
          rw [hraw] at h
          exact ⟨f, e', hraw, .inr (Except.ok.inj h).symm⟩
      | error e' =>
          rw [hraw] at h
          cases h
  · exact ⟨_, e, h, .inl rfl⟩
  · exact ⟨_, e, h, .inl rfl⟩

theorem isNumber_value (h : (Literal.number f).value toF64 env = .ok v) : IsNumber v := by
  rw [Literal.value, Literal.expr] at h
  cases hexpr : signedNumber toF64 f with
  | error e =>
      rw [hexpr] at h
      cases h
  | ok e =>
      rw [hexpr] at h
      dsimp only at h
      obtain ⟨raw, e', hraw, he⟩ := signedNumber_cases hexpr
      rcases parseNumberLiteral_cases hraw with ⟨i, rfl⟩ | ⟨b, rfl⟩ <;> rcases he with rfl | rfl
      · simp only [EvalEnv.evalExpr] at h
        exact .inl ⟨i, (Except.ok.inj h).symm⟩
      · simp only [EvalEnv.evalExpr] at h
        exact .inl ⟨-i, (Except.ok.inj h).symm⟩
      · simp only [EvalEnv.evalExpr] at h
        exact .inr ⟨b, (Except.ok.inj h).symm⟩
      · simp only [EvalEnv.evalExpr] at h
        exact .inr ⟨_, (Except.ok.inj h).symm⟩

theorem signedNumber_digits (hne : f ≠ []) (hdigits : ∀ c ∈ f, c.isDigit = true) :
    signedNumber toF64 f = parseNumberLiteral toF64 f := by
  obtain ⟨c, f, rfl⟩ := List.exists_cons_of_ne_nil hne
  have hc := hdigits c List.mem_cons_self
  rw [signedNumber]
  · rintro f' h
    rw [(List.cons.inj h).1] at hc
    exact absurd hc (by decide)
  · rintro f' h
    rw [(List.cons.inj h).1] at hc
    exact absurd hc (by decide)

theorem contains_digits {d : Char} (hdigits : ∀ c ∈ f, c.isDigit = true) (hd : d.isDigit = false) :
    f.contains d = false := by
  rw [Bool.eq_false_iff, ne_eq, List.contains_iff_mem]
  intro hmem
  exact absurd (hd.symm.trans (hdigits d hmem)) Bool.false_ne_true

theorem parseNumberLiteral_digits (hdigits : ∀ c ∈ f, c.isDigit = true) {i : Int64} (h : parseI64 f = some i) :
    parseNumberLiteral toF64 f = .ok (.IntegerLiteral i) := by
  unfold parseNumberLiteral
  rw [contains_digits hdigits (by decide), contains_digits hdigits (by decide),
    contains_digits hdigits (by decide)]
  simp only [Bool.or_false, Bool.false_eq_true, if_false, h]

theorem parseNumberLiteral_large (h : parseI64 f = none) (i : Int64) :
    parseNumberLiteral toF64 f ≠ .ok (.IntegerLiteral i) := by
  unfold parseNumberLiteral
  simp only [h, ite_self]
  split_ifs <;> exact fun heq => by cases heq

theorem parseI64_large (hne : f ≠ []) (hdigits : ∀ c ∈ f, c.isDigit = true)
    (hlarge : 9223372036854775807 < decimal f) : parseI64 f = none := by
  obtain ⟨c, f, rfl⟩ := List.exists_cons_of_ne_nil hne
  have hc := hdigits c List.mem_cons_self
  have hminus : c ≠ '-' := by
    rintro rfl
    exact absurd hc (by decide)
  have hplus : c ≠ '+' := by
    rintro rfl
    exact absurd hc (by decide)
  have hdrop : dropSign (c :: f) = c :: f := by
    rw [dropSign, List.head?_cons]
    exact if_neg (not_or.mpr ⟨fun h => hplus (Option.some.inj h), fun h => hminus (Option.some.inj h)⟩)
  simp only [parseI64]
  rw [hdrop, List.head?_cons, if_neg fun h => hminus (Option.some.inj h), if_neg]
  rintro ⟨-, -, hrange⟩
  have hhigh := (inRange_iff.mp hrange).2
  omega

-- The least integer is written with digits that no integer has.
theorem value_least (j : Int64) :
    (Literal.number (intText Int64.minValue.toInt)).value toF64 env ≠ .ok (.Integer j) := by
  intro h
  have hvalue := decimal_toDigits Int64.minValue.toInt.natAbs
  have habs : Int64.minValue.toInt.natAbs = 9223372036854775808 := rfl
  have hnone := parseI64_large (Nat.toDigits_ne_nil (n := Int64.minValue.toInt.natAbs) (b := 10))
    (fun _ => isDigit_toDigits) (by rw [hvalue, habs]; decide)
  rw [Literal.value, Literal.expr, intText, if_pos (by decide), signedNumber] at h
  cases hraw : parseNumberLiteral toF64 (Nat.toDigits 10 Int64.minValue.toInt.natAbs) with
  | error e =>
      rw [hraw] at h
      cases h
  | ok e =>
      rw [hraw] at h
      rcases parseNumberLiteral_cases hraw with ⟨i, rfl⟩ | ⟨b, rfl⟩
      · exact parseNumberLiteral_large hnone i hraw
      · simp only [Except.map, EvalEnv.evalExpr] at h
        cases h

theorem value_integer (i : Int64) :
    (Literal.number (intText i.toInt)).value toF64 env = .ok (.Integer i) ↔ i ≠ Int64.minValue := by
  by_cases hmin : i = Int64.minValue
  · subst hmin
    exact iff_of_false (value_least _) fun h => h rfl
  refine iff_of_true ?_ hmin
  have hlow := i.le_toInt
  have hdigits : ∀ c ∈ Nat.toDigits 10 i.toInt.natAbs, c.isDigit = true := fun _ => isDigit_toDigits
  have hne : Nat.toDigits 10 i.toInt.natAbs ≠ [] := Nat.toDigits_ne_nil
  have hvalue := decimal_toDigits i.toInt.natAbs
  have hparse := parseI64_intText i
  rw [Literal.value, Literal.expr]
  by_cases hneg : i.toInt < 0
  · rw [intText, if_pos hneg, signedNumber]
    have hfits : decimal (Nat.toDigits 10 i.toInt.natAbs) ≤ 9223372036854775807 := by
      have hother : i.toInt ≠ -9223372036854775808 := fun h => hmin (Int64.toInt_inj.mp h)
      omega
    have hi : -Int64.ofInt (decimal (Nat.toDigits 10 i.toInt.natAbs)) = i := by
      have habs : (-(i.toInt.natAbs : Int)) = i.toInt := by omega
      rw [hvalue, ← Int64.ofInt_neg, habs, Int64.ofInt_toInt]
    rw [parseNumberLiteral_digits hdigits (parseI64_digits hne hdigits hfits)]
    simp only [Except.map, EvalEnv.evalExpr]
    exact congrArg (fun j => Except.ok (Value.Integer j)) hi
  · rw [intText, if_neg hneg] at hparse ⊢
    rw [signedNumber_digits hne hdigits, parseNumberLiteral_digits hdigits hparse]
    simp only [EvalEnv.evalExpr]

theorem looksNumeric_intText (i : Int64) : looksNumeric (intText i.toInt) = true := by
  rw [looksNumeric, parseI64_intText]
  rfl

theorem not_blob (l : Literal) (b : List UInt8) : l.value toF64 env ≠ .ok (.Blob b) := by
  intro h
  cases l with
  | null => cases value_null.symm.trans h
  | text f => cases (value_text f).symm.trans h
  | number f => rcases isNumber_value h with ⟨i, hi⟩ | ⟨b, hb⟩ <;> cases ‹_›

theorem valLiteral_integer (i : Int64) : valLiteral (intText i.toInt, false) = .number (intText i.toInt) := by
  have hliteral : valLiteral (intText i.toInt, false) =
      if intText i.toInt = [] then .null
      else if false = false ∧ looksNumeric (intText i.toInt) = true then .number (intText i.toInt)
      else .text (intText i.toInt) := rfl
  rw [hliteral, if_neg (intText_ne_nil _), if_pos ⟨rfl, looksNumeric_intText i⟩]

theorem value_field (hreal : ∀ b, v ≠ .Real b) :
    (valLiteral (fieldOf realText v)).value toF64 env = .ok v ↔ Keeps v := by
  cases v with
  | Null => exact iff_of_true value_null trivial
  | Real b => exact absurd rfl (hreal b)
  | Blob b => exact iff_of_false (not_blob _ b) id
  | Integer i =>
      have hnumber : valLiteral (fieldOf realText (.Integer i)) = .number (intText i.toInt) := valLiteral_integer i
      rw [hnumber]
      exact value_integer i
  | Text t =>
      have hliteral : valLiteral (fieldOf realText (.Text t)) =
          if t.toList = [] then .null
          else if needsQuotes t.toList = false ∧ looksNumeric t.toList = true then .number t.toList
          else .text t.toList := rfl
      rw [hliteral]
      by_cases hnil : t.toList = []
      · rw [if_pos hnil, value_null]
        exact iff_of_false (fun h => by cases h) fun h => h.1 hnil
      rw [if_neg hnil]
      by_cases hnumber : needsQuotes t.toList = false ∧ looksNumeric t.toList = true
      · rw [if_pos hnumber]
        refine iff_of_false (fun h => ?_) fun h => ?_
        · rcases isNumber_value h with ⟨i, hi⟩ | ⟨b, hb⟩ <;> cases ‹_›
        · rcases h.2 with hq | hl
          · exact absurd (hnumber.1.symm.trans hq) Bool.false_ne_true
          · exact absurd (hl.symm.trans hnumber.2) Bool.false_ne_true
      · rw [if_neg hnumber, value_text]
        refine iff_of_true (by rw [String.ofList_toList]) ⟨hnil, ?_⟩
        by_contra hno
        obtain ⟨hq, hl⟩ := not_or.mp hno
        exact hnumber ⟨Bool.eq_false_of_not_eq_true hq, Bool.eq_true_of_not_eq_false hl⟩

theorem field_last (hreal : ∀ b, v ≠ .Real b) (htext : ∀ t, v ≠ .Text t) :
    (fieldOf realText v).1.getLast? ≠ some '\r' := by
  intro hlast
  have hcell : (fieldOf realText v).1 = cell realText v := by
    cases v with
    | Text t => exact absurd rfl (htext t)
    | _ => rfl
  rw [hcell] at hlast
  have hascii := cell_ascii hreal htext (List.mem_of_getLast? hlast)
  exact absurd rfl (ne_of_ascii hascii (by decide) (by decide) (by decide))

-- What the last field of a line comes back as.
theorem value_last (hreal : ∀ b, v ≠ .Real b) :
    (valLiteral (if (fieldOf realText v).2 then fieldOf realText v
      else (stripCr (fieldOf realText v).1, false))).value toF64 env = .ok v ↔
      Keeps v ∧ ∀ t, v = .Text t → needsQuotes t.toList = true ∨ t.toList.getLast? ≠ some '\r' := by
  by_cases hlost : (fieldOf realText v).2 = false ∧ (fieldOf realText v).1.getLast? = some '\r'
  · obtain ⟨hplain, hlast⟩ := hlost
    rw [hplain, if_neg Bool.false_ne_true, stripCr, if_pos hlast]
    by_cases hv : ∃ t, v = .Text t
    · obtain ⟨t, rfl⟩ := hv
      refine iff_of_false (fun h => ?_) fun h => ?_
      · have hfield : (fieldOf realText (.Text t)).1 = t.toList := rfl
        rw [hfield] at h hlast
        have hne : t.toList ≠ [] := fun hnil => by rw [hnil] at hlast; cases hlast
        rw [valLiteral] at h
        split_ifs at h with hnil hnumber
        · cases value_null.symm.trans h
        · rcases isNumber_value h with ⟨i, hi⟩ | ⟨b, hb⟩ <;> cases ‹_›
        · have heq : String.ofList t.toList.dropLast = t := by
            exact Value.Text.inj (Except.ok.inj ((value_text _).symm.trans h))
          have hlen : (String.ofList t.toList.dropLast).toList.length = t.toList.length := by rw [heq]
          rw [String.toList_ofList, List.length_dropLast] at hlen
          have hpos := List.length_pos_of_ne_nil hne
          omega
      · rcases h.2 t rfl with hq | hr
        · exact absurd (hplain.symm.trans hq) Bool.false_ne_true
        · exact hr hlast
    · exact absurd hlast (field_last hreal fun t ht => hv ⟨t, ht⟩)
  · have hsame : (if (fieldOf realText v).2 then fieldOf realText v
        else (stripCr (fieldOf realText v).1, false)) = fieldOf realText v := by
      cases hq : (fieldOf realText v).2 with
      | true => exact if_pos rfl
      | false =>
          rw [if_neg Bool.false_ne_true, stripCr, if_neg fun hlast => hlost ⟨hq, hlast⟩, ← hq]
    rw [hsame, value_field hreal]
    refine ⟨fun h => ⟨h, fun t ht => ?_⟩, And.left⟩
    subst ht
    by_cases hq : needsQuotes t.toList = true
    · exact .inl hq
    · exact .inr fun hlast => hlost ⟨Bool.eq_false_of_not_eq_true hq, hlast⟩

theorem fields_iff (hreal : ∀ v ∈ row, ∀ b, v ≠ .Real b) :
    ((stripFields (row.map (fieldOf realText))).map valLiteral).mapM (Literal.value toF64 env) = .ok row ↔
      (∀ v ∈ row, Keeps v) ∧
        ∀ t, row.getLast? = some (.Text t) → needsQuotes t.toList = true ∨ t.toList.getLast? ≠ some '\r' := by
  rw [mapM_eq_ok_iff, List.map_map]
  induction row with
  | nil => exact iff_of_true rfl ⟨fun _ h => absurd h List.not_mem_nil, fun _ h => by cases h⟩
  | cons v row ih =>
      obtain ⟨hv, hrest⟩ := List.forall_mem_cons.mp hreal
      cases row with
      | nil =>
          simp only [List.map_cons, List.map_nil, stripFields, Function.comp_apply, List.cons.injEq, and_true]
          rw [value_last hv, List.forall_mem_singleton, List.getLast?_singleton]
          refine and_congr_right fun _ => forall_congr' fun t => ?_
          rw [Option.some.injEq]
      | cons w row =>
          have hhead : (stripFields ((v :: w :: row).map (fieldOf realText))).map
              (Literal.value toF64 env ∘ valLiteral) = (valLiteral (fieldOf realText v)).value toF64 env ::
                (stripFields ((w :: row).map (fieldOf realText))).map (Literal.value toF64 env ∘ valLiteral) := rfl
          have htail : (v :: w :: row).map .ok = (.ok v : Res Value) :: (w :: row).map .ok := rfl
          rw [hhead, htail, List.cons.injEq, value_field hv, ih hrest, List.forall_mem_cons (a := v),
            List.getLast?_cons_cons, and_assoc]

theorem lineLiterals_csvLine (hne : row ≠ []) (hreal : ∀ v ∈ row, ∀ b, v ≠ .Real b) :
    lineLiterals (stripCr (csvLine realText row)) = (stripFields (row.map (fieldOf realText))).map valLiteral := by
  have hbare : ∀ f ∈ stripFields (row.map (fieldOf realText)), Bare f := by
    refine bare_stripFields fun f hf => ?_
    obtain ⟨v, hv, rfl⟩ := List.mem_map.mp hf
    exact bare_fieldOf (hreal v hv)
  have hfields : stripFields (row.map (fieldOf realText)) ≠ [] :=
    stripFields_ne_nil fun h => hne (List.map_eq_nil_iff.mp h)
  rw [lineLiterals, csvLine_eq, stripCr_joined, scan_joined hfields hbare]

theorem lineValues_iff (hne : row ≠ []) (hreal : ∀ v ∈ row, ∀ b, v ≠ .Real b) :
    lineValues toF64 env (stripCr (csvLine realText row)) = .ok row ↔
      (∀ v ∈ row, Keeps v) ∧
        ∀ t, row.getLast? = some (.Text t) → needsQuotes t.toList = true ∨ t.toList.getLast? ≠ some '\r' := by
  rw [lineValues, lineLiterals_csvLine hne hreal]
  exact fields_iff hreal

theorem blank_csvLine (hreal : ∀ v ∈ row, ∀ b, v ≠ .Real b) (hlines : ∀ t, .Text t ∈ row → '\n' ∉ t.toList) :
    (∀ c ∈ csvLine realText row, isWhitespace c = true) ↔
      row = [] ∨ row = [.Null] ∨ ∃ t, row = [.Text t] ∧ ∀ c ∈ t.toList, isWhitespace c = true := by
  have hcomma : isWhitespace ',' = false := by decide
  cases row with
  | nil => exact iff_of_true (fun _ h => absurd h List.not_mem_nil) (.inl rfl)
  | cons v row =>
      cases row with
      | cons w row =>
          have hmem : ',' ∈ csvLine realText (v :: w :: row) := List.mem_append_right _ List.mem_cons_self
          refine iff_of_false (fun h => absurd (h _ hmem) (by rw [hcomma]; decide)) ?_
          rintro (h | h | ⟨t, h, -⟩) <;> cases h
      | nil =>
          have hline : csvLine realText [v] = cell realText v := rfl
          rw [hline]
          cases v with
          | Null => exact iff_of_true (fun _ h => absurd h List.not_mem_nil) (.inr (.inl rfl))
          | Real b => exact absurd rfl (hreal _ List.mem_cons_self b)
          | Integer i =>
              obtain ⟨c, s, hs⟩ := List.exists_cons_of_ne_nil (intText_ne_nil i.toInt)
              have hc := (digit_plain (intText_chars i.toInt (hs ▸ List.mem_cons_self))).1.1
              refine iff_of_false (fun h => absurd (h c ?_) (by rw [hc]; decide)) ?_
              · rw [cell, hs]
                exact List.mem_cons_self
              · rintro (h | h | ⟨t, h, -⟩) <;> cases h
          | Blob b =>
              refine iff_of_false (fun h => absurd (h 'X' List.mem_cons_self) (by decide)) ?_
              rintro (h | h | ⟨t, h, -⟩) <;> cases h
          | Text t =>
              have hwords : ([Value.Text t] = [] ∨ [Value.Text t] = [.Null] ∨
                  ∃ t', [Value.Text t] = [.Text t'] ∧ ∀ c ∈ t'.toList, isWhitespace c = true) ↔
                    ∀ c ∈ t.toList, isWhitespace c = true := by
                constructor
                · rintro (h | h | ⟨t', h, hall⟩)
                  · cases h
                  · cases h
                  · cases h
                    exact hall
                · exact fun h => .inr (.inr ⟨t, rfl, h⟩)
              rw [hwords]
              by_cases hq : needsQuotes t.toList = true
              · have hcell : cell realText (.Text t) = quote t.toList := if_pos hq
                rw [hcell]
                refine iff_of_false (fun h => absurd (h '"' List.mem_cons_self) (by decide)) fun h => ?_
                rcases (needsQuotes_iff _).mp hq with hmem | hmem | hmem
                · exact absurd (h _ hmem) (by decide)
                · exact absurd (h _ hmem) (by decide)
                · exact hlines t List.mem_cons_self hmem
              · have hcell : cell realText (.Text t) = t.toList := if_neg hq
                rw [hcell]

-- A value that comes back as another one comes back shorter.
def weight : Value → Nat
  | .Text t => t.toList.length + 1
  | .Blob b => (cell (fun _ => []) (.Blob b)).length + 2
  | _ => 0

theorem value_cases {g : Text × Bool} (h : (valLiteral g).value toF64 env = .ok v) :
    (g.1 = [] ∧ v = .Null) ∨ IsNumber v ∨ v = .Text (String.ofList g.1) := by
  rw [valLiteral] at h
  split_ifs at h with hnil hnumber
  · exact .inl ⟨hnil, (Except.ok.inj (value_null.symm.trans h)).symm⟩
  · exact .inr (.inl (isNumber_value h))
  · exact .inr (.inr (Except.ok.inj ((value_text _).symm.trans h)).symm)

theorem stripCr_shorter (t : Text) : stripCr t = t ∨ (stripCr t).length < t.length := by
  unfold stripCr
  split_ifs with hlast
  · have hpos : 0 < t.length := List.length_pos_of_mem (List.mem_of_getLast? hlast)
    rw [List.length_dropLast]
    exact .inr (by omega)
  · exact .inl rfl

theorem value_shrinks {g : Text × Bool} {w : Value} (hreal : ∀ b, v ≠ .Real b) (hw : ∀ b, w ≠ .Real b)
    (hg : g = fieldOf realText v ∨ g = (stripCr (fieldOf realText v).1, false))
    (h : (valLiteral g).value toF64 env = .ok w) : w = v ∨ weight w < weight v := by
  have hlen : g.1 = (fieldOf realText v).1 ∨ g.1.length < (fieldOf realText v).1.length := by
    rcases hg with rfl | rfl
    · exact .inl rfl
    · exact stripCr_shorter _
  cases v with
  | Null =>
      have hempty : g = ([], false) := by rcases hg with rfl | rfl <;> rfl
      rw [hempty] at h
      exact .inl (Except.ok.inj (value_null.symm.trans h)).symm
  | Real b => exact absurd rfl (hreal b)
  | Integer i =>
      have hsame : g = (intText i.toInt, false) := by
        rcases hg with rfl | rfl
        · rfl
        · have hlast : (fieldOf realText (.Integer i)).1.getLast? ≠ some '\r' :=
            field_last hreal fun t ht => by cases ht
          rw [stripCr, if_neg hlast]
          rfl
      rw [hsame, valLiteral_integer] at h
      by_cases hmin : i = Int64.minValue
      · subst hmin
        rcases isNumber_value h with ⟨j, rfl⟩ | ⟨b, hb⟩
        · exact absurd h (value_least j)
        · exact absurd hb (hw b)
      · exact .inl (Except.ok.inj (((value_integer i).mpr hmin).symm.trans h)).symm
  | Text t =>
      rcases value_cases h with ⟨-, rfl⟩ | (⟨j, rfl⟩ | ⟨b, hb⟩) | rfl
      · exact .inr (Nat.succ_pos _)
      · exact .inr (Nat.succ_pos _)
      · exact absurd hb (hw b)
      · rcases hlen with heq | hlt
        · rw [heq]
          exact .inl (congrArg Value.Text String.ofList_toList)
        · refine .inr ?_
          show (String.ofList g.1).toList.length + 1 < t.toList.length + 1
          rw [String.toList_ofList]
          exact Nat.succ_lt_succ hlt
  | Blob b =>
      have hle : g.1.length ≤ (cell (fun _ => []) (.Blob b)).length := by
        rcases hlen with heq | hlt
        · rw [heq]
          exact le_refl _
        · exact le_of_lt hlt
      rcases value_cases h with ⟨-, rfl⟩ | (⟨j, rfl⟩ | ⟨b, hb⟩) | rfl
      · exact .inr (Nat.succ_pos _)
      · exact .inr (Nat.succ_pos _)
      · exact absurd hb (hw b)
      · refine .inr ?_
        show (String.ofList g.1).toList.length + 1 < (cell (fun _ => []) (.Blob b)).length + 2
        rw [String.toList_ofList]
        omega

theorem fields_shrink {given : Row} (hreal : ∀ v ∈ row, ∀ b, v ≠ .Real b) (hgiven : ∀ b, .Real b ∉ given)
    (h : ((stripFields (row.map (fieldOf realText))).map valLiteral).map (Literal.value toF64 env) =
      given.map .ok) : List.Forall₂ (fun v w => w = v ∨ weight w < weight v) row given := by
  induction row generalizing given with
  | nil =>
      rw [List.map_eq_nil_iff.mp h.symm]
      exact .nil
  | cons v row ih =>
      obtain ⟨hv, hrest⟩ := List.forall_mem_cons.mp hreal
      cases given with
      | nil =>
          cases row <;> cases h
      | cons w given =>
          have hw : ∀ b, w ≠ .Real b := fun b hb => hgiven b (hb ▸ List.mem_cons_self)
          have hgiven' : ∀ b, .Real b ∉ given := fun b hb => hgiven b (List.mem_cons_of_mem _ hb)
          cases row with
          | nil =>
              obtain ⟨hhead, htail⟩ := List.cons.inj h
              rw [List.map_eq_nil_iff.mp htail.symm]
              have hlast : (if (fieldOf realText v).2 then fieldOf realText v
                  else (stripCr (fieldOf realText v).1, false)) = fieldOf realText v ∨
                  (if (fieldOf realText v).2 then fieldOf realText v
                  else (stripCr (fieldOf realText v).1, false)) = (stripCr (fieldOf realText v).1, false) := by
                split_ifs
                · exact .inl rfl
                · exact .inr rfl
              exact .cons (value_shrinks hv hw hlast hhead) .nil
          | cons u row =>
              obtain ⟨hhead, htail⟩ := List.cons.inj h
              exact .cons (value_shrinks hv hw (.inl rfl) hhead) (ih hrest hgiven' htail)

end Values

section Files

variable {toF64 : Text → UInt64} {env : EvalEnv} {realText : UInt64 → Text} {columns : List String} {file : Text}
  {rows : List Row} {row : Row}

theorem noBreak_header (h : ∀ c ∈ columns, '\n' ∉ c.toList) : '\n' ∉ header columns := by
  intro hmem
  rcases mem_joined hmem with heq | ⟨f, hf, hin⟩
  · exact absurd heq (by decide)
  obtain ⟨name, hname, rfl⟩ := List.mem_map.mp hf
  rw [quote, List.mem_cons, List.mem_append, List.mem_singleton] at hin
  rcases hin with heq | hin | heq
  · exact absurd heq (by decide)
  · obtain ⟨d, hd, hin⟩ := List.mem_flatMap.mp hin
    split_ifs at hin
    · exact absurd hin (by decide)
    · rw [List.mem_singleton] at hin
      exact h name hname (hin ▸ hd)
  · exact absurd heq (by decide)

-- The lines of a file are the rows as long as no text goes over its line.
theorem dataLines_export (hcolumns : ∀ c ∈ columns, '\n' ∉ c.toList)
    (hreal : ∀ row ∈ rows, ∀ v ∈ row, ∀ b, v ≠ .Real b)
    (hlines : ∀ row ∈ rows, ∀ t, .Text t ∈ row → '\n' ∉ t.toList) :
    dataLines (exportCsv realText columns rows) =
      (rows.map fun row => stripCr (csvLine realText row)).filter fun line => trimText line ≠ [] := by
  have hall : ∀ line ∈ header columns :: rows.map (csvLine realText), '\n' ∉ line := by
    refine List.forall_mem_cons.mpr ⟨noBreak_header hcolumns, fun line hline => ?_⟩
    obtain ⟨row, hrow, rfl⟩ := List.mem_map.mp hline
    exact noBreak_csvLine (hreal row hrow) (hlines row hrow)
  rw [dataLines, exportCsv, readLines_lines hall, List.map_cons, List.tail_cons, List.map_map]
  rfl

-- No text of an imported row goes over a line.
theorem noBreak_imported (h : importedRows toF64 env file = .ok rows) :
    ∀ row ∈ rows, ∀ t, .Text t ∈ row → '\n' ∉ t.toList := by
  intro row hrow t ht
  obtain ⟨line, hline, hvalues⟩ := exists_of_mem_mapM h hrow
  have hbreak : '\n' ∉ line :=
    notMem_readLines List.not_mem_nil (List.mem_of_mem_tail (List.mem_filter.mp hline).1)
  obtain ⟨l, hl, hvalue⟩ := exists_of_mem_mapM hvalues ht
  obtain ⟨f, hf, rfl⟩ := List.mem_map.mp hl
  have hfield := scan_notMem List.not_mem_nil hbreak hf
  rw [valLiteral] at hvalue
  split_ifs at hvalue
  · cases value_null.symm.trans hvalue
  · rcases isNumber_value hvalue with ⟨i, hi⟩ | ⟨b, hb⟩ <;> cases ‹_›
  · have hsame := Value.Text.inj (Except.ok.inj ((value_text _).symm.trans hvalue))
    rw [← hsame, String.toList_ofList]
    exact hfield

theorem shown_iff (hreal : ∀ v ∈ row, ∀ b, v ≠ .Real b) (hlines : ∀ t, .Text t ∈ row → '\n' ∉ t.toList) :
    trimText (stripCr (csvLine realText row)) ≠ [] ↔
      row ≠ [] ∧ row ≠ [.Null] ∧ ∀ t, row = [.Text t] → ¬∀ c ∈ t.toList, isWhitespace c = true := by
  rw [ne_eq, trimText_eq_nil_iff, blank_stripCr, blank_csvLine hreal hlines, not_or, not_or, not_exists]
  simp only [not_and, ne_eq]

-- As many rows as were exported are imported only when each line is read as one row.
theorem lines_imported {new : List Row} (hcolumns : ∀ c ∈ columns, '\n' ∉ c.toList)
    (hreal : ∀ row ∈ rows, ∀ v ∈ row, ∀ b, v ≠ .Real b)
    (hlines : ∀ row ∈ rows, ∀ t, .Text t ∈ row → '\n' ∉ t.toList)
    (h : importedRows toF64 env (exportCsv realText columns rows) = .ok new) (hlen : new.length = rows.length) :
    (∀ row ∈ rows, trimText (stripCr (csvLine realText row)) ≠ []) ∧
      (rows.map fun row => lineValues toF64 env (stripCr (csvLine realText row))) = new.map .ok := by
  rw [importedRows, dataLines_export hcolumns hreal hlines, mapM_eq_ok_iff] at h
  have hcount := congrArg List.length h
  rw [List.length_map, List.length_map, hlen] at hcount
  have hkept : ∀ line ∈ rows.map fun row => stripCr (csvLine realText row), trimText line ≠ [] := by
    have hfull := List.length_filter_eq_length_iff.mp (hcount.trans (List.length_map _).symm)
    exact fun line hline => of_decide_eq_true (hfull line hline)
  rw [List.filter_eq_self.mpr fun line hline => decide_eq_true (hkept line hline), List.map_map] at h
  exact ⟨fun row hrow => hkept _ (List.mem_map_of_mem hrow), h⟩

-- The rows of an exported file are the rows of the table exactly when each of them survives.
theorem importedRows_iff (hcolumns : ∀ c ∈ columns, '\n' ∉ c.toList)
    (hreal : ∀ row ∈ rows, ∀ v ∈ row, ∀ b, v ≠ .Real b) :
    importedRows toF64 env (exportCsv realText columns rows) = .ok rows ↔ ∀ row ∈ rows, Survives row := by
  constructor
  · intro h
    have hlines := noBreak_imported h
    obtain ⟨hkept, hread⟩ := lines_imported hcolumns hreal hlines h rfl
    intro row hrow
    have hshown := (shown_iff (hreal row hrow) (hlines row hrow)).mp (hkept row hrow)
    have hvalues := (lineValues_iff hshown.1 (hreal row hrow)).mp (List.map_inj_left.mp hread row hrow)
    exact ⟨hvalues.1, hlines row hrow, hshown, hvalues.2⟩
  · intro h
    have hlines : ∀ row ∈ rows, ∀ t, .Text t ∈ row → '\n' ∉ t.toList := fun row hrow => (h row hrow).oneLine
    have hkept : ∀ line ∈ rows.map fun row => stripCr (csvLine realText row), trimText line ≠ [] := by
      intro line hline
      obtain ⟨row, hrow, rfl⟩ := List.mem_map.mp hline
      exact (shown_iff (hreal row hrow) (hlines row hrow)).mpr (h row hrow).shown
    rw [importedRows, dataLines_export hcolumns hreal hlines,
      List.filter_eq_self.mpr fun line hline => decide_eq_true (hkept line hline), mapM_eq_ok_iff, List.map_map]
    refine List.map_congr_left fun row hrow => ?_
    exact (lineValues_iff (h row hrow).shown.1 (hreal row hrow)).mpr ⟨(h row hrow).values, (h row hrow).ending⟩

end Files

end Kkdb.Csv
