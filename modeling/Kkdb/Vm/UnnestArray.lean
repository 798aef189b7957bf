import Kkdb.Lib.JsonGrammar
import Kkdb.Vm.Unnest
import Mathlib.Data.List.DropRight

namespace Kkdb.Unnest

open Lib JsonPath

section Trimming

variable {c d : Char} {s t u before after : Text}

theorem isWhitespace_of_isBlank (h : Json.isBlank c = true) : isWhitespace c = true := by
  simp only [Json.isBlank, Bool.or_eq_true, decide_eq_true_eq] at h
  rcases h with ((rfl | rfl) | rfl) | rfl <;> decide

theorem blank_nil : Json.Blank [] := fun _ hmem => nomatch hmem

theorem whitespace_of_blank (h : Json.Blank before) : ∀ c ∈ before, isWhitespace c = true :=
  fun c hc => isWhitespace_of_isBlank (h c hc)

theorem trimEnd_blank (h : ∀ c ∈ after, isWhitespace c = true) : trimEnd (s ++ after) = trimEnd s := by
  have hrev : ∀ c ∈ after.reverse, isWhitespace c = true := fun c hc => h c (List.mem_reverse.mp hc)
  rw [trimEnd, List.reverse_append, List.dropWhile_append_of_pos hrev, trimEnd]

theorem trimEnd_concat (hd : isWhitespace d = false) : trimEnd (s ++ [d]) = s ++ [d] := by
  rw [trimEnd, List.reverse_append, List.reverse_singleton, List.singleton_append,
    List.dropWhile_cons_of_neg (by rw [hd]; decide), List.reverse_cons, List.reverse_reverse]

theorem trimEnd_extend (hd : isWhitespace d = false) (s u : Text) :
    ∃ w, trimEnd (s ++ d :: u) = s ++ d :: w := by
  induction u using List.reverseRecOn with
  | nil => exact ⟨[], trimEnd_concat hd⟩
  | append_singleton u x ih =>
      have hassoc : s ++ d :: (u ++ [x]) = (s ++ d :: u) ++ [x] := by simp
      rw [hassoc]
      cases hx : isWhitespace x with
      | true =>
          rw [trimEnd_blank fun c hc => by rw [List.mem_singleton.mp hc, hx]]
          exact ih
      | false =>
          rw [trimEnd_concat hx]
          exact ⟨u ++ [x], hassoc.symm⟩

theorem length_trimEnd_le (s : Text) : (trimEnd s).length ≤ s.length := by
  have hle := (s.reverse.dropWhile_sublist isWhitespace).length_le
  rw [List.length_reverse] at hle
  rw [trimEnd, List.length_reverse]
  exact hle

theorem trimText_cons (hbefore : Json.Blank before) (hc : isWhitespace c = false) :
    trimText (before ++ c :: s) = trimEnd (c :: s) := by
  rw [trimText, trimStart, List.dropWhile_append_of_pos (whitespace_of_blank hbefore),
    List.dropWhile_cons_of_neg (by rw [hc]; decide)]

-- A text that starts and ends with a character that is not white space, the last one no backslash either.
structure Solid (t : Text) : Prop where
  head : ∃ c s, t = c :: s ∧ isWhitespace c = false
  last : ∃ s d, t = s ++ [d] ∧ isWhitespace d = false ∧ d ≠ '\\'

theorem Solid.trimText_eq (h : Solid t) (hbefore : Json.Blank before) (hafter : Json.Blank after) :
    trimText (before ++ t ++ after) = t := by
  obtain ⟨c, s, hhead, hc⟩ := h.head
  obtain ⟨r, d, hlast, hd, -⟩ := h.last
  have htrim := trimText_cons (s := s ++ after) hbefore hc
  rw [← List.cons_append, ← hhead, ← List.append_assoc] at htrim
  rw [htrim, trimEnd_blank (whitespace_of_blank hafter), hlast, trimEnd_concat hd]

theorem Solid.trimText_self (h : Solid t) : trimText t = t := by
  have htrim := h.trimText_eq blank_nil blank_nil
  rwa [List.nil_append, List.append_nil] at htrim

theorem trimText_idem (s : Text) : trimText (trimText s) = trimText s := by
  by_cases hall : ∀ c ∈ s, isWhitespace c = true
  · have hnil : trimText s = [] := by
      rw [trimText, trimStart, List.dropWhile_eq_nil_iff.mpr hall]
      rfl
    rw [hnil]
    rfl
  · have hne : trimStart s ≠ [] := fun hnil => hall (List.dropWhile_eq_nil_iff.mp hnil)
    obtain ⟨c, r, hcons⟩ := List.exists_cons_of_ne_nil hne
    have hc : isWhitespace c = false := by
      have hhead := List.head_dropWhile_not isWhitespace hne
      have hhead' : (trimStart s).head hne = c := by simp [hcons]
      rw [← hhead']
      exact hhead
    obtain ⟨w, hw⟩ := trimEnd_extend hc [] r
    have hrest : trimText s = c :: w := by rw [trimText, hcons]; exact hw
    have hagain : trimEnd (trimEnd (c :: r)) = trimEnd (c :: r) := by
      rw [trimEnd, trimEnd, List.reverse_reverse, List.dropWhile_idempotent]
    have hsame : trimText (c :: w) = trimEnd (c :: w) := trimText_cons blank_nil hc
    rw [hrest, hsame, ← hrest, trimText, hcons, hagain]

end Trimming

section Scalars

variable {toF64 : Text → UInt64} {c : Char} {s t m : Text}

theorem not_number (hc : c = '[' ∨ c = '{' ∨ c = '"') (s : Text) :
    parseI64 (c :: s) = none ∧ isFloat (c :: s) = false := by
  have hdigit : c.isDigit = false := by rcases hc with rfl | rfl | rfl <;> decide
  have hsign : dropSign (c :: s) = c :: s := if_neg (by rcases hc with rfl | rfl | rfl <;> simp)
  have htake : (c :: s).takeWhile Char.isDigit = [] := List.takeWhile_cons_of_neg (by rw [hdigit]; decide)
  have hdrop : (c :: s).dropWhile Char.isDigit = c :: s := List.dropWhile_cons_of_neg (by rw [hdigit]; decide)
  constructor
  · rw [parseI64, hsign]
    refine if_neg fun h => ?_
    have hall := h.2.1
    rw [List.all_cons, hdigit] at hall
    cases hall
  · have hpoint : ¬(c :: s).head? = some '.' := by rcases hc with rfl | rfl | rfl <;> simp
    have hword : ["inf".toList, "infinity".toList, "nan".toList].contains ((c :: s).map Char.toLower) =
        false := by
      rcases hc with rfl | rfl | rfl <;> simp
    have hdecimal : isDecimal (c :: s) = false := by
      rw [isDecimal, hdrop, if_neg hpoint, htake]
      rfl
    rw [isFloat, hsign, hword, hdecimal]
    rfl

theorem scalarValue_of_bracket (hc : c = '[' ∨ c = '{') (htrim : trimText (c :: s) = c :: s) :
    scalarValue toF64 (c :: s) = .Text (String.ofList (c :: s)) := by
  have hno := not_number (hc.imp_right .inl) s
  have hvalue : parseJsonScalar toF64 (c :: s) = .ok (.Text (String.ofList (c :: s))) := by
    unfold parseJsonScalar
    rcases hc with rfl | rfl <;> simp [htrim, hno]
  rw [scalarValue, hvalue]
  rfl

theorem scalarValue_of_quoted (htrim : trimText ('"' :: m ++ ['"']) = '"' :: m ++ ['"']) :
    scalarValue toF64 ('"' :: m ++ ['"']) = .Text (String.ofList (unescapeQuotes m)) := by
  have hlen : 2 ≤ utf8Len ('"' :: m ++ ['"']) := by
    rw [utf8Len_append, utf8Len_cons, utf8Len_cons, utf8Len_nil]
    have hsize : ('"' : Char).utf8Size = 1 := by decide
    omega
  have hquoted : ('"' :: m ++ ['"']).head? = some '"' ∧ ('"' :: m ++ ['"']).getLast? = some '"' ∧
      2 ≤ utf8Len ('"' :: m ++ ['"']) := ⟨rfl, by rw [List.getLast?_append_cons]; rfl, hlen⟩
  have hvalue : parseJsonScalar toF64 ('"' :: m ++ ['"']) = .ok (.Text (String.ofList (unescapeQuotes m))) := by
    unfold parseJsonScalar
    dsimp only
    rw [htrim, if_neg (by simp), if_neg (by simp), if_neg (by simp), if_pos hquoted,
      slice_inner (by decide) (by decide)]
    rfl
  rw [scalarValue, hvalue]
  rfl

theorem scalarValue_of_unclosed (htrim : trimText ('"' :: s) = '"' :: s)
    (hlast : ('"' :: s).getLast? ≠ some '"') :
    scalarValue toF64 ('"' :: s) = .Text (String.ofList ('"' :: s)) := by
  have hno := not_number (c := '"') (.inr (.inr rfl)) s
  have hvalue : parseJsonScalar toF64 ('"' :: s) = .ok (.Text (String.ofList ('"' :: s))) := by
    unfold parseJsonScalar
    dsimp only
    rw [htrim, if_neg (by simp), if_neg (by simp), if_neg (by simp), if_neg (fun h => hlast h.2.1),
      hno.1, hno.2]
    rfl
  rw [scalarValue, hvalue]
  rfl

end Scalars

section Strings

open Json

variable {c d : Char} {s t r : Text} {q : Quotes} {ps : List (Text × Char)}

-- A string is simple if its only escapes are those of quotes.
def Simple (s : Str) : Prop := ∀ p ∈ s.pieces, p.1 = [p.2] ∨ p.1 = ['\\', '"']

theorem unescapeQuotes_cons (h : c ≠ '\\' ∨ s.head? ≠ some '"') :
    unescapeQuotes (c :: s) = c :: unescapeQuotes s := by
  cases s with
  | nil => rfl
  | cons d s =>
      refine if_neg ?_
      rintro ⟨rfl, rfl⟩
      rcases h with h | h
      · exact h rfl
      · exact h rfl

theorem length_unescapeQuotes_le (s t : Text) :
    (unescapeQuotes s).length ≤ (unescapeQuotes (s ++ t)).length := by
  fun_induction unescapeQuotes s with
  | case1 c d s hquote ih =>
      have hstep : unescapeQuotes (c :: d :: s ++ t) = '"' :: unescapeQuotes (s ++ t) := if_pos hquote
      rw [hstep, List.length_cons, List.length_cons]
      exact Nat.succ_le_succ ih
  | case2 c d s hquote ih =>
      have hstep : unescapeQuotes (c :: d :: s ++ t) = c :: unescapeQuotes (d :: s ++ t) := if_neg hquote
      rw [hstep, List.length_cons, List.length_cons]
      exact Nat.succ_le_succ ih
  | case3 s hshort =>
      cases s with
      | nil => exact Nat.zero_le _
      | cons c s =>
          cases s with
          | nil =>
              cases t with
              | nil => exact Nat.le_refl _
              | cons d t =>
                  rw [List.singleton_append, unescapeQuotes]
                  split_ifs
                  · exact Nat.succ_le_succ (Nat.zero_le _)
                  · exact Nat.succ_le_succ (Nat.zero_le _)
          | cons d s => exact absurd rfl (hshort c d s)

def shown (p : Text × Char) : Text := if p.1 = ['\\', '"'] then ['"'] else p.1

theorem unescapeQuotes_plain (h : ∀ c ∈ s, c ≠ '\\') (r : Text) : unescapeQuotes (s ++ r) =
    s ++ unescapeQuotes r := by
  induction s with
  | nil => rfl
  | cons c s ih =>
      obtain ⟨hc, hrest⟩ := List.forall_mem_cons.mp h
      rw [List.cons_append, unescapeQuotes_cons (.inl hc), ih hrest, List.cons_append]

theorem unescapeQuotes_code {d₁ d₂ d₃ d₄ : Char} {n : Nat} (h : hexCode [d₁, d₂, d₃, d₄] = some n) (r : Text) :
    unescapeQuotes (['\\', 'u', d₁, d₂, d₃, d₄] ++ r) = ['\\', 'u', d₁, d₂, d₃, d₄] ++ unescapeQuotes r := by
  have hdigits : ∀ d ∈ ['u', d₁, d₂, d₃, d₄], d ≠ '\\' :=
    List.forall_mem_cons.mpr ⟨by decide, fun d hd => (not_quote_of_hexCode h d hd).2⟩
  have hrest := unescapeQuotes_plain hdigits r
  rw [List.cons_append, unescapeQuotes_cons (.inr (by simp)), hrest]
  rfl

theorem unescapeQuotes_piece (hp : Piece t c) (hr : r.head? ≠ some '"') :
    unescapeQuotes (t ++ r) = shown (t, c) ++ unescapeQuotes r := by
  cases hp with
  | plain hc =>
      have hslash : c ≠ '\\' := by
        rintro rfl
        cases hc
      rw [shown, if_neg (by simp)]
      exact unescapeQuotes_cons (.inl hslash)
  | @short e _ he =>
      by_cases hquote : e = '"'
      · rw [hquote]
        rfl
      · have hother : unescapeQuotes (e :: r) = e :: unescapeQuotes r := unescapeQuotes_cons (.inr hr)
        rw [shown, if_neg (by simpa using hquote), List.cons_append, List.singleton_append,
          unescapeQuotes_cons (.inr (by simpa using hquote)), hother]
        rfl
  | code hcode =>
      rw [shown, if_neg (by simp)]
      exact unescapeQuotes_code hcode r
  | @pair d₁ d₂ d₃ d₄ d₅ d₆ d₇ d₈ _ hc hhigh hlow =>
      have hfirst := unescapeQuotes_code hhigh (['\\', 'u', d₅, d₆, d₇, d₈] ++ r)
      rw [unescapeQuotes_code hlow] at hfirst
      rw [shown, if_neg (by simp)]
      exact hfirst

theorem head_piece (hp : Piece t c) : ∃ d s, t = d :: s ∧ d ≠ '"' := by
  cases hp with
  | plain hc =>
      refine ⟨c, [], rfl, ?_⟩
      rintro rfl
      cases hc
  | short he => exact ⟨_, _, rfl, by decide⟩
  | code hcode => exact ⟨_, _, rfl, by decide⟩
  | pair hc hhigh hlow => exact ⟨_, _, rfl, by decide⟩

theorem head_body (h : ∀ p ∈ ps, Piece p.1 p.2) : (ps.flatMap Prod.fst).head? ≠ some '"' := by
  cases ps with
  | nil => exact fun h => nomatch h
  | cons p ps =>
      obtain ⟨d, s, hp, hd⟩ := head_piece (h p List.mem_cons_self)
      rw [List.flatMap_cons, hp]
      exact fun h => hd (Option.some.inj h)

theorem unescapeQuotes_body (h : ∀ p ∈ ps, Piece p.1 p.2) :
    unescapeQuotes (ps.flatMap Prod.fst) = ps.flatMap shown := by
  induction ps with
  | nil => rfl
  | cons p ps ih =>
      obtain ⟨hp, hrest⟩ := List.forall_mem_cons.mp h
      rw [List.flatMap_cons, unescapeQuotes_piece hp (head_body hrest), ih hrest, List.flatMap_cons]

theorem quote_of_piece (hp : Piece ['\\', '"'] c) : c = '"' := by
  cases hp with
  | short he => simpa [shortEscapes] using he

-- The quotes of a simple string are all that has to be unescaped.
theorem unescapeQuotes_simple {s : Str} (h : Simple s) : unescapeQuotes s.body = s.chars := by
  have hshown : ∀ p ∈ s.pieces, shown p = [p.2] := by
    intro p hp
    have hpiece := s.formed p hp
    rcases h p hp with hplain | hquote
    · rw [shown, if_neg (by rw [hplain]; simp), hplain]
    · rw [hquote] at hpiece
      rw [shown, if_pos hquote, quote_of_piece hpiece]
  rw [Str.body, unescapeQuotes_body s.formed, Str.chars]
  have hsingle : s.pieces.flatMap shown = s.pieces.flatMap fun p => [p.2] := List.flatMap_congr hshown
  rw [hsingle]
  exact List.map_eq_flatMap.symm

theorem length_le_flatMap {α β : Type} {f : α → List β} {l : List α} (h : ∀ a ∈ l, 1 ≤ (f a).length) :
    l.length ≤ (l.flatMap f).length := by
  induction l with
  | nil => exact Nat.le_refl _
  | cons a l ih =>
      obtain ⟨ha, hrest⟩ := List.forall_mem_cons.mp h
      have := ih hrest
      rw [List.flatMap_cons, List.length_append, List.length_cons]
      omega

theorem length_lt_flatMap {α β : Type} {f : α → List β} {l : List α} (h : ∀ a ∈ l, 1 ≤ (f a).length)
    (hlong : ∃ a ∈ l, 2 ≤ (f a).length) : l.length < (l.flatMap f).length := by
  obtain ⟨a, ha, htwo⟩ := hlong
  obtain ⟨before, after, rfl⟩ := List.append_of_mem ha
  have hbefore := length_le_flatMap fun b hb => h b (List.mem_append_left (a :: after) hb)
  have hafter := length_le_flatMap fun b hb => h b (List.mem_append_right before (List.mem_cons_of_mem _ hb))
  rw [List.flatMap_append, List.flatMap_cons, List.length_append, List.length_append, List.length_append,
    List.length_cons]
  omega

theorem length_piece (hp : Piece t c) : t = [c] ∨ 2 ≤ t.length := by
  cases hp with
  | plain hc => exact .inl rfl
  | short he => exact .inr (by simp)
  | code hcode => exact .inr (by simp)
  | pair hc hhigh hlow => exact .inr (by simp)

-- Another escape makes the text longer than the string.
theorem length_lt_of_not_simple {s : Str} (h : ¬Simple s) :
    s.chars.length < (unescapeQuotes s.body).length := by
  rw [Str.chars, List.length_map, Str.body, unescapeQuotes_body s.formed]
  have hpos : ∀ p ∈ s.pieces, 1 ≤ (shown p).length := by
    intro p hp
    unfold shown
    split_ifs
    · exact Nat.le_refl _
    · obtain ⟨d, r, hcons, -⟩ := head_piece (s.formed p hp)
      rw [hcons]
      exact Nat.succ_le_succ (Nat.zero_le _)
  refine length_lt_flatMap hpos ?_
  unfold Simple at h
  push Not at h
  obtain ⟨p, hp, hplain, hquote⟩ := h
  refine ⟨p, hp, ?_⟩
  rw [shown, if_neg hquote]
  exact (length_piece (s.formed p hp)).resolve_left hplain

end Strings

section QuotesOfStrings

open Json

variable {c : Char} {t : Text} {q : Quotes} {ps : List (Text × Char)}

theorem keeps_of_no_quote (h : ∀ c ∈ t, c ≠ '"') (hin : q.inString = true) :
    q.keeps t = true ∧ (q.run t).inString = true := by
  induction t generalizing q with
  | nil => exact ⟨rfl, hin⟩
  | cons c t ih =>
      obtain ⟨hc, hrest⟩ := List.forall_mem_cons.mp h
      obtain ⟨hcut, hnext⟩ := Quotes.keeps_inString (.inl hc) hin
      obtain ⟨hkeeps, hrun⟩ := ih hrest hnext
      refine ⟨?_, hrun⟩
      rw [Quotes.keeps, hcut, hkeeps]
      rfl

theorem run_escape (q : Quotes) (s : Text) {d : Char} (hd : d ≠ '\\') : (q.run (s ++ [d])).escape = false := by
  rw [Quotes.run_append]
  exact Quotes.next_escape hd

theorem next_slash (hin : q.inString = true) : q.next '\\' = ⟨true, true⟩ := by
  have hnext : q.next '\\' = { q with escape := true } := if_pos ⟨rfl, hin⟩
  rw [hnext, hin]

theorem keeps_code {d₁ d₂ d₃ d₄ : Char} {n : Nat} (h : hexCode [d₁, d₂, d₃, d₄] = some n)
    (hin : q.inString = true) :
    q.keeps ['\\', 'u', d₁, d₂, d₃, d₄] = true ∧ (q.run ['\\', 'u', d₁, d₂, d₃, d₄]).inString = true := by
  have hdigits := not_quote_of_hexCode h
  refine keeps_of_no_quote (List.forall_mem_cons.mpr ⟨by decide, List.forall_mem_cons.mpr ⟨by decide, ?_⟩⟩) hin
  exact fun d hd => (hdigits d hd).1

theorem keeps_piece (hp : Piece t c) (hin : q.inString = true) :
    q.keeps t = true ∧ (q.run t).inString = true := by
  cases hp with
  | plain hc =>
      refine keeps_of_no_quote (List.forall_mem_singleton.mpr ?_) hin
      rintro rfl
      cases hc
  | @short e _ he =>
      obtain ⟨hcut, -⟩ := Quotes.keeps_inString (c := '\\') (.inl (by decide)) hin
      obtain ⟨hcut', hnext'⟩ := @Quotes.keeps_inString ⟨true, true⟩ e (.inr rfl) rfl
      rw [Quotes.keeps, Quotes.keeps, hcut, next_slash hin, hcut', Quotes.run, List.foldl_cons, next_slash hin]
      exact ⟨rfl, hnext'⟩
  | code hcode => exact keeps_code hcode hin
  | @pair d₁ d₂ d₃ d₄ d₅ d₆ d₇ d₈ _ hc hhigh hlow =>
      obtain ⟨hkeeps, hrun⟩ := keeps_code hhigh hin
      obtain ⟨hkeeps', hrun'⟩ := keeps_code hlow hrun
      have happend : ['\\', 'u', d₁, d₂, d₃, d₄, '\\', 'u', d₅, d₆, d₇, d₈] =
          ['\\', 'u', d₁, d₂, d₃, d₄] ++ ['\\', 'u', d₅, d₆, d₇, d₈] := rfl
      rw [happend, Quotes.keeps_append, Quotes.run_append, hkeeps, hkeeps']
      exact ⟨rfl, hrun'⟩

theorem keeps_body (h : ∀ p ∈ ps, Piece p.1 p.2) (hin : q.inString = true) :
    q.keeps (ps.flatMap Prod.fst) = true ∧ (q.run (ps.flatMap Prod.fst)).inString = true := by
  induction ps generalizing q with
  | nil => exact ⟨rfl, hin⟩
  | cons p ps ih =>
      obtain ⟨hp, hrest⟩ := List.forall_mem_cons.mp h
      obtain ⟨hkeeps, hrun⟩ := keeps_piece hp hin
      obtain ⟨hkeeps', hrun'⟩ := ih hrest hrun
      rw [List.flatMap_cons, Quotes.keeps_append, Quotes.run_append, hkeeps, hkeeps']
      exact ⟨rfl, hrun'⟩

theorem escape_simple (h : ∀ p ∈ ps, Piece p.1 p.2) (hsimple : ∀ p ∈ ps, p.1 = [p.2] ∨ p.1 = ['\\', '"'])
    (hescape : q.escape = false) : (q.run (ps.flatMap Prod.fst)).escape = false := by
  induction ps generalizing q with
  | nil => exact hescape
  | cons p ps ih =>
      obtain ⟨hp, hrest⟩ := List.forall_mem_cons.mp h
      obtain ⟨hpsimple, hrestsimple⟩ := List.forall_mem_cons.mp hsimple
      rw [List.flatMap_cons, Quotes.run_append]
      refine ih hrest hrestsimple ?_
      rcases hpsimple with hplain | hquote
      · have hslash : p.2 ≠ '\\' := by
          intro hslash
          rw [hplain, hslash] at hp
          cases hp with
          | plain hc => cases hc
        rw [hplain]
        exact run_escape q [] hslash
      · rw [hquote]
        exact run_escape q ['\\'] (by decide)

theorem keeps_string (s : Str) : Quotes.outside.keeps s.text = true ∧
    (Simple s → Quotes.outside.run s.text = Quotes.outside) := by
  obtain ⟨hkeeps, hrun⟩ := @keeps_body ⟨true, false⟩ s.pieces s.formed rfl
  have hrunText : Quotes.outside.run s.text = ((⟨true, false⟩ : Quotes).run s.body).next '"' := by
    rw [Str.text, List.cons_append, Quotes.run, List.foldl_cons, List.foldl_append]
    rfl
  constructor
  · have hcut : ((⟨true, false⟩ : Quotes).run s.body).cutsAt '"' = false := rfl
    have hkeepsText : Quotes.outside.keeps s.text = (⟨true, false⟩ : Quotes).keeps (s.body ++ ['"']) := rfl
    rw [hkeepsText, Quotes.keeps_append, Str.body, hkeeps]
    rfl
  · intro hsimple
    have hescape := @escape_simple ⟨true, false⟩ s.pieces s.formed hsimple rfl
    have hstate : (⟨true, false⟩ : Quotes).run s.body = ⟨true, false⟩ := by
      rw [Str.body]
      cases hq : (⟨true, false⟩ : Quotes).run (s.pieces.flatMap Prod.fst) with
      | mk inString escape =>
          rw [hq] at hrun hescape
          rw [show inString = true from hrun, show escape = false from hescape]
    rw [hrunText, hstate]
    rfl

end QuotesOfStrings

section Numbers

open Json

variable {c : Char} {s t : Text} {n : Number} (toF64 : Text → UInt64)

-- A number without fraction and exponent that fits is an integer, any other one is the nearest double.
def numberValue (n : Number) : Value :=
  let v : Int := if n.negative then -(decimal n.whole : Int) else decimal n.whole
  if n.fraction = none ∧ n.exponent = none ∧ inRange v = true then .Integer (Int64.ofInt v)
  else .Real (toF64 n.text)

def unsigned (n : Number) : Text := n.whole ++ n.fractionText ++ n.exponentText

variable {toF64}

theorem text_eq_sign (n : Number) : n.text = n.sign ++ unsigned n := by
  rw [Number.text, unsigned, List.append_assoc, List.append_assoc, List.append_assoc]

theorem head_digits (h : Digits s) : ∃ c r, s = c :: r ∧ c.isDigit = true := by
  obtain ⟨c, r, rfl⟩ := List.exists_cons_of_ne_nil h.1
  exact ⟨c, r, rfl, h.2 c List.mem_cons_self⟩

theorem dropSign_digits (h : Digits s) (t : Text) : dropSign (s ++ t) = s ++ t := by
  obtain ⟨c, r, rfl, hc⟩ := head_digits h
  refine if_neg ?_
  rintro (hsign | hsign)
  · rw [Option.some.inj hsign] at hc
    cases hc
  · rw [Option.some.inj hsign] at hc
    cases hc

theorem dropSign_text (n : Number) : dropSign n.text = unsigned n := by
  rw [text_eq_sign]
  cases hnegative : n.negative with
  | true =>
      rw [Number.sign, hnegative]
      rfl
  | false =>
      rw [Number.sign, hnegative, unsigned, List.append_assoc]
      exact dropSign_digits n.whole_digits _

theorem head_text_iff (n : Number) : n.text.head? = some '-' ↔ n.negative = true := by
  rw [text_eq_sign]
  cases hnegative : n.negative with
  | true =>
      rw [Number.sign, hnegative]
      exact iff_of_true rfl rfl
  | false =>
      obtain ⟨c, r, hwhole, hc⟩ := head_digits n.whole_digits
      rw [Number.sign, hnegative, unsigned, hwhole]
      refine iff_of_false (fun hsign => ?_) Bool.false_ne_true
      rw [Option.some.inj hsign] at hc
      cases hc

theorem head_exponent (n : Number) :
    n.exponentText = [] ∧ n.exponent = none ∨ ∃ c r, n.exponentText = c :: r ∧ (c = 'e' ∨ c = 'E') := by
  unfold Number.exponentText
  cases hexponent : n.exponent with
  | none => exact .inl ⟨rfl, rfl⟩
  | some e =>
      obtain ⟨hmark, -⟩ := n.exponent_formed e hexponent
      have hmarks : ∀ mark ∈ exponentMarks, mark.head? = some 'e' ∨ mark.head? = some 'E' := by decide
      rcases hmarks e.1 hmark with hhead | hhead
      · obtain ⟨r, hr⟩ := List.head?_eq_some_iff.mp hhead
        exact .inr ⟨'e', r ++ e.2, congrArg (· ++ e.2) hr, .inl rfl⟩
      · obtain ⟨r, hr⟩ := List.head?_eq_some_iff.mp hhead
        exact .inr ⟨'E', r ++ e.2, congrArg (· ++ e.2) hr, .inr rfl⟩

-- Only a number that is all digits is read as an integer.
theorem all_digits_iff (n : Number) :
    (unsigned n).all Char.isDigit = true ↔ n.fraction = none ∧ n.exponent = none := by
  rw [unsigned, List.all_append, List.all_append, List.all_eq_true.mpr n.whole_digits.2, Bool.true_and,
    Bool.and_eq_true]
  refine and_congr ?_ ?_
  · cases hfraction : n.fraction with
    | none =>
        rw [Number.fractionText, hfraction]
        exact iff_of_true rfl rfl
    | some ds =>
        rw [Number.fractionText, hfraction]
        exact iff_of_false (fun h => nomatch h) (fun h => nomatch h)
  · rcases head_exponent n with ⟨htext, hnone⟩ | ⟨c, r, htext, hc⟩
    · rw [htext]
      exact iff_of_true rfl hnone
    · rw [htext, List.all_cons]
      refine iff_of_false ?_ ?_
      · rcases hc with rfl | rfl
        · exact fun h => nomatch h
        · exact fun h => nomatch h
      · intro hnone
        rw [Number.exponentText, hnone] at htext
        cases htext

theorem parseI64_text (n : Number) : parseI64 n.text =
    (let v : Int := if n.negative then -(decimal n.whole : Int) else decimal n.whole
    if n.fraction = none ∧ n.exponent = none ∧ inRange v = true then some (Int64.ofInt v) else none) := by
  have hne : unsigned n ≠ [] := by
    rw [unsigned, List.append_assoc]
    exact fun h => n.whole_digits.1 (List.append_eq_nil_iff.mp h).1
  rw [parseI64, dropSign_text]
  simp only [head_text_iff, all_digits_iff]
  by_cases hplain : n.fraction = none ∧ n.exponent = none
  · have hunsigned : unsigned n = n.whole := by
      rw [unsigned, Number.fractionText, Number.exponentText, hplain.1, hplain.2, List.append_nil,
        List.append_nil]
    rw [hunsigned] at hne ⊢
    simp only [hplain, hne, ne_eq, not_false_iff, true_and]
  · rw [if_neg fun h => hplain h.2.1, if_neg fun h => hplain ⟨h.1, h.2.1⟩]

theorem isExponent_text (n : Number) : isExponent n.exponentText = true := by
  unfold Number.exponentText
  cases hexponent : n.exponent with
  | none => rfl
  | some e =>
      obtain ⟨hmark, hdigits⟩ := n.exponent_formed e hexponent
      have hdrop := dropSign_digits hdigits []
      rw [List.append_nil] at hdrop
      have hall : e.2.all Char.isDigit = true := List.all_eq_true.mpr hdigits.2
      have hplus : dropSign ('+' :: e.2) = e.2 := rfl
      have hminus : dropSign ('-' :: e.2) = e.2 := rfl
      change isExponent (e.1 ++ e.2) = true
      simp only [exponentMarks, List.mem_cons, List.not_mem_nil, or_false] at hmark
      rcases hmark with hmark | hmark | hmark | hmark | hmark | hmark <;> rw [hmark] <;>
        simp [isExponent, hdrop, hplus, hminus, hall, hdigits.1]

theorem takeWhile_digits (h : ∀ c ∈ s, c.isDigit = true) (ht : ∀ c ∈ t.head?, c.isDigit = false) :
    (s ++ t).takeWhile Char.isDigit = s ∧ (s ++ t).dropWhile Char.isDigit = t := by
  rw [List.takeWhile_append_of_pos h, List.dropWhile_append_of_pos h]
  cases t with
  | nil => exact ⟨List.append_nil s, rfl⟩
  | cons c t =>
      have hc : ¬c.isDigit = true := Bool.eq_false_iff.mp (ht c rfl)
      rw [List.takeWhile_cons_of_neg hc, List.dropWhile_cons_of_neg hc]
      exact ⟨List.append_nil s, rfl⟩

theorem exponent_no_digit (n : Number) : ∀ c ∈ n.exponentText.head?, c.isDigit = false := by
  rcases head_exponent n with ⟨htext, -⟩ | ⟨c, r, htext, hc⟩
  · rw [htext]
    exact fun _ h => nomatch h
  · rw [htext]
    intro d hd
    obtain rfl := Option.some.inj hd
    rcases hc with rfl | rfl <;> decide

theorem isFloat_text (n : Number) : isFloat n.text = true := by
  have hdecimal : isDecimal (unsigned n) = true := by
    have hexponent := isExponent_text n
    have hnodigit := exponent_no_digit n
    cases hfraction : n.fraction with
    | none =>
        have hunsigned : unsigned n = n.whole ++ n.exponentText := by
          rw [unsigned, Number.fractionText, hfraction, List.append_nil]
        obtain ⟨htake, hdrop⟩ := takeWhile_digits n.whole_digits.2 hnodigit
        have hpoint : ¬n.exponentText.head? = some '.' := by
          rcases head_exponent n with ⟨htext, -⟩ | ⟨c, r, htext, hc⟩
          · rw [htext]
            exact fun h => nomatch h
          · rw [htext]
            rcases hc with rfl | rfl <;> exact fun h => nomatch h
        rw [isDecimal, hunsigned, hdrop, if_neg hpoint, htake, hexponent, decide_eq_true n.whole_digits.1]
        rfl
    | some ds =>
        have hdigits := n.fraction_formed ds hfraction
        have hunsigned : unsigned n = n.whole ++ '.' :: (ds ++ n.exponentText) := by
          rw [unsigned, Number.fractionText, hfraction, List.append_assoc]
          rfl
        obtain ⟨htake, hdrop⟩ := takeWhile_digits (t := '.' :: (ds ++ n.exponentText)) n.whole_digits.2
          (fun c hc => by rw [← Option.some.inj hc]; decide)
        obtain ⟨-, hrest⟩ := takeWhile_digits hdigits.2 hnodigit
        have hpoint : ('.' :: (ds ++ n.exponentText)).head? = some '.' := rfl
        rw [isDecimal, hunsigned, hdrop, if_pos hpoint, htake, List.tail_cons, hrest, hexponent,
          decide_eq_true n.whole_digits.1]
        rfl
  rw [isFloat, dropSign_text, hdecimal, Bool.or_true]

theorem scalarValue_number (n : Number) (htrim : trimText n.text = n.text) :
    scalarValue toF64 n.text = numberValue toF64 n := by
  have hno : ∀ c, isNumberChar c = false → c ∉ n.text := by
    intro c hc hmem
    rw [n.text_chars c hmem] at hc
    cases hc
  have hnull : ¬n.text = "null".toList := fun h => hno 'n' (by decide) (by rw [h]; decide)
  have htrue : ¬n.text = "true".toList := fun h => hno 't' (by decide) (by rw [h]; decide)
  have hfalse : ¬n.text = "false".toList := fun h => hno 'f' (by decide) (by rw [h]; decide)
  have hquote : ¬(n.text.head? = some '"' ∧ n.text.getLast? = some '"' ∧ 2 ≤ utf8Len n.text) :=
    fun h => hno '"' (by decide) (List.mem_of_mem_head? h.1)
  have hvalue : parseJsonScalar toF64 n.text = .ok (numberValue toF64 n) := by
    unfold parseJsonScalar numberValue
    dsimp only
    rw [htrim, if_neg hnull, if_neg htrue, if_neg hfalse, if_neg hquote, parseI64_text, isFloat_text,
      if_pos rfl]
    dsimp only
    split_ifs <;> rfl
  rw [scalarValue, hvalue]
  rfl

end Numbers

inductive Element where
  | null
  | boolean (b : Bool)
  | number (n : Json.Number)
  | string (s : Json.Str)
  | compound (t : Text) (formed : Json.Compound t)

namespace Element

open Json

def text : Element → Text
  | null => "null".toList
  | boolean b => if b then "true".toList else "false".toList
  | number n => n.text
  | string s => s.text
  | compound t _ => t

-- The value of an element in SQL. Arrays and objects are values as texts.
def value (toF64 : Text → UInt64) : Element → Kkdb.Value
  | null => .Null
  | boolean b => .Integer (if b then 1 else 0)
  | number n => numberValue toF64 n
  | string s => .Text (String.ofList s.chars)
  | compound t _ => .Text (String.ofList t)

-- The loop reads a string of which quotes are the only escapes. It reads an array or an object with no comma
-- outside of what it takes for strings, of which none is open at the end unless nothing follows.
def Kept (last : Bool) : Element → Prop
  | string s => Simple s
  | compound t _ => Quotes.outside.keeps t = true ∧ (last = true ∨ (Quotes.outside.run t).inString = false)
  | _ => True

variable {toF64 : Text → UInt64} {e : Element} {t before after : Text} {last : Bool}

theorem exists_text (h : Json.Value t) : ∃ e : Element, e.text = t := by
  cases h with
  | null => exact ⟨null, rfl⟩
  | true => exact ⟨boolean true, rfl⟩
  | false => exact ⟨boolean false, rfl⟩
  | number n => exact ⟨number n, rfl⟩
  | string s => exact ⟨string s, rfl⟩
  | array hpad hvalues => exact ⟨compound _ ⟨.array hpad hvalues, .inl rfl⟩, rfl⟩
  | object hpad hvalues => exact ⟨compound _ ⟨.object hpad hvalues, .inr rfl⟩, rfl⟩

theorem json_text (e : Element) : Json.Value e.text := by
  cases e with
  | null => exact .null
  | boolean b =>
      cases b with
      | true => exact .true
      | false => exact .false
  | number n => exact .number n
  | string s => exact .string s
  | compound t formed => exact formed.1

theorem isWhitespace_of_isNumberChar {c : Char} (h : isNumberChar c = true) : isWhitespace c = false := by
  rw [isNumberChar, Bool.or_eq_true] at h
  rcases h with hdigit | hother
  · have hrange : 48 ≤ c.toNat ∧ c.toNat ≤ 57 := Char.isDigit_iff_toNat.mp hdigit
    rw [isWhitespace, Bool.or_eq_false_iff, Bool.or_eq_false_iff]
    refine ⟨⟨?_, ?_⟩, ?_⟩
    · rw [Bool.and_eq_false_iff, decide_eq_false_iff_not, decide_eq_false_iff_not]
      omega
    · rw [Bool.and_eq_false_iff, decide_eq_false_iff_not, decide_eq_false_iff_not]
      omega
    · have hspaces : ∀ k ∈ [0x20, 0x85, 0xA0, 0x1680, 0x2028, 0x2029, 0x202F, 0x205F, 0x3000], k < 48 ∨
          57 < k := by
        decide
      rw [decide_eq_false_iff_not]
      intro hspace
      have := hspaces _ hspace
      omega
  · simp only [List.contains_iff_mem, List.mem_cons, List.not_mem_nil, or_false] at hother
    rcases hother with rfl | rfl | rfl | rfl | rfl <;> decide

theorem solid (e : Element) : Solid e.text := by
  cases e with
  | null => exact ⟨⟨'n', "ull".toList, rfl, by decide⟩, ⟨"nul".toList, 'l', rfl, by decide, by decide⟩⟩
  | boolean b =>
      cases b with
      | true => exact ⟨⟨'t', "rue".toList, rfl, by decide⟩, ⟨"tru".toList, 'e', rfl, by decide, by decide⟩⟩
      | false => exact ⟨⟨'f', "alse".toList, rfl, by decide⟩, ⟨"fals".toList, 'e', rfl, by decide, by decide⟩⟩
  | number n =>
      have hchars := n.text_chars
      constructor
      · obtain ⟨c, r, hcons⟩ := List.exists_cons_of_ne_nil n.text_ne_nil
        exact ⟨c, r, hcons, isWhitespace_of_isNumberChar (hchars c (by rw [hcons]; exact List.mem_cons_self))⟩
      · have hlast := List.dropLast_append_getLast n.text_ne_nil
        have hchar := hchars _ (List.getLast_mem n.text_ne_nil)
        refine ⟨_, _, hlast.symm, isWhitespace_of_isNumberChar hchar, fun hslash => ?_⟩
        rw [hslash] at hchar
        cases hchar
  | string s => exact ⟨⟨'"', s.body ++ ['"'], rfl, by decide⟩, ⟨'"' :: s.body, '"', rfl, by decide, by decide⟩⟩
  | compound t formed =>
      obtain ⟨c, m, d, rfl, hc, hd⟩ := formed.ends
      constructor
      · exact ⟨c, m ++ [d], rfl, by rcases hc with rfl | rfl <;> decide⟩
      · refine ⟨c :: m, d, rfl, ?_⟩
        rcases hd with rfl | rfl <;> decide

theorem scalarValue_of_kept (h : e.Kept last) : scalarValue toF64 e.text = e.value toF64 := by
  have htrim := e.solid.trimText_self
  cases e with
  | null => rfl
  | boolean b => cases b <;> rfl
  | number n => exact scalarValue_number n htrim
  | string s =>
      rw [text, Str.text, scalarValue_of_quoted htrim, unescapeQuotes_simple h]
      rfl
  | compound t formed =>
      obtain ⟨c, m, d, rfl, hc, -⟩ := formed.ends
      exact scalarValue_of_bracket hc htrim

theorem keeps_of_kept (h : e.Kept last) : Quotes.outside.keeps e.text = true := by
  cases e with
  | null => decide
  | boolean b => cases b <;> decide
  | number n =>
      refine (Quotes.quiet_outside fun c hc => ?_).1
      have hchar := n.text_chars c hc
      constructor <;> rintro rfl <;> cases hchar
  | string s => exact (keeps_string s).1
  | compound t formed => exact h.1

theorem run_of_kept (h : e.Kept false) : Quotes.outside.run e.text = Quotes.outside := by
  cases e with
  | null => decide
  | boolean b => cases b <;> decide
  | number n =>
      refine (Quotes.quiet_outside fun c hc => ?_).2
      have hchar := n.text_chars c hc
      constructor <;> rintro rfl <;> cases hchar
  | string s => exact (keeps_string s).2 h
  | compound t formed =>
      obtain ⟨c, m, d, ht, -, hd⟩ := formed.ends
      have hescape : (Quotes.outside.run t).escape = false := by
        rw [ht]
        exact run_escape _ (c :: m) (by rcases hd with rfl | rfl <;> decide)
      have hstring := h.2.resolve_left Bool.false_ne_true
      rw [text]
      cases hrun : Quotes.outside.run t with
      | mk inString escape =>
          rw [hrun] at hescape hstring
          rw [show inString = false from hstring, show escape = false from hescape]
          rfl

end Element

section Rows

variable (toF64 : Text → UInt64) {q : Quotes} {s t token : Text}

-- The rows that the loop makes of what is left of the text.
def rowsFrom (q : Quotes) (token s : Text) : List Value :=
  ((s.foldl (Tokens.stepped toF64) (Tokens.withToken q token [])).flushed toF64).result

theorem rowsFrom_nil : rowsFrom toF64 q token [] = Tokens.row toF64 token := rfl

theorem rowsFrom_keeps (h : q.keeps s = true) (t : Text) :
    rowsFrom toF64 q token (s ++ t) = rowsFrom toF64 (q.run s) (token ++ s) t := by
  rw [rowsFrom, List.foldl_append, Tokens.foldl_of_keeps toF64 h, rowsFrom]

theorem rowsFrom_comma (s : Text) : rowsFrom toF64 .outside token (',' :: s) =
    Tokens.row toF64 token ++ rowsFrom toF64 .outside [] s :=
  Tokens.foldl_result toF64 s .outside [] (Tokens.row toF64 token)

theorem rowsFrom_first (q : Quotes) (token s : Text) : ∃ w more,
    rowsFrom toF64 q token s = Tokens.row toF64 (token ++ w) ++ more ∧
      (w = s ∨ ∃ r, s = w ++ ',' :: r ∧ q.run w = .outside) := by
  cases hkeeps : q.keeps s with
  | true =>
      have hrows := @rowsFrom_keeps toF64 _ _ token hkeeps []
      rw [List.append_nil, rowsFrom_nil] at hrows
      exact ⟨s, [], by rw [hrows, List.append_nil], .inl rfl⟩
  | false =>
      obtain ⟨a, r, rfl, ha, hrun⟩ := Quotes.exists_cut hkeeps
      refine ⟨a, rowsFrom toF64 .outside [] r, ?_, .inr ⟨r, rfl, hrun⟩⟩
      rw [rowsFrom_keeps toF64 ha, hrun, rowsFrom_comma]

end Rows

section Mismatch

open Json

variable {toF64 : Text → UInt64} {e : Element} {before after s t u : Text} {c : Char}

theorem trimText_extend (h : Solid t) (hbefore : Blank before) (u : Text) :
    ∃ w, trimText (before ++ (t ++ u)) = t ++ w := by
  obtain ⟨c, r, hhead, hc⟩ := h.head
  obtain ⟨m, d, hlast, hd, -⟩ := h.last
  obtain ⟨w, hw⟩ := trimEnd_extend hd m u
  have htrim := trimText_cons (s := r ++ u) hbefore hc
  rw [← List.cons_append, ← hhead] at htrim
  refine ⟨w, ?_⟩
  rw [htrim, hlast, List.append_assoc, List.singleton_append, hw, List.append_assoc, List.singleton_append]

theorem row_of_trimText {token : Text} (h : trimText token ≠ []) :
    Tokens.row toF64 token = [scalarValue toF64 (trimText token)] := if_neg h

-- A string with another escape is read wrong, and no less so with more text after it.
theorem string_mismatch {s : Str} (h : ¬Simple s) (htrim : trimText (s.text ++ t) = s.text ++ t) :
    scalarValue toF64 (s.text ++ t) ≠ .Text (String.ofList s.chars) := by
  have hlt := length_lt_of_not_simple h
  have htext : s.text ++ t = '"' :: (s.body ++ '"' :: t) := by
    rw [Str.text, List.cons_append, List.cons_append, List.append_assoc]
    rfl
  have hinj : ∀ m : Text, s.chars.length < m.length → Value.Text (String.ofList m) ≠
      .Text (String.ofList s.chars) := by
    intro m hm hsame
    rw [Value.Text.injEq, String.ofList_inj] at hsame
    rw [hsame] at hm
    exact Nat.lt_irrefl _ hm
  rw [htext] at htrim ⊢
  by_cases hlast : ('"' :: (s.body ++ '"' :: t)).getLast? = some '"'
  · have hlen : 2 ≤ utf8Len ('"' :: (s.body ++ '"' :: t)) := by
      rw [utf8Len_cons, utf8Len_append, utf8Len_cons]
      have hsize : ('"' : Char).utf8Size = 1 := by decide
      omega
    obtain ⟨m, hm⟩ := exists_between rfl hlast (fun _ => hlen) (by decide)
    have hbody : m = s.body ++ ('"' :: t).dropLast := by
      have htail : s.body ++ '"' :: t = m ++ ['"'] := (List.cons.inj hm).2
      have hdrop := congrArg List.dropLast htail
      rw [List.dropLast_concat, List.dropLast_append_cons] at hdrop
      exact hdrop.symm
    rw [hm] at htrim ⊢
    rw [scalarValue_of_quoted htrim]
    refine hinj _ (Nat.lt_of_lt_of_le hlt ?_)
    rw [hbody]
    exact length_unescapeQuotes_le _ _
  · rw [scalarValue_of_unclosed htrim hlast]
    refine hinj _ ?_
    have hle : s.chars.length ≤ s.body.length := by
      rw [Str.chars, List.length_map, Str.body]
      refine length_le_flatMap fun p hp => ?_
      obtain ⟨d, r, hcons, -⟩ := head_piece (s.formed p hp)
      rw [hcons]
      exact Nat.succ_le_succ (Nat.zero_le _)
    rw [List.length_cons, List.length_append, List.length_cons]
    omega

-- Another text than that of an array or an object, with the same bracket at its start.
theorem compound_mismatch (hc : c = '[' ∨ c = '{') (htrim : trimText (c :: s) = c :: s)
    (hlen : (c :: s).length ≠ t.length) : scalarValue toF64 (c :: s) ≠ .Text (String.ofList t) := by
  rw [scalarValue_of_bracket hc htrim]
  intro hsame
  rw [Value.Text.injEq, String.ofList_inj] at hsame
  exact hlen (congrArg List.length hsame)

end Mismatch

section FirstRow

open Json

variable {toF64 : Text → UInt64} {e : Element} {before after t rest : Text} {q : Quotes} {c : Char}
  {last : Bool}

theorem quiet_of_isBlank (h : isBlank c = true) : c ≠ '"' ∧ c ≠ ',' ∧ c ≠ '\\' := by
  refine ⟨?_, ?_, ?_⟩ <;> rintro rfl <;> cases h

theorem outside_blank (h : Blank t) : Quotes.outside.keeps t = true ∧ Quotes.outside.run t = .outside :=
  Quotes.quiet_outside fun c hc => ⟨(quiet_of_isBlank (h c hc)).1, (quiet_of_isBlank (h c hc)).2.1⟩

-- White space changes nothing about strings.
theorem keeps_blank (h : Blank t) (q : Quotes) : q.keeps t = true ∧ (q.run t).inString = q.inString := by
  induction t generalizing q with
  | nil => exact ⟨rfl, rfl⟩
  | cons c t ih =>
      obtain ⟨hc, hrest⟩ := List.forall_mem_cons.mp h
      obtain ⟨hquote, hcomma, hslash⟩ := quiet_of_isBlank hc
      have hcut : q.cutsAt c = false := by
        rw [Quotes.cutsAt, decide_eq_false hcomma]
        rfl
      have hnext : (q.next c).inString = q.inString := by
        rw [Quotes.next, if_neg fun h => hslash h.1, if_neg hquote]
        split_ifs <;> rfl
      obtain ⟨hkeeps, hrun⟩ := ih hrest (q.next c)
      constructor
      · rw [Quotes.keeps, hcut, hkeeps]
        rfl
      · exact hrun.trans hnext

theorem keeps_entry (hbefore : Blank before) (hafter : Blank after) (h : Quotes.outside.keeps t = true) :
    Quotes.outside.keeps (before ++ t ++ after) = true := by
  obtain ⟨hkeeps, hrun⟩ := outside_blank hbefore
  rw [Quotes.keeps_append, Quotes.keeps_append, hkeeps, hrun, h, (keeps_blank hafter _).1]
  rfl

theorem run_entry (hbefore : Blank before) :
    Quotes.outside.run (before ++ t ++ after) = (Quotes.outside.run t).run after := by
  rw [Quotes.run_append, Quotes.run_append, (outside_blank hbefore).2]

theorem row_entry (hbefore : Blank before) (hafter : Blank after) (h : e.Kept last) :
    Tokens.row toF64 (before ++ e.text ++ after) = [e.value toF64] := by
  have htrim := e.solid.trimText_eq hbefore hafter
  obtain ⟨c, r, hhead, -⟩ := e.solid.head
  have hne : trimText (before ++ e.text ++ after) ≠ [] := by
    rw [htrim, hhead]
    exact List.cons_ne_nil c r
  rw [row_of_trimText hne, htrim, Element.scalarValue_of_kept h]

theorem rowsFrom_last (hbefore : Blank before) (hafter : Blank after) (h : e.Kept true) :
    rowsFrom toF64 .outside [] (before ++ e.text ++ after) = [e.value toF64] := by
  have hkeeps := keeps_entry hbefore hafter (Element.keeps_of_kept h)
  have hrows := @rowsFrom_keeps toF64 _ _ [] hkeeps []
  rw [List.append_nil] at hrows
  rw [hrows, rowsFrom_nil, List.nil_append, row_entry hbefore hafter h]

theorem rowsFrom_more (hbefore : Blank before) (hafter : Blank after) (h : e.Kept false) (rest : Text) :
    rowsFrom toF64 .outside [] (before ++ e.text ++ after ++ ',' :: rest) =
      e.value toF64 :: rowsFrom toF64 .outside [] rest := by
  have hkeeps := keeps_entry hbefore hafter (Element.keeps_of_kept h)
  have hrun : Quotes.outside.run (before ++ e.text ++ after) = .outside := by
    rw [run_entry hbefore, Element.run_of_kept h, (outside_blank hafter).2]
  rw [rowsFrom_keeps toF64 hkeeps, hrun, rowsFrom_comma, List.nil_append, row_entry hbefore hafter h]
  rfl

theorem string_first {s : Str} (h : ¬Simple s) (hbefore : Blank before) (rest : Text) :
    ∃ x more, rowsFrom toF64 .outside [] (before ++ (s.text ++ rest)) = x :: more ∧
      x ≠ .Text (String.ofList s.chars) := by
  obtain ⟨hkeeps, hrun⟩ := outside_blank hbefore
  obtain ⟨w, more, hfirst, -⟩ := rowsFrom_first toF64 (Quotes.outside.run s.text) (before ++ s.text) rest
  obtain ⟨u, hu⟩ := trimText_extend (Element.string s).solid hbefore w
  have htext : (Element.string s).text = s.text := rfl
  have hidem := trimText_idem (before ++ (s.text ++ w))
  rw [htext] at hu
  rw [hu] at hidem
  have hrow : Tokens.row toF64 (before ++ s.text ++ w) = [scalarValue toF64 (s.text ++ u)] := by
    have hne : trimText (before ++ (s.text ++ w)) ≠ [] := by
      rw [hu]
      exact fun hnil => List.cons_ne_nil _ _ (List.append_eq_nil_iff.mp hnil).1
    rw [List.append_assoc, row_of_trimText hne, hu]
  refine ⟨scalarValue toF64 (s.text ++ u), more, ?_, string_mismatch h hidem⟩
  rw [rowsFrom_keeps toF64 hkeeps, hrun, rowsFrom_keeps toF64 (keeps_string s).1, List.nil_append, hfirst, hrow]
  rfl

theorem compound_cut (formed : Compound t) (h : Quotes.outside.keeps t = false) (hbefore : Blank before)
    (rest : Text) : ∃ x more, rowsFrom toF64 .outside [] (before ++ (t ++ rest)) = x :: more ∧
      x ≠ .Text (String.ofList t) := by
  obtain ⟨hkeeps, hrun⟩ := outside_blank hbefore
  obtain ⟨c, m, d, ht, hc, -⟩ := formed.ends
  obtain ⟨a, b, hcut, ha, hruna⟩ := Quotes.exists_cut h
  have hws : isWhitespace c = false := by rcases hc with rfl | rfl <;> decide
  cases a with
  | nil =>
      rw [hcut, List.nil_append, List.cons_append, List.cons.injEq] at ht
      rw [← ht.1] at hc
      exact absurd hc (by decide)
  | cons c' a =>
      have hsame : c' = c := by
        rw [hcut, List.cons_append, List.cons_append, List.cons.injEq] at ht
        exact ht.1
      subst hsame
      obtain ⟨w, hw⟩ := trimEnd_extend hws [] a
      have htrim : trimText (before ++ c' :: a) = c' :: w := (trimText_cons hbefore hws).trans hw
      have hidem := trimText_idem (before ++ c' :: a)
      rw [htrim] at hidem
      have hlen : (c' :: w).length ≠ t.length := by
        have hle := length_trimEnd_le (c' :: a)
        have hkept : trimEnd (c' :: a) = c' :: w := hw
        rw [hkept] at hle
        have hlent : t.length = (c' :: a).length + (b.length + 1) := by
          rw [hcut, List.length_append, List.length_cons (a := ',')]
        omega
      have hrow : Tokens.row toF64 (before ++ c' :: a) = [scalarValue toF64 (c' :: w)] := by
        have hne : trimText (before ++ c' :: a) ≠ [] := by
          rw [htrim]
          exact List.cons_ne_nil _ _
        rw [row_of_trimText hne, htrim]
      refine ⟨scalarValue toF64 (c' :: w), rowsFrom toF64 .outside [] (b ++ rest), ?_,
        compound_mismatch hc hidem hlen⟩
      have hassoc : t ++ rest = (c' :: a) ++ ',' :: (b ++ rest) := by rw [hcut, List.append_assoc]; rfl
      rw [hassoc, rowsFrom_keeps toF64 hkeeps, hrun, rowsFrom_keeps toF64 ha, hruna, rowsFrom_comma,
        List.nil_append, hrow]
      rfl

-- An array or an object after which the loop takes the comma for a part of a string.
theorem compound_open (formed : Compound t) (h : Quotes.outside.keeps t = true)
    (hopen : (Quotes.outside.run t).inString = true) (hbefore : Blank before) (hafter : Blank after)
    (rest : Text) :
    ∃ x more, rowsFrom toF64 .outside [] (before ++ t ++ after ++ ',' :: rest) = x :: more ∧
      x ≠ .Text (String.ofList t) := by
  obtain ⟨c, m, d, ht, hc, -⟩ := formed.ends
  have hws : isWhitespace c = false := by rcases hc with rfl | rfl <;> decide
  obtain ⟨w, more, hfirst, hw⟩ := rowsFrom_first toF64 ((Quotes.outside.run t).run after) (before ++ t ++ after)
    (',' :: rest)
  have hstring : ((Quotes.outside.run t).run after).inString = true := by rw [(keeps_blank hafter _).2, hopen]
  have hcomma : ∃ u, w = ',' :: u := by
    rcases hw with rfl | ⟨r, hr, houtside⟩
    · exact ⟨rest, rfl⟩
    · cases w with
      | nil =>
          rw [show (Quotes.outside.run t).run after = .outside from houtside] at hstring
          cases hstring
      | cons c' u => exact ⟨u, by rw [← (List.cons.inj hr).1]⟩
  obtain ⟨u, rfl⟩ := hcomma
  obtain ⟨v, hv⟩ := @trimEnd_extend ',' (by decide) (t ++ after) u
  have htrim : trimText (before ++ t ++ after ++ ',' :: u) = t ++ after ++ ',' :: v := by
    have hcons := trimText_cons (s := m ++ [d] ++ after ++ ',' :: u) hbefore hws
    have hassoc : before ++ t ++ after ++ ',' :: u = before ++ c :: (m ++ [d] ++ after ++ ',' :: u) := by
      rw [ht]
      simp
    rw [hassoc, hcons, ← hv, ht]
    rfl
  have hidem := trimText_idem (before ++ t ++ after ++ ',' :: u)
  have hhead : t ++ after ++ ',' :: v = c :: (m ++ [d] ++ after ++ ',' :: v) := by rw [ht]; rfl
  have hrow : Tokens.row toF64 (before ++ t ++ after ++ ',' :: u) =
      [scalarValue toF64 (c :: (m ++ [d] ++ after ++ ',' :: v))] := by
    have hne : trimText (before ++ t ++ after ++ ',' :: u) ≠ [] := by
      rw [htrim, hhead]
      exact List.cons_ne_nil _ _
    rw [row_of_trimText hne, htrim, hhead]
  rw [htrim, hhead] at hidem
  refine ⟨scalarValue toF64 (c :: (m ++ [d] ++ after ++ ',' :: v)), more, ?_, compound_mismatch hc hidem ?_⟩
  · rw [rowsFrom_keeps toF64 (keeps_entry hbefore hafter h), run_entry hbefore, List.nil_append, hfirst, hrow]
    rfl
  · rw [← hhead, List.length_append, List.length_append, List.length_cons]
    omega

end FirstRow

structure Entry where
  before : Text
  element : Element
  after : Text
  before_blank : Json.Blank before
  after_blank : Json.Blank after

def Entry.item (e : Entry) : Json.Item := ⟨e.before, e.element.text, e.after, e.before_blank, e.after_blank⟩

def Entry.text (e : Entry) : Text := e.before ++ e.element.text ++ e.after

def Kept : List Entry → Prop
  | [] => True
  | e :: es => e.element.Kept es.isEmpty ∧ Kept es

-- The text of an array with the white space around it.
structure ArrayText where
  front : Text
  pad : Text
  entries : List Entry
  back : Text
  front_blank : Json.Blank front
  pad_blank : Json.Blank pad
  back_blank : Json.Blank back

def ArrayText.text (a : ArrayText) : Text :=
    a.front ++ Json.arrayText a.pad (a.entries.map Entry.item) ++ a.back

section Arrays

variable {toF64 : Text → UInt64} {a : ArrayText}

-- The texts of arrays are those of the grammar.
theorem ArrayText.formed (a : ArrayText) : Json.Value (Json.arrayText a.pad (a.entries.map Entry.item)) := by
  refine .array a.pad_blank fun i hi => ?_
  obtain ⟨e, -, rfl⟩ := List.mem_map.mp hi
  exact e.element.json_text

theorem exists_arrayText {pad : Text} {items : List Json.Item} (hpad : Json.Blank pad)
    (hvalues : ∀ i ∈ items, Json.Value i.value) : ∃ a : ArrayText, a.text = Json.arrayText pad items := by
  have hentries : ∃ entries : List Entry, entries.map Entry.item = items := by
    induction items with
    | nil => exact ⟨[], rfl⟩
    | cons i items ih =>
        obtain ⟨hi, hrest⟩ := List.forall_mem_cons.mp hvalues
        obtain ⟨entries, rfl⟩ := ih hrest
        obtain ⟨e, he⟩ := Element.exists_text hi
        refine ⟨⟨i.before, e, i.after, i.before_blank, i.after_blank⟩ :: entries, ?_⟩
        rw [List.map_cons, Entry.item]
        congr 1
        cases i
        cases he
        rfl
  obtain ⟨entries, rfl⟩ := hentries
  refine ⟨⟨[], pad, entries, [], blank_nil, hpad, blank_nil⟩, ?_⟩
  rw [ArrayText.text, List.nil_append, List.append_nil]

-- The first element that the loop does not read as it should gives a row that is not its value.
theorem first_mismatch {e : Entry} {last : Bool} (h : ¬e.element.Kept last) (rest : Text) :
    ∃ x more, rowsFrom toF64 .outside [] (e.text ++ if last then [] else ',' :: rest) = x :: more ∧
      x ≠ e.element.value toF64 := by
  obtain ⟨before, element, after, hbefore, hafter⟩ := e
  rw [Entry.text]
  cases element with
  | null => exact absurd trivial h
  | boolean b => exact absurd trivial h
  | number n => exact absurd trivial h
  | string s =>
      rw [List.append_assoc, List.append_assoc]
      exact string_first h hbefore _
  | compound t formed =>
      cases hkeeps : Quotes.outside.keeps t with
      | false =>
          rw [List.append_assoc, List.append_assoc]
          exact compound_cut formed hkeeps hbefore _
      | true =>
          have hopen : ¬(last = true ∨ (Quotes.outside.run t).inString = false) :=
              fun hclosed => h ⟨hkeeps, hclosed⟩
          obtain ⟨hlast, hstring⟩ := not_or.mp hopen
          rw [if_neg hlast]
          exact compound_open formed hkeeps (Bool.not_eq_false _ ▸ hstring) hbefore hafter rest

theorem rowsFrom_joined_iff {es : List Entry} (hne : es ≠ []) :
    rowsFrom toF64 .outside [] (Json.joined (es.map Entry.text)) = es.map (fun e => e.element.value toF64) ↔
      Kept es := by
  induction es with
  | nil => exact absurd rfl hne
  | cons e es ih =>
      have htext : Json.joined ((e :: es).map Entry.text) =
          e.text ++ if es.isEmpty then [] else ',' :: Json.joined (es.map Entry.text) := by
        cases es with
        | nil => exact (List.append_nil _).symm
        | cons e' es => rfl
      by_cases hkept : e.element.Kept es.isEmpty
      · cases es with
        | nil =>
            have hrows : rowsFrom toF64 .outside [] e.text = [e.element.value toF64] :=
              rowsFrom_last e.before_blank e.after_blank hkept
            exact iff_of_true hrows ⟨hkept, trivial⟩
        | cons e' es =>
            have hrows := @rowsFrom_more toF64 e.element e.before e.after e.before_blank e.after_blank hkept
              (Json.joined ((e' :: es).map Entry.text))
            have hmap : (e :: e' :: es).map (fun e => e.element.value toF64) =
                e.element.value toF64 :: (e' :: es).map fun e => e.element.value toF64 := rfl
            have hmore : ¬(e' :: es).isEmpty = true := Bool.false_ne_true
            rw [htext, if_neg hmore, Entry.text, hrows, hmap, List.cons.injEq, eq_self, true_and,
              ih (List.cons_ne_nil _ _)]
            exact (and_iff_right hkept).symm
      · obtain ⟨x, more, hrows, hx⟩ := @first_mismatch toF64 e es.isEmpty hkept
            (Json.joined (es.map Entry.text))
        rw [htext, hrows]
        exact iff_of_false (fun h => hx (List.cons.inj h).1) fun h => hkept h.1

theorem trimText_arrayText (a : ArrayText) : trimText a.text =
    '[' :: Json.inner a.pad (a.entries.map Entry.text) ++ [']'] := by
  have hmap : (a.entries.map Entry.item).map Json.Item.text = a.entries.map Entry.text := by
    rw [List.map_map]
    rfl
  have hsolid : Solid ('[' :: Json.inner a.pad (a.entries.map Entry.text) ++ [']']) :=
    ⟨⟨_, _, rfl, by decide⟩, ⟨_, _, rfl, by decide, by decide⟩⟩
  rw [ArrayText.text, Json.arrayText, hmap]
  exact hsolid.trimText_eq a.front_blank a.back_blank

-- UNNEST never panics, and it gives the elements of an array as rows when the
-- loop reads all of them as it should.
theorem unnestRows_iff (toF64 : Text → UInt64) : (∀ args, ∃ rows, unnestRows toF64 args = .ok rows) ∧
    ∀ a : ArrayText, unnestRows toF64 [.Text (String.ofList a.text)] =
      .ok (a.entries.map fun e => [e.element.value toF64]) ↔ Kept a.entries := by
  refine ⟨unnestRows_ok toF64, fun a => ?_⟩
  have hvalues := unnestValue_array toF64 (trimText_arrayText a)
  have hrows : unnestRows toF64 [.Text (String.ofList a.text)] =
      .ok ((tokenValues toF64 (Json.inner a.pad (a.entries.map Entry.text))).map fun v => [v]) := by
    rw [unnestRows, List.headD_cons, hvalues]
    rfl
  have hwrap : a.entries.map (fun e => [e.element.value toF64]) =
      (a.entries.map fun e => e.element.value toF64).map fun v => [v] := by
    rw [List.map_map]
    rfl
  have hinj : Function.Injective fun v : Value => [v] := fun v w h => (List.cons.inj h).1
  rw [hrows, hwrap, Except.ok.injEq, List.map_injective_iff.mpr hinj |>.eq_iff]
  by_cases hempty : a.entries = []
  · have hblank : rowsFrom toF64 .outside [] a.pad = [] := by
      have hpad := @rowsFrom_keeps toF64 _ _ [] (outside_blank a.pad_blank).1 []
      have hnil : trimText a.pad = [] := by
        rw [trimText, trimStart, List.dropWhile_eq_nil_iff.mpr (whitespace_of_blank a.pad_blank)]
        rfl
      rw [List.append_nil] at hpad
      rw [hpad, rowsFrom_nil, List.nil_append]
      exact if_pos hnil
    rw [hempty]
    exact iff_of_true hblank trivial
  · have hinner : Json.inner a.pad (a.entries.map Entry.text) = Json.joined (a.entries.map Entry.text) :=
      if_neg fun h => hempty (List.map_eq_nil_iff.mp h)
    rw [hinner]
    exact rowsFrom_joined_iff hempty

end Arrays

section Samples

open Json

def digit (c : Char) (h : Digits [c]) (hzero : c ≠ '0') : Number where
  negative := false
  whole := [c]
  fraction := none
  exponent := none
  whole_formed := .inr ⟨h, fun hc => hzero (Option.some.inj hc)⟩
  fraction_formed _ h := nomatch h
  exponent_formed _ h := nomatch h

def one : Number := digit '1' ⟨List.cons_ne_nil _ _, List.forall_mem_singleton.mpr rfl⟩ (by decide)

def two : Number := digit '2' ⟨List.cons_ne_nil _ _, List.forall_mem_singleton.mpr rfl⟩ (by decide)

def pairItems : List Item := [⟨[], one.text, [], blank_nil, blank_nil⟩,
    ⟨[], two.text, [], blank_nil, blank_nil⟩]

theorem value_pairItems : ∀ i ∈ pairItems, Json.Value i.value :=
  List.forall_mem_cons.mpr ⟨.number one, List.forall_mem_singleton.mpr (.number two)⟩

def nested : ArrayText where
  front := []
  pad := []
  entries := [⟨[], .compound (arrayText [] pairItems) ⟨.array blank_nil value_pairItems, .inl rfl⟩, [],
    blank_nil,
    blank_nil⟩]
  back := []
  front_blank := blank_nil
  pad_blank := blank_nil
  back_blank := blank_nil

-- The array in the array is cut into two rows.
theorem nested_array_cut : unnestRows (fun _ => 0) [.Text (String.ofList nested.text)] ≠
    .ok (nested.entries.map fun e => [e.element.value fun _ => 0]) := by
  intro h
  have hvalues := unnestValue_array (fun _ => 0) (trimText_arrayText nested)
  rw [unnestRows, List.headD_cons, hvalues] at h
  have hlen := congrArg (fun rows : Res (List Row) => rows.toOption.map List.length) h
  exact absurd hlen (by decide)

end Samples

end Kkdb.Unnest
