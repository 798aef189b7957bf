import Kkdb.Lib.Casing
import Kkdb.Vm.JsonReturns

namespace Kkdb.Regexp

open Lib Casing JsonPath

-- `split(".*")`.
def splitGaps : Text → List Text
  | [] => [[]]
  | '.' :: '*' :: s => [] :: splitGaps s
  | c :: s => (splitGaps s).modifyHead (c :: ·)

section Code

variable [Casing]

-- The parts of a pattern after its first one. The positions are those of a text in lower case.
def matchRest (anchoredEnd : Bool) : List Text → Text → Res Bool
  | [], _ => .ok true
  | part :: parts, remaining =>
      if parts = [] ∧ anchoredEnd = true then .ok ((lowercase part).isSuffixOf (lowercase remaining))
      else if part = [] then matchRest anchoredEnd parts remaining
      else
        match findText (lowercase part) (lowercase remaining) with
        | some pos => sliceFrom remaining (pos + utf8Len part) >>= matchRest anchoredEnd parts
        | none => .ok false

-- The first part has to stand at the start, with a `^` or without.
def matchParts (anchoredEnd : Bool) : List Text → Text → Res Bool
  | [], _ => .ok true
  | part :: parts, text =>
      if part = [] then matchRest anchoredEnd parts text
      else if (lowercase part).isPrefixOf (lowercase text) then
        sliceFrom text (min (utf8Len part) (utf8Len text)) >>= matchRest anchoredEnd parts
      else .ok false

def regexMatches (text pat : Text) : Res Bool :=
  let pat := pat.dropWhile (· = '^')
  if pat.getLast? = some '$' then matchParts true (splitGaps pat.dropLast) text
  else matchParts false (splitGaps pat) text

end Code

inductive Piece where
  | lit (c : Char)
  | any
  | gap
  deriving DecidableEq

def Piece.text : Piece → Text
  | lit c => [c]
  | any => ['.']
  | gap => ['.', '*']

def body (ps : List Piece) : Text := ps.flatMap Piece.text

structure Pattern where
  start : Bool
  stop : Bool
  pieces : List Piece
  literals : ∀ c, .lit c ∈ pieces → c ∉ ['.', '*', '^', '$']

def Pattern.text (p : Pattern) : Text :=
  (if p.start then ['^'] else []) ++ (body p.pieces ++ if p.stop then ['$'] else [])

section Meaning

variable [Casing]

inductive Accepts : List Piece → Text → Prop where
  | nil : Accepts [] []
  | lit {c d ps t} : lower c = lower d → Accepts ps t → Accepts (.lit c :: ps) (d :: t)
  | any {d ps t} : Accepts ps t → Accepts (.any :: ps) (d :: t)
  | gap {ps t} (skipped : Text) : Accepts ps t → Accepts (.gap :: ps) (skipped ++ t)

-- A part of the text that a piece of it is accepted from, up to the end where the pattern is anchored there.
def Reads (stop : Bool) (ps : List Piece) (t : Text) : Prop :=
  ∃ mid after, t = mid ++ after ∧ (stop = true → after = []) ∧ Accepts ps mid

def Pattern.Matches (p : Pattern) (t : Text) : Prop :=
  ∃ before s, t = before ++ s ∧ (p.start = true → before = []) ∧ Reads p.stop p.pieces s

def Right (p : Pattern) (t : Text) : Prop :=
  ∃ b, regexMatches t p.text = .ok b ∧ (b = true ↔ p.Matches t)

-- The lower case of a character is one that takes as many bytes.
def KeepsSize (c : Char) : Prop := ∃ d, lower c = [d] ∧ d.utf8Size = c.utf8Size

-- Lower-casing the text does so character by character.
def Flat (t : Text) : Prop := lowercase t = t.flatMap lower

-- The form of a sigma does not decide where the part stands in the text.
def Plain (q r : Text) : Prop := (∀ c ∈ q.flatMap lower, c ≠ 'σ' ∧ c ≠ 'ς') ∨ Flat q ∧ Flat r

-- Where a part is found in lower case, the characters of the part, and those of the text up to its end there,
-- are not moved by lower-casing. A part that is not found asks nothing of them.
def SteadyRest (stop : Bool) : List Text → Text → Prop
  | [], _ => True
  | q :: qs, r =>
      if q = [] then SteadyRest stop qs r
      else Plain q r ∧
        if qs = [] ∧ stop = true then
          lowercase q <:+ lowercase r →
            ∃ x cut, r = x ++ cut ∧ utf8Len cut = utf8Len q ∧ ∀ c ∈ q ++ cut, KeepsSize c
        else
          ∀ n, findText (lowercase q) (lowercase r) = some n →
            ∃ cut rest, r = cut ++ rest ∧ utf8Len cut = n + utf8Len q ∧ (∀ c ∈ q ++ cut, KeepsSize c) ∧
              SteadyRest stop qs rest

def SteadyParts (stop : Bool) : List Text → Text → Prop
  | [], _ => True
  | q :: qs, t =>
      if q = [] then SteadyRest stop qs t
      else Plain q t ∧ (lowercase q <+: lowercase t →
        ∃ cut rest, t = cut ++ rest ∧ utf8Len cut = utf8Len q ∧ (∀ c ∈ q ++ cut, KeepsSize c) ∧
          SteadyRest stop qs rest)

def Steady (p : Pattern) (t : Text) : Prop := SteadyParts p.stop (splitGaps (body p.pieces)) t

-- No character of the text is moved by lower-casing, and none has more than one form.
def Calm (t : Text) : Prop := ∀ c ∈ t, KeepsSize c ∧ c ≠ 'Σ'

-- The patterns that are read as documented: none of their dots stands for itself, the beginning is free
-- or anchored, and where both ends are anchored there is something free between them.
structure Supported (p : Pattern) : Prop where
  noAny : .any ∉ p.pieces
  anchored : p.start = true ∨ ∀ c, p.pieces.head? ≠ some (.lit c)
  divided : p.start = true → p.stop = true → .gap ∈ p.pieces

end Meaning

section Parts

variable {c x : Char} {q s : Text} {qs : List Text} {ps : List Piece}

theorem mem_body (h : c ∈ body ps) : c = '.' ∨ c = '*' ∨ .lit c ∈ ps := by
  obtain ⟨x, hx, hc⟩ := List.mem_flatMap.mp h
  cases x with
  | lit d =>
      rw [List.mem_singleton.mp hc]
      exact .inr (.inr hx)
  | any => exact .inl (List.mem_singleton.mp hc)
  | gap =>
      rcases List.mem_cons.mp hc with h | h
      · exact .inl h
      · exact .inr (.inl (List.mem_singleton.mp h))

theorem splitGaps_cons (h : c = '.' → s.head? ≠ some '*') :
    splitGaps (c :: s) = (splitGaps s).modifyHead (c :: ·) := by
  rw [splitGaps]
  intro s' hc hs
  exact h hc (by rw [hs]; rfl)

theorem exists_parts (s : Text) : ∃ q qs, splitGaps s = q :: qs := by
  induction s using splitGaps.induct with
  | case1 => exact ⟨[], [], rfl⟩
  | case2 s ih => exact ⟨[], splitGaps s, rfl⟩
  | case3 c s hgap ih =>
      obtain ⟨q, qs, hs⟩ := ih
      refine ⟨c :: q, qs, ?_⟩
      rw [splitGaps, hs]
      · rfl
      · exact hgap

theorem ne_of_literal (h : c ∉ ['.', '*', '^', '$']) : c ≠ '.' ∧ c ≠ '*' ∧ c ≠ '^' ∧ c ≠ '$' := by
  simpa only [List.mem_cons, List.not_mem_nil, or_false, not_or] using h

theorem head_body (hlit : ∀ c, .lit c ∈ ps → c ∉ ['.', '*', '^', '$']) : (body ps).head? ≠ some '*' := by
  cases ps with
  | nil => exact Option.some_ne_none _ |>.symm
  | cons x ps =>
      cases x with
      | lit d =>
          intro h
          exact (ne_of_literal (hlit d List.mem_cons_self)).2.1 (Option.some.inj h)
      | any => exact fun h => absurd (Option.some.inj h) (by decide)
      | gap => exact fun h => absurd (Option.some.inj h) (by decide)

theorem splitGaps_lit (hc : c ≠ '.') : splitGaps (body (.lit c :: ps)) =
    (splitGaps (body ps)).modifyHead (c :: ·) := splitGaps_cons fun h => absurd h hc

theorem splitGaps_any (hlit : ∀ c, .lit c ∈ ps → c ∉ ['.', '*', '^', '$']) :
    splitGaps (body (.any :: ps)) = (splitGaps (body ps)).modifyHead ('.' :: ·) :=
  splitGaps_cons fun _ => head_body hlit

theorem splitGaps_gap (ps : List Piece) : splitGaps (body (.gap :: ps)) = [] :: splitGaps (body ps) := rfl

theorem parts_of_body (hlit : ∀ c, .lit c ∈ ps → c ∉ ['.', '*', '^', '$'])
    (hsplit : splitGaps (body ps) = q :: qs) :
    (.gap ∈ ps ↔ qs ≠ []) ∧ (∀ part ∈ q :: qs, ∀ c ∈ part, c = '.' ∧ .any ∈ ps ∨ .lit c ∈ ps) ∧
      (.any ∈ ps → ∃ part ∈ q :: qs, '.' ∈ part) ∧ (q = [] ↔ ps = [] ∨ ps.head? = some .gap) := by
  induction ps generalizing q qs with
  | nil =>
      cases hsplit
      refine ⟨iff_of_false List.not_mem_nil fun h => h rfl, fun part hpart c hc => ?_,
        fun h => absurd h List.not_mem_nil, iff_of_true rfl (.inl rfl)⟩
      rw [List.mem_singleton.mp hpart] at hc
      exact absurd hc List.not_mem_nil
  | cons x ps ih =>
      have hlit' : ∀ c, Piece.lit c ∈ ps → c ∉ ['.', '*', '^', '$'] := fun c hc =>
        hlit c (List.mem_cons_of_mem _ hc)
      obtain ⟨q', qs', hparts⟩ := exists_parts (body ps)
      obtain ⟨hgap, hmem, hany, -⟩ := ih hlit' hparts
      have hlater : ∀ part ∈ q' :: qs', ∀ c ∈ part,
          c = '.' ∧ Piece.any ∈ x :: ps ∨ Piece.lit c ∈ x :: ps := fun part hpart c hc =>
        (hmem part hpart c hc).imp (fun h => ⟨h.1, List.mem_cons_of_mem _ h.2⟩) (List.mem_cons_of_mem _)
      -- A literal and a lone dot go to the front of the first part.
      have hjoined : ∀ d, (d = '.' ∧ Piece.any ∈ x :: ps ∨ Piece.lit d ∈ x :: ps) →
          ∀ part ∈ (d :: q') :: qs', ∀ c ∈ part, c = '.' ∧ Piece.any ∈ x :: ps ∨ Piece.lit c ∈ x :: ps := by
        intro d hd part hpart c hc
        rcases List.mem_cons.mp hpart with rfl | hpart
        · rcases List.mem_cons.mp hc with rfl | hc
          · exact hd
          · exact hlater q' List.mem_cons_self c hc
        · exact hlater part (List.mem_cons_of_mem _ hpart) c hc
      cases x with
      | lit d =>
          rw [splitGaps_lit (ne_of_literal (hlit d List.mem_cons_self)).1, hparts] at hsplit
          cases hsplit
          refine ⟨?_, hjoined d (.inr List.mem_cons_self), fun h => ?_,
            iff_of_false (List.cons_ne_nil _ _) (by simp)⟩
          · rw [List.mem_cons, ← hgap]
            exact or_iff_right fun heq => by cases heq
          · obtain ⟨part, hpart, hdot⟩ := hany ((List.mem_cons.mp h).resolve_left fun heq => by cases heq)
            rcases List.mem_cons.mp hpart with rfl | hpart
            · exact ⟨d :: part, List.mem_cons_self, List.mem_cons_of_mem _ hdot⟩
            · exact ⟨part, List.mem_cons_of_mem _ hpart, hdot⟩
      | any =>
          rw [splitGaps_any hlit', hparts] at hsplit
          cases hsplit
          refine ⟨?_, hjoined '.' (.inl ⟨rfl, List.mem_cons_self⟩),
            fun _ => ⟨'.' :: q', List.mem_cons_self, List.mem_cons_self⟩,
            iff_of_false (List.cons_ne_nil _ _) (by simp)⟩
          rw [List.mem_cons, ← hgap]
          exact or_iff_right fun heq => by cases heq
      | gap =>
          rw [splitGaps_gap, hparts] at hsplit
          cases hsplit
          refine ⟨iff_of_true List.mem_cons_self (List.cons_ne_nil _ _), fun part hpart c hc => ?_,
            fun h => ?_, iff_of_true rfl (.inr rfl)⟩
          · rcases List.mem_cons.mp hpart with rfl | hpart
            · exact absurd hc List.not_mem_nil
            · exact hlater part hpart c hc
          · obtain ⟨part, hpart, hdot⟩ := hany ((List.mem_cons.mp h).resolve_left fun heq => by cases heq)
            exact ⟨part, List.mem_cons_of_mem _ hpart, hdot⟩

-- A text that the pieces accept, with `x` for every lone dot and nothing in the gaps.
def filled (x : Char) : List Piece → Text
  | [] => []
  | .lit c :: ps => c :: filled x ps
  | .any :: ps => x :: filled x ps
  | .gap :: ps => filled x ps

theorem mem_filled (h : c ∈ filled x ps) : c = x ∨ .lit c ∈ ps := by
  induction ps with
  | nil => exact absurd h List.not_mem_nil
  | cons y ps ih =>
      cases y with
      | lit d =>
          rcases List.mem_cons.mp h with rfl | h
          · exact .inr List.mem_cons_self
          · exact (ih h).imp_right (List.mem_cons_of_mem _)
      | any =>
          rcases List.mem_cons.mp h with rfl | h
          · exact .inl rfl
          · exact (ih h).imp_right (List.mem_cons_of_mem _)
      | gap => exact (ih h).imp_right (List.mem_cons_of_mem _)

end Parts

section Finding

variable {b m r s : Text} {n : Nat}

-- What is found is found as early as it can be.
theorem findText_first {needle : Text} (h : findText needle s = some n) :
    ∃ a b, s = a ++ b ∧ utf8Len a = n ∧ needle <+: b ∧
      ∀ a' b', s = a' ++ b' → needle <+: b' → a.length ≤ a'.length := by
  induction s generalizing n with
  | nil =>
      rw [findText] at h
      split_ifs at h with hnil
      cases h
      exact ⟨[], [], rfl, rfl, by rw [hnil], fun _ _ _ _ => Nat.zero_le _⟩
  | cons c s ih =>
      rw [findText] at h
      split_ifs at h with hprefix
      · cases h
        exact ⟨[], c :: s, rfl, rfl, List.isPrefixOf_iff_prefix.mp hprefix, fun _ _ _ _ => Nat.zero_le _⟩
      · obtain ⟨m, hm, rfl⟩ := Option.map_eq_some_iff.mp h
        obtain ⟨a, b, rfl, rfl, hb, hfirst⟩ := ih hm
        refine ⟨c :: a, b, rfl, rfl, hb, fun a' b' heq hb' => ?_⟩
        cases a' with
        | nil =>
            rw [List.nil_append] at heq
            rw [← heq] at hb'
            exact absurd (List.isPrefixOf_iff_prefix.mpr hb') hprefix
        | cons d a' =>
            exact Nat.succ_le_succ (hfirst a' b' (List.cons.inj heq).2 hb')

theorem findText_none {needle : Text} (h : findText needle s = none) (a : Text) (heq : s = a ++ b) :
    ¬needle <+: b := by
  induction s generalizing a with
  | nil =>
      obtain ⟨-, rfl⟩ := List.append_eq_nil_iff.mp heq.symm
      rw [findText] at h
      split_ifs at h with hnil
      exact fun hprefix => hnil (List.prefix_nil.mp hprefix)
  | cons c s ih =>
      rw [findText] at h
      split_ifs at h with hprefix
      cases a with
      | nil =>
          rw [List.nil_append] at heq
          rw [← heq]
          exact fun h' => hprefix (List.isPrefixOf_iff_prefix.mpr h')
      | cons d a => exact ih (Option.map_eq_none_iff.mp h) a (List.cons.inj heq).2

theorem sliceFrom_subset (h : sliceFrom r n = .ok m) : m ⊆ r := by
  rw [sliceFrom, slice] at h
  split at h
  · next m' hslice =>
      cases h
      obtain ⟨a, b, rfl, -⟩ := byteSlice_eq_some_iff.mp hslice
      exact fun c hc => List.mem_append_left b (List.mem_append_right a hc)
  · cases h

end Finding

section Reading

variable [Casing] {c : Char} {a q r s t : Text} {qs : List Text} {ps : List Piece} {stop : Bool}

def Alike (q a : Text) : Prop := q.map lower = a.map lower

theorem alike_nil : Alike [] a ↔ a = [] := by
  rw [Alike, List.map_nil, eq_comm, List.map_eq_nil_iff]

theorem alike_cons : Alike (c :: q) a ↔ ∃ d a', a = d :: a' ∧ lower c = lower d ∧ Alike q a' := by
  cases a with
  | nil =>
      refine iff_of_false (fun h => List.cons_ne_nil _ _ h) ?_
      rintro ⟨d, a', h, -⟩
      cases h
  | cons d a =>
      simp only [Alike, List.map_cons, List.cons.injEq]
      constructor
      · rintro ⟨hc, hq⟩
        exact ⟨d, a, ⟨rfl, rfl⟩, hc, hq⟩
      · rintro ⟨d', a', ⟨rfl, rfl⟩, hc, hq⟩
        exact ⟨hc, hq⟩

-- The parts stand in a text one behind the other, with anything between them.
def Follows (stop : Bool) : List Text → Text → Prop
  | [], r => stop = true → r = []
  | q :: qs, r => ∃ a b c, r = a ++ b ++ c ∧ Alike q b ∧ Follows stop qs c

theorem Follows.extend (h : Follows stop qs r) (hstop : stop = true → qs ≠ []) (x : Text) :
    Follows stop qs (x ++ r) := by
  cases qs with
  | nil => exact fun hs => absurd rfl (hstop hs)
  | cons q qs =>
      obtain ⟨a, b, c, rfl, hb, hc⟩ := h
      exact ⟨x ++ a, b, c, by simp only [List.append_assoc], hb, hc⟩

theorem follows_nil_cons (hstop : stop = true → qs ≠ []) : Follows stop ([] :: qs) r ↔ Follows stop qs r := by
  constructor
  · rintro ⟨a, b, c, rfl, -, hc⟩
    exact hc.extend hstop (a ++ b)
  · exact fun h => ⟨[], [], r, rfl, rfl, h⟩

theorem reads_nil : Reads stop [] t ↔ (stop = true → t = []) := by
  constructor
  · rintro ⟨mid, after, rfl, hafter, hmid⟩ hs
    cases hmid
    exact hafter hs
  · exact fun h => ⟨[], t, rfl, h, .nil⟩

theorem reads_lit : Reads stop (.lit c :: ps) t ↔ ∃ d s, t = d :: s ∧ lower c = lower d ∧ Reads stop ps s := by
  constructor
  · rintro ⟨mid, after, rfl, hafter, hmid⟩
    cases hmid with
    | lit hc hrest => exact ⟨_, _, rfl, hc, _, after, rfl, hafter, hrest⟩
  · rintro ⟨d, s, rfl, hc, mid, after, rfl, hafter, hmid⟩
    exact ⟨d :: mid, after, rfl, hafter, .lit hc hmid⟩

theorem reads_gap : Reads stop (.gap :: ps) t ↔ ∃ x s, t = x ++ s ∧ Reads stop ps s := by
  constructor
  · rintro ⟨mid, after, rfl, hafter, hmid⟩
    cases hmid with
    | gap skipped hrest => exact ⟨skipped, _, List.append_assoc _ _ _, _, after, rfl, hafter, hrest⟩
  · rintro ⟨x, s, rfl, mid, after, rfl, hafter, hmid⟩
    exact ⟨x ++ mid, after, (List.append_assoc _ _ _).symm, hafter, .gap x hmid⟩

-- A pattern without lone dots says where its parts stand.
theorem reads_iff (hany : .any ∉ ps) (hlit : ∀ c, .lit c ∈ ps → c ≠ '.')
    (hsplit : splitGaps (body ps) = q :: qs) :
    Reads stop ps t ↔ ∃ a r, t = a ++ r ∧ Alike q a ∧ Follows stop qs r := by
  induction ps generalizing q qs t with
  | nil =>
      cases hsplit
      rw [reads_nil]
      constructor
      · exact fun h => ⟨[], t, rfl, rfl, h⟩
      · rintro ⟨a, r, rfl, ha, h⟩
        rw [alike_nil.mp ha]
        exact h
  | cons x ps ih =>
      have hany' : Piece.any ∉ ps := fun h => hany (List.mem_cons_of_mem _ h)
      have hlit' : ∀ c, Piece.lit c ∈ ps → c ≠ '.' := fun c hc => hlit c (List.mem_cons_of_mem _ hc)
      obtain ⟨q', qs', hparts⟩ := exists_parts (body ps)
      cases x with
      | any => exact absurd List.mem_cons_self hany
      | lit c =>
          rw [splitGaps_lit (hlit c List.mem_cons_self), hparts] at hsplit
          cases hsplit
          rw [reads_lit]
          constructor
          · rintro ⟨d, s, rfl, hc, hs⟩
            obtain ⟨a, r, rfl, ha, hr⟩ := (ih hany' hlit' hparts).mp hs
            exact ⟨d :: a, r, rfl, alike_cons.mpr ⟨d, a, rfl, hc, ha⟩, hr⟩
          · rintro ⟨a, r, rfl, ha, hr⟩
            obtain ⟨d, a, rfl, hc, ha⟩ := alike_cons.mp ha
            exact ⟨d, a ++ r, rfl, hc, (ih hany' hlit' hparts).mpr ⟨a, r, rfl, ha, hr⟩⟩
      | gap =>
          rw [splitGaps_gap, hparts] at hsplit
          cases hsplit
          rw [reads_gap]
          constructor
          · rintro ⟨x, s, rfl, hs⟩
            obtain ⟨a, r, rfl, ha, hr⟩ := (ih hany' hlit' hparts).mp hs
            exact ⟨[], x ++ (a ++ r), rfl, rfl, x, a, r, (List.append_assoc _ _ _).symm, ha, hr⟩
          · rintro ⟨a, r, rfl, ha, x, b, c, rfl, hb, hc⟩
            refine ⟨a ++ x, b ++ c, by simp only [List.append_assoc], ?_⟩
            exact (ih hany' hlit' hparts).mpr ⟨b, c, rfl, hb, hc⟩

end Reading

section Texts

variable [Casing] {c : Char} {a b q r s t cut rest : Text} {n : Nat}

def small (c : Char) : Char := (lower c).headD c

theorem KeepsSize.lower_eq (h : KeepsSize c) : lower c = [small c] := by
  obtain ⟨d, hd, -⟩ := h
  rw [small, hd]
  rfl

theorem KeepsSize.size_small (h : KeepsSize c) : (small c).utf8Size = c.utf8Size := by
  obtain ⟨d, hd, hsize⟩ := h
  rw [small, hd]
  exact hsize

theorem flatMap_lower (h : ∀ c ∈ t, KeepsSize c) : t.flatMap lower = t.map small := by
  induction t with
  | nil => rfl
  | cons c t ih =>
      obtain ⟨hc, ht⟩ := List.forall_mem_cons.mp h
      rw [List.flatMap_cons, hc.lower_eq, ih ht, List.map_cons, List.singleton_append]

theorem lowercaseFrom_noSigma (h : ∀ c ∈ t, c ≠ 'Σ') (before : Text) :
    lowercaseFrom before t = t.flatMap lower := by
  induction t generalizing before with
  | nil => rfl
  | cons c t ih =>
      obtain ⟨hc, ht⟩ := List.forall_mem_cons.mp h
      rw [lowercaseFrom, if_neg hc, ih ht, List.flatMap_cons]

theorem flat_of_noSigma (h : ∀ c ∈ t, c ≠ 'Σ') : Flat t := lowercaseFrom_noSigma h []

theorem utf8Len_map_small (h : ∀ c ∈ t, KeepsSize c) : utf8Len (t.map small) = utf8Len t := by
  induction t with
  | nil => rfl
  | cons c t ih =>
      obtain ⟨hc, ht⟩ := List.forall_mem_cons.mp h
      rw [List.map_cons, utf8Len_cons, utf8Len_cons, hc.size_small, ih ht]

theorem alike_iff (hq : ∀ c ∈ q, KeepsSize c) (ha : ∀ c ∈ a, KeepsSize c) :
    Alike q a ↔ q.map small = a.map small := by
  have hboxes : ∀ {t : Text}, (∀ c ∈ t, KeepsSize c) → t.map lower = (t.map small).map fun d => [d] := by
    intro t ht
    rw [List.map_map]
    exact List.map_congr_left fun c hc => (ht c hc).lower_eq
  rw [Alike, hboxes hq, hboxes ha]
  exact List.map_inj_right fun _ _ h => (List.cons.inj h).1

theorem length_alike (h : Alike q a) : q.length = a.length := by
  have hlen := congrArg List.length h
  rwa [List.length_map, List.length_map] at hlen

theorem Alike.flatMap_eq (h : Alike q a) : q.flatMap lower = a.flatMap lower :=
  congrArg List.flatten h

end Texts

section Sigmas

variable {n q r s t : Text}

-- The two small sigmas are taken for one.
def merge (c : Char) : Char := if c = 'ς' then 'σ' else c

theorem size_merge (c : Char) : (merge c).utf8Size = c.utf8Size := by
  unfold merge
  split_ifs with hc
  · rw [hc]
    rfl
  · rfl

theorem eq_iff_merge {c d : Char} (hc : c ≠ 'σ' ∧ c ≠ 'ς') : c = d ↔ c = merge d := by
  unfold merge
  split_ifs with hd
  · exact iff_of_false (fun h => hc.2 (h.trans hd)) hc.1
  · exact Iff.rfl

theorem isPrefixOf_merge (hn : ∀ c ∈ n, c ≠ 'σ' ∧ c ≠ 'ς') (h : s.map merge = t.map merge) :
    n.isPrefixOf s = n.isPrefixOf t := by
  induction n generalizing s t with
  | nil => rw [List.isPrefixOf_nil_left, List.isPrefixOf_nil_left]
  | cons c n ih =>
      obtain ⟨hc, hn⟩ := List.forall_mem_cons.mp hn
      cases s with
      | nil =>
          rw [List.map_nil, eq_comm, List.map_eq_nil_iff] at h
          rw [h]
      | cons d s =>
          obtain ⟨e, t, rfl, he, ht⟩ := List.map_eq_cons_iff.mp h.symm
          have hsame : (c == d) = (c == e) := by
            rw [Bool.eq_iff_iff, beq_iff_eq, beq_iff_eq, eq_iff_merge hc, ← he, ← eq_iff_merge hc]
          rw [List.isPrefixOf_cons_cons, List.isPrefixOf_cons_cons, hsame, ih hn ht.symm]

theorem findText_merge (hn : ∀ c ∈ n, c ≠ 'σ' ∧ c ≠ 'ς') (h : s.map merge = t.map merge) :
    findText n s = findText n t := by
  induction s generalizing t with
  | nil =>
      rw [List.map_nil, eq_comm, List.map_eq_nil_iff] at h
      rw [h]
  | cons c s ih =>
      obtain ⟨d, t, rfl, hd, ht⟩ := List.map_eq_cons_iff.mp h.symm
      have hsize : c.utf8Size = d.utf8Size := by rw [← size_merge c, ← hd, size_merge]
      rw [findText, findText, isPrefixOf_merge hn h, ih ht.symm, hsize]

variable [Casing]

theorem merge_sigma (before after : Text) : merge (sigma before after) = 'σ' := by
  unfold sigma
  split_ifs <;> rfl

theorem map_lowercase (t : Text) : (lowercase t).map merge = (t.flatMap lower).map merge := by
  suffices h : ∀ before, (lowercaseFrom before t).map merge = (t.flatMap lower).map merge from h []
  induction t with
  | nil => exact fun before => rfl
  | cons c t ih =>
      intro before
      rw [lowercaseFrom, List.flatMap_cons, List.map_append, List.map_append, ih]
      split_ifs with hc
      · rw [hc, lower_sigma, List.map_singleton, merge_sigma]
        rfl
      · rfl

theorem Plain.folded (h : Plain q r) : lowercase q = q.flatMap lower ∧
    ((∀ c ∈ q.flatMap lower, c ≠ 'σ' ∧ c ≠ 'ς') ∨ lowercase r = r.flatMap lower) := by
  rcases h with hsigma | ⟨hq, hr⟩
  · refine ⟨flat_of_noSigma fun c hc hcap => ?_, .inl hsigma⟩
    have hmem : 'σ' ∈ lower c := by
      rw [hcap, lower_sigma]
      exact List.mem_singleton_self _
    exact (hsigma 'σ' (List.mem_flatMap.mpr ⟨c, hc, hmem⟩)).1 rfl
  · exact ⟨hq, .inr hr⟩

theorem Plain.find_eq (h : Plain q r) :
    findText (lowercase q) (lowercase r) = findText (q.flatMap lower) (r.flatMap lower) := by
  obtain ⟨hq, hsigma | hr⟩ := h.folded
  · rw [hq, findText_merge hsigma (map_lowercase r)]
  · rw [hq, hr]

theorem Plain.prefix_iff (h : Plain q r) :
    lowercase q <+: lowercase r ↔ q.flatMap lower <+: r.flatMap lower := by
  rw [← List.isPrefixOf_iff_prefix, ← List.isPrefixOf_iff_prefix]
  obtain ⟨hq, hsigma | hr⟩ := h.folded
  · rw [hq, isPrefixOf_merge hsigma (map_lowercase r)]
  · rw [hq, hr]

theorem Plain.suffix_iff (h : Plain q r) :
    lowercase q <:+ lowercase r ↔ q.flatMap lower <:+ r.flatMap lower := by
  rw [← List.reverse_prefix, ← List.reverse_prefix, ← List.isPrefixOf_iff_prefix, ← List.isPrefixOf_iff_prefix]
  obtain ⟨hq, hsigma | hr⟩ := h.folded
  · have hmap : (lowercase r).reverse.map merge = (r.flatMap lower).reverse.map merge := by
      rw [List.map_reverse, List.map_reverse, map_lowercase]
    rw [hq, isPrefixOf_merge (fun c hc => hsigma c (List.mem_reverse.mp hc)) hmap]
  · rw [hq, hr]

end Sigmas

section Seeking

variable {a b c q r s t x cut rest : Text} {n : Nat}

theorem prefix_of_utf8Len (h : a ++ b = c ++ s) (hlen : utf8Len a = utf8Len c) : a = c ∧ b = s := by
  have hsplit := splitBytes_append a b
  rw [h, hlen, splitBytes_append] at hsplit
  exact Prod.mk.inj (Option.some.inj hsplit.symm)

variable [Casing]

theorem utf8Len_flatMap_lower (h : ∀ c ∈ t, KeepsSize c) : utf8Len (t.flatMap lower) = utf8Len t := by
  rw [flatMap_lower h, utf8Len_map_small h]

theorem cut_prefix (hstart : q.flatMap lower <+: (cut ++ rest).flatMap lower) (hlen : utf8Len cut = utf8Len q)
    (hkeeps : ∀ c ∈ q ++ cut, KeepsSize c) : Alike q cut := by
  obtain ⟨hq, hcut⟩ := List.forall_mem_append.mp hkeeps
  obtain ⟨m, hm⟩ := hstart
  rw [List.flatMap_append] at hm
  have hsizes : utf8Len (q.flatMap lower) = utf8Len (cut.flatMap lower) := by
    rw [utf8Len_flatMap_lower hq, utf8Len_flatMap_lower hcut, hlen]
  have hsame := (prefix_of_utf8Len hm hsizes).1
  rw [flatMap_lower hq, flatMap_lower hcut] at hsame
  exact (alike_iff hq hcut).mpr hsame

theorem cut_suffix (hsuffix : q.flatMap lower <:+ (x ++ cut).flatMap lower) (hlen : utf8Len cut = utf8Len q)
    (hkeeps : ∀ c ∈ q ++ cut, KeepsSize c) : Alike q cut := by
  obtain ⟨hq, hcut⟩ := List.forall_mem_append.mp hkeeps
  obtain ⟨m, hm⟩ := hsuffix
  rw [List.flatMap_append] at hm
  have htotal := congrArg utf8Len hm
  rw [utf8Len_append, utf8Len_append, utf8Len_flatMap_lower hq, utf8Len_flatMap_lower hcut, hlen,
    Nat.add_right_cancel_iff] at htotal
  have hsame := (prefix_of_utf8Len hm htotal).2
  rw [flatMap_lower hq, flatMap_lower hcut] at hsame
  exact (alike_iff hq hcut).mpr hsame

theorem prefix_of_alike (h : Alike q a) (r : Text) : q.flatMap lower <+: (a ++ r).flatMap lower := by
  rw [List.flatMap_append, h.flatMap_eq]
  exact List.prefix_append _ _

theorem suffix_of_alike (h : Alike q a) (x : Text) : q.flatMap lower <:+ (x ++ a).flatMap lower := by
  rw [List.flatMap_append, h.flatMap_eq]
  exact List.suffix_append _ _

theorem seek_none (hplain : Plain q r) (h : findText (lowercase q) (lowercase r) = none)
    (heq : r = a ++ b ++ c) : ¬Alike q b := by
  intro hb
  rw [hplain.find_eq] at h
  have hsplit : r.flatMap lower = a.flatMap lower ++ (b ++ c).flatMap lower := by
    rw [heq, List.append_assoc, List.flatMap_append]
  exact findText_none h _ hsplit (prefix_of_alike hb c)

-- The text is cut behind the earliest place of the part.
theorem seek_some (hplain : Plain q (cut ++ rest))
    (h : findText (lowercase q) (lowercase (cut ++ rest)) = some n) (hlen : utf8Len cut = n + utf8Len q)
    (hkeeps : ∀ c ∈ q ++ cut, KeepsSize c) :
    ∃ a b, cut = a ++ b ∧ Alike q b ∧
      ∀ a' b' c', cut ++ rest = a' ++ b' ++ c' → Alike q b' → c' <:+ rest := by
  obtain ⟨hq, hcut⟩ := List.forall_mem_append.mp hkeeps
  rw [hplain.find_eq] at h
  obtain ⟨l, m, heq, hn, ⟨k, rfl⟩, hfirst⟩ := findText_first h
  rw [List.flatMap_append, ← List.append_assoc] at heq
  have hsizes : utf8Len (cut.flatMap lower) = utf8Len (l ++ q.flatMap lower) := by
    rw [utf8Len_append, utf8Len_flatMap_lower hcut, utf8Len_flatMap_lower hq, hn, hlen]
  have hfound := (prefix_of_utf8Len heq hsizes).1
  rw [flatMap_lower hcut, flatMap_lower hq] at hfound
  obtain ⟨a, b, rfl, rfl, hb⟩ := List.map_eq_append_iff.mp hfound
  have hb : Alike q b :=
    (alike_iff hq fun c hc => hcut c (List.mem_append_right a hc)).mpr hb.symm
  refine ⟨a, b, rfl, hb, fun a' b' c' heq' hb' => ?_⟩
  have hle : a.length ≤ a'.length := by
    by_contra hlt
    have hstart : a <+: a' ++ b' ++ c' := by
      rw [← heq', List.append_assoc]
      exact List.prefix_append _ _
    have hstart' : a' <+: a' ++ b' ++ c' := by
      rw [List.append_assoc]
      exact List.prefix_append _ _
    have hpre : a' <+: a := List.prefix_of_prefix_length_le hstart' hstart (by omega)
    have hkept : ∀ c ∈ a', KeepsSize c := fun c hc => hcut c (List.mem_append_left b (hpre.subset hc))
    have hle := hfirst (a'.flatMap lower) ((b' ++ c').flatMap lower)
      (by rw [heq', List.append_assoc, List.flatMap_append]) (prefix_of_alike hb' c')
    rw [flatMap_lower hkept, List.length_map, List.length_map] at hle
    exact hlt hle
  have htotal := congrArg List.length heq'
  have hlens := (length_alike hb).symm.trans (length_alike hb')
  simp only [List.length_append] at htotal
  have hc : rest <:+ a ++ b ++ rest := List.suffix_append _ _
  have hc' : c' <:+ a ++ b ++ rest := by
    rw [heq']
    exact List.suffix_append _ _
  exact List.suffix_of_suffix_length_le hc' hc (by omega)

end Seeking

section Running

variable [Casing] {p : Pattern} {q r t : Text} {qs parts : List Text} {ps : List Piece} {stop : Bool}

theorem matchRest_follows (hstop : stop = true → parts ≠ []) (hsteady : SteadyRest stop parts r) :
    ∃ b, matchRest stop parts r = .ok b ∧ (b = true ↔ Follows stop parts r) := by
  induction parts generalizing r with
  | nil => exact ⟨true, rfl, iff_of_true rfl fun hs => absurd rfl (hstop hs)⟩
  | cons q parts ih =>
      rw [matchRest]
      rw [SteadyRest] at hsteady
      by_cases hnil : q = []
      · rw [if_pos hnil] at hsteady
        by_cases hlast : parts = [] ∧ stop = true
        · rw [if_pos hlast, hlast.1, hnil]
          refine ⟨true, rfl, iff_of_true rfl ⟨r, [], [], ?_, rfl, fun _ => rfl⟩⟩
          rw [List.append_nil, List.append_nil]
        · have hmore : stop = true → parts ≠ [] := fun hs hnil => hlast ⟨hnil, hs⟩
          rw [if_neg hlast, if_pos hnil, hnil]
          obtain ⟨b, hb, hiff⟩ := ih hmore hsteady
          exact ⟨b, hb, hiff.trans (follows_nil_cons hmore).symm⟩
      rw [if_neg hnil] at hsteady
      obtain ⟨hplain, hsteady⟩ := hsteady
      by_cases hlast : parts = [] ∧ stop = true
      · rw [if_pos hlast] at hsteady ⊢
        obtain ⟨rfl, hs⟩ := hlast
        refine ⟨_, rfl, ?_⟩
        rw [List.isSuffixOf_iff_suffix]
        constructor
        · intro hsuffix
          obtain ⟨x, cut, rfl, hlen, hkeeps⟩ := hsteady hsuffix
          have hcut := cut_suffix (hplain.suffix_iff.mp hsuffix) hlen hkeeps
          exact ⟨x, cut, [], (List.append_nil _).symm, hcut, fun _ => rfl⟩
        · rintro ⟨x, a, c, rfl, ha, hc⟩
          rw [hc hs, List.append_nil] at hplain ⊢
          exact hplain.suffix_iff.mpr (suffix_of_alike ha x)
      rw [if_neg hlast] at hsteady ⊢
      rw [if_neg hnil]
      have hmore : stop = true → parts ≠ [] := fun hs hnil => hlast ⟨hnil, hs⟩
      cases hfind : findText (lowercase q) (lowercase r) with
      | none =>
          refine ⟨false, rfl, iff_of_false Bool.false_ne_true ?_⟩
          rintro ⟨a, b, c, heq, hb, -⟩
          exact seek_none hplain hfind heq hb
      | some n =>
          obtain ⟨cut, rest, rfl, hlen, hkeeps, hlater⟩ := hsteady n hfind
          obtain ⟨a, b, rfl, hb, hfirst⟩ := seek_some hplain hfind hlen hkeeps
          obtain ⟨found, hfound, hiff⟩ := ih hmore hlater
          refine ⟨found, ?_, hiff.trans ?_⟩
          · dsimp only
            rw [← hlen, sliceFrom_append]
            exact hfound
          · constructor
            · exact fun hc => ⟨a, b, rest, rfl, hb, hc⟩
            · rintro ⟨a', b', c', heq, hb', hc'⟩
              obtain ⟨x, rfl⟩ := hfirst a' b' c' heq hb'
              exact hc'.extend hmore x

theorem matchParts_first (hne : q ≠ []) (hstop : stop = true → qs ≠ [])
    (hsteady : SteadyParts stop (q :: qs) t) :
    ∃ b, matchParts stop (q :: qs) t = .ok b ∧
      (b = true ↔ ∃ a r, t = a ++ r ∧ Alike q a ∧ Follows stop qs r) := by
  rw [SteadyParts, if_neg hne] at hsteady
  obtain ⟨hplain, hsteady⟩ := hsteady
  rw [matchParts, if_neg hne]
  by_cases hprefix : lowercase q <+: lowercase t
  · rw [if_pos (List.isPrefixOf_iff_prefix.mpr hprefix)]
    obtain ⟨a, r, rfl, hlen, hkeeps, hsteady⟩ := hsteady hprefix
    have ha := cut_prefix (hplain.prefix_iff.mp hprefix) hlen hkeeps
    have hmin : min (utf8Len q) (utf8Len (a ++ r)) = utf8Len a := by
      rw [hlen, utf8Len_append, hlen]
      omega
    obtain ⟨b, hb, hiff⟩ := matchRest_follows hstop hsteady
    refine ⟨b, ?_, hiff.trans ?_⟩
    · rw [hmin, sliceFrom_append]
      exact hb
    · constructor
      · exact fun hr => ⟨a, r, rfl, ha, hr⟩
      · rintro ⟨a', r', heq, ha', hr'⟩
        have hlen' := (length_alike ha).symm.trans (length_alike ha')
        rw [(List.append_inj heq hlen').2]
        exact hr'
  · rw [if_neg fun h => hprefix (List.isPrefixOf_iff_prefix.mp h)]
    refine ⟨false, rfl, iff_of_false Bool.false_ne_true ?_⟩
    rintro ⟨a, r, rfl, ha, -⟩
    exact hprefix (hplain.prefix_iff.mpr (prefix_of_alike ha r))

theorem regexMatches_text (p : Pattern) (t : Text) :
    regexMatches t p.text = matchParts p.stop (splitGaps (body p.pieces)) t := by
  have hbody : ∀ c ∈ body p.pieces, c ≠ '^' ∧ c ≠ '$' := by
    intro c hc
    rcases mem_body hc with rfl | rfl | hlit
    · decide
    · decide
    · exact (ne_of_literal (p.literals c hlit)).2.2
  have hkept : ∀ s : Text, (∀ c, s.head? = some c → c ≠ '^') → s.dropWhile (· = '^') = s := by
    intro s hs
    cases s with
    | nil => rfl
    | cons c s => rw [List.dropWhile_cons, if_neg (by simpa using hs c rfl)]
  have hhead : ∀ c, (body p.pieces ++ if p.stop then ['$'] else []).head? = some c → c ≠ '^' := by
    intro c hc
    rcases List.mem_append.mp (List.mem_of_mem_head? hc) with hmem | hmem
    · exact (hbody c hmem).1
    · split_ifs at hmem with hs
      · rw [List.mem_singleton.mp hmem]
        decide
      · exact absurd hmem List.not_mem_nil
  have hopen : p.text.dropWhile (· = '^') = body p.pieces ++ if p.stop then ['$'] else [] := by
    unfold Pattern.text
    cases p.start with
    | true =>
        rw [if_pos rfl, List.singleton_append, List.dropWhile_cons, if_pos (by decide)]
        exact hkept _ hhead
    | false =>
        rw [if_neg Bool.false_ne_true, List.nil_append]
        exact hkept _ hhead
  simp only [regexMatches, hopen]
  cases hstop : p.stop with
  | true =>
      rw [if_pos rfl, List.getLast?_concat, if_pos rfl, List.dropLast_concat]
  | false =>
      rw [if_neg Bool.false_ne_true, List.append_nil, if_neg]
      exact fun hlast => (hbody '$' (List.mem_of_getLast? hlast)).2 rfl

end Running

section Exact

variable [Casing] {c d x : Char} {p : Pattern} {m q r t : Text} {qs parts : List Text} {ps : List Piece}
  {stop : Bool} {n : Nat}

theorem right_of_supported (h : Supported p) (hsteady : Steady p t) : Right p t := by
  obtain ⟨q, qs, hsplit⟩ := exists_parts (body p.pieces)
  obtain ⟨hgap, -, -, hnil⟩ := parts_of_body p.literals hsplit
  rw [Steady, hsplit] at hsteady
  have hreads : ∀ s, Reads p.stop p.pieces s ↔ ∃ a r, s = a ++ r ∧ Alike q a ∧ Follows p.stop qs r := fun s =>
    reads_iff h.noAny (fun c hc => (ne_of_literal (p.literals c hc)).1) hsplit
  unfold Right
  rw [regexMatches_text, hsplit]
  by_cases hempty : q = []
  · rw [hempty, matchParts, if_pos rfl]
    rw [SteadyParts, if_pos hempty] at hsteady
    rcases hnil.mp hempty with hpieces | hhead
    · have hqs' : qs = [] := by
        rw [hpieces] at hsplit
        exact (List.cons.inj hsplit).2.symm
      refine ⟨true, by rw [hqs']; rfl, iff_of_true rfl ?_⟩
      cases hs : p.start with
      | true =>
          refine ⟨[], t, rfl, fun _ => rfl, (hreads t).mpr ⟨[], t, rfl, by rw [hempty]; rfl, ?_⟩⟩
          rw [hqs']
          intro hstop
          have hdivided := h.divided hs hstop
          rw [hpieces] at hdivided
          exact absurd hdivided List.not_mem_nil
      | false =>
          refine ⟨t, [], (List.append_nil t).symm, fun h => absurd (hs.symm.trans h) Bool.false_ne_true,
            (hreads []).mpr ⟨[], [], rfl, by rw [hempty]; rfl, ?_⟩⟩
          rw [hqs']
          exact fun _ => rfl
    · have hmore : p.stop = true → qs ≠ [] := fun _ => hgap.mp (List.mem_of_mem_head? hhead)
      obtain ⟨b, hb, hiff⟩ := matchRest_follows hmore hsteady
      refine ⟨b, hb, hiff.trans ?_⟩
      constructor
      · exact fun hf => ⟨[], t, rfl, fun _ => rfl, (hreads t).mpr ⟨[], t, rfl, by rw [hempty]; rfl, hf⟩⟩
      · rintro ⟨before, s, rfl, -, hs⟩
        obtain ⟨a, r, rfl, -, hr⟩ := (hreads s).mp hs
        rw [← List.append_assoc]
        exact hr.extend hmore (before ++ a)
  · -- A first part is only read as documented behind a caret.
    have hstart : p.start = true := by
      refine h.anchored.resolve_right fun hno => hempty (hnil.mpr ?_)
      cases hpieces : p.pieces with
      | nil => exact .inl rfl
      | cons x ps =>
          cases x with
          | lit c => exact absurd (by rw [hpieces]; rfl) (hno c)
          | any => exact absurd (by rw [hpieces]; exact List.mem_cons_self) h.noAny
          | gap => exact .inr rfl
    obtain ⟨b, hb, hiff⟩ := matchParts_first hempty (fun hs => hgap.mp (h.divided hstart hs)) hsteady
    refine ⟨b, hb, hiff.trans ((hreads t).symm.trans ?_)⟩
    constructor
    · exact fun hr => ⟨[], t, rfl, fun _ => rfl, hr⟩
    · rintro ⟨before, s, rfl, hbefore, hs⟩
      rw [hbefore hstart]
      exact hs

theorem Calm.keeps (h : Calm t) : ∀ c ∈ t, KeepsSize c := fun c hc => (h c hc).1

theorem Calm.flat (h : Calm t) : Flat t := flat_of_noSigma fun c hc => (h c hc).2

theorem Calm.right (h : Calm (m ++ t)) : Calm t := fun c hc => h c (List.mem_append_right m hc)

theorem Calm.lowercase_eq (h : Calm t) : lowercase t = t.map small := h.flat.trans (flatMap_lower h.keeps)

theorem prefix_iff (hq : Calm q) (ht : Calm t) : lowercase q <+: lowercase t ↔ ∃ a r, t = a ++ r ∧ Alike q a := by
  constructor
  · rw [hq.lowercase_eq, ht.lowercase_eq]
    rintro ⟨rest, h⟩
    obtain ⟨a, r, rfl, ha, -⟩ := List.map_eq_append_iff.mp h.symm
    exact ⟨a, r, rfl, (alike_iff hq.keeps fun c hc => ht.keeps c (List.mem_append_left r hc)).mpr ha.symm⟩
  · rintro ⟨a, r, rfl, ha⟩
    rw [hq.flat, ht.flat]
    exact prefix_of_alike ha r

theorem utf8Len_alike (hq : Calm q) (ha : ∀ c ∈ m, KeepsSize c) (h : Alike q m) : utf8Len m = utf8Len q := by
  rw [← utf8Len_map_small hq.keeps, (alike_iff hq.keeps ha).mp h, utf8Len_map_small ha]

theorem steadyRest_of_calm (hparts : ∀ part ∈ parts, Calm part) (hr : Calm r) : SteadyRest stop parts r := by
  induction parts generalizing r with
  | nil => trivial
  | cons q parts ih =>
      obtain ⟨hq, hparts⟩ := List.forall_mem_cons.mp hparts
      rw [SteadyRest]
      split_ifs with hnil hlast
      · exact ih hparts hr
      · refine ⟨.inr ⟨hq.flat, hr.flat⟩, fun hsuffix => ?_⟩
        rw [hq.lowercase_eq, hr.lowercase_eq] at hsuffix
        obtain ⟨k, hk⟩ := hsuffix
        obtain ⟨x, cut, rfl, -, hcut⟩ := List.map_eq_append_iff.mp hk.symm
        have hkeeps := hr.right.keeps
        have halike : Alike q cut := (alike_iff hq.keeps hkeeps).mpr hcut.symm
        exact ⟨x, cut, rfl, utf8Len_alike hq hkeeps halike, List.forall_mem_append.mpr ⟨hq.keeps, hkeeps⟩⟩
      · refine ⟨.inr ⟨hq.flat, hr.flat⟩, fun n hfind => ?_⟩
        obtain ⟨l, k, heq, hn⟩ := findText_some hfind
        rw [hr.lowercase_eq, hq.lowercase_eq] at heq
        obtain ⟨cut, rest, rfl, hcut, -⟩ := List.map_eq_append_iff.mp heq
        have hkeeps : ∀ c ∈ cut, KeepsSize c := fun c hc => hr.keeps c (List.mem_append_left rest hc)
        have hlen := congrArg utf8Len hcut
        rw [utf8Len_append, utf8Len_map_small hkeeps, utf8Len_map_small hq.keeps, hn] at hlen
        exact ⟨cut, rest, rfl, hlen, List.forall_mem_append.mpr ⟨hq.keeps, hkeeps⟩, ih hparts hr.right⟩

theorem steady_of_calm (hlit : ∀ c, .lit c ∈ p.pieces → KeepsSize c ∧ c ≠ 'Σ') (hdot : lower '.' = ['.'])
    (ht : Calm t) : Steady p t := by
  obtain ⟨q, qs, hsplit⟩ := exists_parts (body p.pieces)
  obtain ⟨-, hmem, -⟩ := parts_of_body p.literals hsplit
  have hparts : ∀ part ∈ q :: qs, Calm part := by
    intro part hpart c hc
    rcases hmem part hpart c hc with ⟨rfl, -⟩ | hc
    · exact ⟨⟨'.', hdot, rfl⟩, by decide⟩
    · exact hlit c hc
  obtain ⟨hq, hqs⟩ := List.forall_mem_cons.mp hparts
  rw [Steady, hsplit, SteadyParts]
  split_ifs with hnil
  · exact steadyRest_of_calm hqs ht
  · refine ⟨.inr ⟨hq.flat, ht.flat⟩, fun hprefix => ?_⟩
    obtain ⟨a, r, rfl, ha⟩ := (prefix_iff hq ht).mp hprefix
    have hkeeps : ∀ c ∈ a, KeepsSize c := fun c hc => ht.keeps c (List.mem_append_left r hc)
    exact ⟨a, r, rfl, utf8Len_alike hq hkeeps ha, List.forall_mem_append.mpr ⟨hq.keeps, hkeeps⟩,
      steadyRest_of_calm hqs ht.right⟩

theorem accepts_filled (x : Char) (ps : List Piece) : Accepts ps (filled x ps) := by
  induction ps with
  | nil => exact .nil
  | cons y ps ih =>
      cases y with
      | lit c => exact .lit rfl ih
      | any => exact .any ih
      | gap => exact .gap [] ih

theorem reads_filled (x : Char) (ps : List Piece) : Reads stop ps (filled x ps) :=
  ⟨_, [], (List.append_nil _).symm, fun _ => rfl, accepts_filled x ps⟩

theorem lower_small_letter (hc : c.isUpper = true) : lower c.toLower = [c.toLower] :=
  lower_lower c _ (by rw [lower_ascii c hc]; exact List.mem_singleton_self _)

theorem calm_filled (hlit : ∀ c, .lit c ∈ ps → KeepsSize c ∧ c ≠ 'Σ') (hx : lower x = [x]) (hne : x ≠ 'Σ')
    (h : ∀ c ∈ t, c = x ∨ .lit c ∈ ps) : Calm t := by
  intro c hc
  rcases h c hc with rfl | hmem
  · exact ⟨⟨_, hx, rfl⟩, hne⟩
  · exact hlit c hmem

theorem matchRest_mem (h : matchRest stop parts r = .ok true) :
    ∀ part ∈ parts, ∀ d ∈ lowercase part, ∃ s, s ⊆ r ∧ d ∈ lowercase s := by
  induction parts generalizing r with
  | nil => exact fun part hpart => absurd hpart List.not_mem_nil
  | cons q parts ih =>
      rw [matchRest] at h
      split_ifs at h with hlast hnil
      · intro part hpart d hd
        rw [hlast.1, List.mem_singleton] at hpart
        rw [hpart] at hd
        have hsuffix := List.isSuffixOf_iff_suffix.mp (Except.ok.inj h)
        exact ⟨r, List.Subset.refl r, hsuffix.subset hd⟩
      · intro part hpart d hd
        rcases List.mem_cons.mp hpart with rfl | hpart
        · rw [hnil] at hd
          exact absurd hd List.not_mem_nil
        · exact ih h part hpart d hd
      · cases hfind : findText (lowercase q) (lowercase r) with
        | none =>
            rw [hfind] at h
            cases h
        | some n =>
            rw [hfind] at h
            obtain ⟨m, hslice, hrest⟩ := ok_of_bind h
            intro part hpart d hd
            rcases List.mem_cons.mp hpart with rfl | hpart
            · obtain ⟨a, b, heq, -⟩ := findText_some hfind
              refine ⟨r, List.Subset.refl r, ?_⟩
              rw [heq]
              exact List.mem_append_left b (List.mem_append_right a hd)
            · obtain ⟨s, hs, hmem⟩ := ih hrest part hpart d hd
              exact ⟨s, List.Subset.trans hs (sliceFrom_subset hslice), hmem⟩

theorem matchParts_begins (h : matchParts stop (q :: qs) t = .ok true) : lowercase q <+: lowercase t := by
  rw [matchParts] at h
  split_ifs at h with hnil hprefix
  · rw [hnil]
    exact List.nil_prefix
  · exact List.isPrefixOf_iff_prefix.mp hprefix
  · cases h

theorem matchParts_mem (h : matchParts stop (q :: qs) t = .ok true) :
    ∀ part ∈ q :: qs, ∀ d ∈ lowercase part, ∃ s, s ⊆ t ∧ d ∈ lowercase s := by
  have hfirst := matchParts_begins h
  intro part hpart d hd
  rcases List.mem_cons.mp hpart with rfl | hpart
  · exact ⟨t, List.Subset.refl t, hfirst.subset hd⟩
  rw [matchParts] at h
  split_ifs at h with hnil hprefix
  · exact matchRest_mem h part hpart d hd
  · obtain ⟨m, hslice, hrest⟩ := ok_of_bind h
    obtain ⟨s, hs, hmem⟩ := matchRest_mem hrest part hpart d hd
    exact ⟨s, List.Subset.trans hs (sliceFrom_subset hslice), hmem⟩
  · cases h

theorem noAny_of_right (h : ∀ t, Calm t → Right p t)
    (hlit : ∀ c, .lit c ∈ p.pieces → KeepsSize c ∧ c ≠ 'Σ') (hdot : ∀ c : Char, lower c = ['.'] ↔ c = '.') :
    .any ∉ p.pieces := by
  intro hany
  have hplain : Calm (filled 'a' p.pieces) :=
    calm_filled hlit (lower_small_letter (c := 'A') (by decide)) (by decide) fun c hc => mem_filled hc
  obtain ⟨b, hb, hiff⟩ := h _ hplain
  have hmatches : p.Matches (filled 'a' p.pieces) := ⟨[], _, rfl, fun _ => rfl, reads_filled 'a' p.pieces⟩
  obtain ⟨q, qs, hsplit⟩ := exists_parts (body p.pieces)
  obtain ⟨-, hmem, hpart, -⟩ := parts_of_body p.literals hsplit
  rw [hiff.mpr hmatches, regexMatches_text, hsplit] at hb
  obtain ⟨part, hin, hmark⟩ := hpart hany
  have hsigma : ∀ c ∈ part, c ≠ 'Σ' := by
    intro c hc
    rcases hmem part hin c hc with ⟨rfl, -⟩ | hc
    · decide
    · exact (hlit c hc).2
  have hfound : '.' ∈ lowercase part := by
    rw [lowercase, lowercaseFrom_noSigma hsigma]
    exact List.mem_flatMap.mpr ⟨'.', hmark, by rw [(hdot '.').mpr rfl]; exact List.mem_singleton_self _⟩
  obtain ⟨s, hs, hlower⟩ := matchParts_mem hb part hin '.' hfound
  have hsizes : ∀ c ∈ s, KeepsSize c ∧ c ≠ 'Σ' := by
    intro c hc
    rcases mem_filled (hs hc) with rfl | hc
    · exact ⟨⟨_, lower_small_letter (c := 'A') (by decide), rfl⟩, by decide⟩
    · exact hlit c hc
  rw [lowercase, lowercaseFrom_noSigma fun c hc => (hsizes c hc).2] at hlower
  obtain ⟨c, hc, hlower⟩ := List.mem_flatMap.mp hlower
  obtain ⟨d, hd, -⟩ := (hsizes c hc).1
  rw [hd, List.mem_singleton] at hlower
  rw [← hlower] at hd
  have hbad := (hdot c).mp hd
  rcases mem_filled (hs hc) with rfl | hmem
  · exact absurd hbad (by decide)
  · exact (ne_of_literal (p.literals c hmem)).1 hbad

theorem exists_other (c : Char) : ∃ x : Char, lower x = [x] ∧ x ≠ 'Σ' ∧ lower c ≠ lower x := by
  have ha : lower 'a' = ['a'] := lower_small_letter (c := 'A') (by decide)
  have hb : lower 'b' = ['b'] := lower_small_letter (c := 'B') (by decide)
  by_cases hc : lower c = lower 'a'
  · refine ⟨'b', hb, by decide, ?_⟩
    rw [hc, ha, hb]
    decide
  · exact ⟨'a', ha, by decide, hc⟩

theorem anchored_of_right (h : ∀ t, Calm t → Right p t)
    (hlit : ∀ c, .lit c ∈ p.pieces → KeepsSize c ∧ c ≠ 'Σ') (hany : .any ∉ p.pieces) :
    p.start = true ∨ ∀ c, p.pieces.head? ≠ some (.lit c) := by
  by_contra hno
  obtain ⟨hstart, hhead⟩ := not_or.mp hno
  obtain ⟨c, hhead⟩ := not_forall.mp hhead
  obtain ⟨ps, hpieces⟩ := List.head?_eq_some_iff.mp (not_not.mp hhead)
  obtain ⟨x, hx, hsigma, hother⟩ := exists_other c
  have hplain : Calm (x :: filled x p.pieces) := by
    refine calm_filled hlit hx hsigma fun d hd => ?_
    rcases List.mem_cons.mp hd with rfl | hd
    · exact .inl rfl
    · exact mem_filled hd
  obtain ⟨b, hb, hiff⟩ := h _ hplain
  have hmatches : p.Matches (x :: filled x p.pieces) :=
    ⟨[x], _, rfl, fun hs => absurd hs hstart, reads_filled x p.pieces⟩
  obtain ⟨q, qs, hsplit⟩ := exists_parts (body ps)
  have hparts : splitGaps (body p.pieces) = (c :: q) :: qs := by
    rw [hpieces, splitGaps_lit, hsplit]
    · rfl
    · exact (ne_of_literal (p.literals c (hpieces ▸ List.mem_cons_self))).1
  obtain ⟨-, hmem, -⟩ := parts_of_body p.literals hparts
  have hq : Calm (c :: q) := fun d hd =>
    hlit d ((hmem _ List.mem_cons_self d hd).resolve_left fun hdot => hany hdot.2)
  rw [hiff.mpr hmatches, regexMatches_text, hparts] at hb
  obtain ⟨a, r, heq, ha⟩ := (prefix_iff hq hplain).mp (matchParts_begins hb)
  obtain ⟨d, a, rfl, hlower, -⟩ := alike_cons.mp ha
  rw [(List.cons.inj heq).1] at hother
  exact hother hlower

theorem divided_of_right (h : ∀ t, Calm t → Right p t)
    (hlit : ∀ c, .lit c ∈ p.pieces → KeepsSize c ∧ c ≠ 'Σ') (hany : .any ∉ p.pieces)
    (hstart : p.start = true) (hstop : p.stop = true) : .gap ∈ p.pieces := by
  by_contra hgap
  have hletter : lower 'a' = ['a'] := lower_small_letter (c := 'A') (by decide)
  obtain ⟨q, qs, hsplit⟩ := exists_parts (body p.pieces)
  obtain ⟨hgaps, hmem, -⟩ := parts_of_body p.literals hsplit
  have hqs : qs = [] := not_not.mp fun hne => hgap (hgaps.mpr hne)
  rw [hqs] at hsplit
  have hreads : ∀ s, Reads true p.pieces s ↔ ∃ a r, s = a ++ r ∧ Alike q a ∧ Follows true [] r := fun s =>
    reads_iff hany (fun c hc => (ne_of_literal (p.literals c hc)).1) hsplit
  obtain ⟨a, r, ha, hq, hr⟩ := (hreads _).mp (reads_filled 'a' p.pieces)
  rw [hr rfl, List.append_nil] at ha
  -- One more letter at the end goes unseen.
  have hplain : Calm (a ++ ['a']) := by
    refine calm_filled hlit hletter (by decide) fun d hd => ?_
    rcases List.mem_append.mp hd with hd | hd
    · exact mem_filled (ha ▸ hd)
    · exact .inl (List.mem_singleton.mp hd)
  have hcalm : Calm q := fun d hd =>
    hlit d ((hmem _ List.mem_cons_self d hd).resolve_left fun hdot => hany hdot.2)
  have hrun : matchParts p.stop [q] (a ++ ['a']) = .ok true := by
    by_cases hnil : q = []
    · rw [matchParts, if_pos hnil]
      rfl
    · have hprefix := (prefix_iff hcalm hplain).mpr ⟨a, ['a'], rfl, hq⟩
      have hlen : min (utf8Len q) (utf8Len (a ++ ['a'])) = utf8Len a := by
        rw [← utf8Len_alike hcalm (fun c hc => hplain.keeps c (List.mem_append_left _ hc)) hq, utf8Len_append]
        omega
      rw [matchParts, if_neg hnil, if_pos (List.isPrefixOf_iff_prefix.mpr hprefix), hlen, sliceFrom_append]
      rfl
  obtain ⟨b, hb, hiff⟩ := h _ hplain
  rw [regexMatches_text, hsplit, hrun] at hb
  obtain ⟨before, s, heq, hbefore, hs⟩ := hiff.mp (Except.ok.inj hb).symm
  rw [hstop] at hs
  obtain ⟨a', r', rfl, hq', hr'⟩ := (hreads s).mp hs
  rw [hbefore hstart, hr' rfl, List.append_nil, List.nil_append] at heq
  have hlen := congrArg List.length heq
  rw [List.length_append, List.length_singleton, ← length_alike hq, ← length_alike hq'] at hlen
  omega

end Exact

theorem fewLower_eq_dot (c : Char) : fewLower c = ['.'] ↔ c = '.' := by
  constructor
  · intro h
    rw [fewLower] at h
    split_ifs at h with hupper haccent hsigma
    · have hletter := isAlpha_toLower hupper
      rw [(List.cons.inj h).1] at hletter
      exact absurd hletter (by decide)
    · exact absurd h (by decide)
    · exact absurd h (by decide)
    · exact (List.cons.inj h).1
  · rintro rfl
    rfl

def bracketed : Pattern where
  start := true
  stop := true
  pieces := [.lit 'a', .gap, .lit 'b']
  literals c hc := by
    have hletter : c = 'a' ∨ c = 'b' := by simpa using hc
    rcases hletter with rfl | rfl <;> decide

def dotted : Pattern where
  start := true
  stop := false
  pieces := [.lit 'a', .any, .lit 'b']
  literals c hc := by
    have hletter : c = 'a' ∨ c = 'b' := by simpa using hc
    rcases hletter with rfl | rfl <;> decide

end Kkdb.Regexp
