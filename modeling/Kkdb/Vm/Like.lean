import Mathlib.Data.List.Infix
import Mathlib.Data.List.TakeWhile

namespace Kkdb

-- The cursors of `like_match`. The text that the last `%` covers ends at `starTi`.
structure LikeState where
  ti : Nat
  pi : Nat
  star : Option Nat
  starTi : Nat
  behind : starTi ≤ ti

namespace LikeState

def start : LikeState := ⟨0, 0, none, 0, Nat.le_refl 0⟩

-- One character of the text is matched by `n` characters of the pattern.
def advance (s : LikeState) (n : Nat) : LikeState :=
  { s with ti := s.ti + 1, pi := s.pi + n, behind := Nat.le_succ_of_le s.behind }

-- The last `%` covers one more character.
def retry (s : LikeState) : Option LikeState :=
  s.star.map fun sp => ⟨s.starTi + 1, sp + 1, some sp, s.starTi + 1, Nat.le_refl _⟩

def record (s : LikeState) : LikeState := ⟨s.ti, s.pi + 1, some s.pi, s.ti, Nat.le_refl _⟩

end LikeState

-- One turn of the loop of `like_match`, `none` where it returns `false`.
def likeStep (ec : Option Char) (p t : List Char) (s : LikeState) : Option LikeState :=
  match p[s.pi]? with
  | none => s.retry
  | some c =>
      if some c = ec then
        match p[s.pi + 1]? with
        | none => none
        | some d => if t[s.ti]? = some d then some (s.advance 2) else s.retry
      else if c = '_' then some (s.advance 1)
      else if c = '%' then some s.record
      else if t[s.ti]? = some c then some (s.advance 1)
      else s.retry

-- Between two turns a new `%` moves on in the pattern, and a new try of the old one in the text.
def LikeState.left (p t : List Char) (s : LikeState) : Nat × Nat :=
  (t.length - s.starTi, (t.length - s.ti) + (p.length - s.pi))

theorem likeStep_lt {ec : Option Char} {p t : List Char} {s s' : LikeState} (hti : s.ti < t.length)
    (hstep : likeStep ec p t s = some s') :
    Prod.Lex (· < ·) (· < ·) (s'.left p t) (s.left p t) := by
  have hretry : ∀ {s' : LikeState}, s.retry = some s' →
      Prod.Lex (· < ·) (· < ·) (s'.left p t) (s.left p t) := by
    intro s' hretry
    obtain ⟨sp, -, rfl⟩ := Option.map_eq_some_iff.mp hretry
    have := s.behind
    exact Prod.Lex.left _ _ (by simp only; omega)
  have hadvance : ∀ n, Prod.Lex (· < ·) (· < ·) ((s.advance n).left p t) (s.left p t) := by
    intro n
    exact Prod.Lex.right _ (by simp only [LikeState.advance]; omega)
  unfold likeStep at hstep
  cases hp : p[s.pi]? with
  | none => exact hretry (by simpa only [hp] using hstep)
  | some c =>
      obtain ⟨hpi, -⟩ := List.getElem?_eq_some_iff.mp hp
      simp only [hp] at hstep
      split_ifs at hstep with hesc hone hany hlit
      · cases hd : p[s.pi + 1]? with
        | none => simp [hd] at hstep
        | some d =>
            simp only [hd] at hstep
            split_ifs at hstep with hlit
            · cases hstep
              exact hadvance 2
            · exact hretry hstep
      · cases hstep
        exact hadvance 1
      · cases hstep
        have hstar := s.behind
        simp only [LikeState.left, LikeState.record]
        rcases Nat.lt_or_eq_of_le hstar with hlt | heq
        · exact Prod.Lex.left _ _ (by omega)
        · rw [heq]
          exact Prod.Lex.right _ (by omega)
      · cases hstep
        exact hadvance 1
      · exact hretry hstep

-- The loop of `like_match`: where in the pattern it stands at the end of the text.
def likeLoop (ec : Option Char) (p t : List Char) (s : LikeState) : Option Nat :=
  if _hti : s.ti < t.length then
    match _hstep : likeStep ec p t s with
    | none => none
    | some s' => likeLoop ec p t s'
  else some s.pi
termination_by s.left p t
decreasing_by exact likeStep_lt _hti _hstep

def foldCase (caseInsensitive : Bool) (c : Char) : Char := if caseInsensitive then c.toLower else c

def likeMatch (text pattern : String) (escapeChar : Option Char) (caseInsensitive : Bool) : Bool :=
  let t := text.toList.map (foldCase caseInsensitive)
  let p := pattern.toList.map (foldCase caseInsensitive)
  (likeLoop (escapeChar.map (foldCase caseInsensitive)) p t .start).any fun pi =>
    ((p.drop pi).dropWhile (· == '%')).isEmpty

-- The meaning of a pattern. The escape character makes the next one literal, and matches nothing at the end.
def likeSpec (ec : Option Char) : List Char → List Char → Bool
  | [], t => t.isEmpty
  | c :: p, t =>
      if some c = ec then
        match p with
        | [] => false
        | d :: p =>
            match t with
            | [] => false
            | x :: t => x == d && likeSpec ec p t
      else if c = '%' then t.tails.any fun t => likeSpec ec p t
      else
        match t with
        | [] => false
        | x :: t => (c == '_' || x == c) && likeSpec ec p t

-- The reference for `like_match`. The case flag folds the escape character as it folds the others.
def likeReference (text pattern : String) (escapeChar : Option Char) (caseInsensitive : Bool) : Bool :=
  likeSpec (escapeChar.map (foldCase caseInsensitive)) (pattern.toList.map (foldCase caseInsensitive))
    (text.toList.map (foldCase caseInsensitive))

section Like

variable {ec : Option Char} {c : Char} {p t : List Char} {s s' : LikeState}

theorem likeLoop_end (h : t.length ≤ s.ti) : likeLoop ec p t s = some s.pi := by
  rw [likeLoop, dif_neg (Nat.not_lt.mpr h)]

theorem likeLoop_fail (h : s.ti < t.length) (hstep : likeStep ec p t s = none) : likeLoop ec p t s = none := by
  rw [likeLoop, dif_pos h]
  split
  · rfl
  · rename_i hsome
    rw [hstep] at hsome
    cases hsome

theorem likeLoop_turn (h : s.ti < t.length) (hstep : likeStep ec p t s = some s') :
    likeLoop ec p t s = likeLoop ec p t s' := by
  rw [likeLoop, dif_pos h]
  split
  · rename_i hnone
    rw [hstep] at hnone
    cases hnone
  · rename_i hsome
    rw [hstep] at hsome
    cases hsome
    rfl

-- What the loop decides. At the end of the text it skips every `%`, also one that escapes the next character.
def likeDecided (ec : Option Char) : List Char → List Char → Bool
  | [], t => t.isEmpty
  | c :: p, t =>
      if t = [] then (c :: p).all (· == '%')
      else if some c = ec then
        match p with
        | [] => false
        | d :: p =>
            match t with
            | [] => false
            | x :: t => x == d && likeDecided ec p t
      else if c = '%' then t.tails.any fun t => likeDecided ec p t
      else
        match t with
        | [] => false
        | x :: t => (c == '_' || x == c) && likeDecided ec p t

theorem likeDecided_end (p : List Char) : likeDecided ec p [] = p.all (· == '%') := by
  cases p with
  | nil => rfl
  | cons c p => rw [likeDecided.eq_def]; exact if_pos rfl

theorem likeDecided_nil : likeDecided ec [] t = t.isEmpty := by
  rw [likeDecided]

theorem likeDecided_escape {x d : Char} (h : some c = ec) :
    likeDecided ec (c :: d :: p) (x :: t) = (x == d && likeDecided ec p t) := by
  rw [likeDecided, if_neg (List.cons_ne_nil x t), if_pos h]

theorem likeDecided_bare {x : Char} (h : some c = ec) : likeDecided ec [c] (x :: t) = false := by
  rw [likeDecided, if_neg (List.cons_ne_nil x t), if_pos h]

theorem likeDecided_any (h : some '%' ≠ ec) :
    likeDecided ec ('%' :: p) t = true ↔ ∃ n, likeDecided ec p (t.drop n) = true := by
  cases t with
  | nil =>
      rw [likeDecided_end]
      simp only [List.drop_nil, exists_const, likeDecided_end, List.all_cons, beq_self_eq_true, Bool.true_and]
  | cons x t =>
      have hunfold : likeDecided ec ('%' :: p) (x :: t) = (x :: t).tails.any fun t => likeDecided ec p t := by
        rw [likeDecided.eq_def]
        exact (if_neg (List.cons_ne_nil x t)).trans ((if_neg h).trans (if_pos rfl))
      rw [hunfold, List.any_eq_true]
      constructor
      · rintro ⟨u, hu, hmatch⟩
        refine ⟨(x :: t).length - u.length, ?_⟩
        rwa [← List.suffix_iff_eq_drop.mp ((List.mem_tails _ _).mp hu)]
      · rintro ⟨n, hmatch⟩
        exact ⟨_, (List.mem_tails _ _).mpr (List.drop_suffix n _), hmatch⟩

theorem likeDecided_sign {x : Char} (h : some c ≠ ec) (hc : c ≠ '%') :
    likeDecided ec (c :: p) (x :: t) = ((c == '_' || x == c) && likeDecided ec p t) := by
  rw [likeDecided.eq_def]
  exact (if_neg (List.cons_ne_nil x t)).trans ((if_neg h).trans (if_neg hc))

theorem likeDecided_tail_escape {d : Char} (h : some c = ec) (hmatch : likeDecided ec (c :: d :: p) t = true) :
    likeDecided ec p t.tail = true := by
  cases t with
  | nil =>
      rw [likeDecided_end, List.all_cons, List.all_cons, Bool.and_eq_true, Bool.and_eq_true] at hmatch
      rw [List.tail_nil, likeDecided_end]
      exact hmatch.2.2
  | cons x t =>
      rw [likeDecided_escape h, Bool.and_eq_true] at hmatch
      exact hmatch.2

theorem likeDecided_tail_sign (h : some c ≠ ec) (hc : c ≠ '%') (hmatch : likeDecided ec (c :: p) t = true) :
    likeDecided ec p t.tail = true := by
  cases t with
  | nil =>
      rw [likeDecided_end, List.all_cons, Bool.and_eq_true] at hmatch
      rw [List.tail_nil, likeDecided_end]
      exact hmatch.2
  | cons x t =>
      rw [likeDecided_sign h hc, Bool.and_eq_true] at hmatch
      exact hmatch.2

theorem drop_of_getElem? {α : Type} {l : List α} {i : Nat} {x : α} (h : l[i]? = some x) :
    l.drop i = x :: l.drop (i + 1) := by
  obtain ⟨hi, rfl⟩ := List.getElem?_eq_some_iff.mp h
  exact List.drop_eq_getElem_cons hi

-- What the loop knows. The whole pattern decides as what is left of it does at the two cursors, and after
-- a `%` any later start for the characters behind it reads on as the current one has done.
structure LikeInv (ec : Option Char) (p t : List Char) (s : LikeState) : Prop where
  plain : s.star = none → (likeDecided ec p t = true ↔ likeDecided ec (p.drop s.pi) (t.drop s.ti) = true)
  escape : ∀ sp, s.star = some sp → some '%' ≠ ec
  whole : ∀ sp, s.star = some sp →
    (likeDecided ec p t = true ↔ ∃ i, s.starTi ≤ i ∧ likeDecided ec (p.drop (sp + 1)) (t.drop i) = true)
  back : ∀ sp, s.star = some sp → likeDecided ec (p.drop s.pi) (t.drop s.ti) = true →
    likeDecided ec (p.drop (sp + 1)) (t.drop s.starTi) = true
  later : ∀ sp, s.star = some sp → ∀ i, s.starTi ≤ i → likeDecided ec (p.drop (sp + 1)) (t.drop i) = true →
    likeDecided ec (p.drop s.pi) (t.drop (i + (s.ti - s.starTi))) = true

namespace LikeInv

theorem start : LikeInv ec p t .start where
  plain _ := Iff.rfl
  escape _ h := by cases h
  whole _ h := by cases h
  back _ h := by cases h
  later _ h := by cases h

-- The first try of the characters behind the last `%` is the one that the cursors have followed.
theorem first_iff (hinv : LikeInv ec p t s) {sp : Nat} (hstar : s.star = some sp) :
    likeDecided ec (p.drop (sp + 1)) (t.drop s.starTi) = true ↔
      likeDecided ec (p.drop s.pi) (t.drop s.ti) = true := by
  refine ⟨fun h => ?_, hinv.back sp hstar⟩
  have hlater := hinv.later sp hstar s.starTi (Nat.le_refl _) h
  rwa [Nat.add_sub_cancel' s.behind] at hlater

theorem advance {n : Nat} (hinv : LikeInv ec p t s)
    (hgo : likeDecided ec (p.drop s.pi) (t.drop s.ti) = likeDecided ec (p.drop (s.pi + n)) (t.drop (s.ti + 1)))
    (htail : ∀ u, likeDecided ec (p.drop s.pi) u = true → likeDecided ec (p.drop (s.pi + n)) u.tail = true) :
    LikeInv ec p t (s.advance n) where
  plain hstar := by
    rw [hinv.plain hstar, hgo]
    rfl
  escape := hinv.escape
  whole := hinv.whole
  back sp hstar h := hinv.back sp hstar (by rw [hgo]; exact h)
  later sp hstar i hi h := by
    have hbehind := s.behind
    have hmoved := htail _ (hinv.later sp hstar i hi h)
    rw [List.tail_drop] at hmoved
    have hsum : i + (s.ti + 1 - s.starTi) = i + (s.ti - s.starTi) + 1 := by omega
    rw [LikeState.advance, hsum]
    exact hmoved

-- No start of the last `%` but the newest one is needed again: what they could read, it can read too.
theorem record (hinv : LikeInv ec p t s) (hesc : some '%' ≠ ec) (hp : p[s.pi]? = some '%') :
    LikeInv ec p t s.record where
  plain hstar := by cases hstar
  escape _ _ := hesc
  whole sp hsp := by
    cases hsp
    have hany : ∀ i, likeDecided ec (p.drop s.pi) (t.drop i) = true ↔
        ∃ n, likeDecided ec (p.drop (s.pi + 1)) (t.drop (i + n)) = true := by
      intro i
      rw [drop_of_getElem? hp, likeDecided_any hesc]
      simp only [List.drop_drop]
    have hhere : likeDecided ec (p.drop s.pi) (t.drop s.ti) = true ↔
        ∃ i, s.ti ≤ i ∧ likeDecided ec (p.drop (s.pi + 1)) (t.drop i) = true := by
      rw [hany]
      constructor
      · rintro ⟨n, hn⟩
        exact ⟨_, Nat.le_add_right _ _, hn⟩
      · rintro ⟨i, hi, hmatch⟩
        exact ⟨i - s.ti, by rwa [Nat.add_sub_cancel' hi]⟩
    cases hold : s.star with
    | none => exact (hinv.plain hold).trans hhere
    | some sp =>
        constructor
        · intro h
          obtain ⟨i, hi, hmatch⟩ := (hinv.whole sp hold).mp h
          obtain ⟨n, hn⟩ := (hany _).mp (hinv.later sp hold i hi hmatch)
          have hbehind := s.behind
          exact ⟨_, show s.ti ≤ i + (s.ti - s.starTi) + n by omega, hn⟩
        · intro h
          exact (hinv.whole sp hold).mpr ⟨_, Nat.le_refl _, hinv.back sp hold (hhere.mpr h)⟩
  back sp hsp h := by
    cases hsp
    exact h
  later sp hsp i hi h := by
    cases hsp
    simpa only [LikeState.record, Nat.sub_self, Nat.add_zero] using h

theorem retry (hinv : LikeInv ec p t s) (hno : likeDecided ec (p.drop s.pi) (t.drop s.ti) = false)
    (hretry : s.retry = some s') : LikeInv ec p t s' := by
  obtain ⟨sp, hstar, rfl⟩ := Option.map_eq_some_iff.mp hretry
  refine ⟨(by intro h; cases h), fun _ _ => hinv.escape sp hstar, ?_, ?_, ?_⟩
  · intro sp' hsp
    cases hsp
    rw [hinv.whole sp hstar]
    constructor
    · rintro ⟨i, hi, hmatch⟩
      refine ⟨i, Nat.lt_of_le_of_ne hi ?_, hmatch⟩
      rintro rfl
      rw [hinv.first_iff hstar, hno] at hmatch
      cases hmatch
    · rintro ⟨i, hi, hmatch⟩
      exact ⟨i, Nat.le_of_succ_le hi, hmatch⟩
  · intro sp' hsp h
    cases hsp
    exact h
  · intro sp' hsp i hi h
    cases hsp
    simpa only [Nat.sub_self, Nat.add_zero] using h

theorem retry_none (hinv : LikeInv ec p t s) (hno : likeDecided ec (p.drop s.pi) (t.drop s.ti) = false)
    (hretry : s.retry = none) : likeDecided ec p t = false := by
  rw [Bool.eq_false_iff, ne_eq, hinv.plain (Option.map_eq_none_iff.mp hretry), hno]
  exact Bool.false_ne_true

-- A pattern that ends with the escape character matches nothing, wherever its `%` may end.
theorem bare (hinv : LikeInv ec p t s) (hti : s.ti < t.length) (hp : p.drop s.pi = [c]) (hesc : some c = ec) :
    likeDecided ec p t = false := by
  rw [Bool.eq_false_iff]
  intro hmatch
  cases hstar : s.star with
  | none =>
      rw [hinv.plain hstar, hp, List.drop_eq_getElem_cons hti, likeDecided_bare hesc] at hmatch
      cases hmatch
  | some sp =>
      obtain ⟨i, hi, hrest⟩ := (hinv.whole sp hstar).mp hmatch
      have hlater := hinv.later sp hstar i hi hrest
      rw [hp] at hlater
      cases hu : t.drop (i + (s.ti - s.starTi)) with
      | cons x u =>
          rw [hu, likeDecided_bare hesc] at hlater
          cases hlater
      | nil =>
          rw [hu, likeDecided_end, List.all_cons, List.all_nil, Bool.and_true, beq_iff_eq] at hlater
          exact hinv.escape sp hstar (hlater ▸ hesc)

-- One turn keeps the invariant, and where it gives up the pattern does not match.
theorem step (hinv : LikeInv ec p t s) (hti : s.ti < t.length) :
    (∀ s', likeStep ec p t s = some s' → LikeInv ec p t s') ∧
      (likeStep ec p t s = none → likeDecided ec p t = false) := by
  obtain ⟨x, hx⟩ : ∃ x, t[s.ti]? = some x := ⟨_, List.getElem?_eq_getElem hti⟩
  have ht := drop_of_getElem? hx
  have hmiss : likeDecided ec (p.drop s.pi) (t.drop s.ti) = false →
      (∀ s', s.retry = some s' → LikeInv ec p t s') ∧ (s.retry = none → likeDecided ec p t = false) :=
    fun hno => ⟨fun s' => hinv.retry hno, hinv.retry_none hno⟩
  unfold likeStep
  cases hp : p[s.pi]? with
  | none =>
      apply hmiss
      rw [List.drop_eq_nil_iff.mpr (List.getElem?_eq_none_iff.mp hp), likeDecided_nil, ht]
      rfl
  | some c =>
      have hpat := drop_of_getElem? hp
      dsimp only
      split_ifs with hesc hone hany hlit
      · cases hd : p[s.pi + 1]? with
        | none =>
            rw [List.drop_eq_nil_iff.mpr (List.getElem?_eq_none_iff.mp hd)] at hpat
            exact ⟨(by intro s' h; cases h), fun _ => hinv.bare hti hpat hesc⟩
        | some d =>
            have hpat₂ := drop_of_getElem? hd
            rw [hpat₂] at hpat
            dsimp only
            split_ifs with hlit
            · refine ⟨fun s' h => ?_, fun h => by cases h⟩
              cases h
              rw [hx, Option.some.injEq] at hlit
              refine hinv.advance (by rw [hpat, ht, likeDecided_escape hesc, hlit, beq_self_eq_true,
                Bool.true_and])
                fun u hu => ?_
              rw [hpat] at hu
              exact likeDecided_tail_escape hesc hu
            · apply hmiss
              rw [hx, Option.some.injEq] at hlit
              rw [hpat, ht, likeDecided_escape hesc, beq_eq_false_iff_ne.mpr hlit, Bool.false_and]
      · refine ⟨fun s' h => ?_, fun h => by cases h⟩
        cases h
        subst hone
        refine hinv.advance (by rw [hpat, ht, likeDecided_sign hesc (by decide)]; rfl) fun u hu => ?_
        rw [hpat] at hu
        exact likeDecided_tail_sign hesc (by decide) hu
      · refine ⟨fun s' h => ?_, fun h => by cases h⟩
        cases h
        subst hany
        exact hinv.record hesc hp
      · refine ⟨fun s' h => ?_, fun h => by cases h⟩
        cases h
        rw [hx, Option.some.injEq] at hlit
        refine hinv.advance (by rw [hpat, ht, likeDecided_sign hesc hany, hlit, beq_self_eq_true, Bool.or_true,
          Bool.true_and]) fun u hu => ?_
        rw [hpat] at hu
        exact likeDecided_tail_sign hesc hany hu
      · apply hmiss
        rw [hx, Option.some.injEq] at hlit
        rw [hpat, ht, likeDecided_sign hesc hany, beq_eq_false_iff_ne.mpr hone, beq_eq_false_iff_ne.mpr hlit]
        rfl

end LikeInv

-- At the end of the text the cursors decide for the whole pattern.
theorem LikeInv.finish (hinv : LikeInv ec p t s) (hti : t.length ≤ s.ti) :
    likeDecided ec p t = (p.drop s.pi).all (· == '%') := by
  have hend : likeDecided ec (p.drop s.pi) [] = (p.drop s.pi).all (· == '%') := likeDecided_end _
  have hhere : t.drop s.ti = [] := List.drop_eq_nil_iff.mpr hti
  rw [Bool.eq_iff_iff, ← hend]
  cases hstar : s.star with
  | none => rw [hinv.plain hstar, hhere]
  | some sp =>
      rw [hinv.whole sp hstar]
      constructor
      · rintro ⟨i, hi, hmatch⟩
        have hlater := hinv.later sp hstar i hi hmatch
        have hbehind := s.behind
        rwa [List.drop_eq_nil_iff.mpr (show t.length ≤ i + (s.ti - s.starTi) by omega)] at hlater
      · intro h
        rw [← hhere] at h
        exact ⟨_, Nat.le_refl _, hinv.back sp hstar h⟩

theorem likeLoop_decides (ec : Option Char) (p t : List Char) (s : LikeState) (hinv : LikeInv ec p t s) :
    ((likeLoop ec p t s).any fun pi => ((p.drop pi).dropWhile (· == '%')).isEmpty) = likeDecided ec p t := by
  induction s using likeLoop.induct ec p t with
  | case1 s hti hstep =>
      rw [likeLoop_fail hti hstep, (hinv.step hti).2 hstep]
      rfl
  | case2 s hti s' hstep ih =>
      rw [likeLoop_turn hti hstep]
      exact ih ((hinv.step hti).1 s' hstep)
  | case3 s hti =>
      have hti := Nat.le_of_not_lt hti
      rw [likeLoop_end hti, hinv.finish hti, Option.any_some, Bool.eq_iff_iff, List.isEmpty_iff,
        List.dropWhile_eq_nil_iff, List.all_eq_true]

theorem likeSpec_escape {x d : Char} (h : some c = ec) :
    likeSpec ec (c :: d :: p) (x :: t) = (x == d && likeSpec ec p t) := by
  rw [likeSpec, if_pos h]

theorem likeSpec_sign {x : Char} (h : some c ≠ ec) (hc : c ≠ '%') :
    likeSpec ec (c :: p) (x :: t) = ((c == '_' || x == c) && likeSpec ec p t) := by
  rw [likeSpec.eq_def]
  exact (if_neg h).trans (if_neg hc)

theorem likeDecided_eq_spec (hec : ec ≠ some '%') (p t : List Char) : likeDecided ec p t = likeSpec ec p t := by
  fun_induction likeSpec ec p t with
  | case1 t => exact likeDecided_nil
  | case2 c t hesc =>
      cases t with
      | nil =>
          rw [likeDecided_end, List.all_cons, beq_eq_false_iff_ne.mpr (by rintro rfl; exact hec hesc.symm)]
          rfl
      | cons x t => exact likeDecided_bare hesc
  | case3 c hesc d p =>
      rw [likeDecided_end, List.all_cons, beq_eq_false_iff_ne.mpr (by rintro rfl; exact hec hesc.symm)]
      rfl
  | case4 c hesc d p x t ih => rw [likeDecided_escape hesc, ih]
  | case5 p t hesc ih =>
      rw [Bool.eq_iff_iff, likeDecided_any hesc, List.any_eq_true]
      constructor
      · rintro ⟨n, hmatch⟩
        exact ⟨_, (List.mem_tails _ _).mpr (List.drop_suffix n t), ih _ ▸ hmatch⟩
      · rintro ⟨u, hu, hmatch⟩
        refine ⟨t.length - u.length, ?_⟩
        rwa [← List.suffix_iff_eq_drop.mp ((List.mem_tails _ _).mp hu), ih]
  | case6 c p hesc hany =>
      rw [likeDecided_end, List.all_cons, beq_eq_false_iff_ne.mpr hany]
      rfl
  | case7 c p hesc hany x t ih => rw [likeDecided_sign hesc hany, ih]

-- An escape character `%` leaves no sign that matches more than one character.
theorem like_append (p t q : List Char) (hmatch : likeSpec (some '%') p t = true) :
    likeSpec (some '%') (p ++ q) t = likeSpec (some '%') q [] ∧
      likeDecided (some '%') (p ++ q) t = likeDecided (some '%') q [] := by
  fun_induction likeSpec (some '%') p t with
  | case1 t =>
      rw [List.isEmpty_iff.mp hmatch]
      exact ⟨rfl, rfl⟩
  | case4 c hesc d p x t ih =>
      rw [Bool.and_eq_true] at hmatch
      rw [List.cons_append, List.cons_append, likeSpec_escape hesc, likeDecided_escape hesc, hmatch.1,
        Bool.true_and, Bool.true_and]
      exact ih hmatch.2
  | case5 p t hesc ih => exact absurd rfl hesc
  | case7 c p hesc hany x t ih =>
      rw [Bool.and_eq_true] at hmatch
      rw [List.cons_append, likeSpec_sign hesc hany, likeDecided_sign hesc hany, hmatch.1, Bool.true_and,
        Bool.true_and]
      exact ih hmatch.2
  | _ => cases hmatch

theorem like_prefix (p t : List Char) (h : likeDecided (some '%') p t = true) :
    ∃ p₁ k, p = p₁ ++ List.replicate k '%' ∧ likeSpec (some '%') p₁ t = true := by
  fun_induction likeDecided (some '%') p t with
  | case1 t => exact ⟨[], 0, rfl, h⟩
  | case2 c p =>
      refine ⟨[], (c :: p).length, ?_, rfl⟩
      refine List.eq_replicate_iff.mpr ⟨rfl, fun x hx => ?_⟩
      exact beq_iff_eq.mp (List.all_eq_true.mp h x hx)
  | case5 c hesc d p x t hne ih =>
      rw [Bool.and_eq_true] at h
      obtain ⟨p₁, k, rfl, hspec⟩ := ih h.2
      exact ⟨c :: d :: p₁, k, rfl, by rw [likeSpec_escape hesc, h.1, hspec]; rfl⟩
  | case6 p t hne hesc ih => exact absurd rfl hesc
  | case8 c p hesc hany x t hne ih =>
      rw [Bool.and_eq_true] at h
      obtain ⟨p₁, k, rfl, hspec⟩ := ih h.2
      exact ⟨c :: p₁, k, rfl, by rw [likeSpec_sign hesc hany, h.1, hspec]; rfl⟩
  | _ => cases h

theorem likeDecided_eq_iff (ec : Option Char) (p t : List Char) :
    likeDecided ec p t = likeSpec ec p t ↔
      ¬(ec = some '%' ∧ ∃ p₁ k, 0 < k ∧ p = p₁ ++ List.replicate k '%' ∧ likeSpec ec p₁ t = true) := by
  constructor
  · rintro heq ⟨rfl, p₁, k, hk, rfl, hspec⟩
    obtain ⟨hmeant, hdecided⟩ := like_append p₁ t (List.replicate k '%') hspec
    obtain ⟨k, rfl⟩ := Nat.exists_eq_add_one_of_ne_zero (Nat.ne_of_gt hk)
    rw [hmeant, hdecided, likeDecided_end, List.all_replicate] at heq
    cases k <;> cases heq
  · intro hno
    by_cases hec : ec = some '%'
    · subst hec
      rw [Bool.eq_iff_iff]
      constructor
      · intro h
        obtain ⟨p₁, k, rfl, hspec⟩ := like_prefix p t h
        cases k with
        | zero => rwa [List.replicate_zero, List.append_nil]
        | succ k => exact absurd ⟨rfl, p₁, k + 1, Nat.succ_pos k, rfl, hspec⟩ hno
      · intro h
        have hdecided := (like_append p t [] h).2
        rwa [List.append_nil] at hdecided
    · exact likeDecided_eq_spec hec p t

end Like

theorem foldCase_eq_percent {b : Bool} {c : Char} : foldCase b c = '%' ↔ c = '%' := by
  constructor
  · intro h
    unfold foldCase Char.toLower at h
    split_ifs at h with hb hupper
    · have hval := congrArg (fun c => c.val.toNat) h
      obtain ⟨hlow, hhigh⟩ := hupper
      simp only [UInt32.toNat_add, UInt32.le_iff_toNat_le, ge_iff_le] at hval hlow hhigh
      have hA : 'A'.val.toNat = 65 := by decide
      have hZ : 'Z'.val.toNat = 90 := by decide
      have hshift : ('a'.val - 'A'.val).toNat = 32 := by decide
      have hpercent : '%'.val.toNat = 37 := by decide
      omega
    · exact h
    · exact h
  · rintro rfl
    cases b <;> decide

-- The last loop of `like_match` skips a `%` at the end of the pattern also where it escapes.
theorem likeMatch_eq_iff (text pattern : String) (escapeChar : Option Char) (caseInsensitive : Bool) :
    likeMatch text pattern escapeChar caseInsensitive = likeReference text pattern escapeChar caseInsensitive ↔
      ¬(escapeChar = some '%' ∧ ∃ head k, 0 < k ∧ pattern = head ++ String.ofList (List.replicate k '%') ∧
        likeReference text head escapeChar caseInsensitive = true) := by
  have hsign : ∀ c, foldCase caseInsensitive c = '%' ↔ c = '%' := fun c => foldCase_eq_percent
  rw [likeMatch, likeLoop_decides _ _ _ _ .start, likeReference, likeDecided_eq_iff]
  refine not_congr (and_congr ?_ ?_)
  · rw [Option.map_eq_some_iff]
    simp only [hsign, exists_eq_right]
  · constructor
    · rintro ⟨p₁, k, hk, hsplit, hspec⟩
      obtain ⟨head, rest, hpattern, rfl, hrest⟩ := List.map_eq_append_iff.mp hsplit
      refine ⟨String.ofList head, k, hk, ?_, ?_⟩
      · have hrest' : rest = List.replicate k '%' := by
          refine List.eq_replicate_iff.mpr ⟨?_, fun c hc => ?_⟩
          · rw [← List.length_map (foldCase caseInsensitive), hrest, List.length_replicate]
          · exact (hsign c).mp (List.eq_of_mem_replicate (hrest ▸ List.mem_map_of_mem hc))
        rw [← hrest', ← String.ofList_append, ← hpattern, String.ofList_toList]
      · rwa [likeReference, String.toList_ofList]
    · rintro ⟨head, k, hk, rfl, hspec⟩
      refine ⟨_, k, hk, ?_, hspec⟩
      rw [String.toList_append, String.toList_ofList, List.map_append, List.map_replicate, (hsign '%').mpr rfl]

-- `'a' LIKE 'a%' ESCAPE '%'`: the pattern ends with its escape character, and matches.
theorem likeMatch_bareEscape : likeMatch "a" "a%" (some '%') false = true ∧
    likeReference "a" "a%" (some '%') false = false := by
  constructor
  · rw [likeMatch, likeLoop_decides _ _ _ _ .start]
    decide
  · decide

end Kkdb
