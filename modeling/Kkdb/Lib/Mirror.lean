import Kkdb.Lib.Assoc
import Mathlib.Data.List.Pairwise

namespace Lib

-- A list of records, some of which stand for the entries of a map.

section Mirror

variable {ρ κ β : Type}

def DifferentKeys (decode : ρ → Option (κ × β)) (r r' : ρ) : Prop :=
  ∀ e e', decode r = some e → decode r' = some e' → e.1 ≠ e'.1

-- The map holds the entries of the records, and every key has one record at most.
structure Mirrors (decode : ρ → Option (κ × β)) (rows : List ρ) (m : κ → Option β) : Prop where
  lookup : ∀ k v, m k = some v ↔ ∃ r ∈ rows, decode r = some (k, v)
  once : rows.Pairwise (DifferentKeys decode)

variable {decode : ρ → Option (κ × β)} {rows : List ρ} {m m' : κ → Option β}

theorem mirrors_nil : Mirrors decode [] fun _ => none := ⟨by simp, List.Pairwise.nil⟩

theorem Mirrors.congr (h : Mirrors decode rows m) (heq : ∀ k, m' k = m k) : Mirrors decode rows m' := by
  have hfun : m' = m := funext heq
  rw [hfun]
  exact h

theorem Mirrors.append_other (h : Mirrors decode rows m) {r : ρ} (hr : decode r = none) :
    Mirrors decode (rows ++ [r]) m := by
  refine ⟨fun k v => ?_, List.pairwise_append.mpr ⟨h.once, List.pairwise_singleton _ _, ?_⟩⟩
  · rw [h.lookup]
    simp [hr, or_and_right, exists_or]
  · intro a _ b hb e e' _ he'
    rw [List.mem_singleton.mp hb, hr] at he'
    cases he'

theorem Mirrors.append_new (h : Mirrors decode rows m) {r : ρ} {k : κ} {v : β} (hr : decode r = some (k, v))
    (hfresh : m k = none) (hnew : m' k = some v) (hother : ∀ k', k' ≠ k → m' k' = m k') :
    Mirrors decode (rows ++ [r]) m' := by
  have hfree : ∀ a ∈ rows, ∀ v', decode a ≠ some (k, v') := by
    intro a ha v' hdecode
    have hsome := (h.lookup k v').mpr ⟨a, ha, hdecode⟩
    rw [hfresh] at hsome
    cases hsome
  refine ⟨fun k' v' => ?_, List.pairwise_append.mpr ⟨h.once, List.pairwise_singleton _ _, ?_⟩⟩
  · by_cases hk : k' = k
    · subst hk
      rw [hnew]
      constructor
      · rintro heq
        cases heq
        exact ⟨r, by simp, hr⟩
      · rintro ⟨a, ha, hdecode⟩
        rcases List.mem_append.mp ha with hin | hlast
        · exact absurd hdecode (hfree a hin v')
        · rw [List.mem_singleton.mp hlast, hr] at hdecode
          cases hdecode
          rfl
    · rw [hother k' hk, h.lookup]
      constructor
      · rintro ⟨a, ha, hdecode⟩
        exact ⟨a, List.mem_append_left _ ha, hdecode⟩
      · rintro ⟨a, ha, hdecode⟩
        rcases List.mem_append.mp ha with hin | hlast
        · exact ⟨a, hin, hdecode⟩
        · rw [List.mem_singleton.mp hlast, hr] at hdecode
          cases hdecode
          exact absurd rfl hk
  · rintro a ha b hb ⟨ka, va⟩ e' he he' heq
    rw [List.mem_singleton.mp hb, hr] at he'
    cases he'
    rw [show ka = k from heq] at he
    exact hfree a ha va he

theorem Mirrors.filter (h : Mirrors decode rows m) {keep : ρ → Bool} (gone : κ → Prop)
    (hkeep : ∀ r ∈ rows, ∀ e, decode r = some e → (keep r = true ↔ ¬gone e.1))
    (hgone : ∀ k, gone k → m' k = none) (hother : ∀ k, ¬gone k → m' k = m k) :
    Mirrors decode (rows.filter keep) m' := by
  refine ⟨fun k v => ?_, h.once.filter _⟩
  by_cases hk : gone k
  · rw [hgone k hk]
    constructor
    · rintro heq
      cases heq
    · rintro ⟨r, hr, hdecode⟩
      obtain ⟨hmem, hkept⟩ := List.mem_filter.mp hr
      exact absurd hk ((hkeep r hmem _ hdecode).mp hkept)
  · rw [hother k hk, h.lookup]
    constructor
    · rintro ⟨r, hr, hdecode⟩
      exact ⟨r, List.mem_filter.mpr ⟨hr, (hkeep r hr _ hdecode).mpr hk⟩, hdecode⟩
    · rintro ⟨r, hr, hdecode⟩
      exact ⟨r, (List.mem_filter.mp hr).1, hdecode⟩

-- The records are rewritten, each so that its entry changes in the same way.
theorem Mirrors.map (h : Mirrors decode rows m) {f : ρ → ρ} (change : κ × β → κ × β)
    (hdecode : ∀ r ∈ rows, decode (f r) = (decode r).map change)
    (hlookup : ∀ k v, m' k = some v ↔ ∃ e, m e.1 = some e.2 ∧ change e = (k, v))
    (hkeys : ∀ e e', m e.1 = some e.2 → m e'.1 = some e'.2 → (change e).1 = (change e').1 → e.1 = e'.1) :
    Mirrors decode (rows.map f) m' := by
  refine ⟨fun k v => ?_, List.pairwise_map.mpr ?_⟩
  · rw [hlookup]
    constructor
    · rintro ⟨e, he, hchange⟩
      obtain ⟨r, hr, hr'⟩ := (h.lookup e.1 e.2).mp he
      exact ⟨f r, List.mem_map_of_mem hr, by rw [hdecode r hr, hr', Option.map_some, hchange]⟩
    · rintro ⟨r', hr', heq⟩
      obtain ⟨r, hr, rfl⟩ := List.mem_map.mp hr'
      rw [hdecode r hr] at heq
      obtain ⟨e, he, hchange⟩ := Option.map_eq_some_iff.mp heq
      exact ⟨e, (h.lookup e.1 e.2).mpr ⟨r, hr, he⟩, hchange⟩
  · apply h.once.imp_of_mem
    intro a b ha hb hapart e e' he he' heq
    rw [hdecode a ha] at he
    rw [hdecode b hb] at he'
    obtain ⟨e₀, he₀, rfl⟩ := Option.map_eq_some_iff.mp he
    obtain ⟨e₁, he₁, rfl⟩ := Option.map_eq_some_iff.mp he'
    exact hapart e₀ e₁ he₀ he₁
      (hkeys e₀ e₁ ((h.lookup _ _).mpr ⟨a, ha, he₀⟩) ((h.lookup _ _).mpr ⟨b, hb, he₁⟩) heq)

theorem Mirrors.map_same (h : Mirrors decode rows m) {f : ρ → ρ} (hdecode : ∀ r ∈ rows,
    decode (f r) = decode r) :
    Mirrors decode (rows.map f) m := by
  refine h.map id (fun r hr => by rw [hdecode r hr, Option.map_id, id]) (fun k v => ?_) ?_
  · constructor
    · intro hk
      exact ⟨(k, v), hk, rfl⟩
    · rintro ⟨e, he, heq⟩
      rw [id] at heq
      subst heq
      exact he
  · intro e e' _ _ heq
    exact heq

theorem Mirrors.unique (h : Mirrors decode rows m) {r r' : ρ} (hr : r ∈ rows) (hr' : r' ∈ rows) {k : κ}
    {v v' : β}
    (hdecode : decode r = some (k, v)) (hdecode' : decode r' = some (k, v')) : r = r' := by
  by_contra hne
  have hsymm : Std.Symm (DifferentKeys decode) := ⟨fun a b hab e e' he he' heq => hab e' e he' he heq.symm⟩
  exact h.once.forall hr hr' hne _ _ hdecode hdecode' rfl

theorem Mirrors.decoded (h : Mirrors decode rows m) {r : ρ} (hr : r ∈ rows) {k : κ} {v : β}
    (hdecode : decode r = some (k, v)) : m k = some v := (h.lookup k v).mpr ⟨r, hr, hdecode⟩

theorem Mirrors.rewrite (h : Mirrors decode rows m) {f : ρ → ρ} {r₀ : ρ} (hr₀ : r₀ ∈ rows) {k k' : κ} {v v' : β}
    (hold : decode r₀ = some (k, v)) (hnew : decode (f r₀) = some (k', v'))
    (hrest : ∀ r ∈ rows, r ≠ r₀ → decode (f r) = decode r) (hfree : k' = k ∨ m k' = none)
    (hlookup : m' k' = some v') (hgone : k' ≠ k → m' k = none)
    (hother : ∀ x, x ≠ k → x ≠ k' → m' x = m x) : Mirrors decode (rows.map f) m' := by
  classical
  refine h.map (fun e => if e.1 = k then (k', v') else e) (fun r hr => ?_) (fun x y => ?_) ?_
  · by_cases hsame : r = r₀
    · subst hsame
      rw [hnew, hold, Option.map_some, if_pos rfl]
    · rw [hrest r hr hsame]
      cases hdecode : decode r with
      | none => rfl
      | some e =>
          have hne : e.1 ≠ k := by
            rintro rfl
            exact hsame (h.unique hr hr₀ hdecode hold)
          rw [Option.map_some, if_neg hne]
  · have hk := h.decoded hr₀ hold
    constructor
    · intro hx
      by_cases hx' : x = k'
      · subst hx'
        rw [hlookup] at hx
        cases hx
        exact ⟨(k, v), hk, if_pos rfl⟩
      · by_cases hxk : x = k
        · subst hxk
          rw [hgone (Ne.symm hx')] at hx
          cases hx
        · rw [hother x hxk hx'] at hx
          exact ⟨(x, y), hx, if_neg hxk⟩
    · rintro ⟨e, he, heq⟩
      split_ifs at heq with hek
      · cases heq
        exact hlookup
      · subst heq
        have hne : x ≠ k' := by
          rintro rfl
          rcases hfree with hsame | hnone
          · exact hek hsame
          · rw [hnone] at he
            cases he
        rw [hother x hek hne]
        exact he
  · intro e e' he he' heq
    split_ifs at heq with h₁ h₂ h₂
    · rw [h₁, h₂]
    · exfalso
      rcases hfree with hsame | hnone
      · exact h₂ (heq.symm.trans hsame)
      · rw [← heq, hnone] at he'
        cases he'
    · exfalso
      rcases hfree with hsame | hnone
      · exact h₁ (heq.trans hsame)
      · rw [heq, hnone] at he
        cases he
    · exact heq

end Mirror

end Lib
