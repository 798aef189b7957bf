import Kkdb.Vm.Pipeline

namespace Kkdb

open Lib Evaluator

namespace Value

-- `partial_cmp` with `unwrap_or(Equal)`.
def orderOf (v w : Value) : Ordering := (partialCmp v w).getD .eq

variable {v w x : Value} {xs : List Value}

theorem orderOf_of_partialCmp {o : Ordering} (h : partialCmp v w = some o) : orderOf v w = o := by
  rw [orderOf, h]
  rfl

theorem partialCmp_eq_some (hv : v.isNaN = false) (hw : w.isNaN = false) :
    partialCmp v w = some (orderOf v w) := by
  obtain ⟨o, ho⟩ := Option.isSome_iff_exists.mp (isSome_partialCmp hv hw)
  rw [ho, orderOf_of_partialCmp ho]

theorem orderOf_swap (v w : Value) : orderOf w v = (orderOf v w).swap := by
  rw [orderOf, orderOf, partialCmp_swap v w]
  cases partialCmp v w with
  | none => rfl
  | some o => rfl

theorem eq_of_partialCmp_eq (hv : v.tag ≠ 1) (h : partialCmp v w = some .eq) : v = w := by
  cases v <;> cases w
  case Null.Null => rfl
  case Text.Text a b => rw [textBytes_inj.mp (Std.LawfulEqOrd.compare_eq_iff_eq.mp (Option.some.inj h))]
  case Blob.Blob a b => rw [Std.LawfulEqOrd.compare_eq_iff_eq.mp (Option.some.inj h)]
  all_goals first | exact absurd rfl hv | cases h

theorem tag_eq_of_partialCmp_eq (h : partialCmp v w = some .eq) : v.tag = w.tag := by
  rcases lt_trichotomy v.tag w.tag with hlt | heq | hgt
  · rw [partialCmp_of_tag_lt hlt] at h
    cases h
  · exact heq
  · rw [partialCmp_of_tag_gt hgt] at h
    cases h

-- Two different integers are rounded to one real, and all three are among the values.
def Clash (xs : List Value) : Prop :=
  ∃ a b r, Integer a ∈ xs ∧ Integer b ∈ xs ∧ Real r ∈ xs ∧ a.toInt < b.toInt ∧
    (Integer a).eq (Real r) = true ∧ (Integer b).eq (Real r) = true

-- Only the numbers of a clash are equal to one value and not to each other.
theorem clash_of_cycle (hv : v ∈ xs) (hw : w ∈ xs) (hx : x ∈ xs) (hvw : partialCmp v w = some .eq)
    (hwx : partialCmp w x = some .eq) (hvx : partialCmp v x = some .gt) : Clash xs := by
  have htag := tag_eq_of_partialCmp_eq hvw
  have htag' := tag_eq_of_partialCmp_eq hwx
  have hnum : v.tag = 1 := by
    by_contra hne
    have h₁ := eq_of_partialCmp_eq hne hvw
    have h₂ := eq_of_partialCmp_eq (htag ▸ hne) hwx
    subst h₁ h₂
    rw [hvw] at hvx
    cases hvx
  have hreal : ∀ a b o, Double.rank a = Double.rank b → Double.partialCmp a b = some o → o = .eq := by
    intro a b o heq hab
    rw [← partialCmp_real hab]
    exact compare_eq_iff_eq.mpr heq
  have hrank : v.rank = x.rank := by
    have hle₁ := rank_le_of_partialCmp hnum (htag ▸ hnum) hvw (by decide)
    have hle₂ := rank_le_of_partialCmp (htag ▸ hnum) (htag' ▸ htag ▸ hnum) hwx (by decide)
    have hge : x.rank ≤ v.rank := by
      refine rank_le_of_partialCmp (htag' ▸ htag ▸ hnum) hnum (show _ = some .lt from ?_) (by decide)
      rw [partialCmp_swap v x, hvx]
      rfl
    omega
  rcases number_of_tag hnum with ⟨a, rfl⟩ | ⟨a, rfl⟩ <;>
    rcases number_of_tag (htag' ▸ htag ▸ hnum) with ⟨b, rfl⟩ | ⟨b, rfl⟩
  · have hlt : b.toInt < a.toInt := compare_gt_iff_gt.mp (Option.some.inj hvx)
    rcases number_of_tag (htag ▸ hnum) with ⟨r, rfl⟩ | ⟨r, rfl⟩
    · have h₁ := compare_eq_iff_eq.mp (Option.some.inj hvw)
      have h₂ := compare_eq_iff_eq.mp (Option.some.inj hwx)
      omega
    · have hnan : isNaN (Real r) = false := by
        cases hr : isNaN (Real r) with
        | false => rfl
        | true =>
            have hnone : partialCmp (Integer a) (Real r) = none := if_pos (.inr hr)
            rw [hnone] at hvw
            cases hvw
      refine ⟨b, a, r, hx, hv, hw, hlt, (eq_iff_partialCmp rfl hnan).mpr ?_,
        (eq_iff_partialCmp rfl hnan).mpr hvw⟩
      rw [partialCmp_swap (Real r) (Integer b), hwx]
      rfl
  all_goals exact absurd (hreal _ _ _ hrank hvx) (by decide)

-- The comparison is a total preorder of the values when they hold no clash.
theorem totalOn_orderOf_iff (hnan : ∀ v ∈ xs, v.isNaN = false) : TotalOn orderOf xs ↔ ¬Clash xs := by
  constructor
  · rintro htotal ⟨a, b, r, ha, hb, hr, hlt, har, hbr⟩
    have hra := hnan _ hr
    have hbr' := (eq_iff_partialCmp rfl hra).mp hbr
    have har' := (eq_iff_partialCmp rfl hra).mp har
    have hra' : partialCmp (Real r) (Integer a) = some .eq := by
      rw [partialCmp_swap (Integer a) (Real r), har']
      rfl
    have hba := htotal.trans _ hb _ hr _ ha (by rw [orderOf_of_partialCmp hbr']; decide)
      (by rw [orderOf_of_partialCmp hra']; decide)
    exact hba (orderOf_of_partialCmp (congrArg some (compare_gt_iff_gt.mpr hlt)))
  · intro hclash
    refine ⟨fun v hv => ?_, fun v _ w _ => orderOf_swap v w, fun v hv w hw x hx hvw hwx hvx => ?_⟩
    · exact orderOf_of_partialCmp (partialCmp_self (hnan v hv))
    · have h₁ := partialCmp_eq_some (hnan v hv) (hnan w hw)
      have h₂ := partialCmp_eq_some (hnan w hw) (hnan x hx)
      have h₃ := partialCmp_eq_some (hnan v hv) (hnan x hx)
      rw [hvx] at h₃
      cases hvw' : orderOf v w with
      | gt => exact hvw hvw'
      | lt => exact partialCmp_ne_gt_of_lt (h₁.trans (congrArg some hvw')) h₂ hwx h₃ rfl
      | eq =>
          cases hwx' : orderOf w x with
          | gt => exact hwx hwx'
          | lt =>
              -- the strict step starts from the last value
              have hxv : partialCmp x v = some .lt := by
                rw [partialCmp_swap v x, h₃]
                rfl
              have hxw : partialCmp x w = some .gt := by
                rw [partialCmp_swap w x, h₂, hwx']
                rfl
              exact partialCmp_ne_gt_of_lt hxv h₁ hvw hxw rfl
          | eq => exact hclash (clash_of_cycle hv hw hx (h₁.trans (congrArg some hvw'))
                (h₂.trans (congrArg some hwx')) h₃)

end Value

open Value

section Keys

variable {xs : List Value} {nullsFirst : Option Bool} {ascending : Bool} {a b c : Value}

theorem compareValuePair_values (ha : a ≠ .Null) (hb : b ≠ .Null) :
    compareValuePair a b nullsFirst ascending = if ascending then orderOf a b else (orderOf a b).swap := by
  rw [compareValuePair, if_neg fun h => h.elim ha hb, Value.orderOf]
  cases a.partialCmp b with
  | none => cases ascending <;> rfl
  | some o => cases o <;> cases ascending <;> rfl

theorem compareValuePair_null_left (hb : b ≠ .Null) :
    compareValuePair .Null b nullsFirst ascending = if nullsFirst.getD !ascending then .lt else .gt := by
  rw [compareValuePair, if_pos (.inl rfl), if_neg fun h => hb h.2, decide_eq_true rfl]

theorem compareValuePair_null_right (ha : a ≠ .Null) :
    compareValuePair a .Null nullsFirst ascending = if nullsFirst.getD !ascending then .gt else .lt := by
  rw [compareValuePair, if_pos (.inr rfl), if_neg fun h => ha h.1, decide_eq_false ha]
  cases nullsFirst.getD !ascending <;> rfl

theorem totalOn_compareValuePair (h : TotalOn orderOf xs) (nullsFirst : Option Bool) (ascending : Bool) :
    TotalOn (fun a b => compareValuePair a b nullsFirst ascending) xs where
  refl a ha := by
    by_cases hnull : a = .Null
    · subst hnull
      rfl
    · rw [compareValuePair_values hnull hnull, h.refl a ha]
      cases ascending <;> rfl
  swap a ha b hb := by
    by_cases hnull : a = .Null <;> by_cases hnull' : b = .Null
    · subst hnull hnull'
      rfl
    · subst hnull
      rw [compareValuePair_null_left hnull', compareValuePair_null_right hnull']
      cases nullsFirst.getD !ascending <;> rfl
    · subst hnull'
      rw [compareValuePair_null_left hnull, compareValuePair_null_right hnull]
      cases nullsFirst.getD !ascending <;> rfl
    · rw [compareValuePair_values hnull hnull', compareValuePair_values hnull' hnull, orderOf_swap a b]
      cases ascending <;> rfl
  trans a ha b hb c hc := by
    by_cases hnull : a = .Null <;> by_cases hnull' : b = .Null <;> by_cases hnull'' : c = .Null
    · subst hnull hnull' hnull''
      exact fun _ h => h
    · subst hnull hnull'
      exact fun _ h => h
    · subst hnull hnull''
      exact fun _ _ hgt => nomatch hgt
    · subst hnull
      rw [compareValuePair_null_left hnull', compareValuePair_null_left hnull'']
      exact fun h _ => h
    · subst hnull' hnull''
      exact fun h _ => h
    · -- a null between two values is first or last
      subst hnull'
      rw [compareValuePair_null_right hnull, compareValuePair_null_left hnull'']
      cases nullsFirst.getD !ascending with
      | false => exact fun _ h => absurd rfl h
      | true => exact fun h _ => absurd rfl h
    · subst hnull''
      rw [compareValuePair_null_right hnull, compareValuePair_null_right hnull']
      exact fun _ h => h
    · rw [compareValuePair_values hnull hnull', compareValuePair_values hnull' hnull'',
        compareValuePair_values hnull hnull'']
      cases ascending with
      | true => exact h.trans a ha b hb c hc
      | false =>
          rw [if_neg Bool.false_ne_true, if_neg Bool.false_ne_true, if_neg Bool.false_ne_true, ← orderOf_swap,
            ← orderOf_swap, ← orderOf_swap]
          exact fun hba hcb => h.trans c hc b hb a ha hcb hba

theorem compareKeys_cons (item : OrderByItem) (items : List OrderByItem) {as bs : List Value}
    (has : as.length = items.length + 1) (hbs : bs.length = items.length + 1) :
    compareKeys (item :: items) as bs =
      (compareValuePair (as.headD .Null) (bs.headD .Null) item.nullsFirst item.ascending).then
        (compareKeys items as.tail bs.tail) := by
  cases as with
  | nil => cases has
  | cons a as =>
      cases bs with
      | nil => cases hbs
      | cons b bs => rfl

def KeyedBy (xs : List Value) (items : List OrderByItem) (keys : List Value) : Prop :=
  keys.length = items.length ∧ ∀ v ∈ keys, v ∈ xs

theorem KeyedBy.cons {item : OrderByItem} {items : List OrderByItem} {keys : List Value}
    (h : KeyedBy xs (item :: items) keys) : keys.headD .Null ∈ xs ∧ KeyedBy xs items keys.tail := by
  obtain ⟨hlen, hmem⟩ := h
  cases keys with
  | nil => cases hlen
  | cons a keys =>
      exact ⟨hmem a List.mem_cons_self, Nat.succ.inj hlen, fun v hv => hmem v (List.mem_cons_of_mem a hv)⟩

theorem totalOn_compareKeys (h : TotalOn orderOf xs) {items : List OrderByItem} {rows : List (List Value)}
    (hrows : ∀ keys ∈ rows, KeyedBy xs items keys) : TotalOn (compareKeys items) rows := by
  induction items generalizing rows with
  | nil =>
      have heq : ∀ as bs, compareKeys [] as bs = .eq := fun as bs => rfl
      exact ⟨fun _ _ => heq _ _, fun _ _ _ _ => by rw [heq, heq]; rfl, fun _ _ _ _ _ _ _ _ => by rw [heq]; decide⟩
  | cons item items ih =>
      have hheads : ∀ v ∈ rows.map fun keys => keys.headD .Null, v ∈ xs := fun v hv => by
        obtain ⟨keys, hkeys, rfl⟩ := List.mem_map.mp hv
        exact (hrows keys hkeys).cons.1
      have hfirst := ((totalOn_compareValuePair h item.nullsFirst item.ascending).subset hheads).comap
      have hrest : TotalOn (compareKeys items) (rows.map List.tail) := ih fun keys hkeys => by
        obtain ⟨keys, hmem, rfl⟩ := List.mem_map.mp hkeys
        exact (hrows keys hmem).cons.2
      refine (hfirst.then hrest.comap).congr fun as has bs hbs => ?_
      exact (compareKeys_cons item items (hrows as has).1 (hrows bs hbs).1).symm

-- ORDER BY keys taken from the values sort the rows, and the selection of the
-- least rows finds the start of a sort.
def Sorts (xs : List Value) : Prop :=
  ∀ (ops : SortOps (List Value × Row)) (items : List OrderByItem) (count : Option Nat)
    (rows : List (List Value × Row)),
    (∀ p ∈ rows, KeyedBy xs items p.1) →
      ∃ ys rest, topN ops (compareKeyed items) count rows = some ys ∧ (ys ++ rest).Perm rows ∧
        Sorted (compareKeyed items) (ys ++ rest) ∧ ys.length = count.elim rows.length (min rows.length)

theorem sorting_sound_iff (xs : List Value) (hnan : ∀ v ∈ xs, v.isNaN = false) :
    ((∀ nullsFirst ascending, TotalOn (fun a b => compareValuePair a b nullsFirst ascending) xs) ∧
        TotalOn orderOf xs ∧ Sorts xs) ↔
      ¬Clash xs := by
  constructor
  · exact fun h => (totalOn_orderOf_iff hnan).mp h.2.1
  · intro hclash
    have htotal := (totalOn_orderOf_iff hnan).mpr hclash
    refine ⟨totalOn_compareValuePair htotal, htotal, fun ops items count rows hrows => ?_⟩
    have hkeys : TotalOn (compareKeys items) (rows.map Prod.fst) :=
        totalOn_compareKeys htotal fun keys hkeys => by
      obtain ⟨p, hp, rfl⟩ := List.mem_map.mp hkeys
      exact hrows p hp
    exact topN_prefix ops hkeys.comap count

theorem sorting_sound_sample : Sorts [.Integer 1, .Real 0x3FF0000000000000, .Text "a", .Null] := by
  refine ((sorting_sound_iff [.Integer 1, .Real 0x3FF0000000000000, .Text "a", .Null] ?_).mpr ?_).2.2
  · simp [Value.isNaN]
    decide
  · rintro ⟨a, b, r, ha, hb, -, hlt, -⟩
    have ha' : a = 1 := by simpa using ha
    have hb' : b = 1 := by simpa using hb
    rw [ha', hb'] at hlt
    exact lt_irrefl _ hlt

-- 2^53 and 2^53 + 1 are both equal to the real 2^53, and not to each other.
theorem rounding_breaks_order :
    ¬∀ xs : List Value, (∀ v ∈ xs, v.isNaN = false) →
      (∀ nullsFirst ascending, TotalOn (fun a b => compareValuePair a b nullsFirst ascending) xs) ∧
        TotalOn orderOf xs := by
  intro h
  have htotal := (h [.Integer 9007199254740993, .Real 0x4340000000000000, .Integer 9007199254740992] (by
    intro v hv
    simp only [List.mem_cons, List.not_mem_nil, or_false] at hv
    rcases hv with rfl | rfl | rfl <;> decide)).2
  have htrans := htotal.trans (.Integer 9007199254740993) (by simp) (.Real 0x4340000000000000) (by simp)
    (.Integer 9007199254740992) (by simp) (by decide) (by decide)
  exact htrans (by decide)

end Keys

end Kkdb
