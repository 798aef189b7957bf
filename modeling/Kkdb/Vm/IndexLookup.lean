import Kkdb.Vm.IndexCache

namespace Kkdb

open Lib

section Keys

variable {v k : Value}

def Value.double : Value → Option UInt64
  | .Integer v => some (Double.ofInt64 v)
  | .Real bits => some bits
  | _ => none

-- Two integers that are rounded to one double have one key.
def FalseHit (v k : Value) : Prop :=
  ∃ a b, v = .Integer a ∧ k = .Integer b ∧ a ≠ b ∧ Double.ofInt64 a = Double.ofInt64 b

-- The two zeros are equal and have different keys.
def FalseMiss (v k : Value) : Prop :=
  ∃ s, v.double.bind Double.zeroSign = some s ∧ k.double.bind Double.zeroSign = some (!s)

theorem numberKey_inj {a b : UInt64} : (0x4E :: leBytes 8 a.toNat : List UInt8) = 0x4E :: leBytes 8 b.toNat ↔
    a = b := by
  constructor
  · intro h
    have hnat := congrArg leNat (List.cons.inj h).2
    rw [leNat_leBytes_of_lt a.toNat_lt, leNat_leBytes_of_lt b.toNat_lt] at hnat
    exact UInt64.toNat_inj.mp hnat
  · rintro rfl
    rfl

theorem not_falseMiss_self : ¬FalseMiss v v := by
  rintro ⟨s, hs, hs'⟩
  rw [hs] at hs'
  cases s <;> cases hs'

theorem doubleKey_iff {a b : UInt64} (ha : Double.isNaN a = false) (hb : Double.isNaN b = false) :
    a = b ↔ Double.eq a b = true ∧ ¬∃ s, Double.zeroSign a = some s ∧ Double.zeroSign b = some (!s) := by
  rw [Double.eq_iff_rank_eq, Double.eq, ha, hb]
  simp

theorem indexEqKey_eq_iff (hv : v.isNaN = false) (hk : k.isNaN = false) :
    indexEqKey v = indexEqKey k ↔ FalseHit v k ∨ v.eq k = true ∧ ¬FalseMiss v k := by
  have hhit : (∀ a b, ¬(v = .Integer a ∧ k = .Integer b)) → ¬FalseHit v k := by
    rintro h ⟨a, b, hva, hkb, -⟩
    exact h a b ⟨hva, hkb⟩
  cases v <;> cases k
  case Integer.Integer a b =>
    rw [indexEqKey, indexEqKey, numberKey_inj]
    constructor
    · intro h
      by_cases hab : a = b
      · subst hab
        exact .inr ⟨decide_eq_true rfl, not_falseMiss_self⟩
      · exact .inl ⟨a, b, rfl, rfl, hab, h⟩
    · rintro (⟨a', b', ha, hb, -, h⟩ | ⟨h, -⟩)
      · cases ha
        cases hb
        exact h
      · rw [of_decide_eq_true h]
  case Integer.Real a b =>
    rw [or_iff_right (hhit (by simp)), indexEqKey, indexEqKey, numberKey_inj]
    exact doubleKey_iff (Double.isNaN_ofInt64 a) hk
  case Real.Integer a b =>
    rw [or_iff_right (hhit (by simp)), indexEqKey, indexEqKey, numberKey_inj]
    exact doubleKey_iff hv (Double.isNaN_ofInt64 b)
  case Real.Real a b =>
    rw [or_iff_right (hhit (by simp)), indexEqKey, indexEqKey, numberKey_inj]
    exact doubleKey_iff hv hk
  case Text.Text a b =>
    rw [or_iff_right (hhit (by simp)), indexEqKey, indexEqKey, List.cons_inj_right, textBytes_inj]
    simp [Value.eq, FalseMiss, Value.double]
  case Blob.Blob a b =>
    rw [or_iff_right (hhit (by simp))]
    simp [indexEqKey, Value.eq, FalseMiss, Value.double]
  case Null.Null => simp [Value.eq, FalseMiss, Value.double]
  all_goals
    rw [or_iff_right (hhit (by simp))]
    simp [indexEqKey, Value.eq]

end Keys

section Loading

variable {es : List (Int64 × Row)}

def cachedPairs (es : List (Int64 × Row)) : List (Value × Int64) := es.filterMap fun e => cachedPair e.2

theorem cachedPairs_cons (e : Int64 × Row) (es : List (Int64 × Row)) :
    cachedPairs (e :: es) = (cachedPair e.2).toList ++ cachedPairs es := by
  rw [cachedPairs, List.filterMap_cons, cachedPairs]
  cases cachedPair e.2 <;> rfl

theorem mem_eqMap_foldl (es : List (Int64 × Row)) (caches : IndexCaches) (key : List UInt8) (rid : Int64) :
    rid ∈ lookupD (es.foldl loadEntry caches).eqMap key [] ↔
      rid ∈ lookupD caches.eqMap key [] ∨ ∃ v, (v, rid) ∈ cachedPairs es ∧ indexEqKey v = key := by
  induction es generalizing caches with
  | nil => simp [cachedPairs]
  | cons e es ih =>
      rw [List.foldl_cons, ih, cachedPairs_cons, loadEntry]
      cases hpair : cachedPair e.2 with
      | none => rfl
      | some pair =>
          dsimp only
          rw [lookupD_put]
          simp only [Option.toList_some, List.cons_append, List.nil_append, List.mem_cons]
          by_cases hkey : key = indexEqKey pair.1
          · rw [if_pos hkey, hkey, List.mem_append, List.mem_singleton, or_assoc]
            refine or_congr_right ?_
            constructor
            · rintro (rfl | ⟨v, hv, heq⟩)
              · exact ⟨pair.1, .inl rfl, rfl⟩
              · exact ⟨v, .inr hv, heq⟩
            · rintro ⟨v, rfl | hv, heq⟩
              · exact .inl rfl
              · exact .inr ⟨v, hv, heq⟩
          · rw [if_neg hkey]
            refine or_congr_right ⟨fun ⟨v, hv, heq⟩ => ⟨v, .inr hv, heq⟩, ?_⟩
            rintro ⟨v, rfl | hv, heq⟩
            · exact absurd heq.symm hkey
            · exact ⟨v, hv, heq⟩

theorem mem_eqMap_load (es : List (Int64 × Row)) (key : List UInt8) (rid : Int64) :
    rid ∈ lookupD (loadEntries es).eqMap key [] ↔ ∃ v, (v, rid) ∈ cachedPairs es ∧ indexEqKey v = key := by
  rw [loadEntries, mem_eqMap_foldl]
  exact or_iff_right List.not_mem_nil

theorem ordered_foldl (es : List (Int64 × Row)) (caches : IndexCaches) :
    (es.foldl loadEntry caches).ordered =
      caches.ordered ++ (cachedPairs es).filter fun e => valueHasTotalOrder e.1 := by
  induction es generalizing caches with
  | nil => exact (List.append_nil _).symm
  | cons e es ih =>
      rw [List.foldl_cons, ih, cachedPairs_cons, List.filter_append, ← List.append_assoc, loadEntry]
      congr 1
      cases hpair : cachedPair e.2 with
      | none => exact (List.append_nil _).symm
      | some pair =>
          dsimp only
          rw [Option.toList_some, List.filter_cons]
          split_ifs
          · rfl
          · exact (List.append_nil _).symm

theorem ordered_load (es : List (Int64 × Row)) :
    (loadEntries es).ordered = (cachedPairs es).filter fun e => valueHasTotalOrder e.1 := by
  rw [loadEntries, ordered_foldl]
  rfl

end Loading

section Order

variable {v k lo hi : Value}

theorem partialCmp_eq_some (hv : v.isNaN = false) (hk : k.isNaN = false) :
    v.partialCmp k = some (cmpValueTotal v k) := by
  obtain ⟨o, ho⟩ := Option.isSome_iff_exists.mp (Value.isSome_partialCmp hv hk)
  rw [cmpValueTotal, ho]
  rfl

theorem valueHasTotalOrder_of_notNaN (hv : v.isNaN = false) : valueHasTotalOrder v = true :=
  Value.isSome_partialCmp hv hv

theorem cmpValueTotal_null (hk : k ≠ .Null) : cmpValueTotal .Null k = .lt := by
  cases k <;> first | rfl | exact absurd rfl hk

theorem eq_null_of_cmpValueTotal (h : cmpValueTotal v .Null ≠ .gt) : v = .Null := by
  cases v <;> first | rfl | exact absurd rfl h

theorem cmpEntries_swap {x y : Value × Int64} (hx : x.1.isNaN = false) (hy : y.1.isNaN = false) :
    cmpEntries y x = (cmpEntries x y).swap := by
  have hcmp : cmpValueTotal y.1 x.1 = (cmpValueTotal x.1 y.1).swap := by
    have h := Value.partialCmp_swap x.1 y.1
    rw [partialCmp_eq_some hx hy, partialCmp_eq_some hy hx] at h
    exact Option.some.inj h
  unfold cmpEntries
  rw [hcmp]
  cases hxy : cmpValueTotal x.1 y.1 with
  | eq => exact Std.OrientedOrd.eq_swap
  | lt => rfl
  | gt => rfl

theorem eq_of_cmpEntries_eq {x y : Value × Int64} (h : cmpEntries x y = .eq) : x.2 = y.2 := by
  unfold cmpEntries at h
  split_ifs at h with heq
  · exact Int64.toInt_inj.mp (compare_eq_iff_eq.mp h)
  · exact absurd h heq

theorem null_of_cmpEntries_lt {x y : Value × Int64} (h : cmpEntries x y = .lt) (hy : y.1 = .Null) :
    x.1 = .Null := by
  refine eq_null_of_cmpValueTotal fun hgt => ?_
  rw [cmpEntries, hy, hgt] at h
  cases h

end Order

def Lookup.Holds : Lookup → Value → Prop
  | .Eq k, v => v ≠ .Null ∧ k ≠ .Null ∧ v.eq k = true
  | .In ks, v => v ≠ .Null ∧ ∃ k ∈ ks, k ≠ .Null ∧ v.eq k = true
  | .Comparison .LessThan k, v => v ≠ .Null ∧ k ≠ .Null ∧ v.partialCmp k = some .lt
  | .Comparison .LessThanOrEqual k, v => v ≠ .Null ∧ k ≠ .Null ∧ (v.partialCmp k).any (· ≠ .gt) = true
  | .Comparison .GreaterThan k, v => v ≠ .Null ∧ k ≠ .Null ∧ v.partialCmp k = some .gt
  | .Comparison .GreaterThanOrEqual k, v => v ≠ .Null ∧ k ≠ .Null ∧ (v.partialCmp k).any (· ≠ .lt) = true
  | .Comparison _ _, _ => False
  | .Between lo hi, v => v ≠ .Null ∧ lo ≠ .Null ∧ hi ≠ .Null ∧
      (v.partialCmp lo).any (· ≠ .lt) = true ∧ (v.partialCmp hi).any (· ≠ .gt) = true

def columnPairs (rows : List (Int64 × Row)) (position : Nat) : List (Value × Int64) :=
  rows.map fun r => (r.2.getD position .Null, r.1)

structure Describes (pairs : List (Value × Int64)) (caches : IndexCaches) : Prop where
  eqMap : ∀ key rid, rid ∈ lookupD caches.eqMap key [] ↔ ∃ v, (v, rid) ∈ pairs ∧ indexEqKey v = key
  perm : caches.ordered.Perm pairs
  sorted : caches.ordered.Pairwise fun x y => cmpEntries x y ≠ .gt

-- A column of a table with an index on it that has one entry for each row. The name of the
-- column leads the evaluator and the index to one position of the row.
structure IndexedColumn (env : EvalEnv) where
  columns : List String
  rows : List (Int64 × Row)
  indexes : List TableIndex
  table : Option String
  column : String
  position : Nat
  index : TableIndex
  keyPositions : List Nat
  rowids : (rows.map Prod.fst).Nodup
  found : indexes.find? (startsWith column) = some index
  resolves : ∀ row, env.columnRef table column row (buildColMap columns) = .ok (row.getD position .Null)
  key : keyPositions.head? = some position
  entries : (index.entries.map Prod.snd).Perm
    (rows.map fun r => (keyPositions.map fun i => r.2.getD i .Null) ++ [.Integer r.1])
  notNaN : ∀ r ∈ rows, (r.2.getD position .Null).isNaN = false
  cached : ∀ caches, index.caches = some caches → Describes (columnPairs rows position) caches

namespace IndexedColumn

variable {env : EvalEnv} (col : IndexedColumn env)

def pairs : List (Value × Int64) := columnPairs col.rows col.position

-- The cache is loaded already, or the sort that loads it is given a total order.
def Loads : Prop := col.index.caches = none → TotalOn cmpEntries col.pairs

-- No row that the test leaves out is sorted before one that it takes.
def NoSplit (p : Value → Bool) : Prop :=
  ∀ x ∈ col.pairs, ∀ y ∈ col.pairs, cmpEntries x y = .lt → p y.1 = true → p x.1 = true

def below (k v : Value) : Bool := cmpValueTotal v k = .lt

def atMost (k v : Value) : Bool := cmpValueTotal v k ≠ .gt

-- The index answers the lookup as the evaluator does.
def Faithful : Lookup → Prop
  | .Eq k => k = .Null ∨ col.Loads ∧ ∀ e ∈ col.pairs, ¬FalseHit e.1 k ∧ ¬FalseMiss e.1 k
  | .In ks => ks = [] ∨ col.Loads ∧ ∀ e ∈ col.pairs,
      ((∃ k ∈ ks, FalseHit e.1 k) → ∃ k ∈ ks, e.1.eq k = true) ∧
      ((∃ k ∈ ks, FalseMiss e.1 k) → ∃ k ∈ ks, e.1.eq k = true ∧ ¬FalseMiss e.1 k)
  | .Comparison .LessThan k => k = .Null ∨
      col.Loads ∧ (∀ e ∈ col.pairs, e.1 ≠ .Null) ∧ col.NoSplit (below k)
  | .Comparison .LessThanOrEqual k => k = .Null ∨
      col.Loads ∧ (∀ e ∈ col.pairs, e.1 ≠ .Null) ∧ col.NoSplit (atMost k)
  | .Comparison .GreaterThan k => k = .Null ∨ col.Loads ∧ col.NoSplit (atMost k)
  | .Comparison .GreaterThanOrEqual k => k = .Null ∨ col.Loads ∧ col.NoSplit (below k)
  | .Comparison _ _ => False
  | .Between lo hi => lo = .Null ∨ hi = .Null ∨
      if cmpValueTotal lo hi = .gt then ∀ e ∈ col.pairs, atMost hi e.1 = true → below lo e.1 = true
      else col.Loads ∧ col.NoSplit (below lo) ∧ col.NoSplit (atMost hi)

theorem mem_pairs {e : Value × Int64} :
    e ∈ col.pairs ↔ ∃ row, (e.2, row) ∈ col.rows ∧ e.1 = row.getD col.position .Null := by
  rw [pairs, columnPairs, List.mem_map]
  constructor
  · rintro ⟨r, hr, rfl⟩
    exact ⟨r.2, hr, rfl⟩
  · rintro ⟨row, hrow, heq⟩
    exact ⟨_, hrow, by rw [← heq]⟩

theorem pairs_notNaN {e : Value × Int64} (he : e ∈ col.pairs) : e.1.isNaN = false := by
  obtain ⟨row, hrow, heq⟩ := col.mem_pairs.mp he
  rw [heq]
  exact col.notNaN _ hrow

theorem pairs_nodup : (col.pairs.map Prod.snd).Nodup := by
  have h : col.pairs.map Prod.snd = col.rows.map Prod.fst := by
    rw [pairs, columnPairs, List.map_map]
    rfl
  rw [h]
  exact col.rowids

theorem eq_of_mem_pairs {v w : Value} {rid : Int64} (hv : (v, rid) ∈ col.pairs)
    (hw : (w, rid) ∈ col.pairs) : v = w :=
  congrArg Prod.fst (List.inj_on_of_nodup_map col.pairs_nodup hv hw rfl)

theorem cachedPairs_perm : (cachedPairs col.index.entries).Perm col.pairs := by
  have hmap : cachedPairs col.index.entries = (col.index.entries.map Prod.snd).filterMap cachedPair := by
    rw [List.filterMap_map]
    rfl
  rw [hmap]
  refine (col.entries.filterMap cachedPair).trans (List.Perm.of_eq ?_)
  obtain ⟨rest, hrest⟩ : ∃ rest, col.keyPositions = col.position :: rest := by
    have hkey := col.key
    cases hkeys : col.keyPositions with
    | nil =>
        rw [hkeys] at hkey
        cases hkey
    | cons p rest =>
        rw [hkeys] at hkey
        exact ⟨rest, by rw [Option.some.inj hkey]⟩
  rw [hrest, List.filterMap_map, pairs, columnPairs, ← List.filterMap_eq_map]
  refine List.filterMap_congr fun r _ => ?_
  have hlast : ∀ vs : List Value, (vs ++ [Value.Integer r.1]).getLast? = some (.Integer r.1) := fun vs =>
    List.getLast?_concat ..
  simp only [Function.comp, cachedPair]
  rw [hlast, if_neg (by simp)]
  rfl

theorem cmpEntries_swap_pairs : ∀ x ∈ col.pairs, ∀ y ∈ col.pairs,
    cmpEntries y x = (cmpEntries x y).swap := fun _ hx _ hy =>
  cmpEntries_swap (col.pairs_notNaN hx) (col.pairs_notNaN hy)

section Caches

variable {std : EntryOps} {caches : IndexCaches}

theorem ordered_perm : (loadEntries col.index.entries).ordered.Perm col.pairs := by
  rw [ordered_load, List.filter_eq_self.mpr]
  · exact col.cachedPairs_perm
  · intro e he
    exact valueHasTotalOrder_of_notNaN (col.pairs_notNaN (col.cachedPairs_perm.mem_iff.mp he))

theorem totalOn_perm {xs ys : List (Value × Int64)} (hperm : xs.Perm ys) (h : TotalOn cmpEntries ys) :
    TotalOn cmpEntries xs where
  refl := fun x hx => h.refl x (hperm.mem_iff.mp hx)
  swap := fun x hx y hy => h.swap x (hperm.mem_iff.mp hx) y (hperm.mem_iff.mp hy)
  trans := fun x hx y hy z hz =>
    h.trans x (hperm.mem_iff.mp hx) y (hperm.mem_iff.mp hy) z (hperm.mem_iff.mp hz)

theorem ensure_ok (std : EntryOps) (h : col.Loads) :
    ∃ caches, ensureIndexCacheLoaded std col.index = .ok caches ∧ Describes col.pairs caches := by
  unfold ensureIndexCacheLoaded
  cases hcaches : col.index.caches with
  | some caches => exact ⟨caches, rfl, col.cached caches hcaches⟩
  | none =>
      obtain ⟨ys, hsort, hsorted⟩ := std.sorts cmpEntries _ (totalOn_perm col.ordered_perm (h hcaches))
      rw [hsort]
      refine ⟨_, rfl, ?_, (std.perm _ _ _ hsort).trans col.ordered_perm, hsorted⟩
      intro key rid
      refine (mem_eqMap_load col.index.entries key rid).trans (exists_congr fun v => and_congr_left fun _ => ?_)
      exact col.cachedPairs_perm.mem_iff

-- A library that panics where it may does so if the entries have no total order.
theorem loads_of_ok {answer : (Value × Int64 → Bool) → Prop}
    (h : ensureIndexCacheLoaded (SliceOps.strict answer) col.index = .ok caches) : col.Loads := by
  intro hnone
  by_contra htotal
  have hsort : (SliceOps.strict answer).sortUnstableBy cmpEntries
      (loadEntries col.index.entries).ordered = none :=
    if_neg fun h' => htotal (totalOn_perm col.ordered_perm.symm h')
  unfold ensureIndexCacheLoaded at h
  rw [hnone] at h
  dsimp only at h
  rw [hsort] at h
  cases h

theorem partitioned_ordered (h : Describes col.pairs caches) (p : Value → Bool) :
    Partitioned (fun e => p e.1) caches.ordered ↔ col.NoSplit p := by
  refine partitioned_iff col.cmpEntries_swap_pairs h.perm h.sorted ?_
  have hnodup : (caches.ordered.map Prod.snd).Nodup := (h.perm.map Prod.snd).nodup_iff.mpr col.pairs_nodup
  exact (List.pairwise_map.mp hnodup).imp fun hne heq => hne (eq_of_cmpEntries_eq heq)

theorem mem_map_filter (h : Describes col.pairs caches) (q : Value × Int64 → Bool) (rid : Int64) :
    rid ∈ (caches.ordered.filter q).map Prod.snd ↔ ∃ v, (v, rid) ∈ col.pairs ∧ q (v, rid) = true := by
  rw [List.mem_map]
  constructor
  · rintro ⟨e, he, rfl⟩
    rw [List.mem_filter] at he
    exact ⟨e.1, h.perm.mem_iff.mp he.1, he.2⟩
  · rintro ⟨v, hv, hq⟩
    exact ⟨(v, rid), List.mem_filter.mpr ⟨h.perm.mem_iff.mpr hv, hq⟩, rfl⟩

end Caches

-- The lookup returns the rows whose value passes it, whatever sorting and searching do where
-- nothing is promised of them.
def Right (lookup : Lookup) : Prop :=
  ∀ std : EntryOps, ∃ rowids, lookupRowids std col.index lookup = .ok rowids ∧
    ∀ rid, rid ∈ rowids ↔ ∃ v, (v, rid) ∈ col.pairs ∧ lookup.Holds v

theorem loads_of_right (read : EntryOps → IndexCaches → Res (List Int64)) (q : Value → Prop)
    (h : ∀ std : EntryOps, ∃ rowids, (ensureIndexCacheLoaded std col.index >>= read std) = .ok rowids ∧
      ∀ rid, rid ∈ rowids ↔ ∃ v, (v, rid) ∈ col.pairs ∧ q v) : col.Loads := by
  obtain ⟨rowids, hok, -⟩ := h (SliceOps.strict fun _ => False)
  cases hload : ensureIndexCacheLoaded (SliceOps.strict fun _ => False) col.index with
  | ok caches => exact col.loads_of_ok hload
  | error e =>
      rw [hload] at hok
      cases hok

section Values

variable {k : Value}

theorem holds_of_rid {q : Value → Prop} {v : Value} {rid : Int64} (hv : (v, rid) ∈ col.pairs) :
    (∃ w, (w, rid) ∈ col.pairs ∧ q w) ↔ q v :=
  ⟨fun ⟨_, hw, hq⟩ => col.eq_of_mem_pairs hw hv ▸ hq, fun hq => ⟨v, hv, hq⟩⟩

theorem not_eq_of_falseHit {v : Value} (h : FalseHit v k) : ¬v.eq k = true := by
  obtain ⟨a, b, rfl, rfl, hne, -⟩ := h
  exact fun heq => hne (of_decide_eq_true heq)

theorem eq_of_falseMiss {v : Value} (hv : v.isNaN = false) (hk : k.isNaN = false) (h : FalseMiss v k) :
    v ≠ .Null ∧ k ≠ .Null ∧ v.eq k = true := by
  obtain ⟨s, hs, hs'⟩ := h
  have hzero : ∀ a b, Double.isNaN a = false → Double.isNaN b = false →
      Double.zeroSign a = some s → Double.zeroSign b = some (!s) → Double.eq a b = true := by
    intro a b ha hb hsa hsb
    have hmag : ∀ c s, Double.zeroSign c = some s → Double.magnitude c = 0 := by
      intro c s hc
      unfold Double.zeroSign at hc
      split_ifs at hc with hm
      exact hm
    rw [Double.eq, ha, hb, Double.rank_eq_zero (hmag a _ hsa), Double.rank_eq_zero (hmag b _ hsb)]
    rfl
  have hint : ∀ a b : Int64, Double.zeroSign (Double.ofInt64 a) = some s →
      Double.zeroSign (Double.ofInt64 b) = some (!s) → a = b := by
    intro a b hsa hsb
    have hmag : ∀ (c : Int64) s, Double.zeroSign (Double.ofInt64 c) = some s → c = 0 := by
      intro c s hc
      unfold Double.zeroSign at hc
      split_ifs at hc with hm
      exact Double.magnitude_ofInt64_eq_zero.mp hm
    rw [hmag a _ hsa, hmag b _ hsb]
  cases v <;> cases k <;> first | cases hs | cases hs' | skip
  case Integer.Integer a b => exact ⟨by simp, by simp, decide_eq_true (hint a b hs hs')⟩
  case Integer.Real a b => exact ⟨by simp, by simp, hzero _ _ (Double.isNaN_ofInt64 a) hk hs hs'⟩
  case Real.Integer a b => exact ⟨by simp, by simp, hzero _ _ hv (Double.isNaN_ofInt64 b) hs hs'⟩
  case Real.Real a b => exact ⟨by simp, by simp, hzero _ _ hv hk hs hs'⟩

-- Two integers that share a double are not zeros of different signs.
theorem not_falseHit_of_falseMiss {w : Value} {v : Value} (h : FalseMiss v k) : ¬FalseHit v w := by
  rintro ⟨a, b, rfl, -, hne, hsame⟩
  obtain ⟨s, hs, -⟩ := h
  have hmag : Double.magnitude (Double.ofInt64 a) = 0 := by
    simp only [Value.double, Option.bind_some, Double.zeroSign] at hs
    split_ifs at hs with hm
    exact hm
  have hb : b = 0 := Double.magnitude_ofInt64_eq_zero.mp (hsame ▸ hmag)
  exact hne ((Double.magnitude_ofInt64_eq_zero.mp hmag).trans hb.symm)

theorem right_eq_iff (hk : k.isNaN = false) : col.Right (.Eq k) ↔ col.Faithful (.Eq k) := by
  by_cases hnull : k = .Null
  · refine iff_of_true (fun std => ⟨[], if_pos hnull, fun rid => ?_⟩) (.inl hnull)
    exact iff_of_false List.not_mem_nil fun ⟨_, _, hholds⟩ => hholds.2.1 hnull
  rw [Faithful, or_iff_right hnull]
  unfold Right lookupRowids
  simp only [if_neg hnull]
  constructor
  · intro h
    have hloads := col.loads_of_right _ _ h
    refine ⟨hloads, fun e he => ?_⟩
    obtain ⟨rowids, hok, hmem⟩ := h (SliceOps.counting _)
    obtain ⟨caches, hload, hdesc⟩ := col.ensure_ok (SliceOps.counting _) hloads
    rw [indexRowidsForValue, hload] at hok
    cases hok
    have hboth : indexEqKey e.1 = indexEqKey k ↔ e.1 ≠ .Null ∧ k ≠ .Null ∧ e.1.eq k = true := by
      rw [← col.holds_of_rid (q := fun v => indexEqKey v = indexEqKey k) he, ← hdesc.eqMap]
      exact (hmem e.2).trans (col.holds_of_rid he)
    rw [indexEqKey_eq_iff (col.pairs_notNaN he) hk] at hboth
    refine ⟨fun hhit => not_eq_of_falseHit hhit (hboth.mp (.inl hhit)).2.2, fun hmiss => ?_⟩
    rcases hboth.mpr (eq_of_falseMiss (col.pairs_notNaN he) hk hmiss) with hhit | ⟨_, hnot⟩
    · exact not_eq_of_falseHit hhit (eq_of_falseMiss (col.pairs_notNaN he) hk hmiss).2.2
    · exact hnot hmiss
  · rintro ⟨hloads, hfaith⟩ std
    obtain ⟨caches, hload, hdesc⟩ := col.ensure_ok std hloads
    refine ⟨_, by rw [indexRowidsForValue, hload]; rfl, fun rid => ?_⟩
    rw [hdesc.eqMap]
    refine exists_congr fun v => and_congr_right fun hv => ?_
    rw [indexEqKey_eq_iff (col.pairs_notNaN hv) hk, or_iff_right (hfaith _ hv).1,
      and_iff_left (hfaith _ hv).2]
    constructor
    · intro heq
      refine ⟨?_, hnull, heq⟩
      rintro rfl
      cases k <;> first | exact hnull rfl | cases heq
    · exact fun h => h.2.2

theorem mem_foldl_once (rowids out : List Int64) (rid : Int64) :
    rid ∈ rowids.foldl (fun out rid => if rid ∈ out then out else out ++ [rid]) out ↔
      rid ∈ out ∨ rid ∈ rowids := by
  induction rowids generalizing out with
  | nil => simp
  | cons r rowids ih =>
      rw [List.foldl_cons, ih, List.mem_cons, ← or_assoc]
      refine or_congr_left ?_
      split_ifs with hr
      · exact (or_iff_left_of_imp fun heq => heq ▸ hr).symm
      · rw [List.mem_append, List.mem_singleton]

theorem collectRowids_ok {std : EntryOps} {caches : IndexCaches}
    (hload : ensureIndexCacheLoaded std col.index = .ok caches) (hdesc : Describes col.pairs caches)
    (ks : List Value) (out : List Int64) :
    ∃ rowids, collectRowids std col.index ks out = .ok rowids ∧ ∀ rid, rid ∈ rowids ↔
      rid ∈ out ∨ ∃ v, (v, rid) ∈ col.pairs ∧ ∃ k ∈ ks, indexEqKey v = indexEqKey k := by
  induction ks generalizing out with
  | nil => exact ⟨out, rfl, fun rid => by simp⟩
  | cons k ks ih =>
      obtain ⟨rowids, hok, hmem⟩ := ih ((lookupD caches.eqMap (indexEqKey k) []).foldl
        (fun out rid => if rid ∈ out then out else out ++ [rid]) out)
      refine ⟨rowids, ?_, fun rid => ?_⟩
      · rw [collectRowids, indexRowidsForValue, hload]
        exact hok
      · rw [hmem, mem_foldl_once, hdesc.eqMap, or_assoc]
        refine or_congr_right ?_
        rw [← exists_or]
        refine exists_congr fun v => ?_
        rw [List.exists_mem_cons_iff, and_or_left]

theorem right_in_iff {ks : List Value} (hnull : ∀ k ∈ ks, k ≠ .Null) (hnan : ∀ k ∈ ks, k.isNaN = false) :
    col.Right (.In ks) ↔ col.Faithful (.In ks) := by
  by_cases hnil : ks = []
  · refine iff_of_true (fun std => ⟨[], if_pos hnil, fun rid => ?_⟩) (.inl hnil)
    refine iff_of_false List.not_mem_nil ?_
    rintro ⟨_, _, _, k, hk, -⟩
    rw [hnil] at hk
    cases hk
  rw [Faithful, or_iff_right hnil]
  have hloads_iff : col.Right (.In ks) → col.Loads := by
    intro h
    obtain ⟨k, ks', rfl⟩ := List.exists_cons_of_ne_nil hnil
    refine col.loads_of_right (fun std caches =>
      collectRowids std col.index ks' ((lookupD caches.eqMap (indexEqKey k) []).foldl
        (fun out rid => if rid ∈ out then out else out ++ [rid]) [])) (Lookup.In (k :: ks')).Holds
      fun std => ?_
    obtain ⟨rowids, hok, hmem⟩ := h std
    refine ⟨rowids, ?_, hmem⟩
    rw [lookupRowids, if_neg (List.cons_ne_nil _ _), collectRowids, indexRowidsForValue, bind_assoc] at hok
    exact hok
  have hiff : ∀ e ∈ col.pairs, ((∃ k ∈ ks, indexEqKey e.1 = indexEqKey k) ↔ (Lookup.In ks).Holds e.1) ↔
      ((∃ k ∈ ks, FalseHit e.1 k) → ∃ k ∈ ks, e.1.eq k = true) ∧
      ((∃ k ∈ ks, FalseMiss e.1 k) → ∃ k ∈ ks, e.1.eq k = true ∧ ¬FalseMiss e.1 k) := by
    intro e he
    have hholds : (Lookup.In ks).Holds e.1 ↔ ∃ k ∈ ks, e.1.eq k = true := by
      constructor
      · rintro ⟨-, k, hk, -, heq⟩
        exact ⟨k, hk, heq⟩
      · rintro ⟨k, hk, heq⟩
        refine ⟨?_, k, hk, hnull k hk, heq⟩
        intro hv
        rw [hv] at heq
        have hkn := hnull k hk
        cases k <;> first | exact hkn rfl | cases heq
    have hkeys : ∀ k ∈ ks, (indexEqKey e.1 = indexEqKey k ↔
        FalseHit e.1 k ∨ e.1.eq k = true ∧ ¬FalseMiss e.1 k) := fun k hk =>
      indexEqKey_eq_iff (col.pairs_notNaN he) (hnan k hk)
    rw [hholds]
    constructor
    · intro h
      refine ⟨?_, ?_⟩
      · rintro ⟨k, hk, hhit⟩
        exact h.mp ⟨k, hk, (hkeys k hk).mpr (.inl hhit)⟩
      · rintro ⟨k, hk, hmiss⟩
        obtain ⟨k', hk', hkey⟩ := h.mpr ⟨k, hk, (eq_of_falseMiss (col.pairs_notNaN he) (hnan k hk) hmiss).2.2⟩
        rcases (hkeys k' hk').mp hkey with hhit | hok
        · exact absurd hhit (not_falseHit_of_falseMiss hmiss)
        · exact ⟨k', hk', hok⟩
    · rintro ⟨hhits, hmisses⟩
      constructor
      · rintro ⟨k, hk, hkey⟩
        rcases (hkeys k hk).mp hkey with hhit | hok
        · exact hhits ⟨k, hk, hhit⟩
        · exact ⟨k, hk, hok.1⟩
      · rintro ⟨k, hk, heq⟩
        by_cases hmiss : FalseMiss e.1 k
        · obtain ⟨k', hk', hok⟩ := hmisses ⟨k, hk, hmiss⟩
          exact ⟨k', hk', (hkeys k' hk').mpr (.inr hok)⟩
        · exact ⟨k, hk, (hkeys k hk).mpr (.inr ⟨heq, hmiss⟩)⟩
  constructor
  · intro h
    have hloads := hloads_iff h
    refine ⟨hloads, fun e he => (hiff e he).mp ?_⟩
    obtain ⟨rowids, hok, hmem⟩ := h (SliceOps.counting _)
    obtain ⟨caches, hload, hdesc⟩ := col.ensure_ok (SliceOps.counting _) hloads
    obtain ⟨rowids', hok', hmem'⟩ := col.collectRowids_ok hload hdesc ks []
    rw [lookupRowids, if_neg hnil, hok'] at hok
    cases hok
    rw [← col.holds_of_rid (q := fun v => ∃ k ∈ ks, indexEqKey v = indexEqKey k) he,
      ← col.holds_of_rid (q := (Lookup.In ks).Holds) he, ← hmem, hmem' e.2]
    exact (or_iff_right List.not_mem_nil).symm
  · rintro ⟨hloads, hfaith⟩ std
    obtain ⟨caches, hload, hdesc⟩ := col.ensure_ok std hloads
    obtain ⟨rowids, hok, hmem⟩ := col.collectRowids_ok hload hdesc ks []
    refine ⟨rowids, by rw [lookupRowids, if_neg hnil, hok], fun rid => ?_⟩
    rw [hmem, or_iff_right List.not_mem_nil]
    exact exists_congr fun v => and_congr_right fun hv => (hiff _ hv).mpr (hfaith _ hv)

end Values

section Ranges

variable {k lo hi : Value} {caches : IndexCaches}

theorem mem_take (std : EntryOps) (h : Describes col.pairs caches) {p : Value → Bool} (hp : col.NoSplit p)
    (rid : Int64) :
    rid ∈ (caches.ordered.take (std.partitionPoint caches.ordered fun e => p e.1)).map Prod.snd ↔
      ∃ v, (v, rid) ∈ col.pairs ∧ p v = true := by
  have hpart := (col.partitioned_ordered h p).mpr hp
  rw [std.partitions _ _ hpart, take_countP hpart]
  exact col.mem_map_filter h _ rid

theorem mem_drop (std : EntryOps) (h : Describes col.pairs caches) {p : Value → Bool} (hp : col.NoSplit p)
    (rid : Int64) :
    rid ∈ (caches.ordered.drop (std.partitionPoint caches.ordered fun e => p e.1)).map Prod.snd ↔
      ∃ v, (v, rid) ∈ col.pairs ∧ p v = false := by
  have hpart := (col.partitioned_ordered h p).mpr hp
  rw [std.partitions _ _ hpart, drop_countP hpart]
  exact (col.mem_map_filter h _ rid).trans (by simp)

open Classical in
theorem partitionPoint_strict (h : Describes col.pairs caches) {p : Value → Bool} (hp : ¬col.NoSplit p)
    (answer : (Value × Int64 → Bool) → Prop) :
    (SliceOps.strict answer).partitionPoint caches.ordered (fun e => p e.1) =
      if answer (fun e => p e.1) then caches.ordered.length else 0 :=
  if_neg fun hpart => hp ((col.partitioned_ordered h p).mp hpart)

theorem split_pair {p : Value → Bool} (hnull : p .Null = true) (hp : ¬col.NoSplit p) :
    ∃ x ∈ col.pairs, ∃ y ∈ col.pairs, p x.1 = false ∧ p y.1 = true ∧ y.1 ≠ .Null := by
  unfold NoSplit at hp
  push Not at hp
  obtain ⟨x, hx, y, hy, hlt, hpy, hpx⟩ := hp
  refine ⟨x, hx, y, hy, by simpa using hpx, hpy, fun hynull => hpx ?_⟩
  rw [null_of_cmpEntries_lt hlt hynull]
  exact hnull

-- A search whose answer is a prefix of the sorted entries takes the null rows too.
theorem prefix_right_iff {p : Value → Bool} (hnull : p .Null = true) :
    (∀ std : EntryOps, ∃ rowids, (ensureIndexCacheLoaded std col.index >>= fun caches =>
        sliceTableRowids caches.ordered 0 (std.partitionPoint caches.ordered fun e => p e.1)) = .ok rowids ∧
      ∀ rid, rid ∈ rowids ↔ ∃ v, (v, rid) ∈ col.pairs ∧ (v ≠ .Null ∧ p v = true)) ↔
      col.Loads ∧ (∀ e ∈ col.pairs, e.1 ≠ .Null) ∧ col.NoSplit p := by
  have hslice : ∀ (std : EntryOps) (caches : IndexCaches), sliceTableRowids caches.ordered 0
      (std.partitionPoint caches.ordered fun e => p e.1) =
        .ok ((caches.ordered.take (std.partitionPoint caches.ordered fun e => p e.1)).map Prod.snd) :=
    fun std caches => if_pos ⟨Nat.zero_le _, std.inside _ _⟩
  constructor
  · intro h
    have hloads := col.loads_of_right _ _ h
    obtain ⟨caches, hload, hdesc⟩ := col.ensure_ok (SliceOps.strict fun _ => False) hloads
    obtain ⟨rowids, hok, hmem⟩ := h (SliceOps.strict fun _ => False)
    rw [hload] at hok
    have hrowids := Except.ok.inj ((hslice _ caches).symm.trans hok)
    have hsplit : col.NoSplit p := by
      by_contra hp
      obtain ⟨-, -, y, hy, -, hpy, hynull⟩ := col.split_pair hnull hp
      have hin := (hmem y.2).mpr ⟨y.1, hy, hynull, hpy⟩
      rw [← hrowids, col.partitionPoint_strict hdesc hp, if_neg id] at hin
      cases hin
    refine ⟨hloads, fun e he henull => ?_, hsplit⟩
    have hin := (col.mem_take (SliceOps.strict fun _ => False) hdesc hsplit e.2).mpr
      ⟨e.1, he, henull ▸ hnull⟩
    rw [hrowids, hmem] at hin
    exact ((col.holds_of_rid (q := fun v => v ≠ .Null ∧ p v = true) he).mp hin).1 henull
  · rintro ⟨hloads, hnonnull, hsplit⟩ std
    obtain ⟨caches, hload, hdesc⟩ := col.ensure_ok std hloads
    refine ⟨_, by rw [hload]; exact hslice std caches, fun rid => ?_⟩
    rw [col.mem_take std hdesc hsplit]
    refine exists_congr fun v => and_congr_right fun hv => ?_
    exact (and_iff_right (hnonnull _ hv)).symm

-- A search whose answer is a suffix leaves the null rows out.
theorem suffix_right_iff {p : Value → Bool} (hnull : p .Null = true) :
    (∀ std : EntryOps, ∃ rowids, (ensureIndexCacheLoaded std col.index >>= fun caches =>
        sliceTableRowids caches.ordered (std.partitionPoint caches.ordered fun e => p e.1)
          caches.ordered.length) = .ok rowids ∧
      ∀ rid, rid ∈ rowids ↔ ∃ v, (v, rid) ∈ col.pairs ∧ p v = false) ↔
      col.Loads ∧ col.NoSplit p := by
  have hslice : ∀ (std : EntryOps) (caches : IndexCaches), sliceTableRowids caches.ordered
      (std.partitionPoint caches.ordered fun e => p e.1) caches.ordered.length =
        .ok ((caches.ordered.drop (std.partitionPoint caches.ordered fun e => p e.1)).map Prod.snd) := by
    intro std caches
    rw [sliceTableRowids, if_pos ⟨std.inside _ _, le_rfl⟩, List.take_length]
  constructor
  · intro h
    have hloads := col.loads_of_right _ _ h
    obtain ⟨caches, hload, hdesc⟩ := col.ensure_ok (SliceOps.strict fun _ => False) hloads
    obtain ⟨rowids, hok, hmem⟩ := h (SliceOps.strict fun _ => False)
    rw [hload] at hok
    have hrowids := Except.ok.inj ((hslice _ caches).symm.trans hok)
    refine ⟨hloads, ?_⟩
    by_contra hp
    obtain ⟨-, -, y, hy, -, hpy, -⟩ := col.split_pair hnull hp
    have hin : y.2 ∈ rowids := by
      rw [← hrowids, col.partitionPoint_strict hdesc hp, if_neg id]
      exact List.mem_map.mpr ⟨y, hdesc.perm.mem_iff.mpr hy, rfl⟩
    rw [hmem, col.holds_of_rid (q := fun v => p v = false) hy, hpy] at hin
    cases hin
  · rintro ⟨hloads, hsplit⟩ std
    obtain ⟨caches, hload, hdesc⟩ := col.ensure_ok std hloads
    exact ⟨_, by rw [hload]; exact hslice std caches, col.mem_drop std hdesc hsplit⟩

def Comparator (op : BinaryOperator) : Prop :=
  op = .LessThan ∨ op = .LessThanOrEqual ∨ op = .GreaterThan ∨ op = .GreaterThanOrEqual

theorem right_comparison_iff {op : BinaryOperator} (hop : Comparator op) (hk : k.isNaN = false) :
    col.Right (.Comparison op k) ↔ col.Faithful (.Comparison op k) := by
  by_cases hnull : k = .Null
  · have hright : col.Right (.Comparison op k) := fun std => by
      refine ⟨[], if_pos hnull, fun rid => iff_of_false List.not_mem_nil ?_⟩
      rintro ⟨v, -, hholds⟩
      rcases hop with rfl | rfl | rfl | rfl <;> exact hholds.2.1 hnull
    refine iff_of_true hright ?_
    rcases hop with rfl | rfl | rfl | rfl <;> exact .inl hnull
  have hbelow : below k .Null = true := decide_eq_true (cmpValueTotal_null hnull)
  have hatMost : atMost k .Null = true := by
    rw [atMost, cmpValueTotal_null hnull]
    decide
  have hcmp : ∀ e ∈ col.pairs, e.1.partialCmp k = some (cmpValueTotal e.1 k) := fun e he =>
    partialCmp_eq_some (col.pairs_notNaN he) hk
  have hrun : ∀ std : EntryOps, lookupRowids std col.index (.Comparison op k) =
      ensureIndexCacheLoaded std col.index >>= fun caches => sliceTableRowids caches.ordered
        (rangeBoundsForComparison std caches.ordered op k).1
        (rangeBoundsForComparison std caches.ordered op k).2 := by
    intro std
    rw [lookupRowids, indexRowidsForComparison, if_neg hnull,
      if_neg (by rcases hop with rfl | rfl | rfl | rfl <;> decide),
      valueHasTotalOrder_of_notNaN hk]
    rfl
  unfold Right
  simp only [hrun]
  rcases hop with rfl | rfl | rfl | rfl
  · rw [Faithful, or_iff_right hnull, ← col.prefix_right_iff hbelow]
    refine forall_congr' fun std => exists_congr fun rowids => and_congr_right fun _ =>
      forall_congr' fun rid => iff_congr Iff.rfl (exists_congr fun v => and_congr_right fun hv => ?_)
    rw [Lookup.Holds, hcmp _ hv, and_iff_right hnull, below, decide_eq_true_iff, Option.some_inj]
  · rw [Faithful, or_iff_right hnull, ← col.prefix_right_iff hatMost]
    refine forall_congr' fun std => exists_congr fun rowids => and_congr_right fun _ =>
      forall_congr' fun rid => iff_congr Iff.rfl (exists_congr fun v => and_congr_right fun hv => ?_)
    rw [Lookup.Holds, hcmp _ hv, and_iff_right hnull]
    rfl
  · rw [Faithful, or_iff_right hnull, ← col.suffix_right_iff hatMost]
    refine forall_congr' fun std => exists_congr fun rowids => and_congr_right fun _ =>
      forall_congr' fun rid => iff_congr Iff.rfl (exists_congr fun v => and_congr_right fun hv => ?_)
    rw [Lookup.Holds, hcmp _ hv, and_iff_right hnull, atMost, decide_eq_false_iff_not, not_not,
      Option.some_inj, and_iff_right_iff_imp]
    rintro hgt rfl
    rw [cmpValueTotal_null hnull] at hgt
    cases hgt
  · rw [Faithful, or_iff_right hnull, ← col.suffix_right_iff hbelow]
    refine forall_congr' fun std => exists_congr fun rowids => and_congr_right fun _ =>
      forall_congr' fun rid => iff_congr Iff.rfl (exists_congr fun v => and_congr_right fun hv => ?_)
    rw [Lookup.Holds, hcmp _ hv, and_iff_right hnull, below, decide_eq_false_iff_not, Option.any_some,
      decide_eq_true_iff, and_iff_right_iff_imp]
    rintro hge rfl
    exact hge (cmpValueTotal_null hnull)

theorem below_imp_atMost (hlo : lo.isNaN = false) (hhi : hi.isNaN = false) (hle : cmpValueTotal lo hi ≠ .gt)
    {e : Value × Int64} (he : e ∈ col.pairs) (h : below lo e.1 = true) : atMost hi e.1 = true := by
  have hv := col.pairs_notNaN he
  refine decide_eq_true (Value.partialCmp_ne_gt_of_lt (w := lo) ?_ (partialCmp_eq_some hlo hhi) hle
    (partialCmp_eq_some hv hhi))
  rw [partialCmp_eq_some hv hlo, of_decide_eq_true h]

theorem holds_between_iff (hlo : lo.isNaN = false) (hhi : hi.isNaN = false) (hlonull : lo ≠ .Null)
    (hhinull : hi ≠ .Null) {e : Value × Int64} (he : e ∈ col.pairs) :
    (Lookup.Between lo hi).Holds e.1 ↔ atMost hi e.1 = true ∧ below lo e.1 = false := by
  have hv := col.pairs_notNaN he
  rw [Lookup.Holds, partialCmp_eq_some hv hlo, partialCmp_eq_some hv hhi, and_iff_right hlonull,
    and_iff_right hhinull, below, decide_eq_false_iff_not, Option.any_some, Option.any_some,
    decide_eq_true_iff, and_iff_right_of_imp, and_comm]
  · rfl
  · rintro ⟨hge, -⟩ hnull
    rw [hnull] at hge
    exact hge (cmpValueTotal_null hlonull)

theorem mem_slice (hdesc : Describes col.pairs caches) (std : EntryOps)
    (himp : ∀ e ∈ col.pairs, below lo e.1 = true → atMost hi e.1 = true)
    (hsplit : col.NoSplit (below lo)) (hsplit' : col.NoSplit (atMost hi)) :
    ∃ rowids, sliceTableRowids caches.ordered (lowerBoundIndexEntries std caches.ordered lo)
        (upperBoundIndexEntries std caches.ordered hi) = .ok rowids ∧
      ∀ rid, rid ∈ rowids ↔ ∃ v, (v, rid) ∈ col.pairs ∧ (atMost hi v = true ∧ below lo v = false) := by
  have hlower := (col.partitioned_ordered hdesc (below lo)).mpr hsplit
  have hupper := (col.partitioned_ordered hdesc (atMost hi)).mpr hsplit'
  have hstart : lowerBoundIndexEntries std caches.ordered lo =
      caches.ordered.countP fun e => below lo e.1 := std.partitions _ _ hlower
  have hstop : upperBoundIndexEntries std caches.ordered hi =
      caches.ordered.countP fun e => atMost hi e.1 := std.partitions _ _ hupper
  have hle : caches.ordered.countP (fun e => below lo e.1) ≤ caches.ordered.countP fun e => atMost hi e.1 :=
    List.countP_mono_left fun e he => himp e (hdesc.perm.mem_iff.mp he)
  -- among the entries up to the upper end, those below the lower end still come first
  have hinner : Partitioned (fun e : Value × Int64 => below lo e.1)
      (caches.ordered.filter fun e => atMost hi e.1) := hlower.sublist List.filter_sublist
  have hcount : (caches.ordered.filter fun e => atMost hi e.1).countP (fun e => below lo e.1) =
      caches.ordered.countP fun e => below lo e.1 := by
    rw [List.countP_filter]
    refine List.countP_congr fun e he => ?_
    rw [Bool.and_eq_true, and_iff_left_iff_imp]
    exact himp e (hdesc.perm.mem_iff.mp he)
  rw [sliceTableRowids, hstart, hstop, if_pos ⟨hle, List.countP_le_length⟩, take_countP hupper, ← hcount,
    drop_countP hinner, List.filter_filter]
  refine ⟨_, rfl, fun rid => (col.mem_map_filter hdesc _ rid).trans
    (exists_congr fun v => and_congr_right fun _ => ?_)⟩
  rw [Bool.and_eq_true, Bool.not_eq_true', and_comm]

-- A library that answers with the end of the slice for the lower test and with its start for
-- the upper one, where it may.
noncomputable def crossing (lo : Value) : EntryOps := SliceOps.strict fun p => p = fun e => below lo e.1

theorem upper_ne_lower (hlo : lo.isNaN = false) (hle : cmpValueTotal lo hi ≠ .gt) :
    (fun e : Value × Int64 => atMost hi e.1) ≠ fun e => below lo e.1 := by
  intro h
  have hat := congrFun h (lo, 0)
  have hself : cmpValueTotal lo lo = .eq := by
    rw [cmpValueTotal, Value.partialCmp_self hlo]
    rfl
  simp [atMost, below, hself] at hat
  exact hle hat

theorem noSplit_of_right_between (hlo : lo.isNaN = false) (hlonull : lo ≠ .Null) (hhinull : hi ≠ .Null)
    (hle : cmpValueTotal lo hi ≠ .gt) (hdesc : Describes col.pairs caches) {rowids : List Int64}
    (hok : sliceTableRowids caches.ordered (lowerBoundIndexEntries (crossing lo) caches.ordered lo)
      (upperBoundIndexEntries (crossing lo) caches.ordered hi) = .ok rowids)
    (hmem : ∀ rid, rid ∈ rowids ↔ ∃ v, (v, rid) ∈ col.pairs ∧ (atMost hi v = true ∧ below lo v = false)) :
    col.NoSplit (below lo) ∧ col.NoSplit (atMost hi) := by
  have hbelow : below lo .Null = true := decide_eq_true (cmpValueTotal_null hlonull)
  have hatMost : atMost hi .Null = true := by
    rw [atMost, cmpValueTotal_null hhinull]
    decide
  have hlower : ¬col.NoSplit (below lo) →
      lowerBoundIndexEntries (crossing lo) caches.ordered lo = caches.ordered.length := fun h =>
    (col.partitionPoint_strict hdesc h _).trans (if_pos rfl)
  have hupper : ¬col.NoSplit (atMost hi) →
      upperBoundIndexEntries (crossing lo) caches.ordered hi = 0 := fun h =>
    (col.partitionPoint_strict hdesc h _).trans
      (if_neg (upper_ne_lower hlo hle))
  have hbounds := Classical.byContradiction fun hn => by
    rw [sliceTableRowids, if_neg hn] at hok
    cases hok
  rw [sliceTableRowids, if_pos hbounds] at hok
  have hrowids := (Except.ok.inj hok).symm
  have hlowerSplit : col.NoSplit (below lo) := by
    by_contra h
    obtain ⟨x, hx, -, -, hpx, -⟩ := col.split_pair hbelow h
    have hpos : 0 < caches.ordered.length := List.length_pos_of_mem (hdesc.perm.mem_iff.mpr hx)
    rw [hlower h] at hbounds hrowids
    have hstop : upperBoundIndexEntries (crossing lo) caches.ordered hi = caches.ordered.length :=
      Nat.le_antisymm hbounds.2 hbounds.1
    have hupperSplit : col.NoSplit (atMost hi) := by
      by_contra h'
      rw [hupper h'] at hstop
      omega
    have hpart := (col.partitioned_ordered hdesc (atMost hi)).mpr hupperSplit
    have hall : caches.ordered.countP (fun e => atMost hi e.1) = caches.ordered.length :=
      ((crossing lo).partitions _ _ hpart).symm.trans hstop
    have hin := (hmem x.2).mpr ⟨x.1, hx, List.countP_eq_length.mp hall x (hdesc.perm.mem_iff.mpr hx), hpx⟩
    rw [hrowids, hstop, List.take_length, List.drop_length] at hin
    cases hin
  refine ⟨hlowerSplit, ?_⟩
  by_contra h
  obtain ⟨-, -, y, hy, -, hpy, -⟩ := col.split_pair hatMost h
  rw [hupper h] at hbounds hrowids
  have hstart := Nat.le_zero.mp hbounds.1
  have hpart := (col.partitioned_ordered hdesc (below lo)).mpr hlowerSplit
  have hnone : caches.ordered.countP (fun e => below lo e.1) = 0 :=
    ((crossing lo).partitions _ _ hpart).symm.trans hstart
  have hybelow : below lo y.1 = false := by
    have := List.countP_eq_zero.mp hnone y (hdesc.perm.mem_iff.mpr hy)
    simpa using this
  have hin := (hmem y.2).mpr ⟨y.1, hy, hpy, hybelow⟩
  rw [hrowids, hstart] at hin
  cases hin

theorem right_between_iff (hlo : lo.isNaN = false) (hhi : hi.isNaN = false) :
    col.Right (.Between lo hi) ↔ col.Faithful (.Between lo hi) := by
  by_cases hnull : lo = .Null ∨ hi = .Null
  · refine iff_of_true (fun std => ⟨[], if_pos hnull, fun rid => iff_of_false List.not_mem_nil ?_⟩)
      (hnull.elim .inl fun h => .inr (.inl h))
    rintro ⟨v, -, -, hlonull, hhinull, -⟩
    exact hnull.elim hlonull hhinull
  obtain ⟨hlonull, hhinull⟩ := not_or.mp hnull
  have hholds : ∀ rid, (∃ v, (v, rid) ∈ col.pairs ∧ (Lookup.Between lo hi).Holds v) ↔
      ∃ v, (v, rid) ∈ col.pairs ∧ (atMost hi v = true ∧ below lo v = false) := fun rid =>
    exists_congr fun v => and_congr_right fun hv => col.holds_between_iff hlo hhi hlonull hhinull hv
  have hrun : ∀ std : EntryOps, lookupRowids std col.index (.Between lo hi) =
      if cmpValueTotal lo hi = .gt then .ok []
      else ensureIndexCacheLoaded std col.index >>= fun caches =>
        sliceTableRowids caches.ordered (lowerBoundIndexEntries std caches.ordered lo)
          (upperBoundIndexEntries std caches.ordered hi) := by
    intro std
    rw [lookupRowids, indexRowidsForBetween, if_neg hnull, valueHasTotalOrder_of_notNaN hlo,
      valueHasTotalOrder_of_notNaN hhi]
    rfl
  unfold Right
  rw [Faithful, or_iff_right hlonull, or_iff_right hhinull]
  simp only [hrun, hholds]
  split_ifs with hgt
  · constructor
    · intro h e he hat
      obtain ⟨rowids, hok, hmem⟩ := h (SliceOps.counting _)
      cases hok
      by_contra hnot
      have hin := (hmem e.2).mpr ⟨e.1, he, hat, by simpa using hnot⟩
      cases hin
    · intro h std
      refine ⟨[], rfl, fun rid => iff_of_false List.not_mem_nil ?_⟩
      rintro ⟨v, hv, hat, hbelow⟩
      rw [h _ hv hat] at hbelow
      cases hbelow
  · constructor
    · intro h
      have hloads := col.loads_of_right _ _ h
      obtain ⟨caches, hload, hdesc⟩ := col.ensure_ok (crossing lo) hloads
      obtain ⟨rowids, hok, hmem⟩ := h (crossing lo)
      rw [hload] at hok
      exact ⟨hloads, col.noSplit_of_right_between hlo hlonull hhinull hgt hdesc hok hmem⟩
    · rintro ⟨hloads, hsplit, hsplit'⟩ std
      obtain ⟨caches, hload, hdesc⟩ := col.ensure_ok std hloads
      rw [hload]
      exact col.mem_slice hdesc std (fun e he => col.below_imp_atMost hlo hhi hgt he) hsplit hsplit'

end Ranges

end IndexedColumn

end Kkdb
