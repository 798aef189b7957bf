import Kkdb.Vm.JsonPath

namespace Kkdb.JsonPath

open Lib

section Positions

variable {s needle : Text} {scan : Scan} {c opening closing : Char} {escape anywhere : Bool} {depth : Int}
  {i n : Nat}

theorem Scan.next_comma (h : (scan.next anywhere c).2 = true) : c = ',' := by
  unfold Scan.next at h
  split_ifs at h
  exact (of_decide_eq_true h).1

theorem findText_some (h : findText needle s = some n) : ∃ a b, s = a ++ needle ++ b ∧ utf8Len a = n := by
  induction s generalizing n with
  | nil =>
      rw [findText] at h
      split_ifs at h with hnil
      cases h
      exact ⟨[], [], by rw [hnil]; rfl, rfl⟩
  | cons c s ih =>
      rw [findText] at h
      split_ifs at h with hprefix
      · cases h
        obtain ⟨b, hb⟩ := List.isPrefixOf_iff_prefix.mp hprefix
        exact ⟨[], b, hb.symm, rfl⟩
      · obtain ⟨m, hm, rfl⟩ := Option.map_eq_some_iff.mp h
        obtain ⟨a, b, rfl, rfl⟩ := ih hm
        exact ⟨c :: a, b, rfl, rfl⟩

theorem findAny_some {stops : List Char} (h : findAny stops s = some n) :
    ∃ a b, s = a ++ b ∧ utf8Len a = n := by
  induction s generalizing n with
  | nil => cases h
  | cons c s ih =>
      rw [findAny] at h
      split_ifs at h
      · cases h
        exact ⟨[], c :: s, rfl, rfl⟩
      · obtain ⟨m, hm, rfl⟩ := Option.map_eq_some_iff.mp h
        obtain ⟨a, b, rfl, rfl⟩ := ih hm
        exact ⟨c :: a, b, rfl, rfl⟩

theorem closingQuote_some (h : closingQuote escape i s = some n) :
    ∃ a b, s = a ++ '"' :: b ∧ n = i + utf8Len a := by
  induction s generalizing escape i with
  | nil => cases h
  | cons c s ih =>
      have hstep : ∀ {e}, closingQuote e (i + c.utf8Size) s = some n →
          ∃ a b, c :: s = a ++ '"' :: b ∧ n = i + utf8Len a := by
        intro e he
        obtain ⟨a, b, rfl, rfl⟩ := ih he
        exact ⟨c :: a, b, rfl, Nat.add_assoc ..⟩
      rw [closingQuote] at h
      split_ifs at h with hescape hback hquote
      · exact hstep h
      · exact hstep h
      · cases h
        exact ⟨[], s, by rw [hquote]; rfl, rfl⟩
      · exact hstep h

theorem closingBracket_some (h : closingBracket opening closing depth i s = some n) :
    ∃ a b, s = a ++ closing :: b ∧ n = i + utf8Len a := by
  induction s generalizing depth i with
  | nil => cases h
  | cons c s ih =>
      have hstep : ∀ {d}, closingBracket opening closing d (i + c.utf8Size) s = some n →
          ∃ a b, c :: s = a ++ closing :: b ∧ n = i + utf8Len a := by
        intro d hd
        obtain ⟨a, b, rfl, rfl⟩ := ih hd
        exact ⟨c :: a, b, rfl, Nat.add_assoc ..⟩
      rw [closingBracket] at h
      by_cases hclose : c = closing
      · rw [if_pos hclose] at h
        split_ifs at h with hopen hzero hzero
        · cases h
          exact ⟨[], s, by rw [hclose]; rfl, rfl⟩
        · exact hstep h
        · cases h
          exact ⟨[], s, by rw [hclose]; rfl, rfl⟩
        · exact hstep h
      · rw [if_neg hclose] at h
        exact hstep h

theorem topComma_some (h : topComma scan i s = some n) : ∃ a b, s = a ++ ',' :: b ∧ n = i + utf8Len a := by
  induction s generalizing scan i with
  | nil => cases h
  | cons c s ih =>
      rw [topComma] at h
      split_ifs at h with hcomma
      · cases h
        exact ⟨[], s, by rw [Scan.next_comma hcomma]; rfl, rfl⟩
      · obtain ⟨a, b, rfl, rfl⟩ := ih h
        exact ⟨c :: a, b, rfl, Nat.add_assoc ..⟩

end Positions

section Values

variable {s : Text} {scan : Scan}

theorem bracketed_returns {opening closing : Char} (hclosing : closing.utf8Size = 1) (rest : Text) :
    Returns (bracketed opening closing rest) := by
  unfold bracketed
  cases hclose : closingBracket opening closing 0 0 rest with
  | none => exact .ok none
  | some i =>
      obtain ⟨a, b, rfl, rfl⟩ := closingBracket_some hclose
      have hslice : slice (a ++ closing :: b) 0 (0 + utf8Len a + 1) = .ok (a ++ [closing]) := by
        refine slice_eq (a := []) (b := b) (by simp) rfl ?_
        rw [utf8Len_append, utf8Len_cons, hclosing, utf8Len_nil, Nat.add_assoc]
      exact Returns.bind ⟨_, hslice⟩ fun v _ => .ok (some v)

theorem jsonValueAtStart_returns (rest : Text) : Returns (jsonValueAtStart rest) := by
  unfold jsonValueAtStart
  split
  · rename_i stripped
    refine Returns.bind ?_ fun v _ => .ok (some v)
    cases hquote : closingQuote false 0 stripped with
    | none => exact ⟨_, slice_prefix ['"'] stripped⟩
    | some i =>
        obtain ⟨a, b, rfl, rfl⟩ := closingQuote_some hquote
        refine ⟨'"' :: a ++ ['"'], slice_eq (a := []) (b := b) (by simp) rfl ?_⟩
        have hsize : Char.utf8Size '"' = 1 := by decide
        simp only [Option.map_some, Option.getD_some, List.cons_append, utf8Len_cons, utf8Len_append,
          utf8Len_nil,
          hsize]
        omega
  · exact bracketed_returns (by decide) _
  · exact bracketed_returns (by decide) _
  · refine Returns.bind ?_ fun v _ => .ok (some v)
    cases hfind : findAny [',', '}', ']', ' ', '\n', '\t'] rest with
    | none => exact ⟨rest, slice_eq (a := []) (b := []) (by simp) rfl (Nat.zero_add _).symm⟩
    | some n =>
        obtain ⟨a, b, rfl, rfl⟩ := findAny_some hfind
        exact ⟨_, slice_prefix a b⟩

theorem arrayGetLoop_returns (pre mid s : Text) (targetIdx : Nat) (scan : Scan) (idx : Nat) :
    Returns (arrayGetLoop (pre ++ mid ++ s) targetIdx scan idx (utf8Len pre) (utf8Len (pre ++ mid)) s) := by
  induction s generalizing pre mid scan idx with
  | nil =>
      rw [arrayGetLoop]
      split_ifs
      · rw [List.append_nil]
        exact Returns.bind ⟨_, sliceFrom_append pre mid⟩ fun v _ => .ok _
      · exact .ok none
  | cons c s ih =>
      have hshift : ∀ a : Text, utf8Len (a ++ [c]) = utf8Len a + c.utf8Size := fun a => by
        rw [utf8Len_append, utf8Len_cons, utf8Len_nil, Nat.add_zero]
      rw [arrayGetLoop]
      split_ifs with hcomma htarget
      · rw [utf8Len_append]
        exact Returns.bind ⟨_, slice_append pre mid (c :: s)⟩ fun v _ => .ok _
      · have hnext := ih (pre ++ mid ++ [c]) [] (scan.next true c).1 (idx + 1)
        have hsize : c.utf8Size = 1 := by rw [Scan.next_comma hcomma]; decide
        rw [List.append_nil, hshift, List.append_assoc _ [c], List.singleton_append] at hnext
        rwa [hsize] at hnext ⊢
      · have hnext := ih pre (mid ++ [c]) (scan.next true c).1 idx
        rwa [← List.append_assoc, hshift, List.append_assoc _ [c], List.singleton_append] at hnext

theorem arrayContainsLoop_returns (pre mid s targetVal : Text) (scan : Scan) :
    Returns (arrayContainsLoop (pre ++ mid ++ s) targetVal scan (utf8Len pre) (utf8Len (pre ++ mid)) s) := by
  induction s generalizing pre mid scan with
  | nil =>
      rw [arrayContainsLoop]
      split_ifs
      · rw [List.append_nil]
        exact Returns.bind ⟨_, sliceFrom_append pre mid⟩ fun v _ => .ok _
      · exact .ok false
  | cons c s ih =>
      have hshift : ∀ a : Text, utf8Len (a ++ [c]) = utf8Len a + c.utf8Size := fun a => by
        rw [utf8Len_append, utf8Len_cons, utf8Len_nil, Nat.add_zero]
      rw [arrayContainsLoop]
      split_ifs with hcomma
      · have hslice := slice_append pre mid (c :: s)
        rw [← utf8Len_append] at hslice
        refine Returns.bind ⟨_, hslice⟩ fun v _ => ?_
        have hnext := ih (pre ++ mid ++ [c]) [] (scan.next true c).1
        have hsize : c.utf8Size = 1 := by rw [Scan.next_comma hcomma]; decide
        rw [List.append_nil, hshift, List.append_assoc _ [c], List.singleton_append] at hnext
        rw [hsize] at hnext ⊢
        split_ifs
        · exact .ok true
        · exact hnext
      · have hnext := ih pre (mid ++ [c]) (scan.next true c).1
        rwa [← List.append_assoc, hshift, List.append_assoc _ [c], List.singleton_append] at hnext

theorem skipMember_position (scan : Scan) (j : Nat) (s : Text) :
    (skipMember scan j s).2 + (skipMember scan j s).1.length = j + s.length := by
  induction s generalizing scan j with
  | nil => rfl
  | cons c s ih =>
      rw [skipMember]
      split_ifs
      · simp only [List.length_cons]
        omega
      · rw [ih, List.length_cons]
        omega

theorem Scan.next_inString {scan : Scan} {anywhere : Bool} {c : Char} (h : ¬(scan.escape = false ∧ c = '"')) :
    (scan.next anywhere c).1.inString = scan.inString := by
  unfold Scan.next
  split_ifs with hescape hback hquote
  all_goals first | rfl | exact absurd ⟨Bool.eq_false_iff.mpr hescape, hquote⟩ h

theorem keysLoop_returns (chars : List Char) (scan : Scan) (start i : Nat) (keys : List Text) (rest : List Char)
    (hrest : i + rest.length = chars.length) (hstart : scan.inString = true → start ≤ i) :
    Returns (keysLoop chars scan start i keys rest) := by
  induction scan, start, i, keys, rest using keysLoop.induct with
  | case1 scan start i keys =>
      rw [keysLoop]
      exact .ok keys
  | case2 scan start i keys c s hquote hin hdepth ihkey ihnext =>
      rw [List.length_cons] at hrest
      rw [keysLoop, if_pos hquote, if_pos hin, if_pos hdepth]
      have hkey : charSlice chars start i = .ok ((chars.drop start).take (i + 1 - start)) :=
        if_pos ⟨Nat.le_succ_of_le (hstart hin), by omega⟩
      refine Returns.bind ⟨_, hkey⟩ fun keyRaw _ => ?_
      dsimp only
      split
      · rename_i value hafter
        refine ihkey keyRaw value hafter ?_ (fun h => by cases h)
        have hsplit := congrArg List.length (List.takeWhile_append_dropWhile (p := isWhitespace) (l := s))
        rw [hafter, List.length_append, List.length_cons] at hsplit
        rw [skipMember_position]
        omega
      · exact ihnext (by omega) (fun h => by cases h)
  | case3 scan start i keys c s hquote hin hdepth ih =>
      rw [List.length_cons] at hrest
      rw [keysLoop, if_pos hquote, if_pos hin, if_neg hdepth]
      exact ih (by omega) (fun h => by cases h)
  | case4 scan start i keys c s hquote hin ih =>
      rw [List.length_cons] at hrest
      rw [keysLoop, if_pos hquote, if_neg hin]
      exact ih (by omega) (fun _ => Nat.le_succ i)
  | case5 scan start i keys c s hquote ih =>
      rw [List.length_cons] at hrest
      rw [keysLoop, if_neg hquote]
      refine ih (by omega) fun h => ?_
      rw [Scan.next_inString hquote] at h
      exact Nat.le_succ_of_le (hstart h)

end Values

section Functions

variable {t : Text} {c : Char}

theorem returns_innerOf_iff {n : Nat} (hn : 1 ≤ n ∧ n ≤ 2) (hc : c.utf8Size = 1) (hhead : t.head? = some c) :
    Returns (innerOf n t) ↔ OneByteEnd t := by
  have hstrip := returns_strip_iff hc hhead
  obtain ⟨s, rfl⟩ := List.head?_eq_some_iff.mp hhead
  rw [innerOf]
  rw [utf8Len_cons, hc] at hstrip ⊢
  split_ifs with hlong
  · rw [hstrip]
    refine and_iff_right_of_imp fun _ => ?_
    cases s with
    | nil => rw [utf8Len_nil] at hlong; omega
    | cons d s => rw [List.length_cons, List.length_cons]; omega
  · refine iff_of_true (.ok []) ?_
    by_cases hs : utf8Len s = 0
    · rw [utf8Len_eq_zero.mp hs]
      intro d hd
      cases hd
      exact hc
    · obtain ⟨d, rfl, hd⟩ := eq_singleton_of_utf8Len (s := s) (by omega)
      intro d' hd'
      cases hd'
      exact hd

-- An array or object whose brackets can be cut off.
def Stripped (bracket : Char) (t : Text) : Prop := t.head? = some bracket → 2 ≤ t.length ∧ OneByteEnd t

def Closed (bracket : Char) (t : Text) : Prop := t.head? = some bracket → OneByteEnd t

theorem jsonArrayGet_returns_iff (json : Text) (targetIdx : Nat) :
    Returns (jsonArrayGet json targetIdx) ↔ Stripped '[' (trimText json) := by
  unfold jsonArrayGet Stripped
  by_cases hhead : (trimText json).head? = some '['
  · simp only [hhead, ne_eq, not_true_eq_false, if_false, forall_const]
    rw [← returns_strip_iff (by decide) hhead]
    refine returns_bind_iff fun inner _ => ?_
    split_ifs
    · exact .ok none
    · exact arrayGetLoop_returns [] [] (trimText inner) targetIdx {} 0
  · simp only [hhead, ne_eq, not_false_eq_true, if_true, false_imp_iff, iff_true]
    exact .ok none

theorem jsonArrayContains_returns_iff (json targetVal : Text) :
    Returns (jsonArrayContains json targetVal) ↔ Stripped '[' (trimText json) := by
  unfold jsonArrayContains Stripped
  by_cases hhead : (trimText json).head? = some '['
  · simp only [hhead, ne_eq, not_true_eq_false, if_false, forall_const]
    rw [← returns_strip_iff (by decide) hhead]
    refine returns_bind_iff fun inner _ => ?_
    split_ifs
    · exact .ok false
    · exact arrayContainsLoop_returns [] [] (trimText inner) targetVal {}
  · simp only [hhead, ne_eq, not_false_eq_true, if_true, false_imp_iff, iff_true]
    exact .ok false

theorem jsonKeys_returns_iff (s : Text) : Returns (jsonKeys s) ↔ Closed '{' (trimText s) := by
  unfold jsonKeys Closed
  by_cases hhead : (trimText s).head? = some '{'
  · simp only [hhead, ne_eq, not_true_eq_false, if_false, forall_const]
    rw [← returns_innerOf_iff (n := 1) (by decide) (by decide) hhead]
    refine returns_bind_iff fun inner _ => ?_
    split_ifs
    · exact .ok _
    · refine Returns.bind ?_ fun keys _ => .ok _
      exact keysLoop_returns inner {} 0 0 [] inner (Nat.zero_add _) fun h => by cases h
  · simp only [hhead, ne_eq, not_false_eq_true, if_true, false_imp_iff, iff_true]
    exact .ok _

theorem jsonLength_returns_iff (s : Text) :
    Returns (jsonLength s) ↔ Closed '[' (trimText s) ∧ Closed '{' (trimText s) := by
  unfold jsonLength Closed
  by_cases hnull : trimText s = ['n', 'u', 'l', 'l'] ∨ trimText s = []
  · simp only [if_pos hnull]
    refine iff_of_true (.ok 0) ?_
    rcases hnull with hnull | hnull <;> rw [hnull] <;> exact ⟨fun h => absurd h (by decide), fun h =>
      absurd h (by decide)⟩
  · simp only [if_neg hnull]
    have hrun : ∀ {c : Char}, c.utf8Size = 1 → (trimText s).head? = some c →
        (Returns (do
          let inner ← innerOf 1 (trimText s)
          if trimText inner = [] then return 0
          return 1 + commas {} inner) ↔ OneByteEnd (trimText s)) := by
      intro c hc hhead
      rw [← returns_innerOf_iff (n := 1) (by decide) hc hhead]
      refine returns_bind_iff fun inner _ => ?_
      split_ifs
      · exact .ok 0
      · exact .ok _
    by_cases harray : (trimText s).head? = some '['
    · rw [if_pos (.inl harray)]
      refine (hrun (by decide) harray).trans ?_
      simp [harray]
    · by_cases hobject : (trimText s).head? = some '{'
      · rw [if_pos (.inr hobject)]
        refine (hrun (by decide) hobject).trans ?_
        simp [hobject]
      · rw [if_neg (by simp only [harray, hobject, or_self, not_false_eq_true])]
        exact iff_of_true (.ok 1) ⟨fun h => absurd h harray, fun h => absurd h hobject⟩

theorem found_slices {inner needle : Text} {pos : Nat} (h : findText needle inner = some pos) :
    ∃ a b, slice inner 0 pos = .ok a ∧ sliceFrom inner (pos + utf8Len needle) = .ok b := by
  obtain ⟨a, b, rfl, rfl⟩ := findText_some h
  refine ⟨a, b, ?_, ?_⟩
  · rw [List.append_assoc]
    exact slice_prefix a _
  · rw [← utf8Len_append]
    exact sliceFrom_append _ b

theorem valLen_slice (rest : Text) : ∃ b, sliceFrom rest ((topComma {} 0 rest).getD (utf8Len rest)) =
    .ok b := by
  cases h : topComma {} 0 rest with
  | none =>
      have hslice := sliceFrom_append rest []
      rw [List.append_nil] at hslice
      exact ⟨[], hslice⟩
  | some n =>
      obtain ⟨a, b, rfl, rfl⟩ := topComma_some h
      rw [Option.getD_some, Nat.zero_add]
      exact ⟨_, sliceFrom_append a _⟩

theorem jsonSetPath_returns_iff (json path value : Text) :
    Returns (jsonSetPath json path value) ↔ (pathKey path ≠ [] → Closed '{' (trimText json)) := by
  unfold jsonSetPath Closed
  by_cases hkey : pathKey path = []
  · simp only [hkey, if_true, ne_eq, not_true_eq_false, false_imp_iff, iff_true]
    exact .ok _
  by_cases hhead : (trimText json).head? = some '{'
  · simp only [hkey, hhead, ne_eq, not_true_eq_false, not_false_eq_true, if_false, forall_const]
    rw [← returns_innerOf_iff (n := 2) (by decide) (by decide) hhead]
    refine returns_bind_iff fun inner _ => ?_
    cases hfind : findText ('"' :: pathKey path ++ ['"', ':']) inner with
    | none =>
        dsimp only
        split_ifs
        · exact .ok _
        · exact .ok _
    | some pos =>
        obtain ⟨a, b, ha, hb⟩ := found_slices hfind
        obtain ⟨d, hd⟩ := valLen_slice (trimStart b)
        refine Returns.bind ⟨b, hb⟩ fun rest hrest => ?_
        rw [hb] at hrest
        cases hrest
        exact Returns.bind ⟨d, hd⟩ fun _ _ => Returns.bind ⟨a, ha⟩ fun _ _ => .ok _
  · simp only [hkey, hhead, ne_eq, not_false_eq_true, if_true, if_false, false_imp_iff, implies_true, iff_true]
    exact .ok _

-- The key with a blank before its colon is one byte longer, which the rest begins with.
theorem alt_slices {inner key : Text} {pos : Nat}
    (h : findText ('"' :: key ++ ['"', ' ', ':']) inner = some pos) :
    ∃ a b, slice inner 0 pos = .ok a ∧ sliceFrom inner (pos + utf8Len ('"' :: key ++ ['"', ':'])) = .ok b := by
  obtain ⟨a, b, rfl, rfl⟩ := findText_some h
  refine ⟨a, ':' :: b, ?_, ?_⟩
  · rw [List.append_assoc]
    exact slice_prefix a _
  · have hslice := sliceFrom_append (a ++ '"' :: key ++ ['"', ' ']) (':' :: b)
    have hsize : Char.utf8Size ' ' = Char.utf8Size ':' := by decide
    simp only [utf8Len_append, utf8Len_cons, hsize, List.append_assoc, List.cons_append, List.nil_append,
      utf8Len_nil] at hslice ⊢
    exact hslice

theorem jsonRemovePath_returns_iff (json path : Text) :
    Returns (jsonRemovePath json path) ↔ (pathKey path ≠ [] → Stripped '{' (trimText json)) := by
  unfold jsonRemovePath Stripped
  by_cases hkey : pathKey path = []
  · simp only [hkey, if_true, ne_eq, not_true_eq_false, false_imp_iff, iff_true]
    exact .ok _
  by_cases hhead : (trimText json).head? = some '{'
  · simp only [hkey, hhead, ne_eq, not_true_eq_false, not_false_eq_true, if_false, forall_const]
    rw [← returns_strip_iff (by decide) hhead]
    refine returns_bind_iff fun inner _ => ?_
    cases hfind : (findText ('"' :: pathKey path ++ ['"', ':']) inner).or
        (findText ('"' :: pathKey path ++ ['"', ' ', ':']) inner) with
    | none => exact .ok _
    | some pos =>
        have hslices : ∃ a b, slice inner 0 pos = .ok a ∧
            sliceFrom inner (pos + utf8Len ('"' :: pathKey path ++ ['"', ':'])) = .ok b := by
          rcases Option.or_eq_some_iff.mp hfind with hfound | ⟨-, hfound⟩
          · exact found_slices hfound
          · exact alt_slices hfound
        obtain ⟨a, b, ha, hb⟩ := hslices
        obtain ⟨d, hd⟩ := valLen_slice (trimStart b)
        refine Returns.bind ⟨b, hb⟩ fun rest hrest => ?_
        rw [hb] at hrest
        cases hrest
        exact Returns.bind ⟨a, ha⟩ fun _ _ => Returns.bind ⟨d, hd⟩ fun _ _ => .ok _
  · simp only [hkey, hhead, ne_eq, not_false_eq_true, if_true, if_false, false_imp_iff, implies_true, iff_true]
    exact .ok _

def partIndex (part : Text) : Option Nat := if isIndexPart part then parseUsize part.tail.dropLast else none

theorem slice_indexPart {part : Text} (h : isIndexPart part = true) :
    slice part 1 (utf8Len part - 1) = .ok part.tail.dropLast := by
  rw [isIndexPart, Bool.and_eq_true, decide_eq_true_eq, decide_eq_true_eq] at h
  obtain ⟨hhead, hlast⟩ := h
  obtain ⟨s, rfl⟩ := List.head?_eq_some_iff.mp hhead
  obtain rfl | ⟨m, d, rfl⟩ := List.eq_nil_or_concat s
  · cases hlast
  · rw [List.concat_eq_append, ← List.cons_append, List.getLast?_concat, Option.some.injEq] at hlast
    subst hlast
    have hslice : byteSlice ('[' :: (m ++ [']'])) 1 (utf8Len ('[' :: (m ++ [']'])) - 1) = some m :=
      (byteSlice_strip_iff (by decide)).mpr ⟨']', rfl, by decide⟩
    rw [List.concat_eq_append, slice, hslice, List.tail_cons, List.dropLast_concat]

theorem extractStep_returns_iff (part json : Text) :
    Returns (extractStep part json) ↔ ((partIndex part).isSome = true → Stripped '[' (trimText json)) := by
  unfold extractStep partIndex
  by_cases hindex : isIndexPart part = true
  · rw [if_pos hindex, if_pos hindex, slice_indexPart hindex]
    dsimp only [bind, Except.bind]
    cases hparse : parseUsize part.tail.dropLast with
    | none => exact iff_of_true (.ok none) fun h => by cases h
    | some idx =>
        simp only [Option.isSome_some, forall_const]
        exact jsonArrayGet_returns_iff json idx
  · rw [if_neg hindex, if_neg hindex]
    refine iff_of_true ?_ fun h => by cases h
    dsimp only
    cases hfind : findText ('"' :: part ++ ['"', ':']) json with
    | none => exact .ok none
    | some pos =>
        obtain ⟨a, b, -, hb⟩ := found_slices hfind
        exact Returns.bind ⟨b, hb⟩ fun rest _ => jsonValueAtStart_returns _

-- Every value that the walk along a path takes an element of is an array with both brackets.
def ExtractSafe : List Text → Text → Prop
  | [], _ => True
  | part :: parts, json =>
      ((partIndex part).isSome = true → Stripped '[' (trimText json)) ∧
        ∀ next, extractStep part json = .ok (some next) → ExtractSafe parts next

theorem extractParts_returns_iff (parts : List Text) (json : Text) :
    Returns (extractParts parts json) ↔ ExtractSafe parts json := by
  induction parts generalizing json with
  | nil => exact iff_of_true (.ok (some json)) trivial
  | cons part parts ih =>
      rw [ExtractSafe, ← extractStep_returns_iff, extractParts]
      constructor
      · rintro ⟨a, ha⟩
        obtain ⟨found, hfound, hrest⟩ := ok_of_bind ha
        refine ⟨⟨found, hfound⟩, fun next hnext => (ih next).mp ⟨a, ?_⟩⟩
        rw [hfound] at hnext
        cases hnext
        exact hrest
      · rintro ⟨⟨found, hfound⟩, hnext⟩
        refine Returns.bind ⟨found, hfound⟩ fun found' hfound' => ?_
        cases found' with
        | none => exact .ok none
        | some next => exact (ih next).mpr (hnext next hfound')

-- The JSON functions return exactly when what they take for brackets are bytes that can be cut off.
theorem json_returns_iff (json path targetVal value : Text) (targetIdx : Nat) :
    (Returns (jsonExtractPrimitive json path) ↔ ExtractSafe (pathParts (pathKey path)) (trimText json)) ∧
      (Returns (jsonArrayGet json targetIdx) ↔ Stripped '[' (trimText json)) ∧
      (Returns (jsonArrayContains json targetVal) ↔ Stripped '[' (trimText json)) ∧
      (Returns (jsonLength json) ↔ Closed '[' (trimText json) ∧ Closed '{' (trimText json)) ∧
      (Returns (jsonKeys json) ↔ Closed '{' (trimText json)) ∧
      (Returns (jsonRemovePath json path) ↔ (pathKey path ≠ [] → Stripped '{' (trimText json))) ∧
      (Returns (jsonSetPath json path value) ↔ (pathKey path ≠ [] → Closed '{' (trimText json))) :=
  ⟨extractParts_returns_iff _ _, jsonArrayGet_returns_iff json targetIdx,
    jsonArrayContains_returns_iff json targetVal, jsonLength_returns_iff json, jsonKeys_returns_iff json,
    jsonRemovePath_returns_iff json path, jsonSetPath_returns_iff json path value⟩

-- A lone bracket, and an object that ends in a character of two bytes.
theorem jsonArrayGet_bracket :
    jsonArrayGet ['['] 0 = .error .Panic ∧ jsonKeys ['{', 'é'] = .error .Panic := by
  decide

end Functions

end Kkdb.JsonPath
