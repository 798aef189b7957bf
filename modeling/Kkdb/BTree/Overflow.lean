import Kkdb.BTree.Heap
import Kkdb.BTree.Page

namespace Kkdb

open Lib

namespace BTree

section Chunks

-- Every chunk has some bytes, and all but the last fill their page.
def Chunked : List (List UInt8) → Prop
  | [] => True
  | c :: cs => 0 < c.length ∧ c.length ≤ OVERFLOW_DATA_SIZE ∧ (cs ≠ [] → c.length = OVERFLOW_DATA_SIZE) ∧
      Chunked cs

theorem chunksFrom_spec (fuel : Nat) (payload : List UInt8) (h : payload.length ≤ fuel) :
    (chunksFrom fuel payload).flatten = payload ∧ Chunked (chunksFrom fuel payload) ∧
      (chunksFrom fuel payload = [] ↔ payload = []) := by
  have hdata : OVERFLOW_DATA_SIZE = 4092 := rfl
  induction fuel generalizing payload with
  | zero =>
      obtain rfl : payload = [] := List.length_eq_zero_iff.mp (by omega)
      exact ⟨rfl, trivial, iff_of_true rfl rfl⟩
  | succ fuel ih =>
      cases payload with
      | nil => exact ⟨rfl, trivial, iff_of_true rfl rfl⟩
      | cons b bytes =>
          have hlen : ((b :: bytes).drop OVERFLOW_DATA_SIZE).length ≤ fuel := by
            rw [List.length_drop]
            omega
          obtain ⟨hflat, hchunked, hnil⟩ := ih _ hlen
          rw [chunksFrom]
          refine ⟨by rw [List.flatten_cons, hflat, List.take_append_drop], ⟨?_, ?_, ?_, hchunked⟩,
            iff_of_false (List.cons_ne_nil _ _) (List.cons_ne_nil _ _)⟩
          · rw [List.length_take, List.length_cons]
            omega
          · rw [List.length_take]
            omega
          · intro hne
            have hrest : (b :: bytes).drop OVERFLOW_DATA_SIZE ≠ [] := fun h => hne (hnil.mpr h)
            have := List.length_pos_iff.mpr hrest
            rw [List.length_drop] at this
            rw [List.length_take]
            omega

variable {payload : List UInt8}

theorem flatten_chunks (payload : List UInt8) : (chunks payload).flatten = payload :=
  (chunksFrom_spec payload.length payload le_rfl).1

theorem chunked_chunks (payload : List UInt8) : Chunked (chunks payload) :=
  (chunksFrom_spec payload.length payload le_rfl).2.1

theorem chunks_ne_nil (h : payload ≠ []) : chunks payload ≠ [] := fun hnil =>
  h ((chunksFrom_spec payload.length payload le_rfl).2.2.mp hnil)

end Chunks

def Links (H : Heap) : Nat → List Nat → List (List UInt8) → Prop
  | first, [], [] => first = 0
  | first, p :: ps, c :: cs => first = p ∧ p ≠ 0 ∧
      ∃ d, H p = some d ∧ d.slice 4 c.length = c ∧ Links H (d.u32 0) ps cs
  | _, _, _ => False

def Heap.without (H : Heap) (ps : List Nat) : Heap := fun p => if p ∈ ps then none else H p

theorem Heap.without_cons (H : Heap) (p : Nat) (ps : List Nat) :
    Heap.without (Function.update H p none) ps = Heap.without H (p :: ps) := by
  funext q
  unfold Heap.without
  by_cases hq : q ∈ ps
  · rw [if_pos hq, if_pos (List.mem_cons_of_mem _ hq)]
  · by_cases hqp : q = p
    · rw [if_neg hq, hqp, Function.update_self, if_pos List.mem_cons_self]
    · rw [if_neg hq, Function.update_of_ne hqp, if_neg (by simp [hq, hqp])]

section Links

variable {H H' : Heap} {first : Nat} {ps : List Nat} {cs : List (List UInt8)}

theorem Links.frame (h : Links H first ps cs) (hsame : ∀ p ∈ ps, H' p = H p) : Links H' first ps cs := by
  induction ps generalizing first cs with
  | nil =>
      cases cs with
      | nil => exact h
      | cons c cs => exact h.elim
  | cons p ps ih =>
      cases cs with
      | nil => exact h.elim
      | cons c cs =>
          obtain ⟨hfirst, hp, d, hd, hslice, hrest⟩ := h
          exact ⟨hfirst, hp, d, by rw [hsame p List.mem_cons_self]; exact hd, hslice,
            ih hrest fun q hq => hsame q (List.mem_cons_of_mem _ hq)⟩

theorem Links.owned (h : Links H first ps cs) : ∀ p ∈ ps, ∃ d, H p = some d := by
  induction ps generalizing first cs with
  | nil =>
      intro p hp
      cases hp
  | cons q ps ih =>
      cases cs with
      | nil => exact h.elim
      | cons c cs =>
          obtain ⟨-, -, d, hd, -, hrest⟩ := h
          intro p hp
          rcases List.mem_cons.mp hp with rfl | hp
          · exact ⟨d, hd⟩
          · exact ih hrest p hp

theorem Links.length_eq (h : Links H first ps cs) : ps.length = cs.length := by
  induction ps generalizing first cs with
  | nil =>
      cases cs with
      | nil => rfl
      | cons c cs => exact h.elim
  | cons p ps ih =>
      cases cs with
      | nil => exact h.elim
      | cons c cs =>
          obtain ⟨-, -, d, -, -, hrest⟩ := h
          rw [List.length_cons, List.length_cons, ih hrest]

theorem Links.head (h : Links H first ps cs) (hne : cs ≠ []) : first ∈ ps := by
  cases ps with
  | nil =>
      cases cs with
      | nil => exact absurd rfl hne
      | cons c cs => exact h.elim
  | cons p ps =>
      cases cs with
      | nil => exact h.elim
      | cons c cs => exact h.1 ▸ List.mem_cons_self

end Links

theorem fillOverflow_spec {next : Nat} {chunk : List UInt8} (d : PageData) (hnext : next < 2 ^ 32)
    (hlen : chunk.length ≤ OVERFLOW_DATA_SIZE) :
    (fillOverflow next chunk d).u32 0 = next ∧ (fillOverflow next chunk d).slice 4 chunk.length = chunk := by
  have hdata : OVERFLOW_DATA_SIZE = 4092 := rfl
  have hpage : PAGE_SIZE = 4096 := rfl
  have hhead : ((d.write 0 (leBytes 4 next)).write 4 chunk).u32 0 = next := by
    rw [Buf.u32_write_of_disjoint _ (.inl (by omega)), Buf.u32_write_same _ (by omega) hnext]
  have hbody : ((d.write 0 (leBytes 4 next)).write 4 chunk).slice 4 chunk.length = chunk :=
    Buf.slice_write_same _ _ _ (by omega)
  unfold fillOverflow
  dsimp only
  split_ifs
  · constructor
    · rw [Buf.u32_write_of_disjoint _ (.inl (by omega)), hhead]
    · rw [Buf.slice_write_of_disjoint _ (.inl (by omega)), hbody]
  · exact ⟨hhead, hbody⟩

-- The chain from a page on: that page was there, the others are new and nothing else changed.
structure Chained (H H' : Heap) (page : Nat) (ps : List Nat) (cs : List (List UInt8)) : Prop where
  links : Links H' page (page :: ps) cs
  nodup : (page :: ps).Nodup
  fresh : ∀ q ∈ ps, H q = none
  same : ∀ q, q ≠ page → q ∉ ps → H' q = H q

section Chained

variable {H H' : Heap} {page next : Nat} {ps : List Nat} {cs : List (List UInt8)} {c : List UInt8}
  {d d₁ : PageData}

theorem chained_last (hpos : page ≠ 0) (hnext : d.u32 0 = 0) (hslice : d.slice 4 c.length = c) :
    Chained H (Function.update H page (some d)) page [] [c] where
  links := ⟨rfl, hpos, _, Function.update_self _ _ _, hslice, hnext⟩
  nodup := List.nodup_singleton _
  fresh _ hq := absurd hq List.not_mem_nil
  same _ hq _ := Function.update_of_ne hq _ _

theorem Chained.cons (h : Chained (Function.update (Function.update H next (some d₁)) page
    (some d)) H' next ps cs)
    (hfree : H next = none) (hp : H page ≠ none) (hpos : page ≠ 0) (hnext : d.u32 0 = next)
    (hslice : d.slice 4 c.length = c) : Chained H H' page (next :: ps) (c :: cs) := by
  have hnp : page ≠ next := by
    rintro rfl
    exact hp hfree
  have hpage : page ∉ ps := fun hmem => by
    have := h.fresh page hmem
    rw [Function.update_self] at this
    cases this
  refine ⟨⟨rfl, hpos, d, ?_, hslice, ?_⟩, ?_, ?_, ?_⟩
  · rw [h.same page hnp hpage, Function.update_self]
  · rw [hnext]
    exact h.links
  · refine List.nodup_cons.mpr ⟨?_, h.nodup⟩
    rw [List.mem_cons, not_or]
    exact ⟨hnp, hpage⟩
  · intro q hq
    rcases List.mem_cons.mp hq with rfl | hmem
    · exact hfree
    · have hqn := ne_of_mem_of_not_mem hmem (List.nodup_cons.mp h.nodup).1
      have hqp := ne_of_mem_of_not_mem hmem hpage
      have := h.fresh q hmem
      rwa [Function.update_of_ne hqp, Function.update_of_ne hqn] at this
  · intro q hqp hq
    rw [List.mem_cons, not_or] at hq
    rw [h.same q hq.1 hq.2, Function.update_of_ne hqp, Function.update_of_ne hq.1]

theorem Chained.new (h : Chained (Function.update H page (some d)) H' page ps cs) (hfree : H page = none) :
    (∀ q ∈ page :: ps, H q = none) ∧ ∀ q, q ∉ page :: ps → H' q = H q := by
  refine ⟨fun q hq => ?_, fun q hq => ?_⟩
  · rcases List.mem_cons.mp hq with rfl | hmem
    · exact hfree
    · have := h.fresh q hmem
      rwa [Function.update_of_ne (ne_of_mem_of_not_mem hmem (List.nodup_cons.mp h.nodup).1)] at this
  · rw [List.mem_cons, not_or] at hq
    rw [h.same q hq.1 hq.2, Function.update_of_ne hq.1]

end Chained

section Calls

variable [Lz4Flex] {I : Pager → Prop} {H : Heap} {total first page : Nat} {s : Pager} {ps : List Nat}
  {cs : List (List UInt8)} {d : PageData}

-- A chain is read to its end, where all missing bytes have been read.
theorem readChain_serves (hserves : Serves I H) (hI : I s) (hlinks : Links H first ps cs)
    (hchunked : Chunked cs)
    (fuel : Nat) (acc : List UInt8) (len : Nat) (hlen : acc.length + cs.flatten.length = len)
    (hfuel : cs.flatten.length ≤ fuel) :
    Yields (readChain len fuel first acc) s fun bytes s' => bytes = acc ++ cs.flatten ∧ I s' := by
  have hdata : OVERFLOW_DATA_SIZE = 4092 := rfl
  induction cs generalizing first ps fuel acc s with
  | nil =>
      rw [List.flatten_nil, List.append_nil]
      cases fuel with
      | zero => exact .pure ⟨rfl, hI⟩
      | succ fuel =>
          rw [readChain, if_pos (.inr (by rw [← hlen]; simp))]
          exact .pure ⟨rfl, hI⟩
  | cons c cs ih =>
      cases ps with
      | nil => exact hlinks.elim
      | cons p ps =>
          obtain ⟨rfl, hp, d, hd, hslice, hrest⟩ := hlinks
          obtain ⟨hpos, hle, hfull, hchunked'⟩ := hchunked
          rw [List.flatten_cons, List.length_append] at hlen hfuel
          cases fuel with
          | zero => omega
          | succ fuel =>
              rw [readChain, if_neg (by omega)]
              refine (hserves.read _ _ _ hd hI).bind fun pg s₁ ⟨hpg, hI₁⟩ => ?_
              have hmin : min (len - acc.length) OVERFLOW_DATA_SIZE = c.length := by
                by_cases hnil : cs = []
                · rw [hnil, List.flatten_nil, List.length_nil] at hlen
                  omega
                · have := hfull hnil
                  omega
              rw [hpg, hmin, hslice]
              refine (ih hI₁ hrest hchunked' fuel (acc ++ c) (by rw [List.length_append]; omega)
                (by omega)).mono fun bytes s₂ hq => ?_
              rw [List.flatten_cons, ← List.append_assoc]
              exact hq

theorem freeChain_owns (hO : Owns H total s) (hlinks : Links H first ps cs) (hnodup : ps.Nodup)
    (fuel : Nat) (hfuel : ps.length < fuel) :
    Yields (freeChain fuel first) s fun _ s' => Owns (H.without ps) total s' := by
  induction ps generalizing H first cs fuel s with
  | nil =>
      cases cs with
      | cons c cs => exact hlinks.elim
      | nil =>
          cases fuel with
          | zero => omega
          | succ fuel =>
              rw [freeChain, if_pos (show first = 0 from hlinks)]
              have hsame : H.without [] = H := by
                funext q
                exact if_neg List.not_mem_nil
              rw [hsame]
              exact .pure hO
  | cons p ps ih =>
      cases cs with
      | nil => exact hlinks.elim
      | cons c cs =>
          obtain ⟨rfl, hp, d, hd, -, hrest⟩ := hlinks
          obtain ⟨hnot, hnodup'⟩ := List.nodup_cons.mp hnodup
          cases fuel with
          | zero => omega
          | succ fuel =>
              rw [List.length_cons] at hfuel
              rw [freeChain, if_neg hp]
              refine (getPage_owns hO hd).bind fun pg s₁ ⟨hpg, hO₁⟩ => ?_
              refine (freePage_owns hO₁ hd).bind fun _ s₂ hO₂ => ?_
              rw [hpg]
              refine (ih hO₂ (hrest.frame fun q hq => Function.update_of_ne ?_ _ _) hnodup' fuel
                (by omega)).mono fun _ s₃ hO₃ => ?_
              · rintro rfl
                exact hnot hq
              · rw [Heap.without_cons] at hO₃
                exact hO₃

theorem writeChunks_owns (hO : Owns H total s) (hp : H page = some d) (hne : cs ≠ []) (hchunked : Chunked cs)
    (hroom : total + cs.length ≤ MAX_PAGES + 1) :
    Yields (writeChunks cs page) s fun _ s' => ∃ H' ps total', Chained H H' page ps cs ∧
      total ≤ total' ∧ total' + 1 ≤ total + cs.length ∧ Owns H' total' s' := by
  induction cs generalizing H page total d s with
  | nil => exact absurd rfl hne
  | cons c cs ih =>
      obtain ⟨-, hle, -, hchunked'⟩ := hchunked
      have hpos : page ≠ 0 := by
        have := hO.range hp
        omega
      cases cs with
      | nil =>
          obtain ⟨hnext, hslice⟩ := fillOverflow_spec d (show 0 < 2 ^ 32 by decide) hle
          refine (writePage_owns (fillOverflow 0 c) hO hp).mono fun _ s' hO' => ?_
          exact ⟨_, [], total, chained_last hpos hnext hslice, le_rfl, le_rfl, hO'⟩
      | cons c' cs =>
          simp only [List.length_cons] at hroom ih ⊢
          rw [writeChunks]
          refine (allocatePage_owns hO (by omega)).bind fun next s₁ ⟨hfree, d₁, total₁, hge₁, hle₁, hO₁⟩ => ?_
          have hnp : page ≠ next := by
            rintro rfl
            rw [hp] at hfree
            cases hfree
          have hp₁ : Function.update H next (some d₁) page = some d := by
            rw [Function.update_of_ne hnp]
            exact hp
          obtain ⟨hlink, hslice⟩ := fillOverflow_spec d (hO₁.small (Function.update_self next (some d₁) H)) hle
          refine (writePage_owns (fillOverflow next c) hO₁ hp₁).bind fun _ s₂ hO₂ => ?_
          have hnext₂ : Function.update (Function.update H next (some d₁)) page
              (some (fillOverflow next c d)) next = some d₁ := by
            rw [Function.update_of_ne (Ne.symm hnp), Function.update_self]
          refine (ih hO₂ hnext₂ (List.cons_ne_nil _ _) hchunked' (by omega)).mono
            fun _ s₃ ⟨H', ps, total', hchained, hge, hle', hO'⟩ => ?_
          exact ⟨H', next :: ps, total', hchained.cons hfree (by simp [hp]) hpos hlink hslice, by omega,
            by omega, hO'⟩

theorem writeOverflowChain_owns {payload : List UInt8} (hO : Owns H total s) (hne : payload ≠ [])
    (hroom : total + (chunks payload).length ≤ MAX_PAGES) :
    Yields (writeOverflowChain payload) s fun first s' => ∃ H' ps total', Links H' first ps (chunks payload) ∧
      ps.Nodup ∧ ps.head? = some first ∧ (∀ q ∈ ps, H q = none) ∧ (∀ q, q ∉ ps → H' q = H q) ∧
      total ≤ total' ∧ total' ≤ total + (chunks payload).length ∧ Owns H' total' s' := by
  have hchunks := chunks_ne_nil hne
  have hpos := List.length_pos_iff.mpr hchunks
  rw [writeOverflowChain]
  refine (allocatePage_owns hO (by omega)).bind fun first s₁ ⟨hfree, d₁, total₁, hge₁, hle₁, hO₁⟩ => ?_
  refine (writeChunks_owns hO₁ (Function.update_self _ _ _) hchunks (chunked_chunks payload)
    (by omega)).bind fun _ s₂ ⟨H', ps, total', hchained, hge, hle, hO'⟩ => ?_
  obtain ⟨hfresh, hsame⟩ := hchained.new hfree
  exact .pure ⟨H', first :: ps, total', hchained.links, hchained.nodup, rfl, hfresh, hsame, by omega,
    by omega, hO'⟩

end Calls

end BTree

end Kkdb
