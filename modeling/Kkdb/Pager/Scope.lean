import Kkdb.Pager.Draft

namespace Kkdb

open Lib

namespace Pager

-- What decides whether a marker belongs to the active transaction.
def scope (s : Pager) : List SavepointMarker × Bool := (s.savepointStack, s.inTransaction)

theorem scope_of_held {s s' : Pager} (h : s'.held = s.held) : s'.scope = s.scope := by
  have hstack : s'.savepointStack = s.savepointStack := congrArg Held.savepointStack h
  have hgen : s'.held.generations.isSome = s.held.generations.isSome :=
    congrArg (fun k => k.generations.isSome) h
  simp only [held, Option.isSome_map] at hgen
  exact Prod.ext hstack hgen

theorem scope_writeV2Superblock (slot : SuperblockSlot) (sb : SuperblockV2) (s : Pager) :
    (s.writeV2Superblock slot sb).scope = s.scope := by
  unfold writeV2Superblock
  cases s.file with
  | none => rfl
  | some f => rfl

theorem scope_autoCheckpoint (nanos : Nat) (s : Pager) : (s.autoCheckpoint nanos).scope = s.scope := by
  unfold autoCheckpoint
  cases hwal : s.wal with
  | none => rfl
  | some w =>
      dsimp only
      split_ifs
      · unfold runCheckpoint
        rw [hwal]
        cases s.file with
        | none => rfl
        | some f => rfl
      · rfl

theorem scope_bind {α β : Type} {s : Pager} {x : PagerM α} {f : α → PagerM β}
    (hx : (left x s).scope = s.scope)
    (hf : ∀ a s', x s = .ok a s' → (left (f a) s').scope = s'.scope) :
    (left (x >>= f) s).scope = s.scope :=
  left_bind (fun s s' : Pager => s'.scope = s.scope) (fun _ _ _ h h' => h'.trans h) hx hf

section Calls

variable [Lz4Flex] {s s' : Pager}

theorem scope_dataWritten (s : Pager) : s.dataWritten.scope = s.scope := by
  obtain ⟨_, _, _, h⟩ := dataPages_rest s.dirtyPages.length s
  rw [dataWritten, h]
  rfl

theorem scope_persist (slot : SuperblockSlot) (sb : SuperblockV2) (s : Pager) :
    (left (persist slot sb) s).scope = s.scope := by
  by_cases hclean : (s.page 1).dirty = false ∧ (s.page 2).dirty = false
  · have hrun := persist_clean slot sb hclean.1 hclean.2
    have hsuper := (scope_writeV2Superblock slot sb s.dataWritten).trans (scope_dataWritten s)
    cases hfp : s.failpoint with
    | none =>
        rw [hfp] at hrun
        rw [left_ok hrun]
        exact hsuper
    | some fp =>
        rw [hfp] at hrun
        cases fp
        all_goals obtain ⟨e, he⟩ := hrun
        · rw [left_error he]
          exact scope_dataWritten s
        · rw [left_error he]
          exact scope_dataWritten s
        · rw [left_error he]
          exact hsuper
        · rw [left_error he]
          exact hsuper
  · obtain ⟨e, he⟩ := persist_reserved slot sb hclean
    rw [left_error he]

theorem scope_flush (nanos : Nat) (s : Pager) : (left (flush nanos) s).scope = s.scope := by
  cases htx : s.cow.activeTx with
  | none =>
      rw [left, flush_idle nanos htx]
      refine scope_bind (scope_persist _ _ s) fun _ s' _ => ?_
      refine (scope_autoCheckpoint nanos _).trans ?_
      exact (scope_of_held (bumpTxid_kept _).held).trans (scope_of_held (rotateFree_kept s').held)
  | some tx =>
      rw [left, flush_active nanos (by rw [htx]; rfl)]
      by_cases hclean : (s.page 1).dirty = false ∧ (s.page 2).dirty = false
      · obtain ⟨_, _, _, h⟩ := dataPages_rest s.dirtyPages.length s
        rw [writeV2DataPages_clean hclean.1 hclean.2, h]
        rfl
      · obtain ⟨e, he⟩ := writeV2DataPages_reserved hclean
        rw [he]

theorem commitTransaction_scope (s : Pager) : (∃ s', commitTransaction s = .ok () s' ∧
      s'.savepointStack = s.savepointStack ∧ s'.inTransaction = false) ∨
    ∃ e s', commitTransaction s = .error e s' ∧ s'.scope = s.scope := by
  cases htx : s.cow.activeTx with
  | none => exact .inl ⟨s, commitTransaction_none htx, rfl, by rw [inTransaction, htx]; rfl⟩
  | some tx =>
      by_cases hgen : tx.baseGeneration = s.cow.activeSuperblock.generation
      swap
      · obtain ⟨e, he⟩ := commitTransaction_stale htx hgen
        exact .inr ⟨e, s, he, rfl⟩
      rw [commitTransaction_eq htx hgen]
      have hpersist := scope_persist s.cow.activeSlot.inactive (s.nextSuperblock tx.targetGeneration) s
      cases hrun : persist s.cow.activeSlot.inactive (s.nextSuperblock tx.targetGeneration) s with
      | error e s₁ =>
          rw [left_error hrun] at hpersist
          exact .inr ⟨e, s₁, bind_error hrun, hpersist⟩
      | ok u s₁ =>
          rw [left_ok hrun] at hpersist
          rw [bind_ok hrun]
          have hlink := scope_of_held (linkFreedPages_held s₁)
          unfold finishCommit
          cases hfreed : linkFreedPages s₁ with
          | error e s₂ =>
              rw [left_error hfreed] at hlink
              exact .inr ⟨e, s₂, bind_error hfreed, hlink.trans hpersist⟩
          | ok v s₂ =>
              rw [left_ok hfreed] at hlink
              have hrotate := scope_of_held (rotateFree_kept s₂).held
              have hstack := congrArg Prod.fst ((hrotate.trans hlink).trans hpersist)
              exact .inl ⟨s₂.rotateFree.endTransaction, bind_ok hfreed, hstack, rfl⟩

end Calls

inductive ScopeOp where
  | Txn (op : TxnOp)
  | BeginTransaction
  | CommitTransaction
  | RollbackTransaction
  | Flush (nanos : Nat)
  | SetFailpoint (fp : Option PagerFailpoint)

-- `savepoint` drops an older marker of its name, and no other call picks among them.
def ScopeOp.keeps : ScopeOp → SavepointMarker → Bool
  | .Txn (.Savepoint name), m => !eqIgnoreAsciiCase m.name name
  | _, _ => true

-- The pager with what it does not record itself: how many transactions were begun, and
-- in which of them each marker was made.
structure Chronicle where
  pager : Pager
  begun : Nat
  markers : List (SavepointMarker × Nat)

def Chronicle.start (s : Pager) : Chronicle where
  pager := s
  begun := 0
  markers := []

structure Chronicle.InScope (c : Chronicle) : Prop where
  tracks : c.markers.map Prod.fst = c.pager.savepointStack
  current : ∀ m ∈ c.markers, c.pager.inTransaction = true ∧ m.2 = c.begun

theorem Chronicle.InScope.idle {c : Chronicle} (h : c.InScope) (hidle : c.pager.inTransaction = false) :
    c.markers = [] := by
  refine List.eq_nil_iff_forall_not_mem.mpr fun m hm => ?_
  have hactive := (h.current m hm).1
  rw [hidle] at hactive
  cases hactive

theorem Chronicle.InScope.unmarked {c : Chronicle} (h : c.InScope)
    (hstack : c.pager.savepointStack = []) :
    c.markers = [] :=
  List.map_eq_nil_iff.mp (h.tracks.trans hstack)

theorem start_inScope {B : Pager} (hB : B.savepointStack = []) : (Chronicle.start B).InScope :=
  ⟨hB.symm, fun _ hm => (nomatch hm)⟩

def Unnamed (name : String) (s : Pager) : Prop :=
  ∀ m ∈ s.savepointStack, eqIgnoreAsciiCase m.name name = false

theorem Unnamed.rollbackToSavepoint {name : String} {s : Pager} (h : Unnamed name s) :
    Pager.rollbackToSavepoint name s = .error (savepointNotFound name) s := by
  have hpos : s.savepointPos name = none := by
    rw [savepointPos, Option.map_eq_none_iff, List.findIdx?_eq_none_iff]
    exact fun m hm => h m (List.mem_reverse.mp hm)
  simp only [Pager.rollbackToSavepoint, get_bind, hpos]
  rfl

section Scope

variable [Lz4Flex] {op : ScopeOp} {s s' : Pager} {c : Chronicle}

def ScopeOp.call : ScopeOp → Pager → Pager
  | .Txn op => op.step
  | .BeginTransaction => left beginTransaction
  | .CommitTransaction => left commitTransaction
  | .RollbackTransaction => left rollbackTransaction
  | .Flush nanos => left (flush nanos)
  | .SetFailpoint fp => setFailpoint fp

def Chronicle.step (op : ScopeOp) (c : Chronicle) : Chronicle :=
  let s' := op.call c.pager
  let begun := if c.pager.inTransaction = false ∧ s'.inTransaction = true then c.begun + 1
    else c.begun
  let kept := (c.markers.filter fun m => op.keeps m.1).take s'.savepointStack.length
  { pager := s'
    begun := begun
    markers := kept ++ (s'.savepointStack.drop kept.length).map fun m => (m, begun) }

-- All a call can do to the markers and to the transaction.
inductive ScopeOp.Effect (op : ScopeOp) (s s' : Pager) : Prop where
  | stay (count : Nat) (hop : op.keeps = fun _ => true)
      (hstack : s'.savepointStack = s.savepointStack.take count)
      (htx : s'.inTransaction = s.inTransaction)
  | start (hop : op.keeps = fun _ => true) (hstack : s'.savepointStack = s.savepointStack)
      (hidle : s.inTransaction = false) (htx : s'.inTransaction = true)
  | mark (name : String) (m : SavepointMarker) (hop : op = .Txn (.Savepoint name))
      (hname : m.name = name)
      (hstack : s'.savepointStack = s.savepointStack.filter op.keeps ++ [m])
      (htx : s'.inTransaction = true)
  | clear (hop : op.keeps = fun _ => true) (hstack : s'.savepointStack = [])
  | commit (hop : op = .CommitTransaction) (hok : commitTransaction s = .ok () s')
      (hstack : s'.savepointStack = s.savepointStack) (htx : s'.inTransaction = false)

theorem ScopeOp.Effect.of_scope (hop : op.keeps = fun _ => true) (h : s'.scope = s.scope) :
    op.Effect s s' :=
  .stay s.savepointStack.length hop (by rw [List.take_length]; exact congrArg Prod.fst h)
    (congrArg Prod.snd h)

theorem TxnOp.step_held (op : TxnOp) (hop : op.IsPageOp) (s : Pager) : (op.step s).held = s.held := by
  cases op with
  | GetPage p => exact (getPage_rebuffered p s).kept.held
  | Write p g => exact (writePage_kept p g s).held
  | AllocatePage => exact (allocatePage_kept s).held
  | FreePage p => exact freePage_held p s
  | Savepoint name => exact hop.elim
  | ReleaseSavepoint name => exact hop.elim
  | RollbackToSavepoint name => exact hop.elim

theorem TxnOp.effect (op : TxnOp) (s : Pager) : (ScopeOp.Txn op).Effect s (op.step s) := by
  cases op with
  | GetPage p => exact .of_scope rfl (scope_of_held (TxnOp.step_held (.GetPage p) trivial s))
  | Write p g => exact .of_scope rfl (scope_of_held (TxnOp.step_held (.Write p g) trivial s))
  | AllocatePage => exact .of_scope rfl (scope_of_held (TxnOp.step_held .AllocatePage trivial s))
  | FreePage p => exact .of_scope rfl (scope_of_held (TxnOp.step_held (.FreePage p) trivial s))
  | Savepoint name =>
      cases htx : s.cow.activeTx with
      | none =>
          rw [TxnOp.step, left_savepoint_idle htx]
          exact .mark name (s.startTransaction.savepointMarker name) rfl rfl rfl rfl
      | some tx =>
          rw [TxnOp.step, left_ok (savepoint_eq (by rw [htx]; rfl) name)]
          refine .mark name (s.savepointMarker name) rfl rfl rfl ?_
          show s.cow.activeTx.isSome = true
          rw [htx]
          rfl
  | ReleaseSavepoint name =>
      obtain ⟨count, h⟩ := releaseSavepoint_eq s name
      rw [TxnOp.step, h]
      exact .stay count rfl rfl rfl
  | RollbackToSavepoint name =>
      rw [TxnOp.step]
      cases hfind : s.findMarker name with
      | none =>
          rw [rollbackToSavepoint_none hfind]
          exact .of_scope rfl rfl
      | some m =>
          obtain ⟨count, -, h⟩ := rollbackToSavepoint_eq hfind
          rw [left_ok h]
          exact .stay count rfl rfl rfl

theorem ScopeOp.effect (op : ScopeOp) (s : Pager) : op.Effect s (op.call s) := by
  cases op with
  | Txn op => exact op.effect s
  | BeginTransaction =>
      rw [ScopeOp.call]
      cases htx : s.cow.activeTx with
      | none =>
          rw [left_ok (beginTransaction_eq htx)]
          exact .start rfl rfl (by rw [inTransaction, htx]; rfl) rfl
      | some tx =>
          obtain ⟨e, he⟩ := beginTransaction_active (s := s) (by rw [inTransaction, htx]; rfl)
          rw [left_error he]
          exact .of_scope rfl rfl
  | CommitTransaction =>
      rw [ScopeOp.call]
      obtain ⟨s', hok, hstack, htx⟩ | ⟨e, s', he, hscope⟩ := commitTransaction_scope s
      · rw [left_ok hok]
        exact .commit rfl hok hstack htx
      · rw [left_error he]
        exact .of_scope rfl hscope
  | RollbackTransaction =>
      rw [ScopeOp.call]
      cases hsnap : s.txnSnapshot with
      | none =>
          rw [left_ok (rollbackTransaction_idle hsnap)]
          exact .clear rfl rfl
      | some snap =>
          rw [left_ok (rollbackTransaction_eq hsnap)]
          exact .clear rfl rfl
  | Flush nanos => exact .of_scope rfl (scope_flush nanos s)
  | SetFailpoint fp => exact .of_scope rfl rfl

-- A commit that succeeds finds no marker left.
def ScopeOp.Released (op : ScopeOp) (c : Chronicle) : Prop :=
  op = .CommitTransaction → ∀ s', commitTransaction c.pager = .ok () s' → c.pager.savepointStack = []

theorem Chronicle.step_none (h : c.markers = []) (hstack : (op.call c.pager).savepointStack = []) :
    (c.step op).InScope := by
  have hmarkers : (c.step op).markers = [] := by
    simp only [Chronicle.step, h, hstack, List.filter_nil, List.take_nil, List.drop_nil, List.map_nil,
      List.append_nil]
  refine ⟨by rw [hmarkers]; exact hstack.symm, fun m hm => ?_⟩
  rw [hmarkers] at hm
  cases hm

theorem Chronicle.step_markers {kept : List (SavepointMarker × Nat)} {new : List SavepointMarker}
    (hstack : (op.call c.pager).savepointStack = kept.map Prod.fst ++ new)
    (hkept : (c.markers.filter fun m => op.keeps m.1).take (kept.length + new.length) = kept) :
    (c.step op).markers = kept ++ new.map fun m => (m, (c.step op).begun) := by
  have hlen : (op.call c.pager).savepointStack.length = kept.length + new.length := by
    rw [hstack, List.length_append, List.length_map]
  have hdrop : (op.call c.pager).savepointStack.drop kept.length = new := by
    rw [hstack, List.drop_left' (List.length_map _)]
  unfold Chronicle.step
  dsimp only
  rw [hlen, hkept, hdrop]

theorem Chronicle.step_inScope (h : c.InScope) (hop : op.Released c) : (c.step op).InScope := by
  cases op.effect c.pager with
  | clear hkeeps hstack =>
      have hmarkers : (c.step op).markers = [] := by
        simp only [Chronicle.step, hstack, List.length_nil, List.take_zero, List.drop_nil, List.map_nil,
          List.append_nil]
      refine ⟨by rw [hmarkers]; exact hstack.symm, fun m hm => ?_⟩
      rw [hmarkers] at hm
      cases hm
  | commit hcommit hok hstack htx =>
      have hempty := hop hcommit _ hok
      exact Chronicle.step_none (h.unmarked hempty) (hstack.trans hempty)
  | start hkeeps hstack hidle htx =>
      have hmarkers := h.idle hidle
      have hempty : c.pager.savepointStack = [] := by rw [← h.tracks, hmarkers]; rfl
      exact Chronicle.step_none hmarkers (hstack.trans hempty)
  | stay count hkeeps hstack htx =>
      have hstack' : (op.call c.pager).savepointStack = (c.markers.take count).map Prod.fst ++ [] := by
        rw [hstack, ← h.tracks, List.map_take, List.append_nil]
      have hmarkers := Chronicle.step_markers (c := c) hstack' (by
        simp [hkeeps, List.take_eq_take_iff])
      have hbegun : (c.step op).begun = c.begun := by
        refine if_neg fun hboth => ?_
        rw [htx, hboth.1] at hboth
        cases hboth.2
      rw [List.map_nil, List.append_nil] at hmarkers
      refine ⟨by rw [hmarkers, ← List.append_nil (List.map _ _)]; exact hstack'.symm, fun m hm => ?_⟩
      rw [hmarkers] at hm
      obtain ⟨hactive, hborn⟩ := h.current m (List.mem_of_mem_take hm)
      exact ⟨htx.trans hactive, hborn.trans hbegun.symm⟩
  | mark name m hsave hname hstack htx =>
      have hstack' : (op.call c.pager).savepointStack =
          (c.markers.filter fun m => op.keeps m.1).map Prod.fst ++ [m] := by
        rw [hstack, ← h.tracks, List.filter_map]
        rfl
      have hmarkers := Chronicle.step_markers (c := c) hstack'
        (List.take_of_length_le (Nat.le_add_right _ _))
      refine ⟨by rw [hmarkers, List.map_append]; exact hstack'.symm, fun m' hm' => ⟨htx, ?_⟩⟩
      rw [hmarkers] at hm'
      rcases List.mem_append.mp hm' with hold | hnew
      · obtain ⟨hactive, hborn⟩ := h.current m' (List.mem_of_mem_filter hold)
        have hbegun : (c.step op).begun = c.begun := by
          refine if_neg fun hboth => ?_
          rw [hactive] at hboth
          cases hboth.1
        exact hborn.trans hbegun.symm
      · rw [List.map_singleton, List.mem_singleton] at hnew
        rw [hnew]

theorem ScopeOp.unnamed_call {name : String} (h : Unnamed name s)
    (hop : ∀ n, op = .Txn (.Savepoint n) → eqIgnoreAsciiCase n name = false) :
    Unnamed name (op.call s) := by
  intro m hm
  cases op.effect s with
  | clear hkeeps hstack =>
      rw [hstack] at hm
      cases hm
  | commit hcommit hok hstack htx =>
      rw [hstack] at hm
      exact h m hm
  | start hkeeps hstack hidle htx =>
      rw [hstack] at hm
      exact h m hm
  | stay count hkeeps hstack htx =>
      rw [hstack] at hm
      exact h m (List.mem_of_mem_take hm)
  | mark n new hsave hname hstack htx =>
      rw [hstack] at hm
      rcases List.mem_append.mp hm with hold | hnew
      · exact h m (List.mem_of_mem_filter hold)
      · rw [List.mem_singleton.mp hnew, hname]
        exact hop n hsave

theorem unnamed_run {name : String} (ops : List ScopeOp) (h : Unnamed name c.pager)
    (hops : ∀ n, .Txn (.Savepoint n) ∈ ops → eqIgnoreAsciiCase n name = false) :
    Unnamed name (run Chronicle.step ops c).pager := by
  have hmeets : Meets Chronicle.step (fun op _ => op ∈ ops) ops c := by
    refine meets_of_prefixes fun before op after heq => ?_
    rw [heq]
    exact List.mem_append_right _ List.mem_cons_self
  refine run_invariant (fun c : Chronicle => Unnamed name c.pager) h ?_ hmeets
  intro op c hc hmem
  exact ScopeOp.unnamed_call hc fun n hn => hops n (hn ▸ hmem)

structure Scoped (B : Pager) (ops : List ScopeOp) : Prop where
  markers : ∀ before after, ops = before ++ after →
    (run Chronicle.step before (Chronicle.start B)).InScope
  expired : ∀ before between after name,
    ops = before ++ .CommitTransaction :: (between ++ after) →
    (∃ s', commitTransaction (run Chronicle.step before (Chronicle.start B)).pager = .ok () s') →
    (∀ n, .Txn (.Savepoint n) ∈ between → eqIgnoreAsciiCase n name = false) →
    let s := (run Chronicle.step (before ++ .CommitTransaction :: between) (Chronicle.start B)).pager
    rollbackToSavepoint name s = .error (savepointNotFound name) s

theorem inScope_run {B : Pager} (hB : B.savepointStack = []) {ops : List ScopeOp}
    (hops : Meets Chronicle.step ScopeOp.Released ops (Chronicle.start B)) :
    (run Chronicle.step ops (Chronicle.start B)).InScope :=
  run_invariant Chronicle.InScope (start_inScope hB) (fun _ _ => Chronicle.step_inScope) hops

-- The run keeps savepoints in their transactions exactly when every commit that
-- succeeds is made without one.
theorem scoped_iff_released (B : Pager) (hB : B.savepointStack = []) (ops : List ScopeOp) :
    Scoped B ops ↔ Meets Chronicle.step ScopeOp.Released ops (Chronicle.start B) := by
  constructor
  · intro h
    refine meets_of_prefixes fun before op after heq hop s' hok => ?_
    have hafter := h.markers (before ++ [op]) after (by rw [heq, List.append_assoc]; rfl)
    rw [run_append] at hafter
    generalize run Chronicle.step before (Chronicle.start B) = c at hok hafter
    rw [hop] at hafter
    obtain ⟨s'', hok', hstack, htx⟩ | ⟨e, s'', he, -⟩ := commitTransaction_scope c.pager
    · have hcall : (c.step .CommitTransaction).pager = s'' := left_ok hok'
      have hscope : (c.step .CommitTransaction).InScope := hafter
      have htracks := hscope.tracks
      rw [hscope.idle (by rw [hcall]; exact htx), hcall, hstack] at htracks
      exact htracks.symm
    · rw [he] at hok
      cases hok
  · intro h
    refine ⟨fun before after heq => ?_, ?_⟩
    · rw [heq] at h
      exact inScope_run hB (meets_append h).1
    · intro before between after name heq hok hbetween
      rw [heq] at h
      have hempty := h.at rfl _ hok.choose_spec
      refine Unnamed.rollbackToSavepoint ?_
      rw [run_append]
      refine unnamed_run (.CommitTransaction :: between) ?_ ?_
      · intro m hm
        rw [hempty] at hm
        cases hm
      · intro n hn
        exact hbetween n (by simpa using hn)

end Scope

section Example

attribute [local instance] Lz4Flex.incompressible

def releasedMark : List ScopeOp :=
  [.BeginTransaction, .Txn (.Savepoint "s"), .Txn .AllocatePage, .Txn (.ReleaseSavepoint "s"),
    .CommitTransaction, .Txn (.RollbackToSavepoint "s")]

theorem scoped_releasedMark : Scoped (openMemory Buf.zero) releasedMark := by
  refine (scoped_iff_released (openMemory Buf.zero) rfl releasedMark).mpr ?_
  refine ⟨fun h => (nomatch h), fun h => (nomatch h), fun h => (nomatch h), fun h => (nomatch h),
    fun _ _ _ => List.eq_nil_of_length_eq_zero ?_, fun h => (nomatch h), trivial⟩
  decide +kernel

def committedMark : List ScopeOp :=
  [.BeginTransaction, .Txn (.Savepoint "s"), .Txn .AllocatePage, .CommitTransaction]

-- The committed page is cut off again.
theorem rollbackToSavepoint_after_commit :
    ¬Scoped (openMemory Buf.zero) committedMark ∧
      let s := (run Chronicle.step committedMark (Chronicle.start (openMemory Buf.zero))).pager
      s.inTransaction = false ∧ s.pages.length = 4 ∧
        (left (rollbackToSavepoint "s") s).pages.length = 3 := by
  have hidle : (run Chronicle.step committedMark (Chronicle.start (openMemory Buf.zero))).pager.inTransaction =
      false := by decide +kernel
  refine ⟨fun h => ?_, hidle, by decide +kernel, by decide +kernel⟩
  have hscope := h.markers committedMark [] (List.append_nil _).symm
  have htracks := congrArg List.length hscope.tracks
  rw [hscope.idle hidle] at htracks
  revert htracks
  decide +kernel

end Example

end Pager

end Kkdb
