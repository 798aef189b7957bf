import Mathlib.Data.List.Basic

namespace Lib

section Calls

variable {ε σ α β : Type} {x : EStateM ε σ α} {f : α → EStateM ε σ β} {s s' : σ}

theorem bind_ok {a : α} (h : x s = .ok a s') : (x >>= f) s = f a s' := by
  simp only [bind, EStateM.bind, h]

theorem bind_error {e : ε} (h : x s = .error e s') : (x >>= f) s = .error e s' := by
  simp only [bind, EStateM.bind, h]

theorem ok_of_bind {x : Except ε α} {f : α → Except ε β} {b : β} (h : (x >>= f) = .ok b) :
    ∃ a, x = .ok a ∧ f a = .ok b := by
  cases x with
  | ok a => exact ⟨a, rfl, h⟩
  | error e => cases h

theorem bind_congr_ok {x : Except ε α} {f g : α → Except ε β} (h : ∀ a, x = .ok a → f a = g a) :
    (x >>= f) = (x >>= g) := by
  cases x with
  | error e => rfl
  | ok a => exact h a rfl

theorem ok_of_bind_state {b : β} (h : (x >>= f) s = .ok b s') : ∃ a s₁, x s = .ok a s₁ ∧ f a s₁ = .ok b s' := by
  cases hrun : x s with
  | ok a s₁ =>
      rw [bind_ok hrun] at h
      exact ⟨a, s₁, rfl, h⟩
  | error e s₁ =>
      rw [bind_error hrun] at h
      cases h

@[simp] theorem get_bind (f : σ → EStateM ε σ β) (s : σ) : ((get : EStateM ε σ σ) >>= f) s = f s s := rfl

@[simp] theorem modify_bind (g : σ → σ) (f : PUnit → EStateM ε σ β) (s : σ) :
    ((modify g : EStateM ε σ PUnit) >>= f) s = f ⟨⟩ (g s) := rfl

@[simp] theorem pure_apply (a : α) (s : σ) : (pure a : EStateM ε σ α) s = .ok a s := rfl

@[simp] theorem throw_apply (e : ε) (s : σ) : (throw e : EStateM ε σ α) s = .error e s := rfl

theorem ite_apply_state (c : Prop) [Decidable c] (x y : EStateM ε σ α) (s : σ) :
    (if c then x else y) s = if c then x s else y s := by
  split_ifs <;> rfl

def left (x : EStateM ε σ α) (s : σ) : σ :=
  match x s with
  | .ok _ s' => s'
  | .error _ s' => s'

theorem left_ok {a : α} (h : x s = .ok a s') : left x s = s' := by
  rw [left, h]

theorem left_error {e : ε} (h : x s = .error e s') :
    left x s = s' := by
  rw [left, h]

@[simp] theorem left_pure (a : α) (s : σ) : left (pure a : EStateM ε σ α) s = s := rfl

@[simp] theorem left_throw (e : ε) (s : σ) : left (throw e : EStateM ε σ α) s = s := rfl

@[simp] theorem left_modify (g : σ → σ) (s : σ) : left (modify g : EStateM ε σ PUnit) s = g s := rfl

@[simp] theorem left_get_bind (f : σ → EStateM ε σ β) (s : σ) :
    left ((get : EStateM ε σ σ) >>= f) s = left (f s) s := rfl

@[simp] theorem left_modify_bind (g : σ → σ) (f : PUnit → EStateM ε σ β) (s : σ) :
    left ((modify g : EStateM ε σ PUnit) >>= f) s = left (f ⟨⟩) (g s) := rfl

theorem left_bind_ok {a : α} (h : x s = .ok a s') :
    left (x >>= f) s = left (f a) s' := by
  rw [left, bind_ok h, left]

theorem left_bind_error {e : ε} (h : x s = .error e s') :
    left (x >>= f) s = s' := left_error (bind_error h)

theorem left_bind_inv (I : σ → Prop) (hx : I (left x s))
    (hf : ∀ a s', I s' → I (left (f a) s')) : I (left (x >>= f) s) := by
  cases hrun : x s with
  | ok a s' =>
      rw [left_ok hrun] at hx
      rw [left_bind_ok hrun]
      exact hf a s' hx
  | error e s' =>
      rw [left_error hrun] at hx
      rw [left_bind_error hrun]
      exact hx

theorem left_bind (R : σ → σ → Prop) (htrans : ∀ a b c, R a b → R b c → R a c)
    (hx : R s (left x s))
    (hf : ∀ a s', x s = .ok a s' → R s' (left (f a) s')) : R s (left (x >>= f) s) := by
  cases hrun : x s with
  | ok a s' =>
      rw [left_ok hrun] at hx
      rw [left, bind_ok hrun]
      exact htrans _ _ _ hx (hf a s' hrun)
  | error e s' =>
      rw [left_error hrun] at hx
      rw [left_error (bind_error hrun)]
      exact hx

-- The call succeeds, and the result and the state it leaves satisfy the postcondition.
def Yields (x : EStateM ε σ α) (s : σ) (Q : α → σ → Prop) : Prop := ∃ a s', x s = .ok a s' ∧ Q a s'

variable {Q : α → σ → Prop}

theorem Yields.pure {a : α} (h : Q a s) :
    Yields (Pure.pure a : EStateM ε σ α) s Q := ⟨a, s, rfl, h⟩

theorem Yields.mono {R : α → σ → Prop} (h : Yields x s Q) (hqr : ∀ a s', Q a s' → R a s') : Yields x s R := by
  obtain ⟨a, s', hrun, hq⟩ := h
  exact ⟨a, s', hrun, hqr a s' hq⟩

theorem Yields.bind {R : β → σ → Prop} (h : Yields x s Q) (hf : ∀ a s', Q a s' → Yields (f a) s' R) :
    Yields (x >>= f) s R := by
  obtain ⟨a, s', hrun, hq⟩ := h
  obtain ⟨b, s'', hrun', hr⟩ := hf a s' hq
  exact ⟨b, s'', by rw [bind_ok hrun]; exact hrun', hr⟩

-- The call fails with the error, and the state it leaves satisfies the postcondition.
def Raises (x : EStateM ε σ α) (s : σ) (e : ε) (Q : σ → Prop) : Prop := ∃ s', x s = .error e s' ∧ Q s'

theorem Raises.mono {e : ε} {Q R : σ → Prop} (h : Raises x s e Q)
    (hqr : ∀ s', Q s' → R s') : Raises x s e R := by
  obtain ⟨s', hrun, hq⟩ := h
  exact ⟨s', hrun, hqr s' hq⟩

theorem Raises.bind {e : ε} {Q : σ → Prop} (h : Raises x s e Q) : Raises (x >>= f) s e Q := by
  obtain ⟨s', hrun, hq⟩ := h
  exact ⟨s', bind_error hrun, hq⟩

theorem Yields.bind_raises {e : ε} {R : σ → Prop} (h : Yields x s Q)
    (hf : ∀ a s', Q a s' → Raises (f a) s' e R) : Raises (x >>= f) s e R := by
  obtain ⟨a, s', hrun, hq⟩ := h
  obtain ⟨s'', hrun', hr⟩ := hf a s' hq
  exact ⟨s'', by rw [bind_ok hrun]; exact hrun', hr⟩

theorem Yields.ok {a : α} (h : Yields x s Q) (hrun : x s = .ok a s') : Q a s' := by
  obtain ⟨a', s'', hrun', hq⟩ := h
  rw [hrun] at hrun'
  cases hrun'
  exact hq

-- The call succeeds and meets the first postcondition, or it fails and meets the second.
def Ends (x : EStateM ε σ α) (s : σ) (Q : α → σ → Prop) (E : ε → σ → Prop) : Prop :=
  Yields x s Q ∨ ∃ e, Raises x s e (E e)

variable {E : ε → σ → Prop}

theorem Yields.ends (h : Yields x s Q) :
    Ends x s Q E := .inl h

theorem Ends.bind {R : β → σ → Prop}
    (h : Ends x s Q E) (hf : ∀ a s', Q a s' → Ends (f a) s' R E) : Ends (x >>= f) s R E := by
  rcases h with ⟨a, s', hrun, hq⟩ | ⟨e, hraise⟩
  · rcases hf a s' hq with ⟨b, s'', hrun', hr⟩ | ⟨e, s'', hrun', he⟩
    · exact .inl ⟨b, s'', (bind_ok hrun).trans hrun', hr⟩
    · exact .inr ⟨e, s'', (bind_ok hrun).trans hrun', he⟩
  · exact .inr ⟨e, hraise.bind⟩

theorem Ends.mono {R : α → σ → Prop} {F : ε → σ → Prop} (h : Ends x s Q E)
    (hqr : ∀ a s', Q a s' → R a s') (hef : ∀ e s', E e s' → F e s') : Ends x s R F := by
  rcases h with hyield | ⟨e, hraise⟩
  · exact .inl (hyield.mono hqr)
  · exact .inr ⟨e, hraise.mono (hef e)⟩

theorem Ends.ok {a : α} (h : Ends x s Q E) (hrun : x s = .ok a s') : Q a s' := by
  rcases h with hyield | ⟨e, s'', hraise, -⟩
  · exact hyield.ok hrun
  · rw [hrun] at hraise
    cases hraise

-- From every admissible state the call yields the value, and it leaves an admissible state.
def Settles (adm : σ → Prop) (x : EStateM ε σ α) (a : α) : Prop :=
  ∀ s, adm s → ∃ s', x s = .ok a s' ∧ adm s'

theorem Settles.pure {adm : σ → Prop} (a : α) : Settles adm (Pure.pure a : EStateM ε σ α) a :=
  fun s h => ⟨s, rfl, h⟩

theorem Settles.bind {adm : σ → Prop} {a : α} {b : β}
    (hx : Settles adm x a) (hf : Settles adm (f a) b) : Settles adm (x >>= f) b := by
  intro s h
  obtain ⟨s', hrun, h'⟩ := hx s h
  obtain ⟨s'', hrun', h''⟩ := hf s' h'
  exact ⟨s'', by rw [bind_ok hrun]; exact hrun', h''⟩

variable {xs : List β}

theorem mapM_congr {m : Type → Type} [Monad m] [LawfulMonad m] {f g : β → m α}
    (h : ∀ x ∈ xs, f x = g x) : xs.mapM f = xs.mapM g := by
  induction xs with
  | nil => rfl
  | cons x xs ih =>
      rw [List.mapM_cons, List.mapM_cons, h x List.mem_cons_self, ih fun y hy =>
        h y (List.mem_cons_of_mem _ hy)]

theorem mapM_ok {f : β → Except ε α} {g : β → α} (h : ∀ x ∈ xs, f x = .ok (g x)) :
    xs.mapM f = .ok (xs.map g) := by
  induction xs with
  | nil => rfl
  | cons x xs ih =>
      have htail := ih fun y hy => h y (List.mem_cons_of_mem x hy)
      rw [List.mapM_cons, h x List.mem_cons_self, htail]
      rfl

theorem exists_of_mem_mapM {f : β → Except ε α} {ys : List α} (h : xs.mapM f = .ok ys)
    {y : α} (hy : y ∈ ys) : ∃ x ∈ xs, f x = .ok y := by
  induction xs generalizing ys with
  | nil =>
      obtain rfl := Except.ok.inj h
      cases hy
  | cons x xs ih =>
      rw [List.mapM_cons] at h
      obtain ⟨z, hz, hrest⟩ := ok_of_bind h
      obtain ⟨zs, hzs, hpure⟩ := ok_of_bind hrest
      obtain rfl := Except.ok.inj hpure
      rcases List.mem_cons.mp hy with rfl | hmem
      · exact ⟨x, List.mem_cons_self, hz⟩
      · obtain ⟨x', hx', hfx⟩ := ih hzs hmem
        exact ⟨x', List.mem_cons_of_mem _ hx', hfx⟩

theorem ok_of_mapM {f : β → Except ε α} {ys : List α} (h : xs.mapM f = .ok ys) {x : β} (hx : x ∈ xs) :
    ∃ y, f x = .ok y := by
  induction xs generalizing ys with
  | nil => cases hx
  | cons z xs ih =>
      rw [List.mapM_cons] at h
      obtain ⟨y, hy, hrest⟩ := ok_of_bind h
      obtain ⟨zs, hzs, -⟩ := ok_of_bind hrest
      rcases List.mem_cons.mp hx with rfl | hmem
      · exact ⟨y, hy⟩
      · exact ih hzs hmem

theorem map_of_mapM {f : β → Except ε α} {ys : List α} (h : xs.mapM f = .ok ys) :
    xs.map f = ys.map .ok := by
  induction xs generalizing ys with
  | nil =>
      obtain rfl := Except.ok.inj h
      rfl
  | cons x xs ih =>
      rw [List.mapM_cons] at h
      obtain ⟨y, hy, hrest⟩ := ok_of_bind h
      obtain ⟨zs, hzs, hpure⟩ := ok_of_bind hrest
      obtain rfl := Except.ok.inj hpure
      rw [List.map_cons, List.map_cons, hy, ih hzs]

theorem mapM_eq_ok_iff {f : β → Except ε α} {ys : List α} :
    xs.mapM f = .ok ys ↔ xs.map f = ys.map .ok := by
  refine ⟨map_of_mapM, fun h => ?_⟩
  induction xs generalizing ys with
  | nil =>
      rw [List.map_nil, eq_comm, List.map_eq_nil_iff] at h
      rw [h]
      rfl
  | cons x xs ih =>
      cases ys with
      | nil => exact absurd h (List.cons_ne_nil _ _)
      | cons y ys =>
          obtain ⟨hx, hxs⟩ := List.cons.inj h
          rw [List.mapM_cons, hx, ih hxs]
          rfl

theorem mapM_error {f : β → Except ε α} {e : ε} (hbad : ∃ x ∈ xs, f x = .error e)
    (h : ∀ x ∈ xs, f x = .error e ∨ ∃ a, f x = .ok a) : xs.mapM f = .error e := by
  induction xs with
  | nil => simp at hbad
  | cons x xs ih =>
      rw [List.mapM_cons]
      rcases h x List.mem_cons_self with herr | ⟨a, hok⟩
      · rw [herr]
        rfl
      · obtain ⟨y, hy, herr⟩ := hbad
        have hmem : y ∈ xs := by
          rcases List.mem_cons.mp hy with rfl | hmem
          · rw [hok] at herr
            cases herr
          · exact hmem
        rw [hok, ih ⟨y, hmem, herr⟩ fun z hz => h z (List.mem_cons_of_mem x hz)]
        rfl

theorem mapM_range_ok {f : Nat → Except ε α} {xs : List α}
    (h : ∀ i x, xs[i]? = some x → f i = .ok x) : (List.range xs.length).mapM f = .ok xs := by
  have hfrom : ∀ (xs : List α) (start : Nat), (∀ i x, xs[i]? = some x → f (start + i) = .ok x) →
      (List.range' start xs.length).mapM f = .ok xs := by
    intro xs
    induction xs with
    | nil => intros; rfl
    | cons x xs ih =>
        intro start h
        have htail := ih (start + 1) fun i y hy => by
          rw [Nat.add_right_comm, Nat.add_assoc]
          exact h (i + 1) y (by simpa using hy)
        have hhead : f start = .ok x := h 0 x rfl
        rw [List.length_cons, List.range'_succ, List.mapM_cons, hhead, htail]
        rfl
  rw [List.range_eq_range']
  exact hfrom xs 0 fun i x hx => by rw [Nat.zero_add]; exact h i x hx

end Calls

section Runs

variable {ι σ : Type} (step : ι → σ → σ) (guard : ι → σ → Prop)

def run (ops : List ι) (s : σ) : σ := ops.foldl (fun s op => step op s) s

def Meets : List ι → σ → Prop
  | [], _ => True
  | op :: ops, s => guard op s ∧ Meets ops (step op s)

instance meetsDecidable [∀ op s, Decidable (guard op s)] : ∀ ops s, Decidable (Meets step guard ops s)
  | [], _ => inferInstanceAs (Decidable True)
  | op :: ops, s =>
      have := meetsDecidable ops (step op s)
      inferInstanceAs (Decidable (guard op s ∧ Meets step guard ops (step op s)))

variable {step guard}

theorem run_append (ops ops' : List ι) (s : σ) :
    run step (ops ++ ops') s = run step ops' (run step ops s) := by
  simp [run]

theorem meets_append {ops ops' : List ι} {s : σ} (h : Meets step guard (ops ++ ops') s) :
    Meets step guard ops s ∧ Meets step guard ops' (run step ops s) := by
  induction ops generalizing s with
  | nil => exact ⟨trivial, h⟩
  | cons op ops ih =>
      obtain ⟨h₁, h₂⟩ := ih h.2
      exact ⟨⟨h.1, h₁⟩, h₂⟩

theorem meets_true (ops : List ι) (s : σ) : Meets step (fun _ _ => True) ops s := by
  induction ops generalizing s with
  | nil => trivial
  | cons op ops ih => exact ⟨trivial, ih (step op s)⟩

-- A guard may be checked at each step with the run so far in view.
theorem meets_of_met {ops : List ι} {s : σ}
    (h : ∀ before op after, ops = before ++ op :: after → Meets step guard before s →
      guard op (run step before s)) : Meets step guard ops s := by
  induction ops generalizing s with
  | nil => trivial
  | cons op ops ih =>
      have hop := h [] op ops rfl trivial
      refine ⟨hop, ih fun before op' after heq hmet => ?_⟩
      exact h (op :: before) op' after (by rw [heq]; rfl) ⟨hop, hmet⟩

theorem meets_of_prefixes {ops : List ι} {s : σ}
    (h : ∀ before op after, ops = before ++ op :: after → guard op (run step before s)) :
    Meets step guard ops s :=
  meets_of_met fun before op after heq _ => h before op after heq

-- Guards that agree where the invariant holds are met by the same runs.
theorem meets_iff {guard' : ι → σ → Prop} (Inv : σ → Prop) {s : σ} (h₀ : Inv s)
    (hstep : ∀ op s, Inv s → Inv (step op s)) (hiff : ∀ op s, Inv s → (guard op s ↔ guard' op s))
    (ops : List ι) : Meets step guard ops s ↔ Meets step guard' ops s := by
  induction ops generalizing s with
  | nil => exact Iff.rfl
  | cons op ops ih => exact and_congr (hiff op s h₀) (ih (hstep op s h₀))

theorem Meets.at {before after : List ι} {op : ι} {s : σ}
    (h : Meets step guard (before ++ op :: after) s) : guard op (run step before s) :=
  (meets_append h).2.1

-- What holds at the start and is kept by every guarded step holds after the run.
theorem run_invariant (Inv : σ → Prop) {ops : List ι} {s : σ} (h₀ : Inv s)
    (hstep : ∀ op s, Inv s → guard op s → Inv (step op s)) (hmeets : Meets step guard ops s) :
    Inv (run step ops s) := by
  induction ops generalizing s with
  | nil => exact h₀
  | cons op ops ih => exact ih (hstep op s h₀ hmeets.1) hmeets.2

end Runs

section Alike

variable {ε σ α β : Type} {I J : σ → Prop} {s : σ}

-- Both calls do the same from the state, and leave one with the invariant.
def AlikeAt (I : σ → Prop) (x y : EStateM ε σ α) (s : σ) : Prop := x s = y s ∧ I (left x s)

-- The calls cannot be told apart where the invariant holds, and keep it.
def Alike (I : σ → Prop) (x y : EStateM ε σ α) : Prop := ∀ s, I s → AlikeAt I x y s

variable {x y : EStateM ε σ α} {f g : α → EStateM ε σ β}

theorem AlikeAt.mono (h : AlikeAt I x y s) (hij : ∀ s', I s' → J s') : AlikeAt J x y s := ⟨h.1, hij _ h.2⟩

theorem AlikeAt.bind (hx : AlikeAt I x y s) (hf : ∀ a s', x s = .ok a s' → I s' → AlikeAt J (f a) (g a) s')
    (herror : ∀ s', I s' → J s') : AlikeAt J (x >>= f) (y >>= g) s := by
  obtain ⟨hsame, hkept⟩ := hx
  cases hrun : x s with
  | ok a s' =>
      rw [left_ok hrun] at hkept
      obtain ⟨hsame', hkept'⟩ := hf a s' hrun hkept
      refine ⟨?_, ?_⟩
      · rw [bind_ok hrun, bind_ok (hsame ▸ hrun), hsame']
      · rw [left_bind_ok hrun]
        exact hkept'
  | error e s' =>
      rw [left_error hrun] at hkept
      refine ⟨?_, ?_⟩
      · rw [bind_error hrun, bind_error (hsame ▸ hrun)]
      · rw [left_bind_error hrun]
        exact herror s' hkept

theorem Alike.bind (hx : Alike I x y) (hf : ∀ a, Alike I (f a) (g a)) : Alike I (x >>= f) (y >>= g) :=
    fun s hs =>
  (hx s hs).bind (fun a s' _ hs' => hf a s' hs') fun _ hs' => hs'

theorem Alike.bind_ok (hx : Alike I x y) (hf : ∀ s a s', I s → x s = .ok a s' → I s' → AlikeAt I (f a)
    (g a) s') :
    Alike I (x >>= f) (y >>= g) := fun s hs =>
  (hx s hs).bind (fun a s' hrun hs' => hf s a s' hs hrun hs') fun _ hs' => hs'

theorem Alike.of_left (h : ∀ s, I s → I (left x s)) : Alike I x x := fun s hs => ⟨rfl, h s hs⟩

theorem Alike.pure (a : α) : Alike I (Pure.pure a : EStateM ε σ α) (Pure.pure a) := .of_left fun _ hs => hs

theorem Alike.throw (e : ε) : Alike I (MonadExcept.throw e : EStateM ε σ α) (MonadExcept.throw e) :=
  .of_left fun _ hs => hs

theorem Alike.modify {u : σ → σ} (h : ∀ s, I s → I (u s)) :
    Alike I (modify u : EStateM ε σ PUnit) (modify u) := .of_left h

theorem AlikeAt.modify_bind {u : σ → σ} {f g : PUnit → EStateM ε σ β} (h : AlikeAt I (f ⟨⟩) (g ⟨⟩) (u s)) :
    AlikeAt I ((modify u : EStateM ε σ PUnit) >>= f) (modify u >>= g) s := h

theorem Alike.ite {c : Prop} [Decidable c] {x' y' : EStateM ε σ α} (hx : Alike I x y) (hy : Alike I x' y') :
    Alike I (if c then x else x') (if c then y else y') := by
  split_ifs
  · exact hx
  · exact hy

theorem Alike.forM {as : List α} {f g : α → EStateM ε σ PUnit} (h : ∀ a ∈ as, Alike I (f a) (g a)) :
    Alike I (as.forM f) (as.forM g) := by
  induction as with
  | nil => exact .pure PUnit.unit
  | cons a as ih =>
      show Alike I (f a >>= fun _ => as.forM f) (g a >>= fun _ => as.forM g)
      exact (h a List.mem_cons_self).bind fun _ => ih fun b hb => h b (List.mem_cons_of_mem _ hb)

theorem Alike.mapM {as : List α} (h : ∀ a ∈ as, Alike I (f a) (g a)) : Alike I (as.mapM f) (as.mapM g) := by
  induction as with
  | nil => exact .pure []
  | cons a as ih =>
      rw [List.mapM_cons, List.mapM_cons]
      refine (h a List.mem_cons_self).bind fun b => ?_
      exact (ih fun b hb => h b (List.mem_cons_of_mem _ hb)).bind fun bs => .pure _

end Alike

section Monitor

variable {ε σ ι α β : Type} {I : σ → Prop}

open Classical in
-- A call that does not meet the guard fails instead.
noncomputable def monitor (guard : ι → σ → Prop) (fault : ε) (call : ι → EStateM ε σ α)
  (i : ι) : EStateM ε σ α :=
  fun s => if guard i s then call i s else .error fault s

-- What is done with the calls comes out the same when those that do not meet the guard fail: all of them
-- meet it.
def Guarded (guard : ι → σ → Prop) (fault : ε) (call : ι → EStateM ε σ α) (use : (ι → EStateM ε σ α) →
    β) : Prop :=
  use (monitor guard fault call) = use call

variable {guard : ι → σ → Prop} {fault : ε} {call : ι → EStateM ε σ α} {i : ι} {s : σ}

theorem monitor_pos (h : guard i s) : monitor guard fault call i s = call i s := if_pos h

theorem monitor_neg (h : ¬guard i s) : monitor guard fault call i s = .error fault s := if_neg h

theorem guarded_of_forall {use : (ι → EStateM ε σ α) → β} (h : ∀ i s, guard i s) :
    Guarded guard fault call use :=
  congrArg use (funext fun i => funext fun s => monitor_pos (h i s))

theorem alike_monitor {guard' : ι → σ → Prop} (hiff : ∀ i s, I s → (guard i s ↔ guard' i s))
    (hkept : ∀ i s, I s → guard i s → I (left (call i) s)) (i : ι) :
    Alike I (monitor guard fault call i) (monitor guard' fault call i) := by
  intro s hs
  by_cases h : guard i s
  · refine ⟨?_, ?_⟩
    · rw [monitor_pos h, monitor_pos ((hiff i s hs).mp h)]
    · rw [left, monitor_pos h]
      exact hkept i s hs h
  · refine ⟨?_, ?_⟩
    · rw [monitor_neg h, monitor_neg fun h' => h ((hiff i s hs).mpr h')]
    · rw [left, monitor_neg h]
      exact hs

end Monitor

end Lib
