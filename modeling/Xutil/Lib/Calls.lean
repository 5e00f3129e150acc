import Mathlib.Logic.Basic

/-!
# Calls that may throw

A `Call` reads and writes a state and returns or throws. What it wrote before
it threw stays written.
-/

namespace Calls

def Call (ε σ α : Type) : Type := σ → Except ε α × σ

namespace Call

def run (m : Call ε σ α) (s : σ) : Except ε α × σ := m s

instance : Monad (Call ε σ) where
  pure a := fun s => (.ok a, s)
  bind m f := fun s =>
    match m s with
    | (.ok a, s') => f a s'
    | (.error e, s') => (.error e, s')

def throw (e : ε) : Call ε σ α := fun s => (.error e, s)

def get : Call ε σ σ := fun s => (.ok s, s)

def modify (f : σ → σ) : Call ε σ Unit := fun s => (.ok (), f s)

/-- Swallows whatever the body throws. -/
def ignore (m : Call ε σ Unit) : Call ε σ Unit := fun s => (.ok (), (m s).2)

/-- Tidies up on the way out of a body that throws, and throws on. -/
def onError (m : Call ε σ α) (tidy : σ → σ) : Call ε σ α := fun s =>
  match m s with
  | (.ok a, s') => (.ok a, s')
  | (.error e, s') => (.error e, tidy s')

@[simp] theorem run_pure (a : α) (s : σ) : (pure a : Call ε σ α).run s = (.ok a, s) := rfl

theorem run_bind (m : Call ε σ α) (f : α → Call ε σ β) (s : σ) :
    (m >>= f).run s = match m.run s with
      | (.ok a, s') => (f a).run s'
      | (.error e, s') => (.error e, s') := rfl

@[simp] theorem run_throw (e : ε) (s : σ) :
    (throw e : Call ε σ α).run s = (.error e, s) := rfl

@[simp] theorem run_get (s : σ) : (get : Call ε σ σ).run s = (.ok s, s) := rfl

@[simp] theorem run_modify (f : σ → σ) (s : σ) :
    (modify f : Call ε σ Unit).run s = (.ok (), f s) := rfl

@[simp] theorem run_ignore (m : Call ε σ Unit) (s : σ) :
    m.ignore.run s = (.ok (), (m.run s).2) := rfl

theorem run_bind_ok {m : Call ε σ α} {f : α → Call ε σ β} (h : m.run s = (.ok a, s')) :
    (m >>= f).run s = (f a).run s' := by
  rw [run_bind, h]

theorem run_bind_error {m : Call ε σ α} {f : α → Call ε σ β} (h : m.run s = (.error e, s')) :
    (m >>= f).run s = (.error e, s') := by
  rw [run_bind, h]

theorem run_onError (m : Call ε σ α) (tidy : σ → σ) (s : σ) :
    (m.onError tidy).run s = match m.run s with
      | (.ok a, s') => (.ok a, s')
      | (.error e, s') => (.error e, tidy s') := rfl

theorem run_bind_cases {m : Call ε σ α} {f : α → Call ε σ β} (h : (m >>= f).run s = (r, s'')) :
    (∃ a s', m.run s = (.ok a, s') ∧ (f a).run s' = (r, s'')) ∨
      (∃ e, m.run s = (.error e, s'') ∧ r = .error e) := by
  rw [run_bind] at h
  split at h
  · exact .inl ⟨_, _, ‹_›, h⟩
  · cases h
    exact .inr ⟨_, ‹_›, rfl⟩

-- ---------------------------------------------------------------------------
-- Loops
-- ---------------------------------------------------------------------------

/-- A loop over a list visits every element, or those up to the first on which
its body throws. -/
theorem run_forM {f : α → Call ε σ PUnit} {throws : α → Bool} {visit : σ → α → σ}
    (hf : ∀ a s, (f a).run s = (if throws a then .error e else .ok ⟨⟩, visit s a))
    (as : List α) (s : σ) :
    ((∀ a ∈ as, throws a = false) ∧ (forM as f).run s = (.ok ⟨⟩, as.foldl visit s)) ∨
      ∃ before a after, as = before ++ a :: after ∧ (∀ b ∈ before, throws b = false) ∧
        throws a = true ∧ (forM as f).run s = (.error e, (before ++ [a]).foldl visit s) := by
  induction as generalizing s with
  | nil => exact .inl ⟨by simp, rfl⟩
  | cons a as ih =>
    rw [List.forM_cons]
    cases ha : throws a with
    | true =>
      refine .inr ⟨[], a, as, rfl, by simp, ha, run_bind_error ?_⟩
      rw [hf, if_pos ha]
      rfl
    | false =>
      have hone : (f a).run s = (.ok ⟨⟩, visit s a) := by rw [hf, if_neg (by simp [ha])]
      rw [run_bind_ok hone]
      obtain ⟨hall, hrun⟩ | ⟨before, b, after, rfl, hbefore, hb, hrun⟩ := ih (visit s a)
      · exact .inl ⟨List.forall_mem_cons.mpr ⟨ha, hall⟩, hrun⟩
      · exact .inr ⟨a :: before, b, after, rfl, List.forall_mem_cons.mpr ⟨ha, hbefore⟩, hb, hrun⟩

theorem first_unique {throws : α → Bool} {a a' : α} {before before' after after' : List α}
    (hbefore : ∀ b ∈ before, throws b = false) (ha : throws a = true)
    (hbefore' : ∀ b ∈ before', throws b = false) (ha' : throws a' = true)
    (h : before ++ a :: after = before' ++ a' :: after') : before = before' ∧ a = a' := by
  induction before generalizing before' with
  | nil =>
    cases before' with
    | nil => simpa using (List.cons.inj h).1
    | cons b bs =>
      obtain ⟨rfl, _⟩ := List.cons.inj h
      simp [ha] at hbefore'
  | cons b bs ih =>
    cases before' with
    | nil =>
      obtain ⟨rfl, _⟩ := List.cons.inj h
      simp [ha'] at hbefore
    | cons b' bs' =>
      obtain ⟨rfl, hrest⟩ := List.cons.inj h
      obtain ⟨rfl, rfl⟩ :=
        ih (List.forall_mem_cons.mp hbefore).2 (List.forall_mem_cons.mp hbefore').2 hrest
      exact ⟨rfl, rfl⟩

-- ---------------------------------------------------------------------------
-- Two calls side by side
-- ---------------------------------------------------------------------------

/-- From related states the two calls end the same way, in related states. -/
def Alike (R : σ → τ → Prop) (m : Call ε σ α) (m' : Call ε τ α) : Prop :=
  ∀ s t, R s t → (m.run s).1 = (m'.run t).1 ∧ R (m.run s).2 (m'.run t).2

variable {R : σ → τ → Prop}

theorem Alike.pure (a : α) : Alike R (Pure.pure a : Call ε σ α) (Pure.pure a : Call ε τ α) :=
  fun _ _ h => ⟨rfl, h⟩

theorem Alike.throw (e : ε) : Alike R (.throw e : Call ε σ α) (.throw e : Call ε τ α) :=
  fun _ _ h => ⟨rfl, h⟩

theorem Alike.bind {m : Call ε σ α} {m' : Call ε τ α} {f : α → Call ε σ β} {f' : α → Call ε τ β}
    (hm : Alike R m m') (hf : ∀ a, Alike R (f a) (f' a)) : Alike R (m >>= f) (m' >>= f') := by
  intro s t h
  obtain ⟨hr, hs⟩ := hm s t h
  rw [run_bind, run_bind]
  rcases hm1 : m.run s with ⟨_ | a, s'⟩ <;> rcases hm2 : m'.run t with ⟨_ | a', t'⟩ <;>
    simp only [hm1, hm2, reduceCtorEq, Except.error.injEq, Except.ok.injEq] at hr hs
  · exact ⟨congrArg _ hr, hs⟩
  · subst hr
    exact hf a s' t' hs

end Call

end Calls
