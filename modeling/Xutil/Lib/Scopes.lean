import Xutil.Lib.Calls

/-!
# Scopes that are left in any case

What a scope does on the way out runs after its body whether the body has
thrown or not. An exception that leaves it there ends the program: nothing
catches that, and no scope further out is left any more.
-/

namespace Scopes

open Calls

inductive Stop (ε : Type)
  | thrown (e : ε)
  | terminated
  deriving Repr, DecidableEq

variable {ε σ : Type}

/-- `leave` runs on the way out of `body`, by its end or by an exception. -/
def onExit (body leave : Call (Stop ε) σ Unit) : Call (Stop ε) σ Unit := fun s =>
  match body.run s with
  | (.error .terminated, s') => (.error .terminated, s')
  | (r, s') =>
    match leave.run s' with
    | (.ok _, s'') => (r, s'')
    | (.error _, s'') => (.error .terminated, s'')

def catching (body : Call (Stop ε) σ Unit) (handler : ε → Call (Stop ε) σ Unit) :
    Call (Stop ε) σ Unit := fun s =>
  match body.run s with
  | (.error (.thrown e), s') => (handler e).run s'
  | (r, s') => (r, s')

def swallow (body : Call (Stop ε) σ Unit) : Call (Stop ε) σ Unit :=
  catching body fun _ s => (.ok (), s)

/-- Ends, or throws something that can be caught. -/
def caught (r : Except ε Unit) : Except (Stop ε) Unit := r.mapError .thrown

@[simp] theorem caught_ok : caught (.ok () : Except ε Unit) = .ok () := rfl

@[simp] theorem caught_error (e : ε) : caught (.error e) = .error (.thrown e) := rfl

theorem run_onExit {body leave : Call (Stop ε) σ Unit} {r : Except ε Unit}
    (hbody : body.run s = (caught r, s')) (hleave : leave.run s' = (.ok (), s'')) :
    (onExit body leave).run s = (caught r, s'') := by
  simp only [Call.run] at *
  cases r with
  | ok _ =>
    rw [caught_ok] at *
    simp only [onExit, Call.run, hbody, hleave]
  | error e =>
    rw [caught_error] at *
    simp only [onExit, Call.run, hbody, hleave]

theorem run_onExit_terminated {body leave : Call (Stop ε) σ Unit} (hbody : body.run s = (r, s'))
    (hleave : r = .error .terminated ∨ ∃ e s'', leave.run s' = (.error e, s'')) :
    ((onExit body leave).run s).1 = .error .terminated := by
  simp only [Call.run] at *
  rcases r with (e | _) | _
  · obtain ⟨_, _, hleave⟩ := hleave.resolve_left (by simp)
    simp only [onExit, Call.run, hbody, hleave]
  · simp only [onExit, Call.run, hbody]
  · obtain ⟨_, _, hleave⟩ := hleave.resolve_left (by simp)
    simp only [onExit, Call.run, hbody, hleave]

theorem run_catching_ok {body : Call (Stop ε) σ Unit} {handler : ε → Call (Stop ε) σ Unit}
    (h : body.run s = (.ok (), s')) : (catching body handler).run s = (.ok (), s') := by
  simp only [catching, Call.run] at *
  simp only [h]

theorem run_catching_thrown {body : Call (Stop ε) σ Unit} {handler : ε → Call (Stop ε) σ Unit}
    (h : body.run s = (.error (.thrown e), s')) :
    (catching body handler).run s = (handler e).run s' := by
  simp only [catching, Call.run] at *
  simp only [h]

theorem run_swallow {body : Call (Stop ε) σ Unit} {r : Except ε Unit}
    (h : body.run s = (caught r, s')) : (swallow body).run s = (.ok (), s') := by
  cases r with
  | ok _ => exact run_catching_ok h
  | error e => exact run_catching_thrown h

-- ---------------------------------------------------------------------------
-- Two calls side by side
-- ---------------------------------------------------------------------------

variable {τ : Type} {P Q : Prop} {R : σ → τ → Prop} {lost : σ → Prop}

/-- A handler where nothing ends the program. -/
def recovering (body : Call ε τ Unit) (handler : ε → Call ε τ Unit) : Call ε τ Unit := fun t =>
  match body.run t with
  | (.ok (), t') => (.ok (), t')
  | (.error e, t') => (handler e).run t'

/-- Ends the program, or in a state that is lost. -/
def Gone (lost : σ → Prop) (x : Except (Stop ε) Unit × σ) : Prop :=
  x.1 = .error .terminated ∨ lost x.2

/-- From related states the two calls end the same way, in related states. If
`P` holds, the first may be gone instead. -/
def Follows (P : Prop) (R : σ → τ → Prop) (lost : σ → Prop) (m : Call (Stop ε) σ Unit)
    (n : Call ε τ Unit) : Prop :=
  ∀ s t, R s t → (P ∧ Gone lost (m.run s)) ∨
    ((m.run s).1 = caught (n.run t).1 ∧ R (m.run s).2 (n.run t).2)

/-- What is lost stays lost. -/
def Stays (lost : σ → Prop) (m : Call (Stop ε) σ Unit) : Prop := ∀ s, lost s → Gone lost (m.run s)

theorem Follows.mono {m : Call (Stop ε) σ Unit} {n : Call ε τ Unit} (h : Follows P R lost m n)
    (hPQ : P → Q) : Follows Q R lost m n :=
  fun s t hR => (h s t hR).imp_left fun hgone => ⟨hPQ hgone.1, hgone.2⟩

theorem Follows.pure : Follows P R lost (Pure.pure () : Call (Stop ε) σ Unit) (Pure.pure ()) :=
  fun _ _ hR => .inr ⟨rfl, hR⟩

theorem Follows.throw (e : ε) : Follows P R lost (.throw (.thrown e)) (.throw e) :=
  fun _ _ hR => .inr ⟨rfl, hR⟩

theorem Follows.modify {f : σ → σ} {g : τ → τ} (h : ∀ s t, R s t → R (f s) (g t)) :
    Follows P R lost (.modify f : Call (Stop ε) σ Unit) (.modify g) :=
  fun s t hR => .inr ⟨rfl, h s t hR⟩

theorem gone_bind {m m' : Call (Stop ε) σ Unit} (hstay : Stays lost m') (h : Gone lost (m.run s)) :
    Gone lost ((m >>= fun _ => m').run s) := by
  rcases hm : m.run s with ⟨r, s'⟩
  rw [hm] at h
  cases r with
  | ok _ =>
    rw [Call.run_bind_ok hm]
    exact hstay s' (h.resolve_left (by simp))
  | error e =>
    rw [Call.run_bind_error hm]
    exact h

theorem Follows.bind {m m' : Call (Stop ε) σ Unit} {n n' : Call ε τ Unit}
    (hm : Follows P R lost m n) (hm' : Follows P R lost m' n') (hstay : P → Stays lost m') :
    Follows P R lost (m >>= fun _ => m') (n >>= fun _ => n') := by
  intro s t hR
  obtain ⟨hP, hgone⟩ | ⟨hr, hR'⟩ := hm s t hR
  · exact .inl ⟨hP, gone_bind (hstay hP) hgone⟩
  · rcases hs : m.run s with ⟨r, s'⟩
    rcases ht : n.run t with ⟨r', t'⟩
    rw [hs, ht] at hr hR'
    cases r' with
    | ok _ =>
      obtain rfl : r = .ok () := hr
      rw [Call.run_bind_ok hs, Call.run_bind_ok ht]
      exact hm' s' t' hR'
    | error e =>
      obtain rfl : r = .error (.thrown e) := hr
      rw [Call.run_bind_error hs, Call.run_bind_error ht]
      exact .inr ⟨rfl, hR'⟩

theorem gone_catching {body : Call (Stop ε) σ Unit} {handler : ε → Call (Stop ε) σ Unit}
    (hstay : ∀ e, Stays lost (handler e)) (h : Gone lost (body.run s)) :
    Gone lost ((catching body handler).run s) := by
  rcases hbody : body.run s with ⟨r, s'⟩
  rw [hbody] at h
  rcases r with (e | _) | _
  · rw [run_catching_thrown hbody]
    exact hstay e s' (h.resolve_left (by simp))
  · exact .inl (by simp only [catching, Call.run] at *; simp only [hbody])
  · rw [run_catching_ok hbody]
    exact h

theorem Follows.catching {body : Call (Stop ε) σ Unit} {body' : Call ε τ Unit}
    {handler : ε → Call (Stop ε) σ Unit} {handler' : ε → Call ε τ Unit}
    (hbody : Follows P R lost body body')
    (hhandler : ∀ e, Follows P R lost (handler e) (handler' e)) (hstay : P → ∀ e, Stays lost (handler e)) :
    Follows P R lost (Scopes.catching body handler) (recovering body' handler') := by
  intro s t hR
  obtain ⟨hP, hgone⟩ | ⟨hr, hR'⟩ := hbody s t hR
  · exact .inl ⟨hP, gone_catching (hstay hP) hgone⟩
  · rcases hs : body.run s with ⟨r, s'⟩
    rcases ht : body'.run t with ⟨r', t'⟩
    rw [hs, ht] at hr hR'
    cases r' with
    | ok _ =>
      obtain rfl : r = .ok () := hr
      have hdone : (recovering body' handler').run t = (.ok (), t') := by
        simp only [recovering, Call.run] at *
        simp only [ht]
      rw [run_catching_ok hs, hdone]
      exact .inr ⟨rfl, hR'⟩
    | error e =>
      obtain rfl : r = .error (.thrown e) := hr
      have hcaught : (recovering body' handler').run t = (handler' e).run t' := by
        simp only [recovering, Call.run] at *
        simp only [ht]
      rw [run_catching_thrown hs, hcaught]
      exact hhandler e s' t' hR'

end Scopes
