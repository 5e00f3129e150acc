import Xutil.Db.Work

/-!
# All or nothing

What a program with transactions in its scopes leaves in the database is what it
would leave if each scope had a copy to work on, which is kept if the scope has
been told to commit. For a scope inside another one there is no copy: its
constructor throws. None of this holds any more once the program has been ended
by an exception of a destructor.
-/

namespace Xutil.Db.Atomic

open Calls Handles Scopes

variable {DB : Type} {s : Base DB} {stored db : DB} {flags : List Bool}

-- ---------------------------------------------------------------------------
-- Copies
-- ---------------------------------------------------------------------------

def Effect.result : Effect DB → Call Exception (DB × List Bool) Unit
  | .wrote f => .modify fun t => (f t.1, t.2)
  | .failed e _ => .throw e

/-- A scope with a copy of the database, unless there cannot be one. -/
def copied (refused : Option Exception) (body : Call Exception (DB × List Bool) Unit) :
    Call Exception (DB × List Bool) Unit := fun t =>
  match refused with
  | some e => (.error e, t)
  | none =>
    let (r, (db, flags)) := body.run (t.1, false :: t.2)
    (r, if flags.headD false then db else t.1, flags.tail)

/-- `inside` is whether there is a scope around. -/
def atomically : Work DB → Bool → Call Exception (DB × List Bool) Unit
  | .done, _ => pure ()
  | .throw e, _ => .throw e
  | .execute effect next, inside => do
    effect.result
    atomically next inside
  | .observe next, inside => fun t => (atomically (next t.1) inside).run t
  | .commit i committed next, inside => do
    .modify fun t => (t.1, t.2.set i committed)
    atomically next inside
  | .scope type constructed body _ next, inside => do
    copied (refusal (.begin type) constructed (if inside then some .scope else none))
      (atomically body true)
    atomically next inside
  | .attempt body handler next, inside => do
    recovering (atomically body inside) fun e => atomically (handler e) inside
    atomically next inside

/-- SQLite ends each transaction when it is told to, and not before. -/
def Work.Accepting : Work DB → Prop
  | .done => True
  | .throw _ => True
  | .execute effect next => (∀ e, effect ≠ .failed e false) ∧ next.Accepting
  | .observe next => ∀ db, (next db).Accepting
  | .commit _ _ next => next.Accepting
  | .scope _ _ body destroyed next => body.Accepting ∧ destroyed.Accepted ∧ next.Accepting
  | .attempt body handler next => body.Accepting ∧ (∀ e, (handler e).Accepting) ∧ next.Accepting

-- ---------------------------------------------------------------------------
-- One scope
-- ---------------------------------------------------------------------------

/-- No transaction is active. -/
def Outside (s : Base DB) (t : DB × List Bool) : Prop := s = ⟨t.1, none, t.2⟩

/-- The transaction works on what the scope has as its copy. -/
def Inside (stored : DB) (s : Base DB) (t : DB × List Bool) : Prop := s = ⟨stored, some t.1, t.2⟩

/-- Whatever transaction there has been is over. -/
def Over (s : Base DB) : Prop := s.working = none

variable {P Q : Prop} {body : Call (Stop Exception) (Base DB) Unit}
  {body' : Call Exception (DB × List Bool) Unit}

theorem run_copied (h : body'.run (t.1, false :: t.2) = (r, db, flags)) :
    (copied none body').run t = (r, if flags.headD false then db else t.1, flags.tail) := by
  simp only [copied, Call.run] at *
  simp only [h]

theorem inScope_outside (type : TransactionType) (constructed : Answer)
    (hbody : ∀ stored, Follows P (Inside stored) Over body body') :
    Follows (P ∨ ¬ destroyed.Accepted) Outside (fun _ => False)
      (inScope type constructed destroyed body)
      (copied (refusal (.begin type) constructed none) body') := by
  rintro _ ⟨db, flags⟩ rfl
  have hconstruct := construct_outside type constructed db flags
  cases hrefused : refusal (.begin type) constructed none with
  | some e =>
    rw [hrefused] at hconstruct
    rw [inScope, Call.run_bind_error hconstruct]
    exact .inr ⟨rfl, rfl⟩
  | none =>
    rw [hrefused] at hconstruct
    rw [inScope, Call.run_bind_ok hconstruct]
    rcases hrun : body.run ⟨db, some db, false :: flags⟩ with ⟨r, s⟩
    rcases hrun' : body'.run (db, false :: flags) with ⟨r', db', flags'⟩
    have hfollows := hbody db ⟨db, some db, false :: flags⟩ (db, false :: flags) rfl
    rw [hrun, hrun'] at hfollows
    have hgone (h : r = .error .terminated ∨ Over s ∨ ¬ destroyed.Accepted) : Gone (fun _ => False)
        ((onExit body (destroy destroyed)).run ⟨db, some db, false :: flags⟩) :=
      .inl (run_onExit_terminated hrun (h.imp_right destroy_error))
    obtain ⟨hP, hgone'⟩ | ⟨hr, rfl⟩ := hfollows
    · exact .inl ⟨.inl hP, hgone (hgone'.imp_right .inl)⟩
    · by_cases haccepted : destroyed.Accepted
      · right
        rw [run_onExit (hrun.trans (congrArg (·, _) hr)) (destroy_accepted haccepted),
          run_copied hrun']
        exact ⟨rfl, rfl⟩
      · exact .inl ⟨.inr haccepted, hgone (.inr (.inr haccepted))⟩

theorem inScope_inside (type : TransactionType) (constructed destroyed : Answer) :
    Follows P (Inside stored) Over (inScope type constructed destroyed body)
      (copied (refusal (.begin type) constructed (some .scope)) body') := by
  rintro _ ⟨db, flags⟩ rfl
  obtain ⟨e, hrefused, hconstruct⟩ := construct_inside type constructed stored db flags
  rw [hrefused, inScope, Call.run_bind_error hconstruct]
  exact .inr ⟨rfl, rfl⟩

-- ---------------------------------------------------------------------------
-- Programs and their copies
-- ---------------------------------------------------------------------------

/-- The program does what it would do with copies. If `P` holds, it may also end
from a destructor, or leave no transaction where it has found one. -/
structure Agrees (P : Prop) (m : Call (Stop Exception) (Base DB) Unit)
    (n : Bool → Call Exception (DB × List Bool) Unit) : Prop where
  outside : Follows P Outside (fun _ => False) m (n false)
  inside : ∀ stored, Follows P (Inside stored) Over m (n true)

namespace Agrees

variable {m m' : Call (Stop Exception) (Base DB) Unit}
  {n n' : Bool → Call Exception (DB × List Bool) Unit}

/-- Without a transaction there is none afterwards. -/
theorem staysOver (h : Agrees P m n) : Stays Over m := by
  intro s hover
  have houtside : Outside s (s.stored, s.flags) := by
    obtain ⟨_, _, _⟩ := s
    cases hover
    rfl
  obtain ⟨_, hgone⟩ | ⟨_, hR⟩ := h.outside s _ houtside
  · exact .inl (hgone.resolve_right id)
  · exact .inr (congrArg Base.working hR)

theorem mono (h : Agrees P m n) (hPQ : P → Q) : Agrees Q m n :=
  ⟨h.outside.mono hPQ, fun stored => (h.inside stored).mono hPQ⟩

theorem bind (h : Agrees P m n) (h' : Agrees P m' n') :
    Agrees P (m >>= fun _ => m') (fun inside => n inside >>= fun _ => n' inside) where
  outside := h.outside.bind h'.outside fun _ _ => False.elim
  inside stored := (h.inside stored).bind (h'.inside stored) fun _ => h'.staysOver

theorem catching {handler : Exception → Call (Stop Exception) (Base DB) Unit}
    {handler' : Exception → Bool → Call Exception (DB × List Bool) Unit} (h : Agrees P m n)
    (hhandler : ∀ e, Agrees P (handler e) (handler' e)) :
    Agrees P (Scopes.catching m handler)
      (fun inside => recovering (n inside) fun e => handler' e inside) where
  outside := h.outside.catching (fun e => (hhandler e).outside) fun _ _ _ => False.elim
  inside stored := (h.inside stored).catching (fun e => (hhandler e).inside stored)
    fun _ e => (hhandler e).staysOver

theorem perform (effect : Effect DB) :
    Agrees (¬ ∀ e, effect ≠ .failed e false) effect.perform (fun _ => effect.result) := by
  cases effect with
  | wrote f =>
    constructor
    · exact .modify fun s t hR => by cases hR; rfl
    · exact fun stored => .modify fun s t hR => by cases hR; rfl
  | failed e kept =>
    constructor
    · rintro _ t rfl
      exact .inr ⟨rfl, by cases kept <;> rfl⟩
    · rintro stored _ t rfl
      cases kept with
      | true => exact .inr ⟨rfl, rfl⟩
      | false => exact .inl ⟨by simp, .inr rfl⟩

theorem setFlag (i : Nat) (committed : Bool) :
    Agrees P (.modify fun s : Base DB => { s with flags := s.flags.set i committed })
      (fun _ => .modify fun t => (t.1, t.2.set i committed)) where
  outside := .modify fun s t hR => by cases hR; rfl
  inside _ := .modify fun s t hR => by cases hR; rfl

theorem observe {next : DB → Call (Stop Exception) (Base DB) Unit}
    {next' : DB → Bool → Call Exception (DB × List Bool) Unit}
    (h : ∀ db, Agrees P (next db) (next' db)) :
    Agrees P (fun s => (next s.content).run s) (fun inside t => (next' t.1 inside).run t) where
  outside := by
    rintro _ t rfl
    exact (h t.1).outside _ _ rfl
  inside stored := by
    rintro _ t rfl
    exact (h t.1).inside stored _ _ rfl

theorem inScope (h : Agrees P m n) (type : TransactionType) (constructed destroyed : Answer) :
    Agrees (P ∨ ¬ destroyed.Accepted) (Atomic.inScope type constructed destroyed m)
      (fun inside => copied
        (refusal (.begin type) constructed (if inside then some .scope else none)) (n true)) where
  outside := inScope_outside type constructed h.inside
  inside _ := inScope_inside type constructed destroyed

end Agrees

theorem exec_agrees (p : Work DB) : Agrees (¬ p.Accepting) (exec p) (atomically p) := by
  induction p with
  | done => exact ⟨.pure, fun _ => .pure⟩
  | throw e => exact ⟨.throw e, fun _ => .throw e⟩
  | execute effect next ih =>
    exact ((Agrees.perform effect).mono fun h hall => h hall.1).bind
      (ih.mono fun h hall => h hall.2)
  | observe next ih => exact .observe fun db => (ih db).mono fun h hall => h (hall db)
  | commit i committed next ih => exact (Agrees.setFlag i committed).bind ih
  | scope type constructed body destroyed next ihbody ih =>
    refine .bind ((ihbody.inScope type constructed destroyed).mono ?_)
      (ih.mono fun h hall => h hall.2.2)
    rintro (h | h) hall
    · exact h hall.1
    · exact h hall.2.1
  | attempt body handler next ihbody ihhandler ih =>
    refine .bind (.catching (ihbody.mono fun h hall => h hall.1) fun e => ?_)
      (ih.mono fun h hall => h hall.2.2)
    exact (ihhandler e).mono fun h hall => h (hall.2.1 e)

/-- An exception leaves the first scope, and the second one commits. -/
def transfer : Work Int :=
  .attempt (.scope .deferred {} (.execute (.wrote (· - 5)) (.throw (.sqlite .constraint))) {} .done)
    (fun _ => .done)
    (.scope .immediate {} (.execute (.wrote (· + 1)) (.commit 0 true .done)) {} .done)

end Xutil.Db.Atomic
