import Xutil.Db.Scopes
import Xutil.Lib.Scopes

/-!
# Programs with transactions

Code with a `db_t`, its scopes and their `transaction_t`, over the content of the
database. What SQLite answers to it is part of the program.
-/

namespace Xutil.Db.Atomic

open Calls Handles Scopes

variable {DB : Type}

-- ---------------------------------------------------------------------------
-- The connection
-- ---------------------------------------------------------------------------

/-- What is in the database, and what the transaction that is active has made of
it. The scopes have their `committed_`, the innermost first. -/
structure Base (DB : Type) where
  stored : DB
  working : Option DB := none
  flags : List Bool := []

def Base.content (s : Base DB) : DB := s.working.getD s.stored

def Base.opener (s : Base DB) : Option Opener := s.working.map fun _ => .scope

def Base.write (s : Base DB) (f : DB → DB) : Base DB :=
  match s.working with
  | some db => { s with working := some (f db) }
  | none => { s with stored := f s.stored }

/-- What `Control.step` does to the content. -/
def Base.step (s : Base DB) (c : Control) (answer : StepAnswer) : Base DB :=
  match c.step answer s.opener with
  | (_, some _) => { s with working := some s.content }
  | (code, none) => { s with
      stored := if c = .commit ∧ code = sqliteDone then s.content else s.stored
      working := none }

/-- How `executeControl` fails. -/
def refusal (c : Control) (answer : Answer) (active : Option Opener) : Option Exception :=
  if answer.prepare ≠ sqliteOk then some (.sqlite (fromErrorCode answer.prepare))
  else if (c.step answer.step active).1 ≠ sqliteDone then
    some (.sqlite (fromErrorCode (c.step answer.step active).1))
  else none

def refuse (e : Option Exception) : Except Exception Unit := e.elim (.ok ()) .error

def control (c : Control) (answer : Answer) : Call Exception (Base DB) Unit := fun s =>
  (refuse (refusal c answer s.opener),
    if answer.prepare = sqliteOk then s.step c answer.step else s)

-- ---------------------------------------------------------------------------
-- Programs
-- ---------------------------------------------------------------------------

/-- A statement that fails may have SQLite roll the transaction back. -/
inductive Effect (DB : Type)
  | wrote (f : DB → DB)
  | failed (e : Exception) (kept : Bool)

/-- Code with a `db_t`, and what SQLite answers to it. It may look at the content
and go on as it likes. `commit` is for the scope that is `i` scopes further out. -/
inductive Work (DB : Type)
  | done
  | throw (e : Exception)
  | execute (effect : Effect DB) (next : Work DB)
  | observe (next : DB → Work DB)
  | commit (i : Nat) (committed : Bool) (next : Work DB)
  | scope (type : TransactionType) (constructed : Answer) (body : Work DB) (destroyed : Answer)
      (next : Work DB)
  | attempt (body : Work DB) (handler : Exception → Work DB) (next : Work DB)

def Effect.perform : Effect DB → Call (Stop Exception) (Base DB) Unit
  | .wrote f => .modify (·.write f)
  | .failed e kept => fun s => (.error (.thrown e), if kept then s else { s with working := none })

/-- The constructor of `transaction_t`. -/
def construct (type : TransactionType) (answer : Answer) : Call (Stop Exception) (Base DB) Unit :=
  fun s => match (control (.begin type) answer).run s with
    | (.ok (), s') => (.ok (), { s' with flags := false :: s'.flags })
    | (.error e, s') => (.error (.thrown e), s')

def destroy (answer : Answer) : Call (Stop Exception) (Base DB) Unit := fun s =>
  let (r, s') := (control (.ending (s.flags.headD false)) answer).run s
  (caught r, { s' with flags := s'.flags.tail })

def inScope (type : TransactionType) (constructed destroyed : Answer)
    (body : Call (Stop Exception) (Base DB) Unit) : Call (Stop Exception) (Base DB) Unit := do
  construct type constructed
  onExit body (destroy destroyed)

def exec : Work DB → Call (Stop Exception) (Base DB) Unit
  | .done => pure ()
  | .throw e => .throw (.thrown e)
  | .execute effect next => do
    effect.perform
    exec next
  | .observe next => fun s => (exec (next s.content)).run s
  | .commit i committed next => do
    .modify fun s => { s with flags := s.flags.set i committed }
    exec next
  | .scope type constructed body destroyed next => do
    inScope type constructed destroyed (exec body)
    exec next
  | .attempt body handler next => do
    catching (exec body) fun e => exec (handler e)
    exec next

-- ---------------------------------------------------------------------------
-- Constructors and destructors
-- ---------------------------------------------------------------------------

variable {s : Base DB} {stored db : DB} {flags : List Bool}

theorem refuse_ok : refuse e = .ok () ↔ e = none := by
  cases e <;> simp [refuse]

theorem refusal_none : refusal c answer active = none ↔
    answer.prepare = sqliteOk ∧ (c.step answer.step active).1 = sqliteDone := by
  unfold refusal
  split
  · simp [*]
  · split <;> simp_all

theorem step_opener (s : Base DB) (c : Control) (answer : StepAnswer) :
    (s.step c answer).opener = (c.step answer s.opener).2 := by
  obtain ⟨stored, working, flags⟩ := s
  cases working <;> cases answer with
  | done => cases c <;> rfl
  | failed e kept => cases c <;> cases kept <;> rfl

/-- `control` does what `executeControl` does with the connection. -/
theorem control_executes {world world' : World} {s s' : Base DB} (hdb : world.heap.db v = some h)
    (hactive : world.active h = s.opener)
    (hexecute : (executeControl c v w answer).run world = (r, world'))
    (hcontrol : (control c answer).run s = (r', s')) :
    (r = .ok () ↔ r' = .ok ()) ∧ world'.active h = s'.opener := by
  cases hcontrol
  have hok : refuse (refusal c answer s.opener) = .ok () ↔
      answer.prepare = sqliteOk ∧ (c.step answer.step s.opener).1 = sqliteDone :=
    refuse_ok.trans refusal_none
  rw [hok]
  obtain ⟨hfails, e, heap, hrun⟩ | ⟨h', hdb', hprepare, r, heap, hrun, hdone⟩ :=
    executeControl_cases c v w answer world
  · have hprepare : answer.prepare ≠ sqliteOk := hfails.resolve_left (by simp [hdb])
    cases hrun.symm.trans hexecute
    simp [hprepare, hactive]
  · obtain rfl : h = h' := Option.some.inj (hdb.symm.trans hdb')
    cases hrun.symm.trans hexecute
    simp [hdone, hactive, hprepare, step_opener]

theorem construct_outside (type : TransactionType) (answer : Answer) (stored : DB)
    (flags : List Bool) :
    (construct type answer).run ⟨stored, none, flags⟩ = match refusal (.begin type) answer none with
      | some e => (.error (.thrown e), ⟨stored, none, flags⟩)
      | none => (.ok (), ⟨stored, some stored, false :: flags⟩) := by
  obtain ⟨prepare, step⟩ := answer
  by_cases hprepare : prepare = sqliteOk
  · cases step with
    | done => simp [construct, control, Call.run, refusal, hprepare, Base.opener, Base.step,
        Control.step, Base.content, refuse]
    | failed e kept => simp [construct, control, Call.run, refusal, hprepare, Base.opener,
        Base.step, Control.step, refuse, e.notDone]
  · simp [construct, control, Call.run, refusal, hprepare, refuse]

/-- The constructor of a scope inside another one always throws. -/
theorem construct_inside (type : TransactionType) (answer : Answer) (stored db : DB)
    (flags : List Bool) : ∃ e, refusal (.begin type) answer (some .scope) = some e ∧
      (construct type answer).run ⟨stored, some db, flags⟩ =
        (.error (.thrown e), ⟨stored, some db, flags⟩) := by
  have hcode : sqliteError ≠ sqliteDone := by decide
  by_cases hprepare : answer.prepare = sqliteOk
  · refine ⟨.sqlite (fromErrorCode sqliteError), ?_, ?_⟩ <;>
      simp [construct, control, Call.run, refusal, hprepare, Base.opener, Base.step, Control.step,
        Base.content, refuse, hcode]
  · refine ⟨.sqlite (fromErrorCode answer.prepare), ?_, ?_⟩ <;>
      simp [construct, control, Call.run, refusal, hprepare, refuse]

theorem destroy_accepted (h : answer.Accepted) :
    (destroy answer).run ⟨stored, some db, flags⟩ =
      (.ok (), ⟨if flags.headD false then db else stored, none, flags.tail⟩) := by
  obtain ⟨prepare, step⟩ := answer
  obtain ⟨hprepare, hstep⟩ := h
  cases hprepare
  cases hstep
  simp only [destroy, Call.run]
  cases flags.headD false <;> rfl

theorem destroy_error (h : s.working = none ∨ ¬ answer.Accepted) :
    ∃ e s', (destroy answer).run s = (.error e, s') := by
  have hrefused : refusal (.ending (s.flags.headD false)) answer s.opener ≠ none := by
    rw [Ne, refusal_none]
    rintro ⟨hprepare, hdone⟩
    obtain ⟨hactive, hanswer, -⟩ | ⟨-, hno⟩ :=
      Control.ending_step (s.flags.headD false) answer.step s.opener
    · rcases h with hover | hrefused
      · simp [Base.opener, hover] at hactive
      · exact hrefused ⟨hprepare, hanswer⟩
    · exact hno hdone
  obtain ⟨e, he⟩ := Option.ne_none_iff_exists'.mp hrefused
  refine ⟨.thrown e, ((destroy answer).run s).2, Prod.ext ?_ rfl⟩
  simp only [destroy, control, Call.run, he]
  rfl

end Xutil.Db.Atomic
