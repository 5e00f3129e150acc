import Xutil.Db.Ends

/-!
# `transaction_t`

A scope that begins a transaction and ends it in its destructor. The statements
that do so are prepared, stepped and finalized like any other. Over the handles
of `Xutil.Db.Connection`, a `World` knows on which connections a transaction is
active, and whether the scope at hand has begun it.

While a transaction is active SQLite refuses to begin one, and otherwise to end
one. Where it may do as it is told, it answers; a refusal to end a transaction
leaves it active or rolls it back.
-/

namespace Xutil.Db.Handles

open Calls

/-- Who has begun a transaction. -/
inductive Opener
  | scope
  | other
  deriving Repr, DecidableEq

structure World where
  heap : Heap
  active : Nat → Option Opener := fun _ => none

inductive TransactionType
  | deferred
  | immediate
  | exclusive
  deriving Repr, DecidableEq

inductive Control
  | begin (type : TransactionType)
  | commit
  | rollback
  deriving Repr, DecidableEq

def Control.sql : Control → String
  | .begin .deferred => "BEGIN DEFERRED TRANSACTION"
  | .begin .immediate => "BEGIN IMMEDIATE TRANSACTION"
  | .begin .exclusive => "BEGIN EXCLUSIVE TRANSACTION"
  | .commit => "COMMIT TRANSACTION"
  | .rollback => "ROLLBACK TRANSACTION"

inductive StepAnswer
  | done
  | failed (e : Failure) (kept : Bool)
  deriving Repr, DecidableEq

/-- To `sqlite3_prepare_v3` and `sqlite3_step`. -/
structure Answer where
  prepare : Int := sqliteOk
  step : StepAnswer := .done
  deriving Repr, DecidableEq

def sqliteError : Int := 1
def sqlitePreparePersistent : BitVec 32 := 0x01

-- ---------------------------------------------------------------------------
-- SQLite
-- ---------------------------------------------------------------------------

/-- The step of a control statement of the scope, with the transaction that is
active before it and after it. -/
def Control.step (c : Control) (answer : StepAnswer) (active : Option Opener) :
    Int × Option Opener :=
  match c, active, answer with
  | .begin _, none, .done => (sqliteDone, some .scope)
  | .begin _, none, .failed e _ => (e.code, none)
  | .begin _, some opener, _ => (sqliteError, some opener)
  | _, none, _ => (sqliteError, none)
  | _, some _, .done => (sqliteDone, none)
  | _, some opener, .failed e kept => (e.code, if kept then some opener else none)

def onHeap {α : Type} (m : Call Exception Heap α) : Call Exception World α := fun s =>
  ((m.run s.heap).1, { s with heap := (m.run s.heap).2 })

/-- Steps the statement in `w` without the object around it. -/
def stepControl (c : Control) (answer : StepAnswer) (w : Nat) : Call Exception World Int := fun s =>
  match s.heap.connection w with
  | none => (.ok sqliteMisuse, s)
  | some h => (.ok (c.step answer (s.active h)).1,
    { s with active := Function.update s.active h (c.step answer (s.active h)).2 })

-- ---------------------------------------------------------------------------
-- `db_t`
-- ---------------------------------------------------------------------------

/-- `execute` with the text of `c`, in a statement `w` that nobody keeps. The
first `reset` of a statement succeeds. -/
def executeControl (c : Control) (v w : Nat) (answer : Answer) : Call Exception World Unit := do
  onHeap (prepare v c.sql [sqlitePreparePersistent] w { code := answer.prepare, handle := true })
  Call.onError (do
      onHeap (reset w { code := sqliteOk })
      onHeap (bind w 1 [])
      let code ← stepControl c answer.step w
      onHeap (stepRow w { code }))
    fun s => { s with heap := ((destroyStatement w).run s.heap).2 }
  onHeap (destroyStatement w)

/-- `begin(type)` on the object `v`. -/
def beginTransaction (type : TransactionType) (v w : Nat) (answer : Answer) :
    Call Exception World Unit :=
  executeControl (.begin type) v w answer

def commit (v w : Nat) (answer : Answer) : Call Exception World Unit :=
  executeControl .commit v w answer

def rollback (v w : Nat) (answer : Answer) : Call Exception World Unit :=
  executeControl .rollback v w answer

-- ---------------------------------------------------------------------------
-- `transaction_t`
-- ---------------------------------------------------------------------------

/-- A `transaction_t` on the object `v`, by its `committed_`. -/
structure Scope where
  world : World
  committed : Bool := false

/-- Without the object if it throws. -/
def constructTransaction (type : TransactionType) (v w : Nat) (answer : Answer) :
    Call Exception World Unit :=
  beginTransaction type v w answer

/-- An exception that leaves it ends the program. -/
def destroyTransaction (committed : Bool) (v w : Nat) (answer : Answer) :
    Call Exception World Unit :=
  if committed then commit v w answer else rollback v w answer

inductive ScopeLabel
  | commit (committed : Bool)
  | operation (l : Label)

/-- What may happen while the scope lasts: `commit(committed)`, and all that can
be done with connections and statements, except the destruction of the object
that the scope refers to. Transactions may end and others begin meanwhile. -/
inductive ScopeStep (v : Nat) (s : Scope) : ScopeLabel → Scope → Prop
  | commit : ScopeStep v s (.commit committed) { s with committed }
  | operation : Step s.world.heap l heap → l ≠ .destroyDb v →
      (∀ h, active h = some .scope → s.world.active h = some .scope) →
      ScopeStep v s (.operation l) { s with world := ⟨heap, active⟩ }

end Xutil.Db.Handles
