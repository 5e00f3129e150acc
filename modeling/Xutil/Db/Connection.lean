import Mathlib.Logic.Equiv.Basic
import Xutil.Db.Statement
import Xutil.Lib.Runs

/-!
# `db_t`, `statement_t` and their handles

The two classes over the SQLite functions they call, and which handle each
function is given. What SQLite returns is up to the replies; what it makes of a
statement is in `Xutil.Db.Statement`. A handle that SQLite gives out is told
apart from every earlier one, even where the address is the same.

Objects are known by a number, as variables are by a name. A null pointer is
`none`.
-/

namespace Xutil.Db.Handles

open Calls

inductive StatementFunction
  | reset
  | bind (index : Nat)
  | step
  | column (i : Nat)
  deriving Repr, DecidableEq

/-- A call of SQLite with the handle it is given; the handle that
`sqlite3_open_v2` and `sqlite3_prepare_v3` return comes last. -/
inductive SqliteCall
  | openV2 (filename : String) (flags : BitVec 32) (db : Option Nat)
  | closeV2 (db : Option Nat)
  | errmsg (db : Option Nat)
  | errcode (db : Option Nat)
  | prepareV3 (db : Nat) (sql : String) (flags : BitVec 32) (stmt : Option Nat)
  | statement (f : StatementFunction) (stmt : Option Nat)
  | dbHandle (stmt : Option Nat)
  | finalize (stmt : Nat)
  deriving Repr, DecidableEq

structure StatementObject where
  statement : Option Nat := none
  fetch : Bool := false
  deriving Repr, DecidableEq

/-- `dbs` and `stmts` are the objects that exist; a `db_t` is its pointer. SQLite
has given out `opened` connections and, for each statement, has its connection. -/
structure Heap where
  dbs : Nat → Option (Option Nat) := fun _ => none
  stmts : Nat → Option StatementObject := fun _ => none
  opened : Nat := 0
  connections : List Nat := []
  calls : List SqliteCall := []

def Heap.db (s : Heap) (v : Nat) : Option Nat := (s.dbs v).join

def Heap.statement (s : Heap) (w : Nat) : Option Nat := (s.stmts w).bind (·.statement)

def Heap.fetch (s : Heap) (w : Nat) : Bool := (s.stmts w).any (·.fetch)

/-- The connection that the statement in `w` was prepared on. -/
def Heap.connection (s : Heap) (w : Nat) : Option Nat := (s.statement w).bind (s.connections[·]?)

/-- What a SQLite function returns, with or without a handle. `junk` is what
`sqlite3_errcode` makes of a connection that has been closed. -/
structure Reply where
  code : Int
  handle : Bool := false
  junk : Int := 0
  deriving Repr, DecidableEq, Inhabited

def sqliteNomem : Int := 7
def sqliteOpenUri : BitVec 32 := 0x40
def sqliteOpenMemory : BitVec 32 := 0x80

/-- `to(flags, initial)` -/
def toFlags (flags : List (BitVec 32)) (initial : BitVec 32) : BitVec 32 :=
  flags.foldl (· ||| ·) initial

def noteCall (c : SqliteCall) : Call Exception Heap Unit :=
  .modify fun s => { s with calls := s.calls ++ [c] }

-- ---------------------------------------------------------------------------
-- `exception_t`
-- ---------------------------------------------------------------------------

/-- The code that `sqlite3_errcode` has for `db`. -/
def Heap.errcode (s : Heap) (db : Option Nat) (reply : Reply) : Int :=
  match db with
  | none => sqliteNomem
  | some h => if .closeV2 (some h) ∈ s.calls then reply.junk else reply.code

def throwDb (db : Option Nat) (reply : Reply) : Call Exception Heap Unit := do
  noteCall (.errmsg db)
  noteCall (.errcode db)
  let s ← .get
  .throw (.sqlite (fromErrorCode (s.errcode db reply)))

def throwStatement (w : Nat) (reply : Reply) : Call Exception Heap Unit := do
  let s ← .get
  noteCall (.dbHandle (s.statement w))
  throwDb (s.connection w) reply

-- ---------------------------------------------------------------------------
-- Moves
-- ---------------------------------------------------------------------------

variable {α : Type}

/-- A new object `w` starts as `null` and swaps. -/
def moveConstruct (null : α) (v w : Nat) (objects : Nat → Option α) : Nat → Option α :=
  Function.update objects w (some null) ∘ Equiv.swap v w

def moveAssign (v w : Nat) (objects : Nat → Option α) : Nat → Option α :=
  objects ∘ Equiv.swap v w

-- ---------------------------------------------------------------------------
-- `db_t`
-- ---------------------------------------------------------------------------

def sqlite3OpenV2 (filename : String) (flags : BitVec 32) (reply : Reply) :
    Call Exception Heap (Option Nat) := fun s =>
  let db := if reply.handle then some s.opened else none
  (.ok db, { s with
    opened := s.opened + if reply.handle then 1 else 0
    calls := s.calls ++ [.openV2 filename flags db] })

def openDb (filename : String) (flags : BitVec 32) (v : Nat) (reply : Reply) :
    Call Exception Heap Unit := do
  let db ← sqlite3OpenV2 filename flags reply
  if reply.code ≠ sqliteOk then
    noteCall (.closeV2 db)
    throwDb db reply
  .modify fun s => { s with dbs := Function.update s.dbs v (some db) }

inductive Source
  | memory
  | path (path : String)
  | uri (uri : String)
  deriving Repr, DecidableEq

def openMemory (flags : List (BitVec 32)) (v : Nat) (reply : Reply) : Call Exception Heap Unit :=
  openDb ":memory:" (toFlags flags sqliteOpenMemory) v reply

def openPath (path : String) (flags : List (BitVec 32)) (v : Nat) (reply : Reply) :
    Call Exception Heap Unit := do
  if path = "" then .throw (.invalidArgument "db_t")
  openDb path (toFlags flags 0) v reply

def openUri (uri : String) (flags : List (BitVec 32)) (v : Nat) (reply : Reply) :
    Call Exception Heap Unit := do
  if uri = "" then .throw (.invalidArgument "db_t")
  openDb uri (toFlags flags sqliteOpenUri) v reply

/-- The three constructors. -/
def constructDb : Source → List (BitVec 32) → Nat → Reply → Call Exception Heap Unit
  | .memory => openMemory
  | .path path => openPath path
  | .uri uri => openUri uri

def destroyDb (v : Nat) : Call Exception Heap Unit := do
  if let some h := (← .get).db v then noteCall (.closeV2 (some h))
  .modify fun s => { s with dbs := Function.update s.dbs v none }

-- ---------------------------------------------------------------------------
-- `statement_t`
-- ---------------------------------------------------------------------------

/-- A failure gives no handle, nor does a text without a statement. -/
def sqlite3PrepareV3 (db : Nat) (sql : String) (flags : BitVec 32) (reply : Reply) :
    Call Exception Heap (Option Nat) := fun s =>
  let given := reply.code = sqliteOk ∧ reply.handle = true
  let stmt := if given then some s.connections.length else none
  (.ok stmt, { s with
    connections := s.connections ++ if given then [db] else []
    calls := s.calls ++ [.prepareV3 db sql flags stmt] })

/-- `statement_t(db_, sql, flags)` with the pointer of the object `v`. -/
def prepare (v : Nat) (sql : String) (flags : List (BitVec 32)) (w : Nat) (reply : Reply) :
    Call Exception Heap Unit := do
  match (← .get).db v with
  | none => .throw (.invalidArgument "statement_t")
  | some h =>
    if sql = "" then .throw (.invalidArgument "statement_t")
    let stmt ← sqlite3PrepareV3 h sql (toFlags flags 0) reply
    if reply.code ≠ sqliteOk then throwDb (some h) reply
    .modify fun s => { s with stmts := Function.update s.stmts w (some { statement := stmt }) }

def callStatement (f : StatementFunction) (w : Nat) : Call Exception Heap Unit := do
  noteCall (.statement f ((← .get).statement w))

def setFetch (w : Nat) (fetch : Bool) : Call Exception Heap Unit :=
  .modify fun s => { s with
    stmts := Function.update s.stmts w ((s.stmts w).map fun o => { o with fetch := fetch }) }

def reset (w : Nat) (reply : Reply) : Call Exception Heap Unit := do
  callStatement .reset w
  if reply.code ≠ sqliteOk then throwStatement w reply

def stepRow (w : Nat) (reply : Reply) : Call Exception Heap Unit := do
  callStatement .step w
  if reply.code ≠ sqliteRow ∧ reply.code ≠ sqliteDone then throwStatement w reply
  else setFetch w (reply.code == sqliteRow)

/-- One reply for each argument, from position `index` on. -/
def bind (w index : Nat) : List Reply → Call Exception Heap Unit
  | [] => return ()
  | reply :: replies => do
    callStatement (.bind index) w
    if reply.code ≠ sqliteOk then throwStatement w reply
    bind w (index + 1) replies

/-- `n` columns from position `i` on. -/
def column (w i : Nat) : Nat → Call Exception Heap Unit
  | 0 => return ()
  | n + 1 => do
    callStatement (.column i) w
    column w (i + 1) n

/-- `execute` with what SQLite replies to `reset`, `bind` and `step`. -/
def execute (w : Nat) (first : Reply) (binds : List Reply) (last : Reply) :
    Call Exception Heap Unit := do
  reset w first
  bind w 1 binds
  stepRow w last

/-- `fetch` into `n` columns. -/
def fetch (w n : Nat) (reply : Reply) : Call Exception Heap Bool := do
  if (← .get).fetch w = false then stepRow w reply
  if (← .get).fetch w then
    column w 0 n
    setFetch w false
    return true
  return false

def destroyStatement (w : Nat) : Call Exception Heap Unit := do
  if let some st := (← .get).statement w then noteCall (.finalize st)
  .modify fun s => { s with stmts := Function.update s.stmts w none }

-- ---------------------------------------------------------------------------
-- Programs
-- ---------------------------------------------------------------------------

inductive Label
  | construct (source : Source) (flags : List (BitVec 32)) (v : Nat) (reply : Reply)
      (result : Except Exception Unit)
  | moveDb (v w : Nat)
  | assignDb (v w : Nat)
  | destroyDb (v : Nat)
  | prepare (v : Nat) (sql : String) (flags : List (BitVec 32)) (w : Nat) (reply : Reply)
      (result : Except Exception Unit)
  | execute (w : Nat) (first : Reply) (binds : List Reply) (last : Reply)
      (result : Except Exception Unit)
  | fetch (w n : Nat) (reply : Reply) (result : Except Exception Bool)
  | moveStatement (v w : Nat)
  | assignStatement (v w : Nat)
  | destroyStatement (w : Nat)

/-- An object is constructed where there is none and used while it exists. -/
inductive Step (s : Heap) : Label → Heap → Prop
  | construct : s.dbs v = none → (constructDb source flags v reply).run s = (r, s') →
      Step s (.construct source flags v reply r) s'
  | moveDb : (s.dbs v).isSome → s.dbs w = none →
      Step s (.moveDb v w) { s with dbs := moveConstruct none v w s.dbs }
  | assignDb : (s.dbs v).isSome → (s.dbs w).isSome →
      Step s (.assignDb v w) { s with dbs := moveAssign v w s.dbs }
  | destroyDb : (s.dbs v).isSome → (Handles.destroyDb v).run s = (.ok (), s') →
      Step s (.destroyDb v) s'
  | prepare : (s.dbs v).isSome → s.stmts w = none →
      (Handles.prepare v sql flags w reply).run s = (r, s') →
      Step s (.prepare v sql flags w reply r) s'
  | execute : (s.stmts w).isSome → (Handles.execute w first binds last).run s = (r, s') →
      Step s (.execute w first binds last r) s'
  | fetch : (s.stmts w).isSome → (Handles.fetch w n reply).run s = (r, s') →
      Step s (.fetch w n reply r) s'
  | moveStatement : (s.stmts v).isSome → s.stmts w = none →
      Step s (.moveStatement v w) { s with stmts := moveConstruct {} v w s.stmts }
  | assignStatement : (s.stmts v).isSome → (s.stmts w).isSome →
      Step s (.assignStatement v w) { s with stmts := moveAssign v w s.stmts }
  | destroyStatement : (s.stmts w).isSome → (Handles.destroyStatement w).run s = (.ok (), s') →
      Step s (.destroyStatement w) s'

end Xutil.Db.Handles
