import Mathlib.Logic.Function.Basic

/-!
# A prepared statement inside SQLite

A `Program` is one compiled SQL text: what an evaluation reads, yields and
writes is its own business. `Stmt` is the life of the virtual machine around
it, as `sqlite3_step`, `sqlite3_reset` and the `sqlite3_bind` family move it
between `VDBE_READY_STATE`, `VDBE_RUN_STATE` and `VDBE_HALT_STATE`.
-/

namespace Xutil.Db

def sqliteOk : Int := 0
def sqliteMisuse : Int := 21
def sqliteRange : Int := 25
def sqliteRow : Int := 100
def sqliteDone : Int := 101

inductive Value
  | null
  | integer (i : BitVec 64)
  | real (bits : BitVec 64)
  | text (bytes : List UInt8)
  | blob (bytes : List UInt8)
  deriving Repr, DecidableEq

structure Failure where
  code : Int
  notOk : code ≠ sqliteOk
  notRow : code ≠ sqliteRow
  notDone : code ≠ sqliteDone
  deriving Repr, DecidableEq

def resultCode : Option Failure → Int
  | none => sqliteOk
  | some e => e.code

theorem resultCode_ok : resultCode rc = sqliteOk ↔ rc = none := by
  cases rc with
  | none => simp [resultCode]
  | some e => simpa [resultCode] using e.notOk

/-- How far one `sqlite3_step` takes an evaluation. A failure leaves it halted,
or still running where the step may be repeated (`SQLITE_BUSY`). -/
inductive Outcome (Cur : Type)
  | row (columns : List Value) (cur : Cur)
  | done
  | failed (e : Failure) (cur : Option Cur)

/-- `halt` ends an evaluation before it is done, which writes to the database
and may fail in its turn. `admits` is the failure to store a value as a
parameter, such as `SQLITE_TOOBIG`. -/
structure Program (DB Cur : Type) where
  nVar : Nat
  admits : Value → Option Failure
  start : (Nat → Value) → Cur
  next : Cur → DB → Outcome Cur × DB
  halt : Cur → DB → Option Failure × DB

/-- `eVdbeState`, with the row `pResultRow` points to and the code in `rc`. -/
inductive Vdbe (Cur : Type)
  | ready
  | run (cur : Cur) (row : Option (List Value))
  | halt (rc : Option Failure)

/-- Parameters are numbered from 1. The last two fields only count: the
evaluations started, and the rows the latest one has yielded so far. -/
structure Stmt (Cur : Type) where
  vars : Nat → Value := fun _ => .null
  vdbe : Vdbe Cur := .ready
  runs : Nat := 0
  yielded : List (List Value) := []

variable {DB Cur : Type} (E : Program DB Cur)

def sqlite3Reset (st : Stmt Cur) (db : DB) : Int × Stmt Cur × DB :=
  match st.vdbe with
  | .ready => (sqliteOk, st, db)
  | .run cur _ => (resultCode (E.halt cur db).1, { st with vdbe := .ready }, (E.halt cur db).2)
  | .halt rc => (resultCode rc, { st with vdbe := .ready }, db)

def vdbeExec (st : Stmt Cur) (cur : Cur) (db : DB) : Int × Stmt Cur × DB :=
  match E.next cur db with
  | (.row columns cur', db') =>
    (sqliteRow, { st with vdbe := .run cur' (some columns), yielded := st.yielded ++ [columns] }, db')
  | (.done, db') => (sqliteDone, { st with vdbe := .halt none }, db')
  | (.failed e none, db') => (e.code, { st with vdbe := .halt (some e) }, db')
  | (.failed e (some cur'), db') => (e.code, { st with vdbe := .run cur' none }, db')

def Stmt.started (st : Stmt Cur) : Stmt Cur := { st with runs := st.runs + 1, yielded := [] }

def sqlite3Step (st : Stmt Cur) (db : DB) : Int × Stmt Cur × DB :=
  match st.vdbe with
  | .run cur _ => vdbeExec E st cur db
  | .ready => vdbeExec E st.started (E.start st.vars) db
  -- the automatic reset, whose result nobody looks at
  | .halt _ => vdbeExec E st.started (E.start st.vars) (sqlite3Reset E st db).2.2

def sqlite3Bind (index : Nat) (v : Value) (st : Stmt Cur) : Int × Stmt Cur :=
  match st.vdbe with
  | .ready =>
    if index = 0 ∨ E.nVar < index then (sqliteRange, st)
    else
      match E.admits v with
      | none => (sqliteOk, { st with vars := Function.update st.vars index v })
      | some e => (e.code, { st with vars := Function.update st.vars index .null })
  | _ => (sqliteMisuse, st)

def sqlite3Finalize (st : Stmt Cur) (db : DB) : DB := (sqlite3Reset E st db).2.2

/-- A row as the `sqlite3_column` functions see it: `NULL` past its end. -/
def columns (row : List Value) (i : Nat) : Value := row.getD i .null

def Stmt.column (st : Stmt Cur) : Nat → Value :=
  match st.vdbe with
  | .run _ (some row) => columns row
  | _ => fun _ => .null

def Stmt.position (st : Stmt Cur) : Option (Nat × Nat) :=
  match st.vdbe with
  | .run _ (some _) => some (st.runs, st.yielded.length)
  | _ => none

def Stmt.running (st : Stmt Cur) : Bool :=
  match st.vdbe with
  | .run .. => true
  | _ => false

end Xutil.Db
