import Xutil.Lib.Calls
import Xutil.Db.Sqlite

/-!
# `statement_t`

`execute` and `fetch` over the SQLite calls they make, with the one flag
`fetch_` between them. The `_cases` lemmas say everything one call can do; the
laws about runs of calls read nothing else.
-/

namespace Xutil.Db

open Calls

inductive ErrorCode
  | aborted | interrupted | busy | locked | authorization | constraint
  | invalidType | invalidUsage | noMemory | notFound
  | invalidDB | corruptDB | openFailed | diskFull | ioError
  | largeFileUnsupported | permissionDenied
  | unknownError | internalError
  | ok | row | done
  deriving Repr, DecidableEq

def fromErrorCode (code : Int) : ErrorCode :=
  match code with
  | 4 => .aborted
  | 23 => .authorization
  | 5 => .busy
  | 14 => .openFailed
  | 19 => .constraint
  | 11 => .corruptDB
  | 101 => .done
  | 13 => .diskFull
  | 2 => .internalError
  | 9 => .interrupted
  | 10 => .ioError
  | 6 => .locked
  | 20 => .invalidType
  | 21 => .invalidUsage
  | 22 => .largeFileUnsupported
  | 7 => .noMemory
  | 26 => .invalidDB
  | 12 => .notFound
  | 0 => .ok
  | 100 => .row
  | 3 => .permissionDenied
  | _ => .unknownError

/-- `exception_t` reads the code of the call that just failed back from the
connection. -/
inductive Exception
  | invalidArgument (what : String)
  | sqlite (code : ErrorCode)
  deriving Repr, DecidableEq

structure Statement (Cur : Type) where
  stmt : Stmt Cur := {}
  fetch : Bool := false

/-- A call's world: the statement and the database its connection is on. -/
structure Session (DB Cur : Type) extends Statement Cur where
  db : DB

variable {DB Cur α : Type} (E : Program DB Cur)

def sqlite (f : Stmt Cur → DB → Int × Stmt Cur × DB) : Call Exception (Session DB Cur) Int := fun s =>
  (.ok (f s.stmt s.db).1, { s with stmt := (f s.stmt s.db).2.1, db := (f s.stmt s.db).2.2 })

def reset : Call Exception (Session DB Cur) Unit := do
  let res ← sqlite (sqlite3Reset E)
  if res ≠ sqliteOk then .throw (.sqlite (fromErrorCode res))

def stepRow : Call Exception (Session DB Cur) Unit := do
  let res ← sqlite (sqlite3Step E)
  if res ≠ sqliteRow ∧ res ≠ sqliteDone then .throw (.sqlite (fromErrorCode res))
  else .modify fun s => { s with fetch := res == sqliteRow }

/-- The arguments from position `index` on, already turned into SQLite values. -/
def bind (index : Nat) : List Value → Call Exception (Session DB Cur) Unit
  | [] => pure ()
  | argument :: arguments => do
    let res ← sqlite fun st db => ((sqlite3Bind E index argument st).1, (sqlite3Bind E index argument st).2, db)
    if res ≠ sqliteOk then .throw (.sqlite (fromErrorCode res))
    bind (index + 1) arguments

def execute (args : List Value) : Call Exception (Session DB Cur) Unit := do
  reset E
  bind E 1 args
  stepRow E

/-- `read` is what the targets make of the columns. `none` is `false`, with no
target assigned. -/
def fetch (read : (Nat → Value) → α) : Call Exception (Session DB Cur) (Option α) := do
  if !(← .get).fetch then stepRow E
  if (← .get).fetch then
    let row := read (← .get).stmt.column
    .modify fun s => { s with fetch := false }
    return some row
  return none

-- ---------------------------------------------------------------------------
-- The SQLite calls
-- ---------------------------------------------------------------------------

def bindAll (index : Nat) (args : List Value) (vars : Nat → Value) : Nat → Value :=
  match args with
  | [] => vars
  | v :: rest => bindAll (index + 1) rest (Function.update vars index v)

/-- Parameters in the range of the arguments take them, the others stay. -/
theorem bindAll_apply (args : List Value) (index : Nat) (vars : Nat → Value) (i : Nat) :
    bindAll index args vars i = if index ≤ i then (args[i - index]?).getD (vars i) else vars i := by
  induction args generalizing index vars with
  | nil => simp [bindAll]
  | cons v rest ih =>
    rw [bindAll, ih]
    rcases Nat.lt_trichotomy i index with h | rfl | h
    · simp [Nat.not_le.mpr h, Nat.not_le.mpr (Nat.lt_succ_of_lt h),
        Function.update_of_ne (Nat.ne_of_lt h)]
    · rw [if_neg (Nat.not_succ_le_self i), if_pos (Nat.le_refl i)]
      simp
    · obtain ⟨k, rfl⟩ := Nat.exists_eq_add_of_lt h
      have h1 : index + k + 1 - index = k + 1 := by omega
      have h2 : index + k + 1 - (index + 1) = k := by omega
      simp [h1, h2, show index ≤ index + k + 1 by omega,
        Function.update_of_ne (show index + k + 1 ≠ index by omega)]

theorem sqlite3Reset_stmt (st : Stmt Cur) (db : DB) :
    (sqlite3Reset E st db).2.1 = { st with vdbe := .ready } := by
  obtain ⟨vars, vdbe, runs, yielded⟩ := st
  cases vdbe <;> rfl

def Stmt.resumed (st : Stmt Cur) : Stmt Cur := if st.running then st else st.started

inductive Rowless : Vdbe Cur → Prop
  | halt : Rowless (.halt rc)
  | run : Rowless (.run cur none)

theorem Rowless.position {st : Stmt Cur} (h : Rowless st.vdbe) : st.position = none := by
  obtain ⟨vars, vdbe, runs, yielded⟩ := st
  cases h <;> rfl

theorem running_cases {st : Stmt Cur} (h : st.running = true) : ∃ cur row, st.vdbe = .run cur row := by
  unfold Stmt.running at h
  split at h
  · exact ⟨_, _, ‹_›⟩
  · cases h

/-- The virtual machine after a step. -/
def Outcome.vdbe : Outcome Cur → Vdbe Cur
  | .row columns cur => .run cur (some columns)
  | .done => .halt none
  | .failed e none => .halt (some e)
  | .failed _ (some cur) => .run cur none

def Outcome.rows : Outcome Cur → List (List Value)
  | .row columns _ => [columns]
  | _ => []

/-- How `stepRow` ends. -/
def Outcome.checked : Outcome Cur → Except Exception Unit
  | .failed e _ => .error (.sqlite (fromErrorCode e.code))
  | _ => .ok ()

/-- What `stepRow` makes of `fetch_`. -/
def Outcome.pending (fetch : Bool) : Outcome Cur → Bool
  | .row .. => true
  | .done => false
  | .failed .. => fetch

variable {E}

theorem vdbeExec_cases (h : vdbeExec E st cur db = (rc, st', db')) :
    (∃ row cur', E.next cur db = (.row row cur', db') ∧ rc = sqliteRow ∧
        st' = { st with vdbe := .run cur' (some row), yielded := st.yielded ++ [row] }) ∨
      (E.next cur db = (.done, db') ∧ rc = sqliteDone ∧ st' = { st with vdbe := .halt none }) ∨
      (∃ e c v, E.next cur db = (.failed e c, db') ∧ rc = e.code ∧ Rowless v ∧
        v = (c.elim (.halt (some e)) fun cur' => .run cur' none) ∧ st' = { st with vdbe := v }) := by
  unfold vdbeExec at h
  split at h <;> cases h
  · exact .inl ⟨_, _, ‹_›, rfl, rfl⟩
  · exact .inr (.inl ⟨‹_›, rfl, rfl⟩)
  · exact .inr (.inr ⟨_, _, _, ‹_›, rfl, .halt, rfl, rfl⟩)
  · exact .inr (.inr ⟨_, _, _, ‹_›, rfl, .run, rfl, rfl⟩)

def Stmt.cursor (E : Program DB Cur) (st : Stmt Cur) : Cur :=
  match st.vdbe with
  | .run cur _ => cur
  | _ => E.start st.vars

theorem sqlite3Step_eq (st : Stmt Cur) (db : DB) :
    sqlite3Step E st db = vdbeExec E st.resumed (st.cursor E) db := by
  obtain ⟨vars, vdbe, runs, yielded⟩ := st
  cases vdbe <;> rfl

-- ---------------------------------------------------------------------------
-- What each member function can do
-- ---------------------------------------------------------------------------

@[simp] theorem run_sqlite (f : Stmt Cur → DB → Int × Stmt Cur × DB) (s : Session DB Cur) :
    (sqlite f).run s = (.ok (f s.stmt s.db).1,
      { s with stmt := (f s.stmt s.db).2.1, db := (f s.stmt s.db).2.2 }) := rfl

def Session.rewound (E : Program DB Cur) (s : Session DB Cur) : Session DB Cur :=
  { s with stmt := { s.stmt with vdbe := .ready }, db := (sqlite3Reset E s.stmt s.db).2.2 }

theorem reset_ok {s : Session DB Cur} (h : (sqlite3Reset E s.stmt s.db).1 = sqliteOk) :
    (reset E).run s = (.ok (), s.rewound E) := by
  rw [reset, Call.run_bind_ok (run_sqlite _ _)]
  simp [h, Session.rewound, sqlite3Reset_stmt]

theorem reset_error {s : Session DB Cur} (h : (sqlite3Reset E s.stmt s.db).1 ≠ sqliteOk) :
    (reset E).run s =
      (.error (.sqlite (fromErrorCode (sqlite3Reset E s.stmt s.db).1)), s.rewound E) := by
  rw [reset, Call.run_bind_ok (run_sqlite _ _)]
  simp [h, Session.rewound, sqlite3Reset_stmt]

theorem stepRow_cases {s s' : Session DB Cur} (h : (stepRow E).run s = (r, s')) :
    (∃ row cur', E.next (s.stmt.cursor E) s.db = (.row row cur', s'.db) ∧ r = .ok () ∧
        s'.fetch = true ∧ s'.stmt = { s.stmt.resumed with
          vdbe := .run cur' (some row), yielded := s.stmt.resumed.yielded ++ [row] }) ∨
      (E.next (s.stmt.cursor E) s.db = (.done, s'.db) ∧ r = .ok () ∧
        s'.fetch = false ∧ s'.stmt = { s.stmt.resumed with vdbe := .halt none }) ∨
      (∃ e c v, E.next (s.stmt.cursor E) s.db = (.failed e c, s'.db) ∧
        r = .error (.sqlite (fromErrorCode e.code)) ∧ s'.fetch = s.fetch ∧ Rowless v ∧
        v = (c.elim (.halt (some e)) fun cur' => .run cur' none) ∧
        s'.stmt = { s.stmt.resumed with vdbe := v }) := by
  rw [stepRow, Call.run_bind_ok (run_sqlite _ _)] at h
  rcases hstep : sqlite3Step E s.stmt s.db with ⟨rc, st', db'⟩
  rw [hstep] at h
  rw [sqlite3Step_eq] at hstep
  obtain ⟨row, cur', hn, rfl, rfl⟩ | ⟨hn, rfl, rfl⟩ | ⟨e, c, v, hn, rfl, hv, hc, rfl⟩ :=
    vdbeExec_cases hstep
  · simp at h
    obtain ⟨rfl, rfl⟩ := h
    exact .inl ⟨row, cur', hn, rfl, by simp, rfl⟩
  · simp [sqliteDone, sqliteRow] at h
    obtain ⟨rfl, rfl⟩ := h
    exact .inr (.inl ⟨hn, rfl, rfl, rfl⟩)
  · simp [e.notRow, e.notDone] at h
    obtain ⟨rfl, rfl⟩ := h
    exact .inr (.inr ⟨e, c, v, hn, rfl, rfl, hv, hc, rfl⟩)

theorem stepRow_run {s : Session DB Cur} (h : E.next (s.stmt.cursor E) s.db = (o, db')) :
    (stepRow E).run s = (o.checked, {
      stmt := { s.stmt.resumed with vdbe := o.vdbe, yielded := s.stmt.resumed.yielded ++ o.rows }
      fetch := o.pending s.fetch
      db := db' }) := by
  rcases hstep : (stepRow E).run s with ⟨r, ⟨⟨stmt, fetch⟩, db''⟩⟩
  obtain ⟨row, cur', hn, rfl, rfl, rfl⟩ | ⟨hn, rfl, rfl, rfl⟩ | ⟨e, c, v, hn, rfl, rfl, _, rfl, rfl⟩ :=
    stepRow_cases hstep <;> cases hn.symm.trans h
  · rfl
  · simp [Outcome.checked, Outcome.vdbe, Outcome.rows, Outcome.pending]
  · cases c <;> simp [Outcome.checked, Outcome.vdbe, Outcome.rows, Outcome.pending]

/-- The arguments from position `index` on all have a parameter that takes them. -/
def Program.Binds (E : Program DB Cur) (index : Nat) (args : List Value) : Prop :=
  index + args.length ≤ E.nVar + 1 ∧ ∀ v ∈ args, E.admits v = none

def Session.withVars (s : Session DB Cur) (vars : Nat → Value) : Session DB Cur :=
  { s with stmt := { s.stmt with vars := vars } }

theorem sqlite3Bind_cases {st : Stmt Cur} (h0 : 0 < index) (hr : st.vdbe = .ready) :
    (index ≤ E.nVar ∧ E.admits v = none ∧
        sqlite3Bind E index v st = (sqliteOk, { st with vars := Function.update st.vars index v })) ∨
      (¬ (index ≤ E.nVar ∧ E.admits v = none) ∧ ∃ rc vars, rc ≠ sqliteOk ∧
        sqlite3Bind E index v st = (rc, { st with vars := vars })) := by
  have hpos : index ≠ 0 := Nat.ne_of_gt h0
  by_cases hi : index ≤ E.nVar
  · cases ha : E.admits v with
    | none => exact .inl ⟨hi, rfl, by simp [sqlite3Bind, hr, hpos, Nat.not_lt.mpr hi, ha]⟩
    | some e =>
      exact .inr ⟨by simp, e.code, _, e.notOk,
        by simp [sqlite3Bind, hr, hpos, Nat.not_lt.mpr hi, ha]; rfl⟩
  · obtain ⟨vars, vdbe, runs, yielded⟩ := st
    cases hr
    exact .inr ⟨by simp [hi], sqliteRange, vars, by decide,
      by simp [sqlite3Bind, Nat.lt_of_not_le hi]⟩

theorem bind_cases {s s' : Session DB Cur} (h0 : 0 < index) (hi : index ≤ E.nVar + 1)
    (hr : s.stmt.vdbe = .ready) (h : (bind E index args).run s = (r, s')) :
    (E.Binds index args ∧ r = .ok () ∧ s' = s.withVars (bindAll index args s.stmt.vars)) ∨
      (¬ E.Binds index args ∧ ∃ code vars, r = .error (.sqlite code) ∧ s' = s.withVars vars) := by
  induction args generalizing index s with
  | nil =>
    cases h
    exact .inl ⟨⟨by simpa using hi, by simp⟩, rfl, rfl⟩
  | cons v rest ih =>
    rw [bind, Call.run_bind_ok (run_sqlite _ _)] at h
    obtain ⟨hle, hv, hb⟩ | ⟨hno, rc, vars, hrc, hb⟩ := sqlite3Bind_cases (E := E) (v := v) h0 hr
    · simp only [hb, ne_eq, not_true_eq_false, ite_false] at h
      have hbinds : E.Binds index (v :: rest) ↔ E.Binds (index + 1) rest := by
        simp [Program.Binds, hv, Nat.add_comm, Nat.add_left_comm]
      rw [hbinds]
      exact ih (s := s.withVars (Function.update s.stmt.vars index v)) (Nat.succ_pos _)
        (Nat.succ_le_succ hle) hr h
    · simp only [hb, ne_eq, hrc, not_false_eq_true, ite_true] at h
      cases h
      refine .inr ⟨fun hbinds => hno ⟨?_, hbinds.2 v (by simp)⟩, _, vars, rfl, rfl⟩
      have hlen := hbinds.1
      simp only [List.length_cons] at hlen
      omega

def Session.bound (E : Program DB Cur) (s : Session DB Cur) (args : List Value) : Session DB Cur :=
  (s.rewound E).withVars (bindAll 1 args s.stmt.vars)

/-- `execute` throws from the reset, from a bind or from the step, or goes
through with a row or without one. -/
theorem execute_cases {s s' : Session DB Cur} (h : (execute E args).run s = (r, s')) :
    ((sqlite3Reset E s.stmt s.db).1 ≠ sqliteOk ∧
        r = .error (.sqlite (fromErrorCode (sqlite3Reset E s.stmt s.db).1)) ∧ s' = s.rewound E) ∨
      ((sqlite3Reset E s.stmt s.db).1 = sqliteOk ∧ ¬ E.Binds 1 args ∧
        ∃ code vars, r = .error (.sqlite code) ∧ s' = (s.rewound E).withVars vars) ∨
      ((sqlite3Reset E s.stmt s.db).1 = sqliteOk ∧ E.Binds 1 args ∧
        (stepRow E).run (s.bound E args) = (r, s')) := by
  by_cases hreset : (sqlite3Reset E s.stmt s.db).1 = sqliteOk
  · rw [execute, Call.run_bind_ok (reset_ok hreset)] at h
    rcases hbind : (bind E 1 args).run (s.rewound E) with ⟨rb, sb⟩
    obtain ⟨hb, rfl, rfl⟩ | ⟨hb, code, vars, rfl, rfl⟩ :=
      bind_cases (by decide) (by omega) rfl hbind
    · rw [Call.run_bind_ok hbind] at h
      exact .inr (.inr ⟨hreset, hb, h⟩)
    · rw [Call.run_bind_error hbind] at h
      cases h
      exact .inr (.inl ⟨hreset, hb, code, vars, rfl, rfl⟩)
  · rw [execute, Call.run_bind_error (reset_error hreset)] at h
    cases h
    exact .inl ⟨hreset, rfl, rfl⟩

/-- Once the arguments are bound, `execute` takes the first step of an evaluation. -/
theorem execute_bound {s : Session DB Cur} (hreset : (sqlite3Reset E s.stmt s.db).1 = sqliteOk)
    (hbinds : E.Binds 1 args)
    (h : E.next (E.start (bindAll 1 args s.stmt.vars)) (sqlite3Reset E s.stmt s.db).2.2 = (o, db')) :
    (execute E args).run s = (o.checked, {
      stmt := {
        vars := bindAll 1 args s.stmt.vars
        vdbe := o.vdbe
        runs := s.stmt.runs + 1
        yielded := o.rows }
      fetch := o.pending s.fetch
      db := db' }) := by
  rcases hexec : (execute E args).run s with ⟨r, s'⟩
  obtain ⟨hno, _⟩ | ⟨_, hno, _⟩ | ⟨_, _, hstep⟩ := execute_cases hexec
  · exact absurd hreset hno
  · exact absurd hbinds hno
  · exact hstep.symm.trans (stepRow_run (s := s.bound E args) h)

theorem fetch_pending {s : Session DB Cur} {read : (Nat → Value) → α} (hf : s.fetch = true) :
    (fetch E read).run s = (.ok (some (read s.stmt.column)), { s with fetch := false }) := by
  simp [fetch, Call.run_bind, hf]

theorem fetch_step {s : Session DB Cur} {read : (Nat → Value) → α} (hf : s.fetch = false) :
    (fetch E read).run s = match (stepRow E).run s with
      | (.ok (), s') =>
        if s'.fetch then (.ok (some (read s'.stmt.column)), { s' with fetch := false })
        else (.ok none, s')
      | (.error e, s') => (.error e, s') := by
  rcases hstep : (stepRow E).run s with ⟨_ | _, s'⟩
  · simp [fetch, Call.run_bind, hf, hstep]
  · cases hs : s'.fetch <;> simp [fetch, Call.run_bind, hf, hstep, hs]

end Xutil.Db
