import Xutil.Db.Past

/-!
# `select_one`

`db_t::execute` prepares a statement and runs it without arguments, then
`select_one` runs it again with them. The law says when the two evaluations
come to the same as one.
-/

namespace Xutil.Db

open Calls

variable {DB Cur α : Type}

/-- `sqlite3_prepare_v3` on a connection. -/
structure Engine (DB Cur : Type) where
  compile : String → DB → Except Failure (Program DB Cur)

/-- The constructor of `statement_t`. -/
def prepare (G : Engine DB Cur) (sql : String) : Call Exception DB (Program DB Cur) := do
  if sql = "" then .throw (.invalidArgument "statement_t")
  match G.compile sql (← .get) with
  | .ok E => return E
  | .error e => .throw (.sqlite (fromErrorCode e.code))

/-- A statement that its function moves out, or destroys if the body throws. -/
def movedOut (E : Program DB Cur) (st : Statement Cur)
    (body : Call Exception (Session DB Cur) Unit) : Call Exception DB (Statement Cur) := fun db =>
  match body.run { st with db } with
  | (.ok (), s) => (.ok s.toStatement, s.db)
  | (.error e, s) => (.error e, sqlite3Finalize E s.stmt s.db)

def owned (E : Program DB Cur) (st : Statement Cur)
    (body : Call Exception (Session DB Cur) α) : Call Exception DB α := fun db =>
  ((body.run { st with db }).1,
    sqlite3Finalize E (body.run { st with db }).2.stmt (body.run { st with db }).2.db)

/-- `db_t::execute`. -/
def dbExecute (G : Engine DB Cur) (sql : String) (args : List Value) :
    Call Exception DB (Program DB Cur × Statement Cur) := do
  let E ← prepare G sql
  let s ← movedOut E prepared (execute E args)
  return (E, s)

/-- `get` is `binds_t<T>::column` on the first column. -/
def selectOne (G : Engine DB Cur) (sql : String) (args : List Value) (get : Value → α) :
    Call Exception DB (Option α) := do
  let (E, s) ← dbExecute G sql []
  owned E s do
    execute E args
    fetch E fun row => get (row 0)

-- ---------------------------------------------------------------------------
-- One evaluation
-- ---------------------------------------------------------------------------

/-- An evaluation that nobody follows beyond its first row: what the first step
returns, how ending it fails, and the database after that. -/
structure Evaluated (DB : Type) where
  result : Except Failure (Option (List Value))
  ended : Option Failure
  db : DB

def Program.evaluate (E : Program DB Cur) (vars : Nat → Value) (db : DB) : Evaluated DB :=
  match E.next (E.start vars) db with
  | (.row columns cur, db') => ⟨.ok (some columns), (E.halt cur db').1, (E.halt cur db').2⟩
  | (.done, db') => ⟨.ok none, none, db'⟩
  | (.failed e none, db') => ⟨.error e, none, db'⟩
  | (.failed e (some cur), db') => ⟨.error e, none, (E.halt cur db').2⟩

def Evaluated.Fails (v : Evaluated DB) : Prop := v.result.isOk = false ∨ v.ended ≠ none

instance (v : Evaluated DB) : Decidable v.Fails := inferInstanceAs (Decidable (_ ∨ _))

def Evaluated.answer (v : Evaluated DB) (get : Value → α) : Option (Option α) :=
  v.result.toOption.map (·.map fun row => get (columns row 0))

instance (E : Program DB Cur) : Decidable (E.Binds index args) := inferInstanceAs (Decidable (_ ∧ _))

def unbound : Nat → Value := fun _ => .null

/-- The purpose of `select_one`. A call that throws is `none`. -/
def Program.once (E : Program DB Cur) (args : List Value) (get : Value → α) (db : DB) :
    Option (Option α) × DB :=
  if E.Binds 1 args then
    let v := E.evaluate (bindAll 1 args unbound) db
    (if v.Fails then none else v.answer get, v.db)
  else (none, db)

def Engine.once (G : Engine DB Cur) (sql : String) (args : List Value) (get : Value → α) (db : DB) :
    Option (Option α) × DB :=
  if sql = "" then (none, db)
  else match G.compile sql db with
    | .ok E => E.once args get db
    | .error _ => (none, db)

/-- What a caller can tell of a call, which exception it threw aside. -/
def outcome (o : Except Exception α × DB) : Option α × DB := (o.1.toOption, o.2)

/-- With no row there, `fetch` starts the evaluation once more. -/
def Program.fetched (E : Program DB Cur) (vars : Nat → Value) (db : DB) : Evaluated DB :=
  match (E.evaluate vars db).result with
  | .ok none => E.evaluate vars (E.evaluate vars db).db
  | _ => E.evaluate vars db

/-- The evaluation without arguments that comes first does no harm. It may fail
or the arguments may not bind, as long as the evaluation with them would fail as
well and leave the same database. Else it leaves the database as it was, the
one with the arguments ends without a failure, and where that one yields no row
it can be repeated with none. -/
def Program.Tolerates (E : Program DB Cur) (args : List Value) (db : DB) : Prop :=
  let dry := E.evaluate unbound db
  let wanted := E.evaluate (bindAll 1 args unbound) db
  let again := E.evaluate (bindAll 1 args unbound) wanted.db
  if E.Binds 1 args then
    if dry.Fails then wanted.Fails ∧ dry.db = wanted.db
    else dry.db = db ∧ wanted.ended = none ∧
      (wanted.result = .ok none → again.result = .ok none ∧ again.db = wanted.db)
  else dry.db = db

/-- The SQL runs without arguments, and writes to the database then. -/
def Program.WritesUnbound (E : Program DB Cur) (args : List Value) (db : DB) : Prop :=
  E.Binds 1 args ∧ ¬ (E.evaluate unbound db).Fails ∧ (E.evaluate unbound db).db ≠ db

-- ---------------------------------------------------------------------------
-- The evaluations behind `select_one`
-- ---------------------------------------------------------------------------

variable {E : Program DB Cur} {G : Engine DB Cur}

theorem stepRow_evaluate {s s' : Session DB Cur} (hr : s.stmt.running = false)
    (h : (stepRow E).run s = (r, s')) :
    sqlite3Finalize E s'.stmt s'.db = (E.evaluate s.stmt.vars s.db).db ∧
      ((∃ row, (E.evaluate s.stmt.vars s.db).result = .ok (some row) ∧ r = .ok () ∧
          s'.fetch = true ∧ s'.stmt.column = columns row ∧
          (sqlite3Reset E s'.stmt s'.db).1 = resultCode (E.evaluate s.stmt.vars s.db).ended) ∨
        ((E.evaluate s.stmt.vars s.db).result = .ok none ∧ r = .ok () ∧
          (E.evaluate s.stmt.vars s.db).ended = none ∧
          s'.fetch = false ∧ s'.stmt.vdbe = .halt none) ∨
        (∃ e, (E.evaluate s.stmt.vars s.db).result = .error e ∧
          r = .error (.sqlite (fromErrorCode e.code)))) := by
  have hcur : s.stmt.cursor E = E.start s.stmt.vars := by
    unfold Stmt.running at hr
    unfold Stmt.cursor
    split at hr <;> simp_all
  obtain ⟨row, cur', hn, rfl, hf, hst⟩ | ⟨hn, rfl, hf, hst⟩ | ⟨e, c, v, hn, rfl, hf, hv, hc, hst⟩ :=
    stepRow_cases h
  · rw [hcur] at hn
    simp only [Program.evaluate, hn, hst, hf, sqlite3Finalize, sqlite3Reset, Stmt.column]
    exact ⟨trivial, .inl ⟨row, by simp⟩⟩
  · rw [hcur] at hn
    simp only [Program.evaluate, hn, hst, hf, sqlite3Finalize, sqlite3Reset]
    exact ⟨trivial, .inr (.inl (by simp))⟩
  · rw [hcur] at hn
    cases c with
    | none =>
      simp only [Program.evaluate, hn, hst, hc, sqlite3Finalize, sqlite3Reset]
      exact ⟨rfl, .inr (.inr ⟨e, rfl, rfl⟩)⟩
    | some cur =>
      simp only [Program.evaluate, hn, hst, hc, sqlite3Finalize, sqlite3Reset]
      exact ⟨rfl, .inr (.inr ⟨e, rfl, rfl⟩)⟩

theorem execute_unbound {s : Session DB Cur}
    (h : (execute E []).run { (prepared : Statement Cur) with db } = (r, s)) :
    sqlite3Finalize E s.stmt s.db = (E.evaluate unbound db).db ∧
      (((∃ e, r = .error e) ∧ (E.evaluate unbound db).Fails) ∨
        (r = .ok () ∧ s.stmt.vars = unbound ∧
          (sqlite3Reset E s.stmt s.db).1 = resultCode (E.evaluate unbound db).ended ∧
          (E.evaluate unbound db).result.isOk = true)) := by
  obtain ⟨hno, _⟩ | ⟨_, hno, _⟩ | ⟨_, _, hstep⟩ := execute_cases h
  · exact absurd rfl hno
  · exact absurd ⟨by simp, by simp⟩ hno
  · have hvars := stepRow_vars hstep
    obtain ⟨hdb, ⟨row, hres, rfl, _, _, hcode⟩ | ⟨hres, rfl, hended, _, hv⟩ | ⟨e, hres, rfl⟩⟩ :=
      stepRow_evaluate (s := Session.bound E { (prepared : Statement Cur) with db } []) rfl hstep
    · exact ⟨hdb, .inr ⟨rfl, hvars, hcode, congrArg Except.isOk hres⟩⟩
    · refine ⟨hdb, .inr ⟨rfl, hvars, ?_, congrArg Except.isOk hres⟩⟩
      exact (show _ = resultCode none by simp [sqlite3Reset, hv]).trans (congrArg _ hended.symm)
    · exact ⟨hdb, .inl ⟨⟨_, rfl⟩, .inl (congrArg Except.isOk hres)⟩⟩

theorem fetch_evaluate {s s' : Session DB Cur} (hf : s.fetch = false)
    (hr : s.stmt.running = false) (get : Value → α)
    (h : (fetch E fun row => get (row 0)).run s = (r, s')) :
    r.toOption = (E.evaluate s.stmt.vars s.db).answer get ∧
      sqlite3Finalize E s'.stmt s'.db = (E.evaluate s.stmt.vars s.db).db := by
  rw [fetch_step hf] at h
  rcases hstep : (stepRow E).run s with ⟨rs, t⟩
  rw [hstep] at h
  obtain ⟨hdb, ⟨row, hres, rfl, hf', hcol, _⟩ | ⟨hres, rfl, _, hf', _⟩ | ⟨e, hres, rfl⟩⟩ :=
    stepRow_evaluate hr hstep
  · simp only [hf', ite_true] at h
    cases h
    exact ⟨by simp [Evaluated.answer, hres, hcol, Except.toOption], hdb⟩
  · simp only [hf', Bool.false_eq_true, ite_false] at h
    cases h
    exact ⟨by simp [Evaluated.answer, hres, Except.toOption], hdb⟩
  · cases h
    exact ⟨by simp [Evaluated.answer, hres, Except.toOption], hdb⟩

theorem fetched_none (h : (E.evaluate vars db).result = .ok none) :
    E.fetched vars db = E.evaluate vars (E.evaluate vars db).db := by
  simp only [Program.fetched, h]

theorem fetched_some (h : (E.evaluate vars db).result = .ok (some row)) :
    E.fetched vars db = E.evaluate vars db := by
  simp only [Program.fetched, h]

theorem fetched_error (h : (E.evaluate vars db).result = .error e) :
    E.fetched vars db = E.evaluate vars db := by
  simp only [Program.fetched, h]

theorem select_bound {s s' : Session DB Cur} (hreset : (sqlite3Reset E s.stmt s.db).1 = sqliteOk)
    (hbinds : E.Binds 1 args) (get : Value → α)
    (h : (execute E args >>= fun _ => fetch E fun row => get (row 0)).run s = (r, s')) :
    r.toOption = (E.fetched (s.bound E args).stmt.vars (s.bound E args).db).answer get ∧
      sqlite3Finalize E s'.stmt s'.db =
        (E.fetched (s.bound E args).stmt.vars (s.bound E args).db).db := by
  rcases hexec : (execute E args).run s with ⟨re, t⟩
  obtain ⟨hno, _⟩ | ⟨_, hno, _⟩ | ⟨_, _, hstep⟩ := execute_cases hexec
  · exact absurd hreset hno
  · exact absurd hbinds hno
  have hvars : t.stmt.vars = (s.bound E args).stmt.vars := stepRow_vars hstep
  obtain ⟨hdb, ⟨row, hres, rfl, hf, hcol, _⟩ | ⟨hres, rfl, _, hf, hv⟩ | ⟨e, hres, rfl⟩⟩ :=
    stepRow_evaluate (s := s.bound E args) rfl hstep
  · rw [Call.run_bind_ok hexec, fetch_pending hf] at h
    cases h
    rw [fetched_some hres]
    exact ⟨by simp [Evaluated.answer, hres, hcol, Except.toOption], hdb⟩
  · rw [Call.run_bind_ok hexec] at h
    have hend : t.db = (E.evaluate (s.bound E args).stmt.vars (s.bound E args).db).db :=
      (show _ = sqlite3Finalize E t.stmt t.db by simp [sqlite3Finalize, sqlite3Reset, hv]).trans hdb
    rw [fetched_none hres, ← hend, ← hvars]
    exact fetch_evaluate hf (by simp [Stmt.running, hv]) get h
  · rw [Call.run_bind_error hexec] at h
    cases h
    rw [fetched_error hres]
    exact ⟨by simp [Evaluated.answer, hres, Except.toOption], hdb⟩

theorem select_refused {s s' : Session DB Cur} {read : (Nat → Value) → α}
    (hno : ¬ ((sqlite3Reset E s.stmt s.db).1 = sqliteOk ∧ E.Binds 1 args))
    (h : (execute E args >>= fun _ => fetch E read).run s = (r, s')) :
    r.toOption = none ∧ sqlite3Finalize E s'.stmt s'.db = sqlite3Finalize E s.stmt s.db := by
  rcases hexec : (execute E args).run s with ⟨re, t⟩
  obtain ⟨_, rfl, rfl⟩ | ⟨_, _, code, vars, rfl, rfl⟩ | ⟨hreset, hbinds, _⟩ := execute_cases hexec
  · rw [Call.run_bind_error hexec] at h
    cases h
    exact ⟨rfl, rfl⟩
  · rw [Call.run_bind_error hexec] at h
    cases h
    exact ⟨rfl, rfl⟩
  · exact absurd ⟨hreset, hbinds⟩ hno

theorem movedOut_ok {st : Statement Cur} (h : body.run { st with db } = (.ok (), s)) :
    (movedOut E st body).run db = (.ok s.toStatement, s.db) := by
  have hbody : body { st with db } = (.ok (), s) := h
  simp only [movedOut, Call.run, hbody]

theorem movedOut_error {st : Statement Cur} (h : body.run { st with db } = (.error e, s)) :
    (movedOut E st body).run db = (.error e, sqlite3Finalize E s.stmt s.db) := by
  have hbody : body { st with db } = (.error e, s) := h
  simp only [movedOut, Call.run, hbody]

theorem selectOne_eq (hsql : sql ≠ "") (hE : G.compile sql db = .ok E) (args : List Value)
    (get : Value → α) :
    outcome ((selectOne G sql args get).run db) =
      if (E.evaluate unbound db).Fails ∨ ¬ E.Binds 1 args then (none, (E.evaluate unbound db).db)
      else ((E.fetched (bindAll 1 args unbound) (E.evaluate unbound db).db).answer get,
        (E.fetched (bindAll 1 args unbound) (E.evaluate unbound db).db).db) := by
  have hprep : (prepare G sql).run db = (.ok E, db) := by
    simp [prepare, hsql, Call.run_bind, hE]
  rcases hdry : (execute E []).run { (prepared : Statement Cur) with db } with ⟨r, s⟩
  obtain ⟨hdb, ⟨⟨e, rfl⟩, hfails⟩ | ⟨rfl, hvars, hcode, hok⟩⟩ := execute_unbound hdry
  · have hexec : (dbExecute G sql []).run db = (.error e, (E.evaluate unbound db).db) := by
      rw [dbExecute, Call.run_bind_ok hprep, ← hdb]
      exact Call.run_bind_error (movedOut_error hdry)
    rw [selectOne, Call.run_bind_error hexec, if_pos (.inl hfails)]
    rfl
  · have hexec : (dbExecute G sql []).run db = (.ok (E, s.toStatement), s.db) := by
      rw [dbExecute, Call.run_bind_ok hprep, Call.run_bind_ok (movedOut_ok hdry)]
      rfl
    rw [selectOne, Call.run_bind_ok hexec]
    rcases hbody : (execute E args >>= fun _ => fetch E fun row => get (row 0)).run s with ⟨r, s'⟩
    have hend : outcome ((owned E s.toStatement
        (execute E args >>= fun _ => fetch E fun row => get (row 0))).run s.db) =
        (r.toOption, sqlite3Finalize E s'.stmt s'.db) := by
      simp only [owned, outcome, Call.run] at hbody ⊢
      rw [hbody]
    refine hend.trans ?_
    by_cases hboth : (E.evaluate unbound db).ended = none ∧ E.Binds 1 args
    · have hreset : (sqlite3Reset E s.stmt s.db).1 = sqliteOk := hcode.trans (resultCode_ok.mpr hboth.1)
      obtain ⟨hr, hdb'⟩ := select_bound hreset hboth.2 get hbody
      have hvars' : (s.bound E args).stmt.vars = bindAll 1 args unbound := congrArg _ hvars
      have hdb'' : (s.bound E args).db = (E.evaluate unbound db).db := hdb
      rw [if_neg (by simp [Evaluated.Fails, hok, hboth]), hr, hdb', hvars', hdb'']
    · have hno : ¬ ((sqlite3Reset E s.stmt s.db).1 = sqliteOk ∧ E.Binds 1 args) := by
        rwa [hcode, resultCode_ok]
      obtain ⟨hr, hdb'⟩ := select_refused hno hbody
      have hif : (E.evaluate unbound db).Fails ∨ ¬ E.Binds 1 args := by
        rcases Classical.not_and_iff_not_or_not.mp hboth with hended | hbinds
        · exact .inl (.inr hended)
        · exact .inr hbinds
      rw [if_pos hif, hr, hdb', hdb]

theorem answer_eq_none {v : Evaluated DB} {get : Value → α} :
    v.answer get = none ↔ v.result.isOk = false := by
  rcases hres : v.result with e | row <;>
    simp [Evaluated.answer, hres, Except.toOption, Except.isOk, Except.toBool]

theorem answer_of_succeeds {v : Evaluated DB} {get : Value → α} (h : ¬ v.Fails) :
    v.answer get ≠ none := by
  intro hnone
  exact h (.inl (answer_eq_none.mp hnone))

theorem ended_of_done (h : (E.evaluate vars db).result = .ok none) :
    (E.evaluate vars db).ended = none := by
  rcases hn : E.next (E.start vars) db with ⟨_ | _ | ⟨e, _ | cur⟩, db'⟩ <;>
    simp_all [Program.evaluate]

theorem ended_of_error (h : (E.evaluate vars db).result = .error e) :
    (E.evaluate vars db).ended = none := by
  rcases hn : E.next (E.start vars) db with ⟨_ | _ | ⟨e, _ | cur⟩, db'⟩ <;>
    simp_all [Program.evaluate]

theorem answer_eq_some_none {v : Evaluated DB} {get : Value → α} :
    v.answer get = some none ↔ v.result = .ok none := by
  rcases hres : v.result with e | _ | row <;> simp [Evaluated.answer, hres, Except.toOption]

/-- From the same database, `fetched` comes to one evaluation unless its end
fails or an evaluation without rows cannot be repeated. -/
theorem fetched_once (vars : Nat → Value) (get : Value → α) (db : DB) :
    ((E.fetched vars db).answer get, (E.fetched vars db).db) =
        (if (E.evaluate vars db).Fails then none else (E.evaluate vars db).answer get,
          (E.evaluate vars db).db) ↔
      (E.evaluate vars db).ended = none ∧
        ((E.evaluate vars db).result = .ok none →
          (E.evaluate vars (E.evaluate vars db).db).result = .ok none ∧
            (E.evaluate vars (E.evaluate vars db).db).db = (E.evaluate vars db).db) := by
  rcases hres : (E.evaluate vars db).result with e | _ | row
  · have hended := ended_of_error hres
    have hfails : (E.evaluate vars db).Fails := .inl (congrArg Except.isOk hres)
    have hanswer : (E.evaluate vars db).answer get = none :=
      answer_eq_none.mpr (congrArg Except.isOk hres)
    simp [fetched_error hres, hended, hfails, hanswer]
  · have hended := ended_of_done hres
    have hfails : ¬ (E.evaluate vars db).Fails := by
      simp [Evaluated.Fails, hres, hended, Except.isOk, Except.toBool]
    have hanswer : (E.evaluate vars db).answer get = some none := answer_eq_some_none.mpr hres
    simp [fetched_none hres, hended, hfails, hanswer, answer_eq_some_none]
  · have hanswer : (E.evaluate vars db).answer get ≠ none := by
      simp [answer_eq_none, hres, Except.isOk, Except.toBool]
    cases hended : (E.evaluate vars db).ended with
    | none =>
      have hfails : ¬ (E.evaluate vars db).Fails := by
        simp [Evaluated.Fails, hres, hended, Except.isOk, Except.toBool]
      simp [fetched_some hres, hfails]
    | some e =>
      have hfails : (E.evaluate vars db).Fails := .inr (by simp [hended])
      simp [fetched_some hres, hfails, hanswer]

theorem tolerates_iff (args : List Value) (get : Value → α) (hsame : ¬ E.WritesUnbound args db) :
    (if (E.evaluate unbound db).Fails ∨ ¬ E.Binds 1 args then (none, (E.evaluate unbound db).db)
      else ((E.fetched (bindAll 1 args unbound) (E.evaluate unbound db).db).answer get,
        (E.fetched (bindAll 1 args unbound) (E.evaluate unbound db).db).db)) =
      E.once args get db ↔ E.Tolerates args db := by
  by_cases hbinds : E.Binds 1 args
  · by_cases hdry : (E.evaluate unbound db).Fails
    · by_cases hwanted : (E.evaluate (bindAll 1 args unbound) db).Fails
      · simp [Program.once, Program.Tolerates, hbinds, hdry, hwanted]
      · simp [Program.once, Program.Tolerates, hbinds, hdry, hwanted,
          (answer_of_succeeds hwanted).symm]
    · have hdb : (E.evaluate unbound db).db = db := by
        by_contra hne
        exact hsame ⟨hbinds, hdry, hne⟩
      simp only [Program.once, Program.Tolerates, hbinds, hdry, hdb, not_true_eq_false, or_false,
        ite_true, ite_false, true_and]
      exact fetched_once _ get db
  · simp [Program.once, Program.Tolerates, hbinds]

theorem Program.Tolerates.not_writes (h : E.Tolerates args db) : ¬ E.WritesUnbound args db := by
  rintro ⟨hbinds, hdry, hne⟩
  simp only [Program.Tolerates, hbinds, hdry, ite_true, ite_false] at h
  exact hne h.1

/-- `select_one` does what one evaluation does if its SQL tolerates the
evaluation without arguments, and, unless that one writes to the database, only
if it does. -/
theorem select_one_once (G : Engine DB Cur) (sql : String) (args : List Value) (get : Value → α)
    (db : DB) :
    ((∀ E, sql ≠ "" → G.compile sql db = .ok E → E.Tolerates args db) →
      outcome ((selectOne G sql args get).run db) = G.once sql args get db) ∧
    (outcome ((selectOne G sql args get).run db) = G.once sql args get db →
      ∀ E, sql ≠ "" → G.compile sql db = .ok E → E.Tolerates args db ∨ E.WritesUnbound args db) := by
  by_cases hsql : sql = ""
  · subst hsql
    have hprep : (prepare G "").run db = (.error (.invalidArgument "statement_t"), db) := by
      simp [prepare, Call.run_bind]
    have hsel : (selectOne G "" args get).run db = (.error (.invalidArgument "statement_t"), db) := by
      rw [selectOne, dbExecute, Call.run_bind_error (Call.run_bind_error hprep)]
    simp [hsel, outcome, Engine.once, Except.toOption]
  · cases hE : G.compile sql db with
    | error e =>
      have hprep : (prepare G sql).run db = (.error (.sqlite (fromErrorCode e.code)), db) := by
        simp [prepare, hsql, Call.run_bind, hE]
      have hsel : (selectOne G sql args get).run db =
          (.error (.sqlite (fromErrorCode e.code)), db) := by
        rw [selectOne, dbExecute, Call.run_bind_error (Call.run_bind_error hprep)]
      simp [hsel, outcome, Engine.once, hsql, hE, Except.toOption]
    | ok E =>
      rw [selectOne_eq hsql hE, Engine.once, if_neg hsql, hE]
      refine ⟨fun h => ?_, fun h E' _ hE' => ?_⟩
      · have hE' : E.Tolerates args db := h E hsql rfl
        exact (tolerates_iff args get hE'.not_writes).mpr hE'
      · obtain rfl : E = E' := Except.ok.inj hE'
        by_cases hwrites : E.WritesUnbound args db
        · exact .inr hwrites
        · exact .inl ((tolerates_iff args get hwrites).mp h)

def Program.ReadOnly (E : Program DB Cur) : Prop :=
  (∀ cur db, (E.next cur db).2 = db) ∧ ∀ cur db, E.halt cur db = (none, db)

theorem Program.ReadOnly.evaluate (h : E.ReadOnly) (vars : Nat → Value) (db : DB) :
    (E.evaluate vars db).db = db ∧ (E.evaluate vars db).ended = none := by
  obtain ⟨hnext, hhalt⟩ := h
  have hdb := hnext (E.start vars) db
  rcases hn : E.next (E.start vars) db with ⟨_ | _ | ⟨e, _ | cur⟩, db'⟩ <;>
    simp_all [Program.evaluate]

/-- A query that only reads tolerates it, as long as it may have `NULL` for
every parameter. -/
theorem Program.ReadOnly.tolerates (h : E.ReadOnly) (hnull : ¬ (E.evaluate unbound db).Fails)
    (args : List Value) : E.Tolerates args db := by
  have hsame := fun vars => (h.evaluate vars db).1
  simp only [Program.Tolerates, hsame, if_neg hnull, (h.evaluate _ db).2, true_and]
  split
  · exact fun hres => ⟨hres, trivial⟩
  · trivial

/-- `UPDATE counter SET n = n + 1 RETURNING n`. The database is `n`. -/
def updateReturning : Program Nat Bool where
  nVar := 0
  admits _ := none
  start _ := true
  next
    | true, n => (.row [.integer (BitVec.ofNat 64 (n + 1))] false, n + 1)
    | false, n => (.done, n)
  halt _ n := (none, n)

/-- The update happens twice. The answer is 2 where one evaluation answers 1. -/
theorem select_one_updates_twice :
    outcome ((selectOne ⟨fun _ _ => .ok updateReturning⟩ "UPDATE counter SET n = n + 1 RETURNING n"
      [] id).run 0) = (some (some (.integer 2)), 2) ∧
    Engine.once ⟨fun _ _ => .ok updateReturning⟩ "UPDATE counter SET n = n + 1 RETURNING n" [] id 0 =
      (some (some (.integer 1)), 1) ∧
    ¬ ∀ sql args db, outcome ((selectOne ⟨fun _ _ => .ok updateReturning⟩ sql args id).run db) =
      Engine.once ⟨fun _ _ => .ok updateReturning⟩ sql args id db := by
  refine ⟨by decide, by decide, fun h => ?_⟩
  exact absurd (h "UPDATE counter SET n = n + 1 RETURNING n" [] 0) (by decide)

end Xutil.Db
