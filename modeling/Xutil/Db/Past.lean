import Xutil.Db.Rows

/-!
# What a statement remembers

`execute` resets the statement and binds its own arguments. Two things outlive
that: the code of an evaluation that failed, which the reset reports once more,
and the parameters that the arguments do not reach.
-/

namespace Xutil.Db

open Calls Runs

variable {DB Cur : Type} {E : Program DB Cur} {st st' : Statement Cur} {ls : List (Label DB)}

structure SameView (s s' : Session DB Cur) : Prop where
  db : s.db = s'.db
  vdbe : s.stmt.vdbe = s'.stmt.vdbe
  vars : s.stmt.vars = s'.stmt.vars

def SameOutcome (o o' : Except Exception Unit × Session DB Cur) : Prop :=
  o.1 = o'.1 ∧ SameView o.2 o'.2

/-- After any past, `execute` does what it does on a new statement. -/
def IndependentOfPast (E : Program DB Cur) : Prop :=
  ∀ ls st, Run (Step E) prepared ls st → ∀ db args,
    SameOutcome ((execute E args).run { st with db }) ((execute E args).run { prepared with db })

def preparedWith (vars : Nat → Value) : Statement Cur := { stmt := { vars } }

-- ---------------------------------------------------------------------------
-- The parameters over a run
-- ---------------------------------------------------------------------------

theorem sqlite3Bind_vars (index : Nat) (v : Value) (rest : List Value) (st : Stmt Cur) (i : Nat) :
    (sqlite3Bind E index v st).2.vars i = st.vars i ∨ (sqlite3Bind E index v st).2.vars i = .null ∨
      (index ≤ i ∧ (v :: rest)[i - index]? = some ((sqlite3Bind E index v st).2.vars i)) := by
  unfold sqlite3Bind
  by_cases hi : i = index
  · subst hi
    repeat' split
    all_goals simp
  · repeat' split
    all_goals simp [Function.update_of_ne hi]

/-- A parameter keeps its value, takes its argument, or becomes `NULL` for a
value that SQLite refused. -/
theorem bind_vars {s s' : Session DB Cur} (h : (bind E index args).run s = (r, s')) (i : Nat) :
    s'.stmt.vars i = s.stmt.vars i ∨ s'.stmt.vars i = .null ∨
      (index ≤ i ∧ args[i - index]? = some (s'.stmt.vars i)) := by
  induction args generalizing index s with
  | nil => cases h; exact .inl rfl
  | cons v rest ih =>
    have hstored := sqlite3Bind_vars (E := E) index v rest s.stmt i
    rw [bind, Call.run_bind_ok (run_sqlite _ _)] at h
    by_cases hrc : (sqlite3Bind E index v s.stmt).1 = sqliteOk
    · simp only [hrc, ne_eq, not_true_eq_false, ite_false] at h
      obtain hold | hnull | ⟨hi, harg⟩ := ih h
      · rw [hold]
        exact hstored
      · exact .inr (.inl hnull)
      · have hk : i - index = i - (index + 1) + 1 := by omega
        exact .inr (.inr ⟨by omega, by rw [hk]; simpa using harg⟩)
    · simp only [ne_eq, hrc, not_false_eq_true, ite_true] at h
      cases h
      exact hstored

theorem stepRow_vars {s s' : Session DB Cur} (h : (stepRow E).run s = (r, s')) :
    s'.stmt.vars = s.stmt.vars := by
  have hres : s.stmt.resumed.vars = s.stmt.vars := by
    unfold Stmt.resumed Stmt.started
    split <;> rfl
  obtain ⟨_, _, _, _, _, hst⟩ | ⟨_, _, _, hst⟩ | ⟨_, _, _, _, _, _, _, _, hst⟩ := stepRow_cases h <;>
    rw [hst] <;> exact hres

/-- Every parameter is `NULL` or holds what an `execute` so far had for it. -/
def Retained (ls : List (Label DB)) (vars : Nat → Value) : Prop :=
  ∀ i, vars i = .null ∨ ∃ db args r, .execute db args r ∈ ls ∧ 1 ≤ i ∧ args[i - 1]? = some (vars i)

theorem execute_vars {s s' : Session DB Cur} (h : (execute E args).run s = (r, s')) (i : Nat) :
    s'.stmt.vars i = s.stmt.vars i ∨ s'.stmt.vars i = .null ∨
      (1 ≤ i ∧ args[i - 1]? = some (s'.stmt.vars i)) := by
  by_cases hreset : (sqlite3Reset E s.stmt s.db).1 = sqliteOk
  · rw [execute, Call.run_bind_ok (reset_ok hreset)] at h
    obtain ⟨_, t, hbind, hstep⟩ | ⟨e, hbind, rfl⟩ := Call.run_bind_cases h
    · rw [stepRow_vars hstep]
      exact bind_vars hbind i
    · exact bind_vars hbind i
  · rw [execute, Call.run_bind_error (reset_error hreset)] at h
    cases h
    exact .inl rfl

theorem fetch_vars {s s' : Session DB Cur} {read : (Nat → Value) → α}
    (h : (fetch E read).run s = (r, s')) : s'.stmt.vars = s.stmt.vars := by
  cases hf : s.fetch with
  | true =>
    rw [fetch_pending hf] at h
    cases h
    rfl
  | false =>
    rw [fetch_step hf] at h
    rcases hstep : (stepRow E).run s with ⟨_ | _, t⟩
    · rw [hstep] at h
      cases h
      exact stepRow_vars hstep
    · rw [hstep] at h
      rw [← stepRow_vars hstep]
      simp only at h
      split at h <;> cases h <;> rfl

theorem step_retained (h : Retained ls st.stmt.vars) (hstep : Step E st l st') :
    Retained (ls ++ [l]) st'.stmt.vars := by
  have hmore : ∀ {i v}, (∃ db args r, .execute db args r ∈ ls ∧ 1 ≤ i ∧ args[i - 1]? = some v) →
      ∃ db args r, .execute db args r ∈ ls ++ [l] ∧ 1 ≤ i ∧ args[i - 1]? = some v := by
    rintro i v ⟨db, args, r, hl, hi⟩
    exact ⟨db, args, r, List.mem_append_left _ hl, hi⟩
  intro i
  cases hstep with
  | @execute args db r s' hrun =>
    obtain hold | hnull | harg := execute_vars hrun i
    · rw [hold]
      exact (h i).imp_right hmore
    · exact .inl hnull
    · exact .inr ⟨db, args, r, by simp, harg⟩
  | fetch hrun =>
    rw [fetch_vars hrun]
    exact (h i).imp_right hmore

-- ---------------------------------------------------------------------------
-- Execute after any past
-- ---------------------------------------------------------------------------

/-- A SQLite call that only looks at the parameters, the place in the
evaluation and the database. -/
def Sees (f : Stmt Cur → DB → Int × Stmt Cur × DB) : Prop :=
  ∀ st st' db, st.vdbe = st'.vdbe → st.vars = st'.vars →
    (f st db).1 = (f st' db).1 ∧ (f st db).2.2 = (f st' db).2.2 ∧
      (f st db).2.1.vdbe = (f st' db).2.1.vdbe ∧ (f st db).2.1.vars = (f st' db).2.1.vars

theorem sqlite_alike {f : Stmt Cur → DB → Int × Stmt Cur × DB} (hf : Sees f) :
    Call.Alike SameView (sqlite f) (sqlite f) := by
  rintro s t ⟨hdb, hvdbe, hvars⟩
  simp only [run_sqlite, ← hdb]
  obtain ⟨hr, hdb', hvdbe', hvars'⟩ := hf s.stmt t.stmt s.db hvdbe hvars
  exact ⟨congrArg _ hr, hdb', hvdbe', hvars'⟩

theorem vdbeExec_sees (cur : Cur) : Sees fun st => vdbeExec E st cur := by
  intro st st' db _ hvars
  simp only [vdbeExec]
  split <;> exact ⟨rfl, rfl, rfl, hvars⟩

theorem sqlite3Step_sees : Sees (sqlite3Step E) := by
  intro st st' db hvdbe hvars
  have hcur : st.cursor E = st'.cursor E := by simp [Stmt.cursor, hvdbe, hvars]
  have hrun : st.running = st'.running := by simp [Stmt.running, hvdbe]
  have hres : st.resumed.vdbe = st'.resumed.vdbe ∧ st.resumed.vars = st'.resumed.vars := by
    unfold Stmt.resumed Stmt.started
    rw [hrun]
    split <;> exact ⟨hvdbe, hvars⟩
  rw [sqlite3Step_eq, sqlite3Step_eq, hcur]
  exact vdbeExec_sees _ _ _ _ hres.1 hres.2

theorem sqlite3Bind_sees (index : Nat) (v : Value) :
    Sees fun (st : Stmt Cur) (db : DB) =>
      ((sqlite3Bind E index v st).1, (sqlite3Bind E index v st).2, db) := by
  intro st st' db hvdbe hvars
  obtain ⟨vars, vdbe, runs, yielded⟩ := st
  obtain ⟨vars', vdbe', runs', yielded'⟩ := st'
  cases hvdbe
  cases hvars
  simp only [sqlite3Bind]
  repeat' split
  all_goals simp

theorem stepRow_alike : Call.Alike SameView (stepRow E) (stepRow E) := by
  refine .bind (sqlite_alike sqlite3Step_sees) fun res s t h => ?_
  split
  · exact ⟨rfl, h⟩
  · exact ⟨rfl, h.db, h.vdbe, h.vars⟩

theorem bind_alike (args : List Value) (index : Nat) :
    Call.Alike SameView (bind E index args) (bind E index args) := by
  induction args generalizing index with
  | nil => exact Call.Alike.pure ()
  | cons v rest ih =>
    refine .bind (sqlite_alike (sqlite3Bind_sees index v)) fun res => ?_
    split
    · exact .bind (.throw _) fun _ => ih (index + 1)
    · exact .bind (.pure ()) fun _ => ih (index + 1)

theorem execute_preparedWith {s : Session DB Cur}
    (hreset : (sqlite3Reset E s.stmt s.db).1 = sqliteOk) :
    SameOutcome ((execute E args).run s)
      ((execute E args).run { preparedWith s.stmt.vars with db := (s.rewound E).db }) := by
  have hnew : (sqlite3Reset E (preparedWith s.stmt.vars : Statement Cur).stmt (s.rewound E).db).1 =
      sqliteOk := rfl
  have hview : SameView (s.rewound E)
      (Session.rewound E { preparedWith s.stmt.vars with db := (s.rewound E).db }) := ⟨rfl, rfl, rfl⟩
  rw [execute, Call.run_bind_ok (reset_ok hreset),
    Call.run_bind_ok (reset_ok (s := { preparedWith s.stmt.vars with db := (s.rewound E).db }) hnew)]
  exact (Call.Alike.bind (bind_alike args 1) fun _ => stepRow_alike) _ _ hview

theorem bindAll_given (args : List Value) (vars : Nat → Value) :
    (∀ k v, args[k]? = some v → bindAll 1 args vars (k + 1) = v) ∧
      ∀ i, args.length < i → bindAll 1 args vars i = vars i := by
  refine ⟨fun k v hk => ?_, fun i hi => ?_⟩
  · simp [bindAll_apply, hk]
  · have hnone : args[i - 1]? = none := List.getElem?_eq_none (by omega)
    simp [bindAll_apply, hnone]

theorem execute_unbindable {s : Session DB Cur} (hreset : (sqlite3Reset E s.stmt s.db).1 = sqliteOk)
    (hno : ¬ E.Binds 1 args) :
    ∃ code vars, (execute E args).run s = (.error (.sqlite code), (s.rewound E).withVars vars) := by
  rcases hexec : (execute E args).run s with ⟨r, s'⟩
  obtain ⟨hfail, _⟩ | ⟨_, _, code, vars, rfl, rfl⟩ | ⟨_, hbinds, _⟩ := execute_cases hexec
  · exact absurd hreset hfail
  · exact ⟨code, vars, rfl⟩
  · exact absurd hbinds hno

/-- After any past, `execute` first resets. A failure the reset reports is all
that comes of it: nothing is bound and no evaluation starts. Else `execute` does
what it does on a new statement with the parameters of this one, each of which
is `NULL` or an argument of an earlier `execute`: with arguments that do not
bind it throws and starts no evaluation, and else it takes the first step of
one, which sees the arguments and behind them the parameters as they were. -/
theorem execute_after_past (h : Run (Step E) prepared ls st) (db : DB) (args : List Value) :
    ((sqlite3Reset E st.stmt db).1 ≠ sqliteOk →
      (execute E args).run { st with db } =
        (.error (.sqlite (fromErrorCode (sqlite3Reset E st.stmt db).1)),
          Session.rewound E { st with db })) ∧
      ((sqlite3Reset E st.stmt db).1 = sqliteOk →
        SameOutcome ((execute E args).run { st with db })
          ((execute E args).run
            { preparedWith st.stmt.vars with db := (sqlite3Reset E st.stmt db).2.2 }) ∧
        (¬ E.Binds 1 args → ∃ code vars, (execute E args).run { st with db } =
          (.error (.sqlite code), (Session.rewound E { st with db }).withVars vars)) ∧
        (E.Binds 1 args → ∃ vars,
          (∀ k v, args[k]? = some v → vars (k + 1) = v) ∧
          (∀ i, args.length < i → vars i = st.stmt.vars i) ∧
          ∀ o db', E.next (E.start vars) (sqlite3Reset E st.stmt db).2.2 = (o, db') →
            (execute E args).run { st with db } = (o.checked, {
              stmt := { vars, vdbe := o.vdbe, runs := st.stmt.runs + 1, yielded := o.rows }
              fetch := o.pending st.fetch
              db := db' }))) ∧
      Retained ls st.stmt.vars := by
  refine ⟨fun hfail => ?_, fun hok => ⟨?_, fun hno => ?_, fun hbinds => ?_⟩, ?_⟩
  · exact Call.run_bind_error (reset_error (s := { st with db }) hfail)
  · exact execute_preparedWith (s := { st with db }) hok
  · exact execute_unbindable (s := { st with db }) hok hno
  · obtain ⟨hgiven, hkept⟩ := bindAll_given args st.stmt.vars
    exact ⟨_, hgiven, hkept, fun o db' hn => execute_bound (s := { st with db }) hok hbinds hn⟩
  · exact h.history (I := fun ls st => Retained ls st.stmt.vars) (fun _ => .inl rfl) step_retained

/-- `INSERT INTO t VALUES (?, ?)`, where the first column is `NOT NULL`. -/
def insertPair : Program (List (Value × Value)) (Value × Value) where
  nVar := 2
  admits _ := none
  start vars := (vars 1, vars 2)
  next
    | (.null, _), db => (.failed ⟨19, by decide, by decide, by decide⟩ none, db)
    | row, db => (.done, db ++ [row])
  halt _ db := (none, db)

theorem execute_after_past_insert :
    ∃ ls st, Run (Step insertPair) prepared ls st ∧
      (∀ args, SameOutcome ((execute insertPair args).run { st with db := [] })
        ((execute insertPair args).run { preparedWith st.stmt.vars with db := [] })) ∧
      ∃ s, (execute insertPair [.integer 3]).run { st with db := [] } = (.ok (), s) ∧
        s.db = [(.integer 3, .integer 2)] := by
  have hrun : Run (Step insertPair) prepared [.execute [] [.integer 1, .integer 2] (.ok ())] _ :=
    .cons (.execute rfl) .nil
  obtain ⟨vars, hgiven, hkept, hstarts⟩ :=
    ((execute_after_past hrun [] [.integer 3]).2.1 rfl).2.2 ⟨by decide, fun _ _ => rfl⟩
  have hfirst : insertPair.next (insertPair.start vars) [] =
      (.done, [(.integer 3, .integer 2)]) := by
    have h1 : vars 1 = .integer 3 := hgiven 0 _ rfl
    have h2 : vars 2 = .integer 2 := hkept 2 (by decide)
    simp [insertPair, h1, h2]
  exact ⟨_, _, hrun, fun args => ((execute_after_past hrun [] args).2.1 rfl).1,
    _, hstarts _ _ hfirst, rfl⟩

/-- The second parameter outlives its `execute`. And an `INSERT` that violated
the constraint makes the next `execute` throw as well. -/
theorem past_shows : ¬ IndependentOfPast insertPair ∧
    ∃ ls st, Run (Step insertPair) prepared ls st ∧
      ((execute insertPair [.integer 1]).run { st with db := [] }).1 = .error (.sqlite .constraint) ∧
      ((execute insertPair [.integer 1]).run { prepared with db := [] }).1 = .ok () := by
  refine ⟨fun h => ?_, ?_⟩
  · have hrun : Run (Step insertPair) prepared [.execute [] [.integer 1, .integer 2] (.ok ())] _ :=
      .cons (.execute rfl) .nil
    exact absurd (h _ _ hrun [] [.integer 3]).2.db (by decide)
  · have hrun : Run (Step insertPair) prepared [.execute [] [] _] _ := .cons (.execute rfl) .nil
    exact ⟨_, _, hrun, rfl, rfl⟩

end Xutil.Db
