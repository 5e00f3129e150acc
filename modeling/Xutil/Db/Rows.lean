import Xutil.Lib.Runs
import Xutil.Db.Statement

/-!
# Runs of `execute` and `fetch` on one statement

Each call finds the database as it pleases: nothing ties the database of one
call to what the call before left behind.

`fetch_` stands for "a row is pending" and nothing else. A statement at its end
looks the same as one whose row was just handed out, so `fetch` steps either.
And an `execute` that throws leaves the flag of the evaluation before.
-/

namespace Xutil.Db

open Calls Runs

variable {DB Cur : Type}

abbrev Columns := Nat → Value

/-- A call with the database it finds and how it ended. A `fetch` also has the
row the statement was on when the columns were read. -/
inductive Label (DB : Type)
  | execute (db : DB) (args : List Value) (r : Except Exception Unit)
  | fetch (db : DB) (at_ : Option (Nat × Nat)) (r : Except Exception (Option Columns))

inductive Step (E : Program DB Cur) (st : Statement Cur) : Label DB → Statement Cur → Prop
  | execute : (execute E args).run { st with db } = (r, s') →
      Step E st (.execute db args r) s'.toStatement
  | fetch : (fetch E id).run { st with db } = (r, s') →
      Step E st (.fetch db s'.stmt.position r) s'.toStatement

def prepared : Statement Cur := {}

-- ---------------------------------------------------------------------------
-- What a step can do
-- ---------------------------------------------------------------------------

variable {E : Program DB Cur} {st st' : Statement Cur} {ls : List (Label DB)}

/-- The reset, each bind and the first step go through. -/
def Program.Succeeds (E : Program DB Cur) (st : Stmt Cur) (db : DB) (args : List Value) : Prop :=
  (sqlite3Reset E st db).1 = sqliteOk ∧ E.Binds 1 args ∧
    ∀ e c, (E.next (E.start (bindAll 1 args st.vars)) (sqlite3Reset E st db).2.2).1 ≠ .failed e c

theorem step_execute (h : Step E st (.execute db args r) st') :
    (¬ E.Succeeds st.stmt db args ∧ (∃ e, r = .error e) ∧ st'.fetch = st.fetch ∧
        st'.stmt.position = none ∧
        (st'.stmt.runs = st.stmt.runs ∧ st'.stmt.yielded = st.stmt.yielded ∨
          st'.stmt.runs = st.stmt.runs + 1)) ∨
      (E.Succeeds st.stmt db args ∧ r = .ok () ∧ st'.stmt.runs = st.stmt.runs + 1 ∧
        ((∃ cur row, st'.fetch = true ∧ st'.stmt.vdbe = .run cur (some row) ∧ st'.stmt.yielded = [row]) ∨
          (st'.fetch = false ∧ st'.stmt.vdbe = .halt none ∧ st'.stmt.yielded = []))) := by
  cases h with
  | @execute _ _ _ s' h =>
    obtain ⟨hreset, rfl, rfl⟩ | ⟨_, hbind, code, vars, rfl, rfl⟩ | ⟨hreset, hbind, h⟩ := execute_cases h
    · exact .inl ⟨fun hs => hreset hs.1, ⟨_, rfl⟩, rfl, rfl, .inl ⟨rfl, rfl⟩⟩
    · exact .inl ⟨fun hs => hbind hs.2.1, ⟨_, rfl⟩, rfl, rfl, .inl ⟨rfl, rfl⟩⟩
    · obtain ⟨row, cur', hn, rfl, hf, hst⟩ | ⟨hn, rfl, hf, hst⟩ | ⟨e, c, v, hn, rfl, hf, hv, _, hst⟩ :=
        stepRow_cases h
      · have hs : E.Succeeds st.stmt db args :=
          ⟨hreset, hbind, fun e c hfail => nomatch (congrArg Prod.fst hn).symm.trans hfail⟩
        refine .inr ⟨hs, rfl, ?_, .inl ⟨cur', row, hf, ?_, ?_⟩⟩ <;> simp only [hst] <;> rfl
      · have hs : E.Succeeds st.stmt db args :=
          ⟨hreset, hbind, fun e c hfail => nomatch (congrArg Prod.fst hn).symm.trans hfail⟩
        refine .inr ⟨hs, rfl, ?_, .inr ⟨hf, ?_, ?_⟩⟩ <;> rw [hst] <;> rfl
      · have hpos : s'.stmt.position = none := Rowless.position (by rw [hst]; exact hv)
        refine .inl ⟨fun hs => hs.2.2 e c (congrArg Prod.fst hn), ⟨_, rfl⟩, hf, hpos, .inr ?_⟩
        rw [hst]
        rfl

theorem step_fetch (h : Step E st (.fetch db at_ r) st') :
    (st.fetch = true ∧ r = .ok (some st.stmt.column) ∧ at_ = st.stmt.position ∧
        st' = { st with fetch := false }) ∨
      (st.fetch = false ∧ st'.fetch = false ∧ at_ = st'.stmt.position ∧
        st'.stmt.runs = st.stmt.resumed.runs ∧
        ((∃ cur row, r = .ok (some (columns row)) ∧ st'.stmt.vdbe = .run cur (some row) ∧
            st'.stmt.yielded = st.stmt.resumed.yielded ++ [row]) ∨
          (r = .ok none ∧ st'.stmt.vdbe = .halt none ∧ st'.stmt.yielded = st.stmt.resumed.yielded) ∨
          (∃ e, r = .error e ∧ st'.stmt.position = none ∧
            st'.stmt.yielded = st.stmt.resumed.yielded))) := by
  cases h with
  | @fetch _ _ s' h =>
    cases hf : st.fetch with
    | true =>
      rw [fetch_pending hf] at h
      cases h
      exact .inl ⟨rfl, rfl, rfl, rfl⟩
    | false =>
      rw [fetch_step hf] at h
      rcases hstep : (stepRow E).run { st with db } with ⟨rs, s''⟩
      rw [hstep] at h
      obtain ⟨row, cur', _, rfl, hf', hst⟩ | ⟨_, rfl, hf', hst⟩ | ⟨e, c, v, _, rfl, hf', hv, _, hst⟩ :=
        stepRow_cases hstep
      · simp only [hf', ite_true] at h
        cases h
        refine .inr ⟨rfl, rfl, rfl, by rw [hst], .inl ⟨cur', row, ?_, by rw [hst], by rw [hst]⟩⟩
        rw [hst]
        rfl
      · simp only [hf', Bool.false_eq_true, ite_false] at h
        cases h
        exact .inr ⟨rfl, hf', rfl, by rw [hst], .inr (.inl ⟨rfl, by rw [hst], by rw [hst]⟩)⟩
      · cases h
        have hpos : s'.stmt.position = none := Rowless.position (by rw [hst]; exact hv)
        exact .inr ⟨rfl, hf'.trans hf, rfl, by rw [hst], .inr (.inr ⟨_, rfl, hpos, by rw [hst]⟩)⟩

theorem fetch_taken (h : Step E st (.fetch db at_ r) st') : st'.fetch = false := by
  obtain ⟨_, _, _, rfl⟩ | ⟨_, hf, _⟩ := step_fetch h
  · rfl
  · exact hf

-- ---------------------------------------------------------------------------
-- One evaluation per execute
-- ---------------------------------------------------------------------------

/-- What the calls of `fetch` returned since the latest `execute`, as long as
neither it nor any of them threw. -/
def readsStep (rs : Option (List (Option Columns))) : Label DB → Option (List (Option Columns))
  | .execute _ _ (.ok _) => some []
  | .execute _ _ (.error _) => none
  | .fetch _ _ (.ok r) => rs.map (· ++ [r])
  | .fetch _ _ (.error _) => none

def reads (ls : List (Label DB)) : Option (List (Option Columns)) := ls.foldl readsStep none

/-- What `fetch` makes of the step that it takes. -/
def Outcome.fetched : Outcome Cur → Except Exception (Option Columns)
  | .row values _ => .ok (some (columns values))
  | .done => .ok none
  | .failed e _ => .error (.sqlite (fromErrorCode e.code))

/-- The statement after a step of an evaluation that had yielded `before`. -/
def Outcome.Leaves (o : Outcome Cur) (before : List (List Value)) (st : Stmt Cur) : Prop :=
  st.vdbe = o.vdbe ∧ st.yielded = before ++ o.rows

/-- The step after `o`, in the database that it finds. The end stays the end. -/
def Program.after (E : Program DB Cur) (o : Outcome Cur) (db : DB) : Outcome Cur :=
  match o.vdbe with
  | .run cur _ => (E.next cur db).1
  | _ => .done

/-- What calls of `fetch` return that take one step each, from the step after `o` on. -/
def Program.fetches (E : Program DB Cur) :
    Outcome Cur → List DB → List (Except Exception (Option Columns))
  | _, [] => []
  | o, db :: dbs => (E.after o db).fetched :: Program.fetches E (E.after o db) dbs

/-- What the calls of `fetch` return after an `execute` whose step was `o`. A row
of it is still in hand, and the first call takes no step. -/
def Program.delivers (E : Program DB Cur) (o : Outcome Cur) :
    List DB → List (Except Exception (Option Columns))
  | [] => []
  | db :: dbs => if o.rows.isEmpty then E.fetches o (db :: dbs) else o.fetched :: E.fetches o dbs

structure FetchCall (DB : Type) where
  db : DB
  at_ : Option (Nat × Nat)
  returned : Except Exception (Option Columns)

def FetchCall.label (f : FetchCall DB) : Label DB := .fetch f.db f.at_ f.returned

/-- Only `execute` starts an evaluation: one that goes through has taken the
first step with its arguments bound, and the calls of `fetch` that follow it
return what the steps of its evaluation yield, one row each and in order, then
`false`. Each `fetch` returns the row that is pending, or else takes the next
step and returns what comes of it. -/
def OneEvaluation (E : Program DB Cur) (step : Statement Cur → Label DB → Statement Cur → Prop) :
    Prop :=
  ∀ ls st, Run step prepared ls st →
    (∀ db args st', step st (.execute db args (.ok ())) st' →
      st'.stmt.runs = st.stmt.runs + 1 ∧
        ∃ o db', E.next (E.start (bindAll 1 args st.stmt.vars)) (sqlite3Reset E st.stmt db).2.2 = (o, db') ∧
          o.checked = .ok () ∧ st'.fetch = !o.rows.isEmpty ∧ o.Leaves [] st'.stmt ∧
          ∀ (fs : List (FetchCall DB)) st'', Run step st' (fs.map FetchCall.label) st'' →
            fs.map FetchCall.returned = E.delivers o (fs.map FetchCall.db)) ∧
    (∀ db at_ r st', step st (.fetch db at_ r) st' →
      st'.stmt.runs = st.stmt.runs ∧ st'.fetch = false ∧
        (st.fetch = true → ∀ rs, reads ls = some rs →
          ∃ rows row, st.stmt.yielded = rows ++ [row] ∧ rs = rows.map (some ∘ columns) ∧
            r = .ok (some (columns row)) ∧ st'.stmt = st.stmt) ∧
        (st.fetch = false → ∃ cur row o db', st.stmt.vdbe = .run cur row ∧ E.next cur db = (o, db') ∧
          r = o.fetched ∧ o.Leaves st.stmt.yielded st'.stmt)) ∧
    ∀ rs, reads ls = some rs →
      rs <+: st.stmt.yielded.map (some ∘ columns) ++ List.replicate rs.length none ∧
      (none ∈ rs → st.stmt.vdbe = .halt none)

def InProgress (st : Statement Cur) : Label DB → Prop
  | .fetch .. => st.fetch = true ∨ st.stmt.running = true
  | .execute .. => True

inductive Reading (st : Statement Cur) : List (Option Columns) → Prop
  | pending : st.fetch = true → st.stmt.vdbe = .run cur (some row) →
      st.stmt.yielded = rows ++ [row] → Reading st (rows.map (some ∘ columns))
  | current : st.fetch = false → st.stmt.running = true →
      Reading st (st.stmt.yielded.map (some ∘ columns))
  | ended : st.fetch = false → st.stmt.vdbe = .halt none →
      Reading st (st.stmt.yielded.map (some ∘ columns) ++ List.replicate k none)

theorem Reading.in_order (h : Reading st rs) :
    rs <+: st.stmt.yielded.map (some ∘ columns) ++ List.replicate rs.length none ∧
      (none ∈ rs → st.stmt.vdbe = .halt none) := by
  cases h with
  | @pending cur row rows _ hv hy =>
    refine ⟨?_, by simp⟩
    rw [hy, List.map_append, List.append_assoc]
    exact List.prefix_append _ _
  | current _ _ => exact ⟨List.prefix_append _ _, by simp⟩
  | @ended k _ hv =>
    refine ⟨(List.prefix_append_right_inj _).mpr ?_, fun _ => hv⟩
    exact ⟨List.replicate st.stmt.yielded.length none, by
      rw [← List.replicate_add]; simp [Nat.add_comm]⟩

theorem Reading.take (h : Reading st rs) (hf : st.fetch = true) :
    Reading { st with fetch := false } (rs ++ [some st.stmt.column]) := by
  cases h with
  | @pending cur row rows _ hv hy =>
    have hcol : st.stmt.column = columns row := by simp [Stmt.column, hv]
    have hrun : ({ st with fetch := false } : Statement Cur).stmt.running = true := by
      simp [Stmt.running, hv]
    simpa [hy, hcol] using Reading.current rfl hrun
  | current hno _ => simp [hf] at hno
  | ended hno _ => simp [hf] at hno

theorem Reading.all (h : Reading st rs) (hf : st.fetch = false) (hrun : st.stmt.running = true) :
    rs = st.stmt.yielded.map (some ∘ columns) := by
  cases h with
  | pending hno _ _ => simp [hf] at hno
  | current _ _ => rfl
  | ended _ hv => simp [Stmt.running, hv] at hrun

theorem reads_fetch {r : Option Columns} (h : reads (ls ++ [.fetch db at_ (.ok r)]) = some rs) :
    ∃ before, reads ls = some before ∧ before ++ [r] = rs := by
  simpa [reads, readsStep] using h

theorem reads_error (e : Exception) : reads (ls ++ [.fetch db at_ (.error e)]) = none := by
  simp [reads, readsStep]

theorem step_reading (h : ∀ rs, reads ls = some rs → Reading st rs)
    (hstep : Guarded (Step E) InProgress st l st') :
    ∀ rs, reads (ls ++ [l]) = some rs → Reading st' rs := by
  obtain ⟨hstep, hok⟩ := hstep
  intro rs hrs
  cases l with
  | execute db args r =>
    obtain ⟨_, ⟨e, rfl⟩, _⟩ | ⟨_, rfl, _, ⟨cur, row, hf, hv, hy⟩ | ⟨hf, hv, hy⟩⟩ := step_execute hstep
    · simp [reads, readsStep] at hrs
    · obtain rfl : [] = rs := by simpa [reads, readsStep] using hrs
      simpa using Reading.pending hf hv (show _ = [] ++ [row] from hy)
    · obtain rfl : [] = rs := by simpa [reads, readsStep] using hrs
      simpa [hy] using Reading.ended (k := 0) hf hv
  | fetch db at_ r =>
    obtain ⟨hf, rfl, _, rfl⟩ | ⟨hf, hf', _, _, hcases⟩ := step_fetch hstep
    · obtain ⟨before, hbefore, rfl⟩ := reads_fetch hrs
      exact (h before hbefore).take hf
    · have hrun : st.stmt.running = true := hok.resolve_left (by simp [hf])
      have hres : st.stmt.resumed = st.stmt := by simp [Stmt.resumed, hrun]
      rw [hres] at hcases
      obtain ⟨cur, row, rfl, hv, hy⟩ | ⟨rfl, hv, hy⟩ | ⟨e, rfl, _⟩ := hcases
      · obtain ⟨before, hbefore, rfl⟩ := reads_fetch hrs
        have hrun' : st'.stmt.running = true := by simp [Stmt.running, hv]
        rw [(h before hbefore).all hf hrun]
        simpa [hy] using Reading.current hf' hrun'
      · obtain ⟨before, hbefore, rfl⟩ := reads_fetch hrs
        rw [(h before hbefore).all hf hrun]
        simpa [hy] using Reading.ended (k := 1) hf' hv
      · rw [reads_error] at hrs
        cases hrs

theorem fetch_runs (h : Step E st (.fetch db at_ r) st') :
    st'.stmt.runs = st.stmt.runs + if st.fetch = true ∨ st.stmt.running = true then 0 else 1 := by
  obtain ⟨hf, _, _, rfl⟩ | ⟨hf, _, _, hruns, _⟩ := step_fetch h
  · simp [hf]
  · rw [hruns, Stmt.resumed]
    cases hrun : st.stmt.running <;> simp [hf, Stmt.started]

theorem execute_first (h : Step E st (.execute db args (.ok ())) st') :
    ∃ o db', E.next (E.start (bindAll 1 args st.stmt.vars)) (sqlite3Reset E st.stmt db).2.2 = (o, db') ∧
      o.checked = .ok () ∧ st'.fetch = !o.rows.isEmpty ∧ o.Leaves [] st'.stmt := by
  cases h with
  | @execute _ _ _ s' h =>
    rcases hn : E.next (E.start (bindAll 1 args st.stmt.vars)) (sqlite3Reset E st.stmt db).2.2
      with ⟨o, db'⟩
    obtain ⟨_, hr, _⟩ | ⟨_, _, _, _, hr, _⟩ | ⟨hreset, hbinds, _⟩ := execute_cases h
    · cases hr
    · cases hr
    · rw [execute_bound (s := { st with db }) hreset hbinds hn] at h
      obtain ⟨hok, rfl⟩ := Prod.mk.inj h
      refine ⟨o, db', rfl, hok, ?_, rfl, rfl⟩
      cases o with
      | failed => cases hok
      | _ => rfl

theorem fetch_next (h : Step E st (.fetch db at_ r) st') (hf : st.fetch = false)
    (hrun : st.stmt.running = true) :
    ∃ cur row o db', st.stmt.vdbe = .run cur row ∧ E.next cur db = (o, db') ∧
      r = o.fetched ∧ o.Leaves st.stmt.yielded st'.stmt := by
  obtain ⟨cur, row, hv⟩ := running_cases hrun
  have hcur : st.stmt.cursor E = cur := by simp [Stmt.cursor, hv]
  have hres : st.stmt.resumed = st.stmt := by simp [Stmt.resumed, hrun]
  rcases hn : E.next cur db with ⟨o, db'⟩
  refine ⟨cur, row, o, db', hv, hn, ?_⟩
  cases h with
  | fetch h =>
    rw [fetch_step hf, stepRow_run (s := { st with db }) (by rw [hcur, hn]), hres] at h
    cases o with
    | row => cases h; exact ⟨rfl, rfl, rfl⟩
    | done => cases h; exact ⟨rfl, rfl, rfl⟩
    | failed => cases h; exact ⟨rfl, rfl, rfl⟩

theorem fetch_in_hand (hread : Reading st rs) (hf : st.fetch = true)
    (h : Step E st (.fetch db at_ r) st') :
    ∃ rows row, st.stmt.yielded = rows ++ [row] ∧ rs = rows.map (some ∘ columns) ∧
      r = .ok (some (columns row)) ∧ st'.stmt = st.stmt := by
  obtain ⟨_, rfl, _, rfl⟩ | ⟨hno, _⟩ := step_fetch h
  · cases hread with
    | pending _ hv hy => exact ⟨_, _, hy, rfl, by simp [Stmt.column, hv], rfl⟩
    | current hno _ => simp [hf] at hno
    | ended hno _ => simp [hf] at hno
  · simp [hf] at hno

theorem after_of_vdbe (E : Program DB Cur) (db : DB) (h : o.vdbe = .run cur row) :
    E.after o db = (E.next cur db).1 := by
  simp [Program.after, h]

theorem fetches_of_run {fs : List (FetchCall DB)} (hf : st.fetch = false) (hv : st.stmt.vdbe = o.vdbe)
    (h : Run (Guarded (Step E) InProgress) st (fs.map FetchCall.label) st') :
    fs.map FetchCall.returned = E.fetches o (fs.map FetchCall.db) := by
  induction fs generalizing st o with
  | nil => rfl
  | cons f fs ih =>
    obtain ⟨st₁, ⟨hstep, hok⟩, hrest⟩ := h.head
    have hok : st.fetch = true ∨ st.stmt.running = true := hok
    obtain ⟨cur, row, o₁, db₁, hcur, hn, hr, hv₁, _⟩ :=
      fetch_next hstep hf (hok.resolve_left (by simp [hf]))
    have ho : E.after o f.db = o₁ := by rw [after_of_vdbe E f.db (hv ▸ hcur), hn]
    rw [List.map_cons, List.map_cons, Program.fetches, ho, hr, ih (fetch_taken hstep) hv₁ hrest]

/-- The first call hands out the row that the `execute` stepped onto, the others step. -/
theorem delivers_of_run {fs : List (FetchCall DB)} (hok : o.checked = .ok ())
    (hf : st.fetch = !o.rows.isEmpty) (hv : st.stmt.vdbe = o.vdbe)
    (h : Run (Guarded (Step E) InProgress) st (fs.map FetchCall.label) st') :
    fs.map FetchCall.returned = E.delivers o (fs.map FetchCall.db) := by
  cases o with
  | done =>
    cases fs with
    | nil => rfl
    | cons f fs => exact fetches_of_run hf hv h
  | failed => cases hok
  | row values cur =>
    cases fs with
    | nil => rfl
    | cons f fs =>
      obtain ⟨st₁, ⟨hstep, _⟩, hrest⟩ := h.head
      obtain ⟨_, hr, _, rfl⟩ | ⟨hno, _⟩ := step_fetch hstep
      · have hcol : st.stmt.column = columns values := by rw [Stmt.column, hv]; rfl
        have htaken : ({ st with fetch := false } : Statement Cur).fetch = false := rfl
        rw [List.map_cons, List.map_cons, Program.delivers, fetches_of_run htaken hv hrest, hr, hcol]
        rfl
      · exact absurd (hf.symm.trans hno) (by simp [Outcome.rows])

/-- The law holds of runs that never call `fetch` at the end of an evaluation
or before the first one. A `fetch` there starts an evaluation, always. -/
theorem one_evaluation (E : Program DB Cur) :
    OneEvaluation E (Guarded (Step E) InProgress) ∧
      ∀ st l st', Step E st l st' → ¬ InProgress st l →
        (∃ db at_ r, l = .fetch db at_ r) ∧ st'.stmt.runs = st.stmt.runs + 1 := by
  refine ⟨fun ls st h => ?_, fun st l st' hstep hno => ?_⟩
  · have hread := h.history (I := fun ls st => ∀ rs, reads ls = some rs → Reading st rs)
      (by simp [reads]) step_reading
    refine ⟨?_, ?_, fun rs hrs => (hread rs hrs).in_order⟩
    · rintro db args st' ⟨hstep, _⟩
      obtain ⟨_, ⟨e, he⟩, _⟩ | ⟨_, _, hruns, _⟩ := step_execute hstep
      · cases he
      · obtain ⟨o, db', hn, hok, hf, hleaves⟩ := execute_first hstep
        exact ⟨hruns, o, db', hn, hok, hf, hleaves, fun fs st'' h => delivers_of_run hok hf hleaves.1 h⟩
    · rintro db at_ r st' ⟨hstep, hok⟩
      have hok : st.fetch = true ∨ st.stmt.running = true := hok
      refine ⟨by simpa [hok] using fetch_runs hstep, fetch_taken hstep, ?_, ?_⟩
      · exact fun hf rs hrs => fetch_in_hand (hread rs hrs) hf hstep
      · exact fun hf => fetch_next hstep hf (hok.resolve_left (by simp [hf]))
  · cases l with
    | execute => exact absurd trivial hno
    | fetch db at_ r =>
      have hno : ¬ (st.fetch = true ∨ st.stmt.running = true) := hno
      exact ⟨⟨db, at_, r, rfl⟩, by simpa [hno] using fetch_runs hstep⟩

def selectRows (n : Nat) : Program Unit Nat where
  nVar := 0
  admits _ := none
  start _ := n
  next
    | 0, db => (.done, db)
    | k + 1, db => (.row [.integer k] k, db)
  halt _ db := (none, db)

/-- One row: the third `fetch` evaluates the query again. -/
theorem fetch_evaluates_again : ¬ OneEvaluation (selectRows 1) (Step (selectRows 1)) := by
  intro h
  have hrun : Run (Step (selectRows 1)) prepared
      [.execute () [] (.ok ()), .fetch () _ _, .fetch () _ _] _ :=
    .cons (.execute rfl) <| .cons (.fetch rfl) <| .cons (.fetch rfl) .nil
  have hagain := ((h _ _ hrun).2.1 () _ _ _ (.fetch rfl)).1
  exact absurd hagain (by decide)

-- ---------------------------------------------------------------------------
-- The pending row
-- ---------------------------------------------------------------------------

def Label.delivery : Label DB → Option (Nat × Nat)
  | .fetch _ at_ (.ok (some _)) => at_
  | _ => none

/-- `fetch_` is set only on a row that no `fetch` has delivered, and a `fetch`
that returns `true` has delivered the columns of such a row. -/
def PendingRow (step : Statement Cur → Label DB → Statement Cur → Prop) : Prop :=
  ∀ ls st, Run step prepared ls st →
    (st.fetch = true → ∃ p, st.stmt.position = some p ∧ p ∉ ls.filterMap Label.delivery) ∧
    ∀ db at_ row st', step st (.fetch db at_ (.ok (some row))) st' →
      ∃ p cur values, at_ = some p ∧ p ∉ ls.filterMap Label.delivery ∧
        st'.stmt.vdbe = .run cur (some values) ∧ row = columns values

/-- An `execute` that drops a pending row goes through. -/
def Completes (E : Program DB Cur) (st : Statement Cur) : Label DB → Prop
  | .execute db args _ => st.fetch = true → E.Succeeds st.stmt db args
  | .fetch .. => True

/-- A row named by its evaluation and its place, at or before the place where
the statement is. -/
def Behind (st : Stmt Cur) (p : Nat × Nat) : Prop :=
  p.1 < st.runs ∨ p.1 = st.runs ∧ p.2 ≤ st.yielded.length

structure Fresh (delivered : List (Nat × Nat)) (st : Statement Cur) : Prop where
  behind : ∀ p ∈ delivered, Behind st.stmt p
  pending : st.fetch = true → ∃ cur row, st.stmt.vdbe = .run cur (some row) ∧
    (st.stmt.runs, st.stmt.yielded.length) ∉ delivered

theorem Behind.mono {st st' : Stmt Cur} (h : Behind st p)
    (hst : st.runs < st'.runs ∨ st.runs = st'.runs ∧ st.yielded.length ≤ st'.yielded.length) :
    Behind st' p := by
  unfold Behind at *
  omega

theorem resumed_order (st : Stmt Cur) :
    st.runs < st.resumed.runs ∨
      st.runs = st.resumed.runs ∧ st.yielded.length ≤ st.resumed.yielded.length := by
  unfold Stmt.resumed Stmt.started
  split
  · exact .inr ⟨rfl, Nat.le_refl _⟩
  · exact .inl (Nat.lt_succ_self _)

theorem fetch_order (h : Step E st (.fetch db at_ r) st') :
    st.stmt.runs < st'.stmt.runs ∨
      st.stmt.runs = st'.stmt.runs ∧ st.stmt.yielded.length ≤ st'.stmt.yielded.length := by
  have horder := resumed_order st.stmt
  obtain ⟨_, _, _, rfl⟩ | ⟨_, _, _, hruns, hcases⟩ := step_fetch h
  · exact .inr ⟨rfl, Nat.le_refl _⟩
  · rw [hruns]
    obtain ⟨_, _, _, _, hy⟩ | ⟨_, _, hy⟩ | ⟨_, _, _, hy⟩ := hcases
    · have hlen : st'.stmt.yielded.length = st.stmt.resumed.yielded.length + 1 := by simp [hy]
      omega
    · rwa [hy]
    · rwa [hy]

theorem not_behind_next {st : Stmt Cur} {row : List Value} (hruns : st'.stmt.runs = st.resumed.runs)
    (hy : st'.stmt.yielded = st.resumed.yielded ++ [row]) :
    ¬ Behind st (st'.stmt.runs, st'.stmt.yielded.length) := by
  have horder := resumed_order st
  have hlen : st'.stmt.yielded.length = st.resumed.yielded.length + 1 := by simp [hy]
  simp only [Behind]
  omega

theorem fetch_fresh (h : Fresh ds st) (hstep : Step E st (.fetch db at_ (.ok (some row))) st') :
    ∃ p cur values, at_ = some p ∧ p ∉ ds ∧ Behind st'.stmt p ∧
      st'.stmt.vdbe = .run cur (some values) ∧ row = columns values := by
  obtain ⟨hf, hr, hp, rfl⟩ | ⟨_, _, hp, hruns, hcases⟩ := step_fetch hstep
  · obtain ⟨cur, values, hv, hnew⟩ := h.pending hf
    cases hr
    refine ⟨_, cur, values, ?_, hnew, .inr ⟨rfl, Nat.le_refl _⟩, hv, ?_⟩
    · rw [hp]; simp [Stmt.position, hv]
    · simp [Stmt.column, hv]
  · obtain ⟨cur, values, hr, hv, hy⟩ | ⟨hr, _⟩ | ⟨e, hr, _⟩ := hcases
    · cases hr
      refine ⟨(st'.stmt.runs, st'.stmt.yielded.length), cur, values, ?_,
        fun hd => not_behind_next hruns hy (h.behind _ hd), .inr ⟨rfl, Nat.le_refl _⟩, hv, rfl⟩
      rw [hp]
      simp [Stmt.position, hv]
    · cases hr
    · cases hr

theorem step_fresh (h : Fresh (ls.filterMap Label.delivery) st)
    (hstep : Guarded (Step E) (Completes E) st l st') :
    Fresh ((ls ++ [l]).filterMap Label.delivery) st' := by
  obtain ⟨hstep, hok⟩ := hstep
  simp only [List.filterMap_append]
  cases l with
  | execute db args r =>
    obtain ⟨hno, _, hf, _, horder⟩ | ⟨_, _, hruns, hcases⟩ := step_execute hstep
    · refine ⟨fun p hp => (h.behind p (by simpa [Label.delivery] using hp)).mono ?_, fun hf' => ?_⟩
      · rcases horder with ⟨hr, hy⟩ | hr
        · exact .inr ⟨hr.symm, Nat.le_of_eq (by rw [hy])⟩
        · exact .inl (by omega)
      · exact absurd (hok (hf ▸ hf')) hno
    · refine ⟨fun p hp => (h.behind p (by simpa [Label.delivery] using hp)).mono (.inl (by omega)),
        fun hf' => ?_⟩
      obtain ⟨cur, row, _, hv, _⟩ | ⟨hf, _⟩ := hcases
      · refine ⟨cur, row, hv, fun hd => ?_⟩
        have hbehind := h.behind _ (by simpa [Label.delivery] using hd)
        simp only [Behind] at hbehind
        omega
      · simp [hf] at hf'
  | fetch db at_ r =>
    refine ⟨fun p hp => ?_, fun hf' => by simp [fetch_taken hstep] at hf'⟩
    rcases List.mem_append.mp hp with hp | hp
    · exact (h.behind p hp).mono (fetch_order hstep)
    · rcases r with e | row | row
      · simp [Label.delivery] at hp
      · simp [Label.delivery] at hp
      · obtain ⟨q, _, _, rfl, _, hq, _⟩ := fetch_fresh h hstep
        obtain rfl : p = q := by simpa [Label.delivery] using hp
        exact hq

/-- The law holds of runs in which no `execute` that finds a row pending
throws. One that does leaves the flag set without a row. -/
theorem pending_row (E : Program DB Cur) :
    PendingRow (Guarded (Step E) (Completes E)) ∧
      ∀ st l st', Step E st l st' → ¬ Completes E st l →
        st'.fetch = true ∧ st'.stmt.position = none := by
  refine ⟨fun ls st h => ?_, fun st l st' hstep hno => ?_⟩
  · have hfresh : Fresh (ls.filterMap Label.delivery) st :=
      h.history (I := fun ls st => Fresh (ls.filterMap Label.delivery) st)
        ⟨by simp, by simp [prepared]⟩ step_fresh
    refine ⟨fun hf => ?_, fun db at_ row st' hstep => ?_⟩
    · obtain ⟨cur, row, hv, hnew⟩ := hfresh.pending hf
      exact ⟨_, by simp [Stmt.position, hv], hnew⟩
    · obtain ⟨p, cur, values, hp, hnew, _, hv, hrow⟩ := fetch_fresh hfresh hstep.1
      exact ⟨p, cur, values, hp, hnew, hv, hrow⟩
  · cases l with
    | execute db args r =>
      obtain ⟨hf, hfail⟩ := Classical.not_imp.mp hno
      obtain ⟨_, _, hf', hpos, _⟩ | ⟨hs, _⟩ := step_execute hstep
      · exact ⟨hf'.trans hf, hpos⟩
      · exact absurd hs hfail
    | fetch => exact absurd trivial hno

/-- A second `execute` with one argument too many throws over a pending row.
The next `fetch` hands out a row of `NULL`s. -/
theorem pending_row_lost : ¬ PendingRow (Step (selectRows 1)) := by
  intro h
  have hrun : Run (Step (selectRows 1)) prepared
      [.execute () [] (.ok ()), .execute () [.null] _] _ :=
    .cons (.execute rfl) <| .cons (.execute rfl) .nil
  obtain ⟨p, hp, _⟩ := (h _ _ hrun).1 (by decide)
  exact nomatch (show none = some p from hp)

end Xutil.Db
