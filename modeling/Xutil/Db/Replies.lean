import Xutil.Db.Ends

/-!
# A session is one run of replies

`Xutil.Db.Statement` runs `execute` and `fetch` on what SQLite makes of a
statement, `Xutil.Db.Connection` on whatever SQLite may reply. While the
connection is open the first is a case of the second: with the replies that the
evaluation gives, both return or throw the same and leave the same `fetch_`.
-/

namespace Xutil.Db.Handles

open Calls

variable {DB Cur α β : Type} {E : Program DB Cur}

/-- A statement in `w`, with this `fetch_` and on a connection that is open. -/
structure Prepared (w : Nat) (b : Bool) (s : Heap) : Prop where
  isSome : (s.stmts w).isSome
  fetch : s.fetch w = b
  connection : ∃ h, s.connection w = some h ∧ .closeV2 (some h) ∉ s.calls

/-- The object in `w` ends as the session does. -/
def Answers (w : Nat) (g : α → β) (p : Except Exception α × Session DB Cur)
    (q : Except Exception β × Heap) : Prop :=
  q.1 = p.1.map g ∧ Prepared w p.2.fetch q.2

theorem Prepared.called (h : Prepared w b s) (f : StatementFunction) :
    Prepared w b (s.called f w) := by
  obtain ⟨x, hconn, hopen⟩ := h.connection
  exact ⟨h.isSome, h.fetch, x, hconn, by simpa [Heap.called] using hopen⟩

theorem Prepared.throws (h : Prepared w b s) (reply : Reply) :
    ∃ s', (throwStatement w reply).run s = (.error (.sqlite (fromErrorCode reply.code)), s') ∧
      Prepared w b s' := by
  obtain ⟨x, hconn, hopen⟩ := h.connection
  have herrcode : s.errcode (s.connection w) reply = reply.code := by
    simp [hconn, Heap.errcode, hopen]
  rw [throwStatement_run, herrcode]
  exact ⟨_, rfl, h.isSome, h.fetch, x, hconn, by simpa [questions] using hopen⟩

theorem Prepared.setFetch (h : Prepared w b s) (b' : Bool) :
    Prepared w b' ((setFetch w b').run s).2 := by
  obtain ⟨o, hobject⟩ := Option.isSome_iff_exists.mp h.isSome
  obtain ⟨x, hconn, hopen⟩ := h.connection
  refine ⟨by simp [Handles.setFetch, hobject], by simp [Handles.setFetch, Heap.fetch, hobject], x, ?_, hopen⟩
  simpa [Handles.setFetch, Heap.connection, Heap.statement, hobject] using hconn

theorem reset_answers {a : Session DB Cur} (h : Prepared w a.fetch s) :
    ∃ reply, Answers w id ((Db.reset E).run a) ((reset w reply).run s) := by
  refine ⟨{ code := (sqlite3Reset E a.stmt a.db).1 }, ?_⟩
  rw [Db.reset, reset, Call.run_bind_ok (run_sqlite _ _), Call.run_bind_ok (callStatement_run ..)]
  split
  · obtain ⟨s', hthrow, hs'⟩ := (h.called .reset).throws { code := (sqlite3Reset E a.stmt a.db).1 }
    rw [hthrow]
    exact ⟨rfl, hs'⟩
  · exact ⟨rfl, h.called .reset⟩

theorem stepRow_answers {a : Session DB Cur} (h : Prepared w a.fetch s) :
    ∃ reply, Answers w id ((Db.stepRow E).run a) ((stepRow w reply).run s) := by
  refine ⟨{ code := (sqlite3Step E a.stmt a.db).1 }, ?_⟩
  rw [Db.stepRow, stepRow, Call.run_bind_ok (run_sqlite _ _), Call.run_bind_ok (callStatement_run ..)]
  split
  · obtain ⟨s', hthrow, hs'⟩ := (h.called .step).throws { code := (sqlite3Step E a.stmt a.db).1 }
    rw [hthrow]
    exact ⟨rfl, hs'⟩
  · exact ⟨rfl, (h.called .step).setFetch _⟩

theorem bind_answers {a : Session DB Cur} (h : Prepared w a.fetch s) (args : List Value) :
    ∃ replies, Answers w id ((Db.bind E index args).run a) ((bind w index replies).run s) := by
  induction args generalizing index a s with
  | nil => exact ⟨[], rfl, h⟩
  | cons v args ih =>
    have hcalled := h.called (.bind index)
    by_cases hcode : (sqlite3Bind E index v a.stmt).1 = sqliteOk
    · obtain ⟨replies, hreplies⟩ := ih (a := { a with stmt := (sqlite3Bind E index v a.stmt).2 })
        hcalled
      refine ⟨{ code := sqliteOk } :: replies, ?_⟩
      rw [Db.bind, bind, Call.run_bind_ok (run_sqlite _ _), Call.run_bind_ok (callStatement_run ..)]
      simpa [hcode] using hreplies
    · obtain ⟨s', hthrow, hs'⟩ := hcalled.throws { code := (sqlite3Bind E index v a.stmt).1 }
      refine ⟨[{ code := (sqlite3Bind E index v a.stmt).1 }], ?_⟩
      rw [Db.bind, bind, Call.run_bind_ok (run_sqlite _ _), Call.run_bind_ok (callStatement_run ..)]
      simp only [ne_eq, hcode, not_false_eq_true, if_true]
      rw [Call.run_bind_error (Call.run_throw _ _), Call.run_bind_error hthrow]
      exact ⟨rfl, hs'⟩

theorem Answers.bind {ι : Type} [Inhabited ι] {m : Call Exception (Session DB Cur) Unit}
    {f : Call Exception (Session DB Cur) α} {m' : Call Exception Heap Unit}
    {k : ι → Call Exception Heap β} (hm : Answers w id (m.run a) (m'.run s))
    (hf : ∀ a' s', Prepared w a'.fetch s' → ∃ i, Answers w g (f.run a') ((k i).run s')) :
    ∃ i, Answers w g ((m >>= fun _ => f).run a) ((m' >>= fun _ => k i).run s) := by
  obtain ⟨hr, hs⟩ := hm
  rcases hp : m.run a with ⟨e | _, a'⟩ <;> rcases hq : m'.run s with ⟨e' | _, s'⟩ <;>
    simp only [hp, hq, Except.map, reduceCtorEq, Except.error.injEq] at hr hs
  · subst hr
    refine ⟨default, ?_⟩
    rw [Call.run_bind_error hp, Call.run_bind_error hq]
    exact ⟨rfl, hs⟩
  · obtain ⟨i, hi⟩ := hf a' s' hs
    refine ⟨i, ?_⟩
    rwa [Call.run_bind_ok hp, Call.run_bind_ok hq]

theorem execute_answers {a : Session DB Cur} (h : Prepared w a.fetch s) (args : List Value) :
    ∃ first binds last, Answers w id ((Db.execute E args).run a) ((execute w first binds last).run s) := by
  obtain ⟨first, hfirst⟩ := reset_answers (E := E) h
  have hrest : ∀ (a' : Session DB Cur) s', Prepared w a'.fetch s' → ∃ i : List Reply × Reply,
      Answers w id ((do Db.bind E 1 args; Db.stepRow E : Call _ _ _).run a')
        ((do bind w 1 i.1; stepRow w i.2 : Call _ _ _).run s') := by
    intro a' s' h'
    obtain ⟨binds, hbinds⟩ := bind_answers (E := E) h' args
    obtain ⟨last, hlast⟩ := hbinds.bind (k := stepRow w) fun _ _ h'' => stepRow_answers h''
    exact ⟨⟨binds, last⟩, hlast⟩
  obtain ⟨⟨binds, last⟩, hboth⟩ := hfirst.bind hrest
  exact ⟨first, binds, last, hboth⟩

theorem column_prepared (h : Prepared w b s) (n : Nat) :
    ∃ s', (column w i n).run s = (.ok (), s') ∧ Prepared w b s' := by
  induction n generalizing i s with
  | zero => exact ⟨s, rfl, h⟩
  | succ n ih => exact ih (h.called (.column i))

/-- What both do with the row that there is, or without one. -/
theorem fetched_answers {a : Session DB Cur} {read : (Nat → Value) → α} (h : Prepared w a.fetch s)
    (n : Nat) : Answers w Option.isSome
      (if a.fetch then (.ok (some (read a.stmt.column)), { a with fetch := false }) else (.ok none, a))
      ((fetched w n).run s) := by
  cases hfetch : a.fetch with
  | false =>
    rw [hfetch] at h
    simp [Answers, fetched, Call.run_bind, h.fetch, Except.map, hfetch, h]
  | true =>
    rw [hfetch] at h
    obtain ⟨s', hcolumn, hs'⟩ := column_prepared (i := 0) h n
    have hrun : (fetched w n).run s = (.ok true, ((setFetch w false).run s').2) := by
      simp [fetched, Call.run_bind, h.fetch, hcolumn, setFetch]
    rw [hrun]
    exact ⟨rfl, hs'.setFetch false⟩

/-- With as many columns as the targets of `fetch` read. -/
theorem fetch_answers {a : Session DB Cur} {read : (Nat → Value) → α} (h : Prepared w a.fetch s)
    (n : Nat) : ∃ reply, Answers w Option.isSome ((Db.fetch E read).run a) ((fetch w n reply).run s) := by
  cases hfetch : a.fetch with
  | true =>
    refine ⟨default, ?_⟩
    have hrun : (fetch w n default).run s = (fetched w n).run s := by
      simp [fetch_run, h.fetch, hfetch]
    rw [hrun, Db.fetch_pending hfetch]
    simpa [hfetch] using fetched_answers h n
  | false =>
    obtain ⟨reply, hr, hs⟩ := stepRow_answers (E := E) h
    refine ⟨reply, ?_⟩
    have hrun : (fetch w n reply).run s = (stepRow w reply >>= fun _ => fetched w n).run s := by
      simp [fetch_run, h.fetch, hfetch]
    rw [hrun, Db.fetch_step hfetch]
    rcases hp : (Db.stepRow E).run a with ⟨e | _, a'⟩ <;>
      rcases hq : (stepRow w reply).run s with ⟨e' | _, s'⟩ <;>
      simp only [hp, hq, Except.map, reduceCtorEq, Except.error.injEq] at hr hs
    · subst hr
      rw [Call.run_bind_error hq]
      exact ⟨rfl, hs⟩
    · rw [Call.run_bind_ok hq]
      exact fetched_answers hs n

end Xutil.Db.Handles
