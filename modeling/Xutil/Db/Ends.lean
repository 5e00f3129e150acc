import Xutil.Db.Connection

/-!
# How the member functions end

One lemma for each outcome of a constructor, a destructor and `prepare`, with
the calls of SQLite that it makes. Of `execute` and `fetch`, whose calls are
many, `Ends` says all that matters here: what they are about, and when the last
of them is an exception that asks the connection.
-/

namespace Xutil.Db.Handles

open Calls

def StepFails (reply : Reply) : Prop := reply.code ≠ sqliteRow ∧ reply.code ≠ sqliteDone

def BindFails (replies : List Reply) : Prop := ∃ reply ∈ replies, reply.code ≠ sqliteOk

/-- Who holds what stays as it is. -/
structure Same (s s' : Heap) : Prop where
  db : s'.db = s.db
  statement : s'.statement = s.statement
  opened : s'.opened = s.opened
  connections : s'.connections = s.connections

theorem Same.refl (s : Heap) : Same s s := ⟨rfl, rfl, rfl, rfl⟩

theorem Same.trans (h : Same s s') (h' : Same s' s'') : Same s s'' :=
  ⟨h'.db.trans h.db, h'.statement.trans h.statement, h'.opened.trans h.opened,
    h'.connections.trans h.connections⟩

theorem Same.connection (h : Same s s') : s'.connection w = s.connection w := by
  rw [Heap.connection, h.statement, h.connections, Heap.connection]

def uses (s : Heap) (w : Nat) (fs : List StatementFunction) : List SqliteCall :=
  fs.map (.statement · (s.statement w))

/-- What `exception_t` asks about the statement in `w`. -/
def questions (s : Heap) (w : Nat) : List SqliteCall :=
  [.dbHandle (s.statement w), .errmsg (s.connection w), .errcode (s.connection w)]

def Uses (w : Nat) (s s' : Heap) : Prop := Same s s' ∧ ∃ fs, s'.calls = s.calls ++ uses s w fs

def Throws (w : Nat) (s s' : Heap) : Prop :=
  Same s s' ∧ ∃ fs, s'.calls = s.calls ++ uses s w fs ++ questions s w

theorem Uses.refl (w : Nat) (s : Heap) : Uses w s s := ⟨.refl s, [], by simp [uses]⟩

theorem Uses.trans (h : Uses w s s') (h' : Uses w s' s'') : Uses w s s'' := by
  obtain ⟨hsame, fs, hcalls⟩ := h
  obtain ⟨hsame', fs', hcalls'⟩ := h'
  refine ⟨hsame.trans hsame', fs ++ fs', ?_⟩
  rw [hcalls', hcalls]
  simp [uses, hsame.statement]

theorem Uses.throws (h : Uses w s s') (h' : Throws w s' s'') : Throws w s s'' := by
  obtain ⟨hsame, fs, hcalls⟩ := h
  obtain ⟨hsame', fs', hcalls'⟩ := h'
  refine ⟨hsame.trans hsame', fs ++ fs', ?_⟩
  rw [hcalls', hcalls]
  simp [uses, questions, hsame.statement, hsame.connection]

/-- A call ends in an exception exactly when `fails`. -/
inductive Ends {α : Type} (fails : Prop) (w : Nat) (s : Heap) : Except Exception α × Heap → Prop
  | returns : ¬ fails → Uses w s s' → Ends fails w s (.ok a, s')
  | throws : fails → Throws w s s' → Ends fails w s (.error e, s')

theorem Ends.bind {α β : Type} {m : Call Exception Heap α} {f : α → Call Exception Heap β}
    (hm : Ends p w s (m.run s)) (hf : ∀ a s', Ends q w s' ((f a).run s')) :
    Ends (p ∨ q) w s ((m >>= f).run s) := by
  rw [Call.run_bind]
  generalize hr : m.run s = r at hm
  cases hm with
  | @returns s' a hp huses =>
    simp only
    generalize hr' : (f a).run s' = r'
    have hfa := hf a s'
    rw [hr'] at hfa
    cases hfa with
    | returns hq huses' => exact .returns (by simp [hp, hq]) (huses.trans huses')
    | throws hq hthrows => exact .throws (.inr hq) (huses.throws hthrows)
  | throws hp hthrows => exact .throws (.inl hp) hthrows

theorem Ends.congr (h : Ends (α := α) p w s r) (hpq : p ↔ q) : Ends q w s r := by
  rwa [← propext hpq]

theorem Ends.returned (h : Ends p w s r) (hp : ¬ p) : ∃ a s', r = (.ok a, s') ∧ Uses w s s' := by
  cases h with
  | returns _ huses => exact ⟨_, _, rfl, huses⟩
  | throws hfails _ => exact absurd hfails hp

theorem pure_ends (a : α) : Ends False w s ((pure a : Call Exception Heap α).run s) :=
  .returns not_false (.refl w s)

def Heap.called (s : Heap) (f : StatementFunction) (w : Nat) : Heap :=
  { s with calls := s.calls ++ [.statement f (s.statement w)] }

theorem callStatement_run (f : StatementFunction) (w : Nat) (s : Heap) :
    (callStatement f w).run s = (.ok (), s.called f w) := rfl

theorem called_uses (s : Heap) (f : StatementFunction) (w : Nat) : Uses w s (s.called f w) :=
  ⟨⟨rfl, rfl, rfl, rfl⟩, [f], rfl⟩

theorem callStatement_ends (f : StatementFunction) : Ends False w s ((callStatement f w).run s) :=
  .returns not_false (called_uses s f w)

theorem throwDb_run (db : Option Nat) (reply : Reply) (s : Heap) :
    (throwDb db reply).run s = (.error (.sqlite (fromErrorCode (s.errcode db reply))),
      { s with calls := s.calls ++ [.errmsg db, .errcode db] }) := by
  cases db <;> simp [throwDb, noteCall, Call.run_bind, Heap.errcode]

theorem throwStatement_run (w : Nat) (reply : Reply) (s : Heap) :
    (throwStatement w reply).run s =
      (.error (.sqlite (fromErrorCode (s.errcode (s.connection w) reply))),
        { s with calls := s.calls ++ questions s w }) := by
  have herrcode : ∀ db, Heap.errcode { s with calls := s.calls ++ [.dbHandle (s.statement w)] } db reply =
      s.errcode db reply := by
    intro db
    cases db <;> simp [Heap.errcode]
  simp [throwStatement, noteCall, Call.run_bind, throwDb_run, herrcode, questions]

theorem throwStatement_throws (w : Nat) (s : Heap) (reply : Reply) :
    Throws w s ((throwStatement w reply).run s).2 := by
  rw [throwStatement_run]
  exact ⟨⟨rfl, rfl, rfl, rfl⟩, [], by simp [uses]⟩

theorem throwStatement_ends (reply : Reply) : Ends True w s ((throwStatement w reply).run s) :=
  .throws trivial (throwStatement_throws w s reply)

theorem throwStatement_bind_ends (f : Unit → Call Exception Heap α) :
    Ends True w s ((throwStatement w reply >>= f).run s) :=
  .throws trivial (throwStatement_throws w s reply)

theorem setFetch_ends (fetch : Bool) : Ends False w s ((setFetch w fetch).run s) := by
  refine .returns not_false ⟨⟨rfl, ?_, rfl, rfl⟩, [], by simp [uses]⟩
  funext w'
  by_cases hw : w' = w
  · subst hw
    cases hobj : s.stmts w' <;> simp [Heap.statement, hobj]
  · simp [Heap.statement, hw]

theorem ite_ends {c : Prop} [Decidable c] {m k : Call Exception Heap α}
    (hm : Ends True w s (m.run s)) (hk : Ends q w s (k.run s)) :
    Ends (c ∨ q) w s ((if c then m else k).run s) := by
  by_cases hc : c
  · rw [if_pos hc]
    exact hm.congr (by simp [hc])
  · rw [if_neg hc]
    exact hk.congr (by simp [hc])

theorem reset_ends (reply : Reply) : Ends (reply.code ≠ sqliteOk) w s ((reset w reply).run s) := by
  apply Ends.congr (p := False ∨ reply.code ≠ sqliteOk ∨ False)
  · exact (callStatement_ends .reset).bind fun _ _ =>
      ite_ends (throwStatement_ends reply) (pure_ends ())
  · simp

theorem bind_ends (replies : List Reply) : Ends (BindFails replies) w s ((bind w index replies).run s) := by
  induction replies generalizing index s with
  | nil => exact (pure_ends ()).congr (by simp [BindFails])
  | cons reply replies ih =>
    apply Ends.congr (p := False ∨ reply.code ≠ sqliteOk ∨ BindFails replies)
    · exact (callStatement_ends (.bind index)).bind fun _ _ =>
        ite_ends (throwStatement_bind_ends _) ih
    · simp [BindFails]

theorem stepRow_ends (reply : Reply) : Ends (StepFails reply) w s ((stepRow w reply).run s) := by
  apply Ends.congr (p := False ∨ (reply.code ≠ sqliteRow ∧ reply.code ≠ sqliteDone) ∨ False)
  · exact (callStatement_ends .step).bind fun _ _ =>
      ite_ends (throwStatement_ends reply) (setFetch_ends _)
  · simp [StepFails]

theorem column_ends (n : Nat) : Ends False w s ((column w i n).run s) := by
  induction n generalizing i s with
  | zero => exact pure_ends ()
  | succ n ih =>
    apply Ends.congr (p := False ∨ False)
    · exact (callStatement_ends (.column i)).bind fun _ _ => ih
    · simp

theorem execute_ends (first : Reply) (binds : List Reply) (last : Reply) :
    Ends (first.code ≠ sqliteOk ∨ BindFails binds ∨ StepFails last) w s
      ((execute w first binds last).run s) :=
  (reset_ends first).bind fun _ _ => (bind_ends binds).bind fun _ _ => stepRow_ends last

/-- What `fetch` does once it knows whether there is a row. -/
def fetched (w n : Nat) : Call Exception Heap Bool := do
  if (← .get).fetch w then
    column w 0 n
    setFetch w false
    return true
  return false

theorem fetched_ends (n : Nat) : Ends False w s ((fetched w n).run s) := by
  cases hfetch : s.fetch w with
  | false =>
    have hrun : (fetched w n).run s = (pure false : Call Exception Heap Bool).run s := by
      simp [fetched, Call.run_bind, hfetch]
    rw [hrun]
    exact pure_ends false
  | true =>
    have hrun : (fetched w n).run s =
        (do column w 0 n; setFetch w false; return true : Call Exception Heap Bool).run s := by
      simp [fetched, Call.run_bind, hfetch]
    rw [hrun]
    apply Ends.congr (p := False ∨ False ∨ False)
    · exact (column_ends n).bind fun _ _ => (setFetch_ends false).bind fun _ _ => pure_ends true
    · simp

theorem fetch_run (w n : Nat) (reply : Reply) (s : Heap) : (fetch w n reply).run s =
    if s.fetch w = false then (stepRow w reply >>= fun _ => fetched w n).run s
    else (fetched w n).run s := by
  cases hfetch : s.fetch w <;> simp [fetch, fetched, Call.run_bind, hfetch]

theorem fetch_ends (n : Nat) (reply : Reply) :
    Ends (s.fetch w = false ∧ StepFails reply) w s ((fetch w n reply).run s) := by
  rw [fetch_run]
  split
  · next hfetch =>
    apply Ends.congr (p := StepFails reply ∨ False)
    · exact (stepRow_ends reply).bind fun _ _ => fetched_ends n
    · simp [hfetch]
  · next hfetch => exact (fetched_ends n).congr (by simp [hfetch])

-- ---------------------------------------------------------------------------
-- Construction and destruction
-- ---------------------------------------------------------------------------

def Source.Valid : Source → Prop
  | .memory => True
  | .path p => p ≠ ""
  | .uri u => u ≠ ""

def Source.filename : Source → String
  | .memory => ":memory:"
  | .path p => p
  | .uri u => u

def Source.initial : Source → BitVec 32
  | .memory => sqliteOpenMemory
  | .path _ => 0
  | .uri _ => sqliteOpenUri

theorem constructDb_valid (hvalid : source.Valid) (s : Heap) :
    (constructDb source flags v reply).run s =
      (openDb source.filename (toFlags flags source.initial) v reply).run s := by
  cases source with
  | memory => rfl
  | path p =>
    have hp : p ≠ "" := hvalid
    simp [constructDb, openPath, hp, Source.filename, Source.initial]
  | uri u =>
    have hu : u ≠ "" := hvalid
    simp [constructDb, openUri, hu, Source.filename, Source.initial]

theorem constructDb_invalid (hvalid : ¬ source.Valid) (s : Heap) :
    (constructDb source flags v reply).run s = (.error (.invalidArgument "db_t"), s) := by
  cases source with
  | memory => exact absurd trivial hvalid
  | path p =>
    obtain rfl : p = "" := not_not.mp hvalid
    simp [constructDb, openPath, Call.run_bind]
  | uri u =>
    obtain rfl : u = "" := not_not.mp hvalid
    simp [constructDb, openUri, Call.run_bind]

/-- The handle of a reply to `sqlite3_open_v2`. -/
def Heap.given (s : Heap) (reply : Reply) : Option Nat := if reply.handle then some s.opened else none

theorem sqlite3OpenV2_run (filename : String) (flags : BitVec 32) (reply : Reply) (s : Heap) :
    (sqlite3OpenV2 filename flags reply).run s = (.ok (s.given reply), { s with
      opened := s.opened + if reply.handle then 1 else 0
      calls := s.calls ++ [.openV2 filename flags (s.given reply)] }) := rfl

theorem openDb_ok (hcode : reply.code = sqliteOk) (s : Heap) :
    (openDb filename flags v reply).run s = (.ok (), { s with
      dbs := Function.update s.dbs v (some (s.given reply))
      opened := s.opened + if reply.handle then 1 else 0
      calls := s.calls ++ [.openV2 filename flags (s.given reply)] }) := by
  simp [openDb, hcode, Call.run_bind, sqlite3OpenV2_run]

/-- The connection is closed before the exception asks for its error. -/
theorem openDb_failed (hcode : reply.code ≠ sqliteOk) (s : Heap) :
    (openDb filename flags v reply).run s =
      (.error (.sqlite (fromErrorCode (if reply.handle then reply.junk else sqliteNomem))),
        { s with
          opened := s.opened + if reply.handle then 1 else 0
          calls := s.calls ++ [.openV2 filename flags (s.given reply), .closeV2 (s.given reply),
            .errmsg (s.given reply), .errcode (s.given reply)] }) := by
  let closed : Heap := { s with
    opened := s.opened + if reply.handle then 1 else 0
    calls := s.calls ++ [.openV2 filename flags (s.given reply), .closeV2 (s.given reply)] }
  have hopen : (openDb filename flags v reply).run s = (throwDb (s.given reply) reply).run closed := by
    simp [openDb, hcode, Call.run_bind, sqlite3OpenV2_run, noteCall, throwDb_run, closed]
  have herrcode : closed.errcode (s.given reply) reply =
      if reply.handle then reply.junk else sqliteNomem := by
    cases hhandle : reply.handle <;> simp [Heap.given, hhandle, Heap.errcode, closed]
  rw [hopen, throwDb_run, herrcode]
  simp [closed]

theorem destroyDb_run (v : Nat) (s : Heap) : (destroyDb v).run s = (.ok (), { s with
    dbs := Function.update s.dbs v none
    calls := s.calls ++ (s.db v).elim [] fun h => [.closeV2 (some h)] }) := by
  cases hdb : s.db v <;> simp [destroyDb, noteCall, Call.run_bind, hdb]

theorem destroyStatement_run (w : Nat) (s : Heap) : (destroyStatement w).run s = (.ok (), { s with
    stmts := Function.update s.stmts w none
    calls := s.calls ++ (s.statement w).elim [] fun st => [.finalize st] }) := by
  cases hst : s.statement w <;> simp [destroyStatement, noteCall, Call.run_bind, hst]

theorem sqlite3PrepareV3_run (db : Nat) (sql : String) (flags : BitVec 32) (reply : Reply) (s : Heap) :
    (sqlite3PrepareV3 db sql flags reply).run s =
      let stmt := if reply.code = sqliteOk ∧ reply.handle = true then some s.connections.length else none
      (.ok stmt, { s with
        connections := s.connections ++ if reply.code = sqliteOk ∧ reply.handle = true then [db] else []
        calls := s.calls ++ [.prepareV3 db sql flags stmt] }) := rfl

theorem prepare_invalid (h : s.db v = none ∨ sql = "") :
    (prepare v sql flags w reply).run s = (.error (.invalidArgument "statement_t"), s) := by
  rcases hdb : s.db v with _ | db
  · simp [prepare, Call.run_bind, hdb]
  · obtain rfl : sql = "" := h.resolve_left (by simp [hdb])
    simp [prepare, Call.run_bind, hdb]

theorem prepare_failed (hdb : s.db v = some db) (hsql : sql ≠ "") (hcode : reply.code ≠ sqliteOk) :
    (prepare v sql flags w reply).run s =
      (.error (.sqlite (fromErrorCode (s.errcode (some db) reply))), { s with
        calls := s.calls ++ [.prepareV3 db sql (toFlags flags 0) none, .errmsg (some db),
          .errcode (some db)] }) := by
  simp [prepare, Call.run_bind, hdb, hsql, hcode, sqlite3PrepareV3_run, throwDb_run, Heap.errcode]

theorem prepare_ok (hdb : s.db v = some db) (hsql : sql ≠ "") (hcode : reply.code = sqliteOk) :
    (prepare v sql flags w reply).run s = (.ok (), { s with
      stmts := Function.update s.stmts w
        (some { statement := if reply.handle then some s.connections.length else none })
      connections := s.connections ++ if reply.handle then [db] else []
      calls := s.calls ++ [.prepareV3 db sql (toFlags flags 0)
        (if reply.handle then some s.connections.length else none)] }) := by
  simp [prepare, Call.run_bind, hdb, hsql, hcode, sqlite3PrepareV3_run]

end Xutil.Db.Handles
