import Xutil.Db.Ends
import Xutil.Lib.Ownership

/-!
# Who holds which handle

The history of SQLite calls, read as events of the database handles and of the
statement handles. `Tidy` says that each live handle is held by one object.
Every member function keeps it, but for the two that ask a closed connection for
its error.
-/

namespace Xutil.Db.Handles

open Calls Ownership

def dbEvent : SqliteCall → Option (Event Nat)
  | .openV2 _ _ db => db.map .acquired
  | .closeV2 db => db.map .released
  | .errmsg db => db.map .used
  | .errcode db => db.map .used
  | .prepareV3 db _ _ _ => some (.used db)
  | _ => none

def stmtEvent : SqliteCall → Option (Event Nat)
  | .prepareV3 _ _ _ stmt => stmt.map .acquired
  | .statement _ stmt => stmt.map .used
  | .dbHandle stmt => stmt.map .used
  | .finalize stmt => some (.released stmt)
  | _ => none

def Heap.dbEvents (s : Heap) : List (Event Nat) := s.calls.filterMap dbEvent

def Heap.stmtEvents (s : Heap) : List (Event Nat) := s.calls.filterMap stmtEvent

/-- The connection of the statement in `w`, if any, has not been closed. -/
def Heap.ConnectionOpen (s : Heap) (w : Nat) : Prop :=
  ∀ h, s.connection w = some h → .closeV2 (some h) ∉ s.calls

theorem dbEvents_append {s s' : Heap} (h : s'.calls = s.calls ++ cs) :
    s'.dbEvents = s.dbEvents ++ cs.filterMap dbEvent := by
  rw [Heap.dbEvents, h, List.filterMap_append, Heap.dbEvents]

theorem stmtEvents_append {s s' : Heap} (h : s'.calls = s.calls ++ cs) :
    s'.stmtEvents = s.stmtEvents ++ cs.filterMap stmtEvent := by
  rw [Heap.stmtEvents, h, List.filterMap_append, Heap.stmtEvents]

theorem dbEvents_eq {s s' : Heap} (h : s'.calls = s.calls ++ cs)
    (hnone : cs.filterMap dbEvent = []) : s'.dbEvents = s.dbEvents := by
  rw [dbEvents_append h, hnone, List.append_nil]

theorem stmtEvents_eq {s s' : Heap} (h : s'.calls = s.calls ++ cs)
    (hnone : cs.filterMap stmtEvent = []) : s'.stmtEvents = s.stmtEvents := by
  rw [stmtEvents_append h, hnone, List.append_nil]

-- ---------------------------------------------------------------------------
-- The invariant
-- ---------------------------------------------------------------------------

structure Tidy (s : Heap) : Prop where
  dbs : Numbered s.dbEvents s.db s.opened
  stmts : Numbered s.stmtEvents s.statement s.connections.length
  connected : ∀ h ∈ s.connections, .acquired h ∈ s.dbEvents

theorem tidy_empty : Tidy {} :=
  ⟨.empty, .empty, by simp⟩

theorem closeV2_mem_calls {s : Heap} : .closeV2 (some h) ∈ s.calls ↔ .released h ∈ s.dbEvents := by
  rw [Heap.dbEvents, List.mem_filterMap]
  constructor
  · intro hmem
    exact ⟨_, hmem, rfl⟩
  · rintro ⟨c, hmem, hc⟩
    cases c <;> simp [dbEvent] at hc
    subst hc
    exact hmem

theorem Tidy.connection_acquired {s : Heap} (h : Tidy s) (hconn : s.connection w = some db) :
    .acquired db ∈ s.dbEvents := by
  obtain ⟨st, _, hst⟩ := Option.bind_eq_some_iff.mp hconn
  exact h.connected db (List.mem_of_getElem? hst)

theorem dbEvents_uses (s : Heap) (w : Nat) (fs : List StatementFunction) :
    (uses s w fs).filterMap dbEvent = [] := by
  simp [uses, dbEvent]

theorem stmtEvents_uses (s : Heap) (w : Nat) (fs : List StatementFunction) :
    (uses s w fs).filterMap stmtEvent = (s.statement w).elim [] fun st => fs.map fun _ => .used st := by
  cases hst : s.statement w with
  | none => simp [uses, stmtEvent, hst]
  | some st => simp [uses, stmtEvent, hst, List.filterMap_map, Function.comp_def]

theorem dbEvents_questions (s : Heap) (w : Nat) :
    (questions s w).filterMap dbEvent = (s.connection w).elim [] fun h => [.used h, .used h] := by
  cases hconn : s.connection w <;> simp [questions, List.filterMap_cons, dbEvent, hconn]

theorem stmtEvents_questions (s : Heap) (w : Nat) :
    (questions s w).filterMap stmtEvent = (s.statement w).elim [] fun st => [.used st] := by
  cases hst : s.statement w <;> simp [questions, List.filterMap_cons, stmtEvent, hst]

theorem Tidy.acquired_append {s s' : Heap} (h : Tidy s) (hdb : s'.dbEvents = s.dbEvents ++ es) :
    ∀ x ∈ s.connections, .acquired x ∈ s'.dbEvents := by
  intro x hx
  rw [hdb]
  exact List.mem_append_left _ (h.connected x hx)

/-- A step that only uses live handles. -/
theorem Tidy.used (h : Tidy s) (hsame : Same s s') (hdb : s'.dbEvents = s.dbEvents ++ ds)
    (hstmt : s'.stmtEvents = s.stmtEvents ++ ss)
    (hds : ∀ e ∈ ds, ∃ x, e = .used x ∧ Live s.dbEvents x)
    (hss : ∀ e ∈ ss, ∃ x, e = .used x ∧ Live s.stmtEvents x) : Tidy s' := by
  refine ⟨?_, ?_, ?_⟩
  · rw [hdb, hsame.db, hsame.opened]
    exact h.dbs.uses hds
  · rw [hstmt, hsame.statement, hsame.connections]
    exact h.stmts.uses hss
  · rw [hsame.connections]
    exact h.acquired_append hdb

theorem Tidy.statement_live (h : Tidy s) (hst : s.statement w = some st) : Live s.stmtEvents st :=
  (h.stmts.live st).mpr ⟨w, hst⟩

theorem Tidy.connection_live (h : Tidy s) (hopen : s.ConnectionOpen w)
    (hconn : s.connection w = some x) : Live s.dbEvents x :=
  ⟨h.connection_acquired hconn, fun hmem => hopen x hconn (closeV2_mem_calls.mpr hmem)⟩

theorem mem_stmtEvents_uses (h : Tidy s) (fs : List StatementFunction) :
    ∀ e ∈ (uses s w fs).filterMap stmtEvent, ∃ x, e = .used x ∧ Live s.stmtEvents x := by
  rw [stmtEvents_uses]
  cases hst : s.statement w with
  | none => simp
  | some st =>
    intro e he
    obtain ⟨_, _, rfl⟩ := List.mem_map.mp he
    exact ⟨st, rfl, h.statement_live hst⟩

theorem Uses.tidy (h : Tidy s) (huses : Uses w s s') : Tidy s' := by
  obtain ⟨hsame, fs, hcalls⟩ := huses
  apply h.used hsame (dbEvents_append hcalls) (stmtEvents_append hcalls)
  · simp [dbEvents_uses]
  · exact mem_stmtEvents_uses h fs

theorem Throws.tidy (h : Tidy s) (hthrows : Throws w s s') (hopen : s.ConnectionOpen w) : Tidy s' := by
  obtain ⟨hsame, fs, hcalls⟩ := hthrows
  rw [List.append_assoc] at hcalls
  apply h.used hsame (dbEvents_append hcalls) (stmtEvents_append hcalls)
  · rw [List.filterMap_append, dbEvents_uses, dbEvents_questions]
    cases hconn : s.connection w with
    | none => simp
    | some x => simpa using h.connection_live hopen hconn
  · rw [List.filterMap_append]
    intro e he
    rcases List.mem_append.mp he with he | he
    · exact mem_stmtEvents_uses h fs e he
    · rw [stmtEvents_questions] at he
      cases hst : s.statement w with
      | none => simp [hst] at he
      | some st =>
        obtain rfl : e = .used st := by simpa [hst] using he
        exact ⟨st, rfl, h.statement_live hst⟩

/-- The exception asks a connection that is closed. -/
theorem Throws.not_lawful (hthrows : Throws w s s') (hclosed : ¬ s.ConnectionOpen w) :
    ¬ Lawful s'.dbEvents := by
  obtain ⟨hsame, fs, hcalls⟩ := hthrows
  simp only [Heap.ConnectionOpen, not_forall, not_not] at hclosed
  obtain ⟨x, hconn, hmem⟩ := hclosed
  have hevents : s'.dbEvents = s.dbEvents ++ [.used x] ++ [.used x] := by
    simp [Heap.dbEvents, hcalls, dbEvents_uses, dbEvents_questions, hconn]
  rw [hevents]
  intro hlawful
  have hlive : Live s.dbEvents x := (lawful_snoc.mp hlawful.left).2
  exact hlive.2 (closeV2_mem_calls.mp hmem)

-- ---------------------------------------------------------------------------
-- What each step keeps
-- ---------------------------------------------------------------------------

theorem db_update {s s' : Heap} (hdbs : s'.dbs = Function.update s.dbs v p) :
    s'.db = Function.update s.db v p.join := by
  funext v'
  by_cases hv : v' = v
  · subst hv
    simp [Heap.db, hdbs]
  · simp [Heap.db, hdbs, hv]

theorem statement_update {s s' : Heap} (hstmts : s'.stmts = Function.update s.stmts w p) :
    s'.statement = Function.update s.statement w (p.bind (·.statement)) := by
  funext w'
  by_cases hw : w' = w
  · subst hw
    simp [Heap.statement, hstmts]
  · simp [Heap.statement, hstmts, hw]

/-- Nothing happens to the handles. -/
theorem Tidy.same (h : Tidy s) (hsame : Same s s') (hdb : s'.dbEvents = s.dbEvents)
    (hstmt : s'.stmtEvents = s.stmtEvents) : Tidy s' := by
  have hdb' : s'.dbEvents = s.dbEvents ++ [] := by simpa using hdb
  have hstmt' : s'.stmtEvents = s.stmtEvents ++ [] := by simpa using hstmt
  exact h.used hsame hdb' hstmt' (by simp) (by simp)

theorem Tidy.openDb_ok (h : Tidy s) (hnone : s.dbs v = none) (hcode : reply.code = sqliteOk) :
    Tidy ((openDb filename flags v reply).run s).2 := by
  rw [Handles.openDb_ok hcode]
  have hdb : s.db v = none := by simp [Heap.db, hnone]
  cases hhandle : reply.handle with
  | false =>
    apply h.same
    · refine ⟨?_, rfl, rfl, rfl⟩
      rw [db_update rfl]
      simp [Heap.given, hhandle, ← hdb]
    · simp [Heap.dbEvents, Heap.given, hhandle, dbEvent]
    · exact stmtEvents_eq rfl rfl
  | true =>
    refine ⟨?_, ?_, ?_⟩
    · rw [dbEvents_append (s := s) rfl, db_update (s := s) rfl]
      simpa [Heap.given, hhandle, dbEvent] using h.dbs.acquired hdb
    · rw [stmtEvents_eq (s := s) rfl rfl]
      exact h.stmts
    · exact h.acquired_append (dbEvents_append rfl)

/-- Without a handle nothing is closed or asked. -/
theorem Tidy.openDb_failed (h : Tidy s) (hcode : reply.code ≠ sqliteOk) (hhandle : reply.handle = false) :
    Tidy ((openDb filename flags v reply).run s).2 := by
  rw [Handles.openDb_failed hcode]
  apply h.same
  · exact ⟨rfl, rfl, by simp [hhandle], rfl⟩
  · simp [Heap.dbEvents, Heap.given, hhandle, dbEvent]
  · exact stmtEvents_eq rfl rfl

/-- With one, the handle is closed and then used. -/
theorem openDb_not_lawful (hcode : reply.code ≠ sqliteOk) (hhandle : reply.handle = true) (s : Heap) :
    ¬ Lawful ((openDb filename flags v reply).run s).2.dbEvents := by
  rw [Handles.openDb_failed hcode]
  have hevents : ∀ s' : Heap, s'.calls = s.calls ++ [.openV2 filename flags (s.given reply),
      .closeV2 (s.given reply), .errmsg (s.given reply), .errcode (s.given reply)] →
      s'.dbEvents = s.dbEvents ++ [.acquired s.opened, .released s.opened] ++ [.used s.opened] ++
        [.used s.opened] := by
    intro s' hcalls
    simp [Heap.dbEvents, hcalls, Heap.given, hhandle, dbEvent]
  rw [hevents _ rfl]
  intro hlawful
  have hlive := (lawful_snoc.mp hlawful.left).2
  exact hlive.2 (by simp)

theorem Tidy.destroyDb (h : Tidy s) : Tidy ((destroyDb v).run s).2 := by
  rw [destroyDb_run]
  cases hdb : s.db v with
  | none =>
    apply h.same
    · refine ⟨?_, rfl, rfl, rfl⟩
      rw [db_update (s := s) rfl]
      simp [← hdb]
    · simp [Heap.dbEvents]
    · simp [Heap.stmtEvents]
  | some x =>
    refine ⟨?_, ?_, ?_⟩
    · rw [dbEvents_append (s := s) rfl, db_update (s := s) rfl]
      exact h.dbs.released hdb
    · rw [stmtEvents_eq (s := s) rfl rfl]
      exact h.stmts
    · exact h.acquired_append (dbEvents_append rfl)

theorem Tidy.destroyStatement (h : Tidy s) : Tidy ((destroyStatement w).run s).2 := by
  rw [destroyStatement_run]
  cases hst : s.statement w with
  | none =>
    apply h.same
    · refine ⟨rfl, ?_, rfl, rfl⟩
      rw [statement_update (s := s) rfl]
      simp [← hst]
    · simp [Heap.dbEvents]
    · simp [Heap.stmtEvents]
  | some st =>
    refine ⟨?_, ?_, ?_⟩
    · rw [dbEvents_eq (s := s) rfl rfl]
      exact h.dbs
    · rw [stmtEvents_append (s := s) rfl, statement_update (s := s) rfl]
      exact h.stmts.released hst
    · exact h.acquired_append (dbEvents_append rfl)

theorem bind_moveConstruct {α β : Type} {null : α} {objects : Nat → Option α} {f : α → Option β}
    (hnull : f null = none) (hw : objects w = none) :
    (fun u => (moveConstruct null v w objects u).bind f) =
      (fun u => (objects u).bind f) ∘ Equiv.swap v w := by
  funext u
  simp only [moveConstruct, Function.comp_apply]
  by_cases hu : Equiv.swap v w u = w
  · simp [hu, hnull, hw]
  · simp [hu]

theorem Tidy.moveDb (h : Tidy s) (hw : s.dbs w = none) :
    Tidy { s with dbs := moveConstruct none v w s.dbs } := by
  refine ⟨?_, h.stmts, h.connected⟩
  have hdb : ({ s with dbs := moveConstruct none v w s.dbs } : Heap).db = s.db ∘ Equiv.swap v w :=
    bind_moveConstruct (f := id) rfl hw
  rw [hdb]
  exact h.dbs.reindex _

theorem Tidy.moveStatement (h : Tidy s) (hw : s.stmts w = none) :
    Tidy { s with stmts := moveConstruct {} v w s.stmts } := by
  refine ⟨h.dbs, ?_, h.connected⟩
  have hst : ({ s with stmts := moveConstruct {} v w s.stmts } : Heap).statement =
      s.statement ∘ Equiv.swap v w := bind_moveConstruct rfl hw
  rw [hst]
  exact h.stmts.reindex _

theorem Tidy.db_live (h : Tidy s) (hdb : s.db v = some db) : Live s.dbEvents db :=
  (h.dbs.live db).mpr ⟨v, hdb⟩

theorem Tidy.prepare_failed (h : Tidy s) (hdb : s.db v = some db) (hsql : sql ≠ "")
    (hcode : reply.code ≠ sqliteOk) : Tidy ((prepare v sql flags w reply).run s).2 := by
  rw [Handles.prepare_failed hdb hsql hcode]
  apply h.used _ (dbEvents_append rfl) (stmtEvents_append rfl)
  · simpa [List.filterMap_cons, dbEvent] using h.db_live hdb
  · simp [List.filterMap_cons, stmtEvent]
  · exact ⟨rfl, rfl, rfl, rfl⟩

theorem Tidy.prepare_ok (h : Tidy s) (hnone : s.stmts w = none) (hdb : s.db v = some db) (hsql : sql ≠ "")
    (hcode : reply.code = sqliteOk) : Tidy ((prepare v sql flags w reply).run s).2 := by
  rw [Handles.prepare_ok hdb hsql hcode]
  have hst : s.statement w = none := by simp [Heap.statement, hnone]
  have huses : ∀ e ∈ [Event.used db], ∃ x, e = .used x ∧ Live s.dbEvents x := by
    simpa using h.db_live hdb
  cases hhandle : reply.handle with
  | false =>
    apply h.used _ (dbEvents_append rfl) (stmtEvents_append rfl)
    · exact huses
    · simp [stmtEvent]
    · refine ⟨rfl, ?_, rfl, by simp⟩
      rw [statement_update (s := s) rfl]
      simp [← hst]
  | true =>
    refine ⟨?_, ?_, ?_⟩
    · rw [dbEvents_append (s := s) rfl]
      exact h.dbs.uses huses
    · rw [stmtEvents_append (s := s) rfl, statement_update (s := s) rfl]
      simpa [stmtEvent] using h.stmts.acquired hst
    · intro x hx
      rcases List.mem_append.mp hx with hx | hx
      · exact h.acquired_append (dbEvents_append rfl) x hx
      · obtain rfl : x = db := by simpa using hx
        rw [dbEvents_append (s := s) rfl]
        exact List.mem_append_left _ (h.db_live hdb).1

theorem Tidy.prepare (h : Tidy s) (hnone : s.stmts w = none) :
    Tidy ((prepare v sql flags w reply).run s).2 := by
  by_cases hinvalid : s.db v = none ∨ sql = ""
  · rw [prepare_invalid hinvalid]
    exact h
  · obtain ⟨hdb, hsql⟩ := not_or.mp hinvalid
    obtain ⟨db, hdb⟩ := Option.ne_none_iff_exists'.mp hdb
    by_cases hcode : reply.code = sqliteOk
    · exact h.prepare_ok hnone hdb hsql hcode
    · exact h.prepare_failed hdb hsql hcode

theorem Ends.tidy (hends : Ends (α := α) p w s r) (h : Tidy s) (hopen : p → s.ConnectionOpen w) :
    Tidy r.2 := by
  cases hends with
  | returns _ huses => exact huses.tidy h
  | throws hp hthrows => exact hthrows.tidy h (hopen hp)

theorem Ends.not_lawful (hends : Ends (α := α) p w s r) (hopen : ¬ (p → s.ConnectionOpen w)) :
    ¬ Lawful r.2.dbEvents := by
  obtain ⟨hp, hclosed⟩ := Classical.not_imp.mp hopen
  cases hends with
  | returns hnot => exact absurd hp hnot
  | throws _ hthrows => exact hthrows.not_lawful hclosed

end Xutil.Db.Handles
