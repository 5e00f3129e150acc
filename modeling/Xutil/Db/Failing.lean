import Xutil.Db.Codes

/-!
# What a failing operation throws

The first call of SQLite that fails ends an operation, and its result code,
read back from the connection, is the code of the exception.
-/

namespace Xutil.Db.Handles

open Calls Runs

instance : Decidable (StepFails reply) := inferInstanceAs (Decidable (_ ∧ _))

/-- The reply that ends `execute`. -/
def failing (first : Reply) (binds : List Reply) (last : Reply) : Option Reply :=
  if first.code ≠ sqliteOk then some first
  else
    match binds.find? (·.code ≠ sqliteOk) with
    | some reply => some reply
    | none => if StepFails last then some last else none

/-- The reply that an operation fails with, and the connection it is about. -/
def Label.failure (s : Heap) : Label → Option (Option Nat × Reply)
  | .prepare v sql _ _ reply _ =>
    if s.db v ≠ none ∧ sql ≠ "" ∧ reply.code ≠ sqliteOk then some (s.db v, reply) else none
  | .execute w first binds last _ => (failing first binds last).map (s.connection w, ·)
  | .fetch w _ reply _ =>
    if s.fetch w = false ∧ StepFails reply then some (s.connection w, reply) else none
  | _ => none

def thrownBy {α : Type} : Except Exception α → Option Exception
  | .ok _ => none
  | .error e => some e

def Label.thrown : Label → Option Exception
  | .prepare _ _ _ _ _ result => thrownBy result
  | .execute _ _ _ _ result => thrownBy result
  | .fetch _ _ _ result => thrownBy result
  | _ => none

/-- The exception about the statement in `w`. -/
def Heap.exception (s : Heap) (w : Nat) (reply : Reply) : Exception :=
  .sqlite (fromErrorCode (s.errcode (s.connection w) reply))

theorem Uses.exception (h : Uses w s s') (reply : Reply) :
    s'.exception w reply = s.exception w reply := by
  obtain ⟨hsame, fs, hcalls⟩ := h
  have hclosed : ∀ x, SqliteCall.closeV2 x ∈ s'.calls ↔ .closeV2 x ∈ s.calls := by
    simp [hcalls, uses]
  simp only [Heap.exception, hsame.connection, Heap.errcode, hclosed]

theorem throwStatement_exception (w : Nat) (reply : Reply) (s : Heap) :
    ((throwStatement w reply).run s).1 = .error (s.exception w reply) := by
  rw [throwStatement_run]
  rfl

theorem fst_bind_error {α β : Type} {m : Call Exception Heap α} {f : α → Call Exception Heap β}
    (h : (m.run s).1 = .error e) : ((m >>= f).run s).1 = .error e := by
  rcases hm : m.run s with ⟨_ | a, s'⟩ <;> rw [hm] at h <;> cases h
  rw [Call.run_bind_error hm]

theorem reset_throws (hcode : reply.code ≠ sqliteOk) :
    ((reset w reply).run s).1 = .error (s.exception w reply) := by
  rw [reset, Call.run_bind_ok (callStatement_run ..), if_pos hcode, throwStatement_exception,
    (called_uses ..).exception]

theorem stepRow_throws (hfails : StepFails reply) :
    ((stepRow w reply).run s).1 = .error (s.exception w reply) := by
  have hcode : reply.code ≠ sqliteRow ∧ reply.code ≠ sqliteDone := hfails
  rw [stepRow, Call.run_bind_ok (callStatement_run ..), if_pos hcode, throwStatement_exception,
    (called_uses ..).exception]

theorem bind_throws (h : replies.find? (·.code ≠ sqliteOk) = some reply) :
    ((bind w index replies).run s).1 = .error (s.exception w reply) := by
  induction replies generalizing index s with
  | nil => cases h
  | cons first replies ih =>
    rw [bind, Call.run_bind_ok (callStatement_run ..), ← (called_uses s (.bind index) w).exception]
    by_cases hcode : first.code = sqliteOk
    · rw [List.find?_cons_of_neg (by simp [hcode])] at h
      rw [if_neg (not_not.mpr hcode)]
      exact ih h
    · obtain rfl : first = reply := by
        rw [List.find?_cons_of_pos (by simp [hcode])] at h
        exact Option.some.inj h
      rw [if_pos hcode]
      exact fst_bind_error (throwStatement_exception w first _)

theorem execute_throws (h : failing first binds last = some reply) :
    ((execute w first binds last).run s).1 = .error (s.exception w reply) := by
  unfold failing at h
  split at h
  · next hfirst =>
    cases h
    exact fst_bind_error (reset_throws hfirst)
  · next hfirst =>
    obtain ⟨_, s', hreset, huses⟩ := (reset_ends (w := w) (s := s) first).returned hfirst
    rw [execute, Call.run_bind_ok hreset, ← huses.exception]
    split at h
    · next hbind =>
      cases h
      exact fst_bind_error (bind_throws hbind)
    · next hbinds =>
      have hnone : ¬ BindFails binds := by
        rintro ⟨reply, hreply, hcode⟩
        exact List.find?_eq_none.mp hbinds reply hreply (by simp [hcode])
      have hends : Ends (BindFails binds) w s' ((bind w 1 binds).run s') := bind_ends binds
      obtain ⟨_, s'', hbound, huses'⟩ := hends.returned hnone
      rw [Call.run_bind_ok hbound, ← huses'.exception]
      split at h
      · next hlast =>
        cases h
        exact stepRow_throws hlast
      · cases h

theorem fetch_throws (n : Nat) (hfetch : s.fetch w = false) (hfails : StepFails reply) :
    ((fetch w n reply).run s).1 = .error (s.exception w reply) := by
  rw [fetch_run, if_pos hfetch]
  exact fst_bind_error (stepRow_throws hfails)

theorem failure_thrown (hstep : Step s l s') (hfailure : l.failure s = some (db, reply)) :
    l.thrown = some (.sqlite (fromErrorCode (s.errcode db reply))) := by
  cases hstep with
  | prepare _ _ hrun =>
    obtain ⟨⟨hdb, hsql, hcode⟩, hreply⟩ := Option.ite_none_right_eq_some.mp hfailure
    obtain ⟨x, hx⟩ := Option.ne_none_iff_exists'.mp hdb
    rw [hx] at hreply
    cases hreply
    rw [prepare_failed hx hsql hcode] at hrun
    obtain rfl : _ = _ := congrArg Prod.fst hrun
    rfl
  | execute _ hrun =>
    obtain ⟨x, hx, hreply⟩ := Option.map_eq_some_iff.mp hfailure
    cases hreply
    obtain rfl : _ = _ := congrArg Prod.fst hrun
    exact congrArg thrownBy (execute_throws hx)
  | fetch _ hrun =>
    obtain ⟨⟨hfetch, hfails⟩, hreply⟩ := Option.ite_none_right_eq_some.mp hfailure
    cases hreply
    obtain rfl : _ = _ := congrArg Prod.fst hrun
    exact congrArg thrownBy (fetch_throws _ hfetch hfails)
  | _ => cases hfailure

-- ---------------------------------------------------------------------------
-- Extended result codes
-- ---------------------------------------------------------------------------

/-- What SQLite returns for the result `rc`, on a connection or without one. -/
def Heap.answer (s : Heap) (rc : BitVec 32) : Option Nat → Int
  | none => rc.toInt
  | some h => (rc &&& errMask (s.openFlags h)).toInt

/-- An operation on a `db_t` that was opened with these flags, or on a statement
that is null, fails with the result `rc`. -/
structure Fails (flags : List DbFlag) (s : Heap) (l : Label) (db : Option Nat) (reply : Reply)
    (rc : BitVec 32) : Prop where
  opened : ∃ source v opening s₀ s₁ ls,
    Step s₀ (.construct source (flags.map DbFlag.value) v opening (.ok ())) s₁ ∧
      Run Step s₁ ls s ∧ (db = none ∨ db = s₀.given opening)
  step : ∃ s', Step s l s'
  failure : l.failure s = some (db, reply)
  code : reply.code = s.answer rc db

/-- A null statement is out of memory for `exception_t`, and a connection that
has been closed is anything. -/
def Kept (flags : List DbFlag) (s : Heap) (rc : BitVec 32) (junk : Int) (e : ErrorCode) :
    Option Nat → Prop
  | none => e = .noMemory
  | some h =>
    if .closeV2 (some h) ∈ s.calls then fromErrorCode junk = e
    else .exResCode ∉ flags ∨ primary rc = rc ∨ e = .unknownError

/-- The code is the primary one unless extended codes are on and the result is
extended. -/
theorem code_kept (h : Fails flags s l db reply rc) (he : e.value = (primary rc).toInt) :
    l.thrown = some (.sqlite e) ↔ Kept flags s rc reply.junk e db := by
  obtain ⟨⟨source, v, opening, s₀, s₁, ls, hopen, hrun, hdb⟩, ⟨s', hstep⟩, hfailure, hcode⟩ := h
  rw [failure_thrown hstep hfailure, Option.some.injEq, Exception.sqlite.injEq]
  cases db with
  | none => exact eq_comm
  | some x =>
    have hgiven : s₀.given opening = some x := (hdb.resolve_left (by simp)).symm
    by_cases hclosed : .closeV2 (some x) ∈ s.calls
    · simp only [Kept, Heap.errcode, if_pos hclosed]
    · simp only [Kept, Heap.errcode, if_neg hclosed]
      rw [hcode, Heap.answer, openFlags_run hopen hgiven hrun, errMask_toFlags]
      exact fromErrorCode_masked flags he

def opened : Reply := { code := 0, handle := true }

/-- `SQLITE_CONSTRAINT_UNIQUE` -/
def uniqueViolated : BitVec 32 := 2067

def created (flags : List DbFlag) : Heap :=
  ((constructDb .memory (flags.map DbFlag.value) 0 opened).run {}).2

def inserting (flags : List DbFlag) : Heap :=
  ((prepare 0 "INSERT INTO t VALUES (1)" [1] 0 opened).run (created flags)).2

theorem inserting_run (flags : List DbFlag) : Run Step (created flags)
    [.prepare 0 "INSERT INTO t VALUES (1)" [1] 0 opened (.ok ())] (inserting flags) :=
  .one (.prepare rfl rfl rfl)

/-- The key is taken. -/
theorem insert_fails (flags : List DbFlag) {code : Int} (hfails : StepFails { code := code })
    (hcode : code =
      (uniqueViolated &&& if DbFlag.exResCode ∈ flags then 0xffffffff else 0xff).toInt) :
    ∃ l, Fails flags (inserting flags) l (some 0) { code := code } uniqueViolated := by
  refine ⟨.execute 0 { code := 0 } [] { code := code } _, ⟨?_, ⟨_, .execute rfl rfl⟩, ?_, ?_⟩⟩
  · exact ⟨.memory, 0, opened, {}, created flags, _, .construct rfl rfl, inserting_run flags,
      .inr rfl⟩
  · have hlast : failing { code := 0 } [] { code := code } = some { code := code } := if_pos hfails
    rw [Label.failure, hlast]
    rfl
  · rw [hcode, ← errMask_toFlags .memory]
    rfl

/-- A violated uniqueness is a constraint without extended codes. -/
theorem code_kept_constraint : ∃ l, Fails [.readWrite, .create] (inserting [.readWrite, .create]) l
    (some 0) { code := 19 } uniqueViolated ∧ l.thrown = some (.sqlite .constraint) := by
  obtain ⟨l, hfails⟩ := insert_fails [.readWrite, .create] (by decide) rfl
  refine ⟨l, hfails, (code_kept hfails rfl).mpr ?_⟩
  exact .inl (by decide)

/-- With extended codes it is an unknown error. -/
theorem code_kept_unique : ¬ ∀ flags s l h reply rc e, Fails flags s l (some h) reply rc →
    .closeV2 (some h) ∉ s.calls → ErrorCode.value e = (primary rc).toInt →
      l.thrown = some (.sqlite e) := by
  intro h
  obtain ⟨l, hfails⟩ := insert_fails [.readWrite, .create, .exResCode] (by decide) rfl
  have hthrown := h _ _ l 0 _ _ .constraint hfails (by decide) rfl
  obtain ⟨-, ⟨s', hstep⟩, hfailure, -⟩ := hfails
  rw [failure_thrown hstep hfailure] at hthrown
  cases hthrown

end Xutil.Db.Handles
