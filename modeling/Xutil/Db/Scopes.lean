import Xutil.Db.Transaction

/-!
# Leaving a transaction

The destructor of `transaction_t` calls functions that throw. Whether it gets
away with it is up to SQLite and to what has become of the transaction in the
scope.
-/

namespace Xutil.Db.Handles

open Calls Runs

variable {α : Type}

-- ---------------------------------------------------------------------------
-- Control statements
-- ---------------------------------------------------------------------------

theorem onHeap_run (m : Call Exception Heap α) (s : World) :
    (onHeap m).run s = ((m.run s.heap).1, { s with heap := (m.run s.heap).2 }) := rfl

theorem onHeap_ok {m : Call Exception Heap α} {s : World} (h : m.run s.heap = (.ok a, heap)) :
    (onHeap m).run s = (.ok a, { s with heap }) := by
  rw [onHeap_run, h]

theorem onHeap_error {m : Call Exception Heap α} {s : World}
    (h : m.run s.heap = (.error e, heap)) : (onHeap m).run s = (.error e, { s with heap }) := by
  rw [onHeap_run, h]

theorem Control.sql_ne_empty (c : Control) : c.sql ≠ "" := by
  cases c with
  | begin type => cases type <;> simp [Control.sql]
  | _ => simp [Control.sql]

/-- What a control statement does once it is prepared. -/
def runControl (c : Control) (w : Nat) (answer : StepAnswer) : Call Exception World Unit := do
  onHeap (reset w { code := sqliteOk })
  onHeap (bind w 1 [])
  let code ← stepControl c answer w
  onHeap (stepRow w { code })

theorem Ends.threw {m : Call Exception Heap α} (h : Ends p w s (m.run s)) (hp : p) :
    ∃ e s', m.run s = (.error e, s') ∧ Same s s' := by
  generalize hr : m.run s = r at h
  cases h with
  | returns hfails _ => exact absurd hp hfails
  | throws _ hthrows => exact ⟨_, _, rfl, hthrows.1⟩

theorem stepControl_run {s : World} (hconn : s.heap.connection w = some h) (c : Control)
    (answer : StepAnswer) : (stepControl c answer w).run s = (.ok (c.step answer (s.active h)).1,
      { s with active := Function.update s.active h (c.step answer (s.active h)).2 }) := by
  simp [Call.run, stepControl, hconn]

theorem Control.step_ne_row (c : Control) (answer : StepAnswer) (active : Option Opener) :
    (c.step answer active).1 ≠ sqliteRow := by
  have hdone : sqliteDone ≠ sqliteRow := by decide
  have herror : sqliteError ≠ sqliteRow := by decide
  unfold Control.step
  split <;> first | exact hdone | exact herror | exact Failure.notRow _

/-- The transaction is as SQLite leaves it, and any other result than
`SQLITE_DONE` throws. -/
theorem runControl_run {s : World} (hconn : s.heap.connection w = some h) (c : Control)
    (answer : StepAnswer) : ∃ r heap,
      (runControl c w answer).run s =
        (r, ⟨heap, Function.update s.active h (c.step answer (s.active h)).2⟩) ∧
      (r = .ok () ↔ (c.step answer (s.active h)).1 = sqliteDone) := by
  obtain ⟨_, heap₁, hreset, hsame, -⟩ :=
    (reset_ends (w := w) (s := s.heap) { code := sqliteOk }).returned (by simp)
  have hconn₁ : Heap.connection heap₁ w = some h := hsame.connection.trans hconn
  have hbind : (bind w 1 []).run heap₁ = (.ok (), heap₁) := rfl
  rw [runControl, Call.run_bind_ok (onHeap_ok hreset), Call.run_bind_ok (onHeap_ok hbind),
    Call.run_bind_ok (stepControl_run hconn₁ c answer)]
  have hrow := c.step_ne_row answer (s.active h)
  have hstep := stepRow_ends (w := w) (s := heap₁) { code := (c.step answer (s.active h)).1 }
  by_cases hdone : (c.step answer (s.active h)).1 = sqliteDone
  · obtain ⟨a, heap₂, hrun, -⟩ := hstep.returned fun hfails => hfails.2 hdone
    exact ⟨.ok a, heap₂, onHeap_ok hrun, iff_of_true rfl hdone⟩
  · obtain ⟨e, heap₂, hrun, -⟩ := hstep.threw ⟨hrow, hdone⟩
    exact ⟨.error e, heap₂, onHeap_error hrun, iff_of_false nofun hdone⟩

/-- The statement is finalized either way. -/
theorem discard_run {m : Call Exception World Unit} {s : World}
    (hrun : m.run s = (r, ⟨heap, active⟩)) : ∃ heap', (do
      m.onError fun s => { s with heap := ((destroyStatement w).run s.heap).2 }
      onHeap (destroyStatement w)).run s = (r, ⟨heap', active⟩) := by
  have htidy := Call.run_onError m (fun s => { s with heap := ((destroyStatement w).run s.heap).2 }) s
  rw [hrun] at htidy
  cases r with
  | ok a => exact ⟨_, (Call.run_bind_ok htidy).trans (onHeap_ok (destroyStatement_run w heap))⟩
  | error e => exact ⟨_, Call.run_bind_error htidy⟩

theorem prepare_connection (hdb : s.db v = some db) (hsql : sql ≠ "") (hcode : code = sqliteOk) :
    ∃ s', (prepare v sql flags w { code, handle := true }).run s = (.ok (), s') ∧
      s'.connection w = some db := by
  refine ⟨_, prepare_ok hdb hsql hcode, ?_⟩
  simp [Heap.connection, Heap.statement]

/-- A control statement fails before SQLite steps it, or SQLite steps it. -/
theorem executeControl_cases (c : Control) (v w : Nat) (answer : Answer) (s : World) :
    ((s.heap.db v = none ∨ answer.prepare ≠ sqliteOk) ∧
      ∃ e heap, (executeControl c v w answer).run s = (.error e, ⟨heap, s.active⟩)) ∨
    (∃ h, s.heap.db v = some h ∧ answer.prepare = sqliteOk ∧ ∃ r heap,
      (executeControl c v w answer).run s =
        (r, ⟨heap, Function.update s.active h (c.step answer.step (s.active h)).2⟩) ∧
      (r = .ok () ↔ (c.step answer.step (s.active h)).1 = sqliteDone)) := by
  cases hdb : s.heap.db v with
  | none =>
    have hprepare : (prepare v c.sql [sqlitePreparePersistent] w
        { code := answer.prepare, handle := true }).run s.heap = _ := prepare_invalid (.inl hdb)
    exact .inl ⟨.inl rfl, _, _, Call.run_bind_error (onHeap_error hprepare)⟩
  | some h =>
    by_cases hcode : answer.prepare = sqliteOk
    · right
      obtain ⟨heap, hprepare, hconn⟩ : ∃ heap, (prepare v c.sql [sqlitePreparePersistent] w
          { code := answer.prepare, handle := true }).run s.heap = (.ok (), heap) ∧
            heap.connection w = some h := prepare_connection hdb c.sql_ne_empty hcode
      obtain ⟨r, heap', hrun, hdone⟩ :=
        runControl_run (s := ⟨heap, s.active⟩) hconn c answer.step
      obtain ⟨heap'', hdiscard⟩ := discard_run (w := w) hrun
      refine ⟨h, rfl, hcode, r, heap'', ?_, hdone⟩
      exact (Call.run_bind_ok (onHeap_ok hprepare)).trans hdiscard
    · left
      have hprepare : (prepare v c.sql [sqlitePreparePersistent] w
          { code := answer.prepare, handle := true }).run s.heap = _ :=
        prepare_failed hdb c.sql_ne_empty hcode
      exact ⟨.inr hcode, _, _, Call.run_bind_error (onHeap_error hprepare)⟩

-- ---------------------------------------------------------------------------
-- The scope
-- ---------------------------------------------------------------------------

/-- The transaction of the scope is active on no connection but `h`. -/
def OnlyAt (h : Nat) (active : Nat → Option Opener) : Prop :=
  ∀ h', active h' = some .scope → h' = h

theorem constructTransaction_ok {s : World} (hnew : ∀ h, s.active h ≠ some .scope)
    (hbegin : (constructTransaction type v w answer).run s = (.ok (), s')) :
    ∃ h, s.heap.db v = some h ∧ OnlyAt h s'.active := by
  have hexecute : (executeControl (.begin type) v w answer).run s = (.ok (), s') := hbegin
  obtain ⟨-, _, _, hrun⟩ | ⟨h, hdb, -, r, heap, hrun, -⟩ :=
    executeControl_cases (.begin type) v w answer s
  · cases hrun.symm.trans hexecute
  · obtain rfl : _ = s' := congrArg Prod.snd (hrun.symm.trans hexecute)
    refine ⟨h, hdb, fun h' hscope => ?_⟩
    by_contra hne
    exact hnew h' ((Function.update_of_ne hne _ _).symm.trans hscope)

theorem ScopeStep.onlyAt (h : ScopeStep v s l s') (honly : OnlyAt x s.world.active) :
    OnlyAt x s'.world.active := by
  cases h with
  | commit => exact honly
  | operation _ _ hdrift => exact fun h' hscope => honly h' (hdrift h' hscope)

theorem scope_onlyAt (h : Run (ScopeStep v) s ls t) (honly : OnlyAt x s.world.active) :
    OnlyAt x t.world.active :=
  h.invariant (I := fun s => OnlyAt x s.world.active) honly fun honly hstep => hstep.onlyAt honly

-- ---------------------------------------------------------------------------
-- The destructor
-- ---------------------------------------------------------------------------

/-- No exception leaves the destructor, and the transaction of the scope is over. -/
def LeftSafely (t : Scope) (v w : Nat) (answer : Answer) : Prop :=
  ∃ s', (destroyTransaction t.committed v w answer).run t.world = (.ok (), s') ∧
    ∀ h, s'.active h ≠ some .scope

/-- SQLite does as it is told. -/
def Answer.Accepted (answer : Answer) : Prop := answer.prepare = sqliteOk ∧ answer.step = .done

/-- The object of the scope has a connection with an active transaction, SQLite
ends it, and unless that of the scope is over it is the one. -/
def Leavable (s : World) (t : Scope) (v : Nat) (answer : Answer) : Prop :=
  ∃ h, t.world.heap.db v = some h ∧ (t.world.active h).isSome ∧ answer.Accepted ∧
    ∀ began, s.heap.db v = some began → t.world.active began = some .scope → h = began

def Control.ending (committed : Bool) : Control := if committed then .commit else .rollback

theorem destroyTransaction_eq (committed : Bool) (v w : Nat) (answer : Answer) :
    destroyTransaction committed v w answer = executeControl (.ending committed) v w answer := by
  cases committed <;> rfl

theorem Control.ending_step (committed : Bool) (answer : StepAnswer) (active : Option Opener) :
    (active.isSome ∧ answer = .done ∧
      (ending committed).step answer active = (sqliteDone, none)) ∨
    (¬ (active.isSome ∧ answer = .done) ∧
      ((ending committed).step answer active).1 ≠ sqliteDone) := by
  have herror : sqliteError ≠ sqliteDone := by decide
  cases active with
  | none => exact .inr ⟨fun h => (nomatch h.1), by cases committed <;> exact herror⟩
  | some opener =>
    cases answer with
    | done => exact .inl ⟨rfl, rfl, by cases committed <;> rfl⟩
    | failed e kept => exact .inr ⟨fun h => (nomatch h.2), by cases committed <;> exact e.notDone⟩

/-- The destructor ends the transaction that is active on its connection if
SQLite lets it, and throws otherwise. -/
theorem destroyTransaction_cases (committed : Bool) (v w : Nat) (answer : Answer) (s : World) :
    (∃ h heap, s.heap.db v = some h ∧ (s.active h).isSome ∧ answer.Accepted ∧
      (destroyTransaction committed v w answer).run s =
        (.ok (), ⟨heap, Function.update s.active h none⟩)) ∨
    ((∀ h, s.heap.db v = some h → ¬ ((s.active h).isSome ∧ answer.Accepted)) ∧
      ∃ e s', (destroyTransaction committed v w answer).run s = (.error e, s')) := by
  rw [destroyTransaction_eq]
  obtain ⟨hfails, e, heap, hrun⟩ | ⟨h, hdb, hprepare, r, heap, hrun, hdone⟩ :=
    executeControl_cases (.ending committed) v w answer s
  · right
    refine ⟨fun h hdb ⟨_, haccepted⟩ => ?_, e, _, hrun⟩
    rcases hfails with hnone | hcode
    · cases hnone.symm.trans hdb
    · exact hcode haccepted.1
  · obtain ⟨hactive, hanswer, hstep⟩ | ⟨hnot, hstep⟩ :=
      Control.ending_step committed answer.step (s.active h)
    · rw [hstep] at hdone hrun
      obtain rfl : r = .ok () := hdone.mpr rfl
      exact .inl ⟨h, heap, hdb, hactive, ⟨hprepare, hanswer⟩, hrun⟩
    · right
      cases r with
      | ok => exact absurd (hdone.mp rfl) hstep
      | error e =>
        refine ⟨fun h' hdb' ⟨hactive, haccepted⟩ => ?_, e, _, hrun⟩
        obtain rfl : h = h' := Option.some.inj (hdb.symm.trans hdb')
        exact hnot ⟨hactive, haccepted.2⟩

/-- Whatever has happened in the scope, it is left safely if and only if there
is a transaction for its destructor to end and SQLite ends it. -/
theorem transaction_left {s s' : World} (hnew : ∀ h, s.active h ≠ some .scope)
    (hbegin : (constructTransaction type v w answer).run s = (.ok (), s'))
    (hscope : Run (ScopeStep v) ⟨s', false⟩ ls t) (w' : Nat) (answer' : Answer) :
    LeftSafely t v w' answer' ↔ Leavable s t v answer' := by
  obtain ⟨began, hbegan, honly⟩ := constructTransaction_ok hnew hbegin
  have honly : OnlyAt began t.world.active := scope_onlyAt hscope honly
  unfold LeftSafely Leavable
  obtain ⟨h, heap, hdb, hactive, haccepted, hrun⟩ | ⟨hnot, e, s'', hrun⟩ :=
    destroyTransaction_cases t.committed v w' answer' t.world <;> rw [hrun]
  · constructor
    · rintro ⟨_, ⟨⟩, hover⟩
      refine ⟨h, hdb, hactive, haccepted, fun began' _ hscope => ?_⟩
      by_contra hne
      exact hover began' ((Function.update_of_ne (Ne.symm hne) _ _).trans hscope)
    · rintro ⟨h', hdb', -, -, hsame⟩
      obtain rfl : h = h' := Option.some.inj (hdb.symm.trans hdb')
      refine ⟨_, rfl, fun x hx => ?_⟩
      by_cases hxh : x = h
      · subst hxh
        simp at hx
      · have hactive' : t.world.active x = some .scope :=
          (Function.update_of_ne hxh _ _).symm.trans hx
        obtain rfl := honly x hactive'
        exact hxh (hsame x hbegan hactive').symm
  · refine iff_of_false (fun ⟨_, heq, _⟩ => nomatch heq) ?_
    rintro ⟨h, hdb, hactive, haccepted, -⟩
    exact hnot h hdb ⟨hactive, haccepted⟩

/-- A database in memory, `db_t` 0, with a transaction of a scope. -/
def connected : World where
  heap := ((constructDb .memory [] 0 { code := sqliteOk, handle := true }).run {}).2

def begun : World := ((constructTransaction .deferred 0 0 {}).run connected).2

theorem begun_run : (constructTransaction .deferred 0 0 {}).run connected = (.ok (), begun) := rfl

theorem committed_run : Run (ScopeStep 0) ⟨begun, false⟩ [.commit true] ⟨begun, true⟩ :=
  .one .commit

theorem transaction_left_committed : LeftSafely ⟨begun, true⟩ 0 0 {} := by
  have hnew : ∀ h, connected.active h ≠ some .scope := fun _ => nofun
  refine (transaction_left hnew begun_run committed_run 0 {}).mpr ⟨0, rfl, rfl, ⟨rfl, rfl⟩, ?_⟩
  rintro _ ⟨⟩ _
  rfl

/-- `COMMIT` finds the database busy. -/
theorem transaction_left_busy : ¬ ∀ (s s' : World) (type : TransactionType) (v w : Nat)
    (answer : Answer) (ls : List ScopeLabel) (t : Scope) (w' : Nat) (answer' : Answer),
    (∀ h, s.active h ≠ some .scope) →
    (constructTransaction type v w answer).run s = (.ok (), s') →
    Run (ScopeStep v) ⟨s', false⟩ ls t → LeftSafely t v w' answer' := by
  intro h
  let busy : Failure := ⟨5, by decide, by decide, by decide⟩
  obtain ⟨s', hrun, -⟩ := h connected begun .deferred 0 0 {} _ _ 0 { step := .failed busy true }
    (fun _ => nofun) begun_run committed_run
  have hthrows : ((destroyTransaction true 0 0 { step := .failed busy true }).run begun).1 =
      .error (.sqlite .busy) := rfl
  cases hthrows.symm.trans (congrArg Prod.fst hrun)

end Xutil.Db.Handles
