import Mathlib.Data.List.Perm.Basic
import Xutil.Log.Disk
import Xutil.Log.Outlets
import Xutil.Log.Sink

/-!
# What the outlets get

Between the mutexes of one call other threads may run, so two outlets can have
the records of two threads in different orders. But none of them loses a record
or has it twice, and each has those of one thread in the order of its calls. As
long as files can be opened again, what a call has seen of `path_` stays true.
-/

namespace Xutil.Log

open Calls Runs

variable {W H C : Type} {F : Files W H} {O : Outer C}

-- ---------------------------------------------------------------------------
-- One pass
-- ---------------------------------------------------------------------------

theorem writeOfs_kept {s s' : State W H} (h : (writeOfs F r).run s = (res, s')) :
    s'.level = s.level ∧ s'.path = s.path := by
  obtain ⟨_, rfl⟩ | ⟨_, _, _, rfl⟩ | ⟨_, _, _, _, _, rfl⟩ | ⟨_, _, _, _, _, rfl⟩ := writeOfs_cases h <;>
    exact ⟨rfl, rfl⟩

/-- Without a path the sink does not get one. -/
theorem sink_unnamed {s s' : State W H} (hpath : s.path = .empty)
    (h : (sink F r).run s = (res, s')) : s'.level = s.level ∧ s'.path = .empty := by
  obtain ⟨b, t, hneeds, h⟩ | ⟨e, hneeds, rfl⟩ := Call.run_bind_cases h
  · obtain ⟨w, rfl⟩ := needsRotation_world hneeds
    cases b with
    | false =>
      obtain ⟨hlevel, hpath'⟩ := writeOfs_kept h
      exact ⟨hlevel, hpath'.trans hpath⟩
    | true =>
      rw [if_pos rfl, Call.run_bind_ok (run_closeOfs _)] at h
      obtain ⟨_, u, haside, h⟩ | ⟨e, haside, rfl⟩ := Call.run_bind_cases h
      · obtain ⟨hlevel, hupath, _, hofs, _⟩ := renameToPrevious_aside haside
        rw [Call.run_bind_ok (Call.run_get u), Call.run_bind_ok (Call.run_get u)] at h
        have hempty : u.path = .empty := hupath.trans hpath
        rcases hopen : (openLogfile F u.path u.daily).run u with ⟨ro, v⟩
        obtain ⟨_, rfl, rfl⟩ | ⟨hno, _⟩ | ⟨hno, _⟩ := openLogfile_cases hofs hopen
        · rw [Call.run_bind_ok hopen] at h
          obtain ⟨hlevel', hpath'⟩ := writeOfs_kept h
          exact ⟨hlevel'.trans hlevel, hpath'⟩
        · exact absurd hempty hno
        · exact absurd hempty hno
      · have haside := renameToPrevious_aside haside
        exact ⟨haside.level, haside.path.trans hpath⟩
  · obtain ⟨w, rfl⟩ := needsRotation_world hneeds
    exact ⟨rfl, hpath⟩

/-- Only a file that cannot be opened again has its path cleared. -/
theorem sink_kept {s s' : State W H} (h : (sink F r).run s = (res, s')) :
    s'.level = s.level ∧ (F.Opens → s'.path = s.path) := by
  by_cases hpath : s.path = .empty
  · obtain ⟨hlevel, hpath'⟩ := sink_unnamed hpath h
    exact ⟨hlevel, fun _ => hpath'.trans hpath.symm⟩
  obtain ⟨e, hneeds⟩ | ⟨t, hneeds, hwrite⟩ | ⟨t, e, hneeds, haside⟩ | ⟨t, u, hneeds, haside, hopen⟩ :=
    sink_cases hpath h
  · obtain ⟨w, rfl⟩ := needsRotation_world hneeds
    exact ⟨rfl, fun _ => rfl⟩
  · obtain ⟨w, rfl⟩ := needsRotation_world hneeds
    have hkept := writeOfs_kept hwrite
    exact ⟨hkept.1, fun _ => hkept.2⟩
  · obtain ⟨w, rfl⟩ := needsRotation_world hneeds
    have hu := renameToPrevious_aside haside
    exact ⟨hu.level, fun _ => hu.path⟩
  · obtain ⟨w, rfl⟩ := needsRotation_world hneeds
    have hu := renameToPrevious_aside haside
    obtain ⟨w', hfail, rfl⟩ | ⟨f, w', _, hwrite⟩ := hopen
    · refine ⟨hu.level, fun hopens => ?_⟩
      obtain ⟨f, w'', hopen⟩ := hopens u.path u.world
      cases hfail.symm.trans hopen
    · have hkept := writeOfs_kept hwrite
      exact ⟨hkept.1.trans hu.level, fun _ => hkept.2.trans hu.path⟩

theorem outer_run (f : C → Option Unit × C) (s : Full W H C) :
    ∃ res c, (outer f).run s = (res, { s with outer := c }) := by
  rcases hf : f s.outer with ⟨_ | _, c⟩ <;> exact ⟨_, c, by simp only [outer, Call.run, hf]; rfl⟩

theorem toConsole_run (e : Entry) (s : Full W H C) :
    ∃ res c, (toConsole O e).run s = (res, { s with shown := s.shown ++ [e], outer := c }) := by
  rw [toConsole, Call.run_bind_ok (Call.run_modify ..)]
  exact outer_run ..

theorem toExternal_run (e : Entry) (s : Full W H C) :
    ∃ res c, (toExternal O e).run s = (res, { s with sent := s.sent ++ [e], outer := c }) := by
  rw [toExternal, Call.run_bind_ok (Call.run_modify ..), Call.run_bind_ok (Call.run_get _)]
  exact outer_run ..

def Stage.outlet : Stage → Option Outlet
  | .console => some .console
  | .look => none
  | .file _ => some .file
  | .external => some .external

def Stage.next (path : Path) : Stage → Option Stage
  | .console => some .look
  | .look => some (.file (path ≠ .empty))
  | .file _ => some .external
  | .external => none

/-- What a look has found is still so. -/
def Stage.Fresh (path : Path) : Stage → Prop
  | .file named => named = decide (path ≠ .empty)
  | _ => True

/-- A pass hands the record to one outlet at most and leaves the others alone. -/
structure Passed (F : Files W H) (s : Full W H C) (part : Stage) (e : Entry) (s' : Full W H C) :
    Prop where
  level : s'.level = s.level
  path : F.Opens → s'.path = s.path
  logger : s'.logger = s.logger
  console : s'.console = s.console
  shown : s'.shown = if part.outlet = some .console ∧ s.console = true then s.shown ++ [e] else s.shown
  sent : s'.sent = if part.outlet = some .external ∧ s.logger ≠ [] then s.sent ++ [e] else s.sent
  others : part.outlet ≠ some .file → s'.toState = s.toState
  file : part.outlet = some .file → part.Fresh s.path → e.record.Accepted s.level →
    (log F e.record).run s.toState = (.ok (), s'.toState)

theorem log_accepted {s : State W H} (hacc : r.Accepted s.level) : (log F r).run s =
    (if s.path ≠ .empty then Call.ignore (sink F r) else pure ()).run s := by
  obtain ⟨hsilent, hall, hlevel⟩ := hacc
  simp [log, Call.run_bind, hsilent, hall, Nat.not_lt.mpr hlevel]

/-- Nothing but the counts of the console and the external logger has changed. -/
theorem passed_aside {s s' : Full W H C} (hfile : part.outlet ≠ some .file)
    (hstate : s'.toState = s.toState) (hlogger : s'.logger = s.logger) (hconsole : s'.console = s.console)
    (hshown : s'.shown =
      if part.outlet = some .console ∧ s.console = true then s.shown ++ [e] else s.shown)
    (hsent : s'.sent =
      if part.outlet = some .external ∧ s.logger ≠ [] then s.sent ++ [e] else s.sent) :
    Passed F s part e s' :=
  ⟨by rw [hstate], fun _ => by rw [hstate], hlogger, hconsole, hshown, hsent, fun _ => hstate,
    fun h => absurd h hfile⟩

theorem pass_console {s s' : Full W H C} (h : (passConsole O e).run s = (res, s')) :
    res = .ok () ∧ Passed F s .console e s' := by
  rw [passConsole, Call.run_bind_ok (Call.run_get s)] at h
  cases hconsole : s.console with
  | false =>
    rw [hconsole] at h
    cases h
    exact ⟨rfl, passed_aside (by simp [Stage.outlet]) rfl rfl rfl (by simp [hconsole])
      (by simp [Stage.outlet])⟩
  | true =>
    obtain ⟨res', c, hrun⟩ := toConsole_run (O := O) e s
    rw [hconsole, if_pos rfl, Call.run_ignore, hrun] at h
    cases h
    exact ⟨rfl, passed_aside (by simp [Stage.outlet]) rfl rfl rfl (by simp [Stage.outlet, hconsole])
      (by simp [Stage.outlet])⟩

theorem pass_external {s s' : Full W H C} (h : (passExternal O e).run s = (res, s')) :
    res = .ok () ∧ Passed F s .external e s' := by
  rw [passExternal, Call.run_bind_ok (Call.run_get s)] at h
  by_cases hlogger : s.logger = []
  · rw [if_neg (by simpa using hlogger)] at h
    cases h
    exact ⟨rfl, passed_aside (by simp [Stage.outlet]) rfl rfl rfl (by simp [Stage.outlet])
      (by simp [hlogger])⟩
  · obtain ⟨res', c, hrun⟩ := toExternal_run (O := O) e s
    rw [if_pos hlogger, Call.run_ignore, hrun] at h
    cases h
    exact ⟨rfl, passed_aside (by simp [Stage.outlet]) rfl rfl rfl (by simp [Stage.outlet])
      (by simp [Stage.outlet, hlogger])⟩

theorem pass_file {s s' : Full W H C} (h : (passFile F named e).run s = (res, s')) :
    res = .ok () ∧ Passed F s (.file named) e s' := by
  cases named with
  | false =>
    cases h
    refine ⟨rfl, rfl, fun _ => rfl, rfl, rfl, by simp [Stage.outlet], by simp [Stage.outlet],
      fun _ => rfl, fun _ hfresh hacc => ?_⟩
    have hpath : s.path = .empty := by simpa [Stage.Fresh] using hfresh
    rw [log_accepted hacc, if_neg (by simpa using hpath)]
    rfl
  | true =>
    rcases hsink : (sink F e.record).run s.toState with ⟨res', file⟩
    have hrun : (toFile F e).run s = (res', { s with toState := file }) := by
      simp only [toFile, Call.run] at hsink ⊢
      rw [hsink]
    rw [passFile, if_pos rfl, Call.run_ignore, hrun] at h
    cases h
    have hkept := sink_kept hsink
    refine ⟨rfl, hkept.1, hkept.2, rfl, rfl, by simp [Stage.outlet], by simp [Stage.outlet],
      fun hno => absurd rfl hno, fun _ hfresh hacc => ?_⟩
    have hpath : s.path ≠ .empty := by simpa [Stage.Fresh] using hfresh
    rw [log_accepted hacc, if_pos hpath, Call.run_ignore, hsink]

theorem pass_passed {s s' : Full W H C} (h : (pass F O e part).run s = (res, s')) :
    res = .ok (part.next s.path) ∧ Passed F s part e s' := by
  cases part with
  | look =>
    cases h
    exact ⟨rfl, passed_aside (by simp [Stage.outlet]) rfl rfl rfl (by simp [Stage.outlet])
      (by simp [Stage.outlet])⟩
  | console =>
    rcases hpart : (passConsole O e).run s with ⟨r, t⟩
    obtain ⟨rfl, hpassed⟩ := pass_console (F := F) hpart
    rw [pass, Call.run_bind_ok hpart] at h
    cases h
    exact ⟨rfl, hpassed⟩
  | file named =>
    rcases hpart : (passFile F named e).run s with ⟨r, t⟩
    obtain ⟨rfl, hpassed⟩ := pass_file hpart
    rw [pass, Call.run_bind_ok hpart] at h
    cases h
    exact ⟨rfl, hpassed⟩
  | external =>
    rcases hpart : (passExternal O e).run s with ⟨r, t⟩
    obtain ⟨rfl, hpassed⟩ := pass_external (F := F) hpart
    rw [pass, Call.run_bind_ok hpart] at h
    cases h
    exact ⟨rfl, hpassed⟩

theorem accepts_cases {s : Full W H C} (h : (accepts e).run s = (res, s')) :
    s' = s ∧ (res = .ok true ↔ e.record.Accepted s.level) := by
  by_cases hlevel : e.level = .silent ∨ e.level = .all
  · rw [accepts, if_pos hlevel] at h
    cases h
    refine ⟨rfl, nofun, fun hacc => ?_⟩
    exact absurd hlevel (not_or.mpr ⟨hacc.1, hacc.2.1⟩)
  · rw [accepts, if_neg hlevel] at h
    cases h
    obtain ⟨hsilent, hall⟩ := not_or.mp hlevel
    simp [Record.Accepted, Entry.record, hsilent, hall]

-- ---------------------------------------------------------------------------
-- Runs
-- ---------------------------------------------------------------------------

def Event.through (o : Outlet) : Event W → Option Entry
  | .pass part e => if part.outlet = some o then some e else none
  | _ => none

def Event.accepted (level : Level) : Event W → Option Entry
  | .call e => if e.record.Accepted level then some e else none
  | _ => none

/-- What the file sink makes of it. -/
def Event.label : Event W → Option (Label W)
  | .pass (.file _) e => some (.log e.record)
  | .outside w => some (.outside w)
  | _ => none

/-- The records an outlet has been handed. -/
def through (o : Outlet) (ls : List (Event W)) : List Entry := ls.filterMap (Event.through o)

/-- The records of all calls that pass the checks. -/
def accepted (level : Level) (ls : List (Event W)) : List Entry :=
  ls.filterMap (Event.accepted level)

def ofThread (t : Nat) (es : List Entry) : List Entry := es.filter (·.thread = t)

def Outlet.rank : Outlet → Nat
  | .console => 0
  | .file => 1
  | .external => 2

def Stage.rank : Stage → Nat
  | .console => 0
  | .look | .file _ => 1
  | .external => 2

/-- What a thread in the middle of a call has yet to hand to an outlet. -/
def coming (o : Outlet) : Option (Stage × Entry) → List Entry
  | some (part, e) => if part.rank ≤ o.rank then [e] else []
  | none => []

@[simp] theorem ofThread_append (t : Nat) (es es' : List Entry) :
    ofThread t (es ++ es') = ofThread t es ++ ofThread t es' := List.filter_append ..

@[simp] theorem ofThread_nil (t : Nat) : ofThread t [] = [] := rfl

theorem ofThread_self (e : Entry) : ofThread e.thread [e] = [e] := by
  simp [ofThread]

theorem ofThread_ne {e : Entry} (h : t ≠ e.thread) : ofThread t [e] = [] := by
  simp [ofThread, Ne.symm h]

theorem through_snoc (o : Outlet) (ls : List (Event W)) (l : Event W) :
    through o (ls ++ [l]) = through o ls ++ (l.through o).toList := filterMap_snoc ..

theorem accepted_snoc (level : Level) (ls : List (Event W)) (l : Event W) :
    accepted level (ls ++ [l]) = accepted level ls ++ (l.accepted level).toList := filterMap_snoc ..

/-- One outlet gets the record and goes out of turn, for the others nothing
changes. -/
theorem coming_next (part : Stage) (o : Outlet) (path : Path) (e : Entry) :
    (if part.outlet = some o then [e] else []) ++ coming o ((part.next path).map (·, e)) =
      coming o (some (part, e)) := by
  cases part <;> cases o <;> rfl

theorem fresh_next {part part' : Stage} (h : part.next path = some part') : part'.Fresh path := by
  cases part <;> cases h <;> trivial

structure Delivered (F : Files W H) (full : Full W H C) (ls : List (Event W)) (s : Shared W H C) :
    Prop where
  level : s.level = full.level
  path : F.Opens → s.path = full.path
  logger : s.logger = full.logger
  console : s.console = full.console
  shown : s.shown = full.shown ++ if full.console then through .console ls else []
  sent : s.sent = full.sent ++ if full.logger = [] then [] else through .external ls
  file : F.Opens → Run (Step F) full.toState (ls.filterMap Event.label) s.toState
  owner : ∀ t part e, s.stage t = some (part, e) →
    e.thread = t ∧ e.record.Accepted full.level ∧ (F.Opens → part.Fresh full.path)
  inTurn : ∀ o t, ofThread t (through o ls) ++ coming o (s.stage t) =
    ofThread t (accepted full.level ls)

def Shared.idle (full : Full W H C) : Shared W H C := ⟨full, fun _ => none⟩

variable {full : Full W H C} {s s' : Shared W H C} {ls : List (Event W)}

theorem delivered_idle (F : Files W H) (full : Full W H C) : Delivered F full [] (.idle full) where
  level := rfl
  path _ := rfl
  logger := rfl
  console := rfl
  shown := by simp [Shared.idle, through]
  sent := by simp [Shared.idle, through]
  file _ := .nil
  owner _ _ _ h := nomatch h
  inTurn _ _ := rfl

/-- A call that has been checked and has not written yet. -/
theorem Delivered.call (h : Delivered F full ls s) (hidle : s.stage e.thread = none) {stage}
    (hstage : if e.record.Accepted full.level then
      stage = Function.update s.stage e.thread (some (.console, e)) else stage = s.stage) :
    Delivered F full (ls ++ [.call e]) ⟨s.toFull, stage⟩ where
  level := h.level
  path := h.path
  logger := h.logger
  console := h.console
  shown := by simpa [through_snoc, Event.through] using h.shown
  sent := by simpa [through_snoc, Event.through] using h.sent
  file hopens := by
    rw [filterMap_snoc]
    simpa [Event.label] using h.file hopens
  owner t part e' hs := by
    split at hstage
    · subst hstage
      by_cases ht : t = e.thread
      · subst ht
        simp only [Function.update_self, Option.some.injEq, Prod.mk.injEq] at hs
        obtain ⟨rfl, rfl⟩ := hs
        exact ⟨rfl, ‹_›, fun _ => trivial⟩
      · simp only [Function.update_of_ne ht] at hs
        exact h.owner t part e' hs
    · subst hstage
      exact h.owner t part e' hs
  inTurn o t := by
    have hturn := h.inTurn o t
    split at hstage
    · subst hstage
      by_cases ht : t = e.thread
      · subst ht
        rw [hidle, coming, List.append_nil] at hturn
        cases o <;> simp [through_snoc, accepted_snoc, Event.through, Event.accepted, coming,
          Stage.rank, ofThread_self, *]
      · simp [through_snoc, accepted_snoc, Event.through, Event.accepted, ofThread_ne ht, *]
    · subst hstage
      simp [through_snoc, accepted_snoc, Event.through, Event.accepted, *]

theorem Delivered.pass (h : Delivered F full ls s) (hstage : s.stage e.thread = some (part, e))
    (hpass : Passed F s.toFull part e full') : Delivered F full (ls ++ [.pass part e])
      ⟨full', Function.update s.stage e.thread ((part.next s.path).map (·, e))⟩ where
  level := hpass.level.trans h.level
  path hopens := (hpass.path hopens).trans (h.path hopens)
  logger := hpass.logger.trans h.logger
  console := hpass.console.trans h.console
  shown := by
    rw [hpass.shown, h.shown, h.console, through_snoc]
    cases part <;> cases full.console <;> simp [Event.through, Stage.outlet]
  sent := by
    rw [hpass.sent, h.sent, h.logger, through_snoc]
    by_cases hlogger : full.logger = [] <;> cases part <;>
      simp [Event.through, Stage.outlet, hlogger]
  file hopens := by
    rw [filterMap_snoc]
    obtain ⟨-, hacc, hfresh⟩ := h.owner _ _ _ hstage
    by_cases hfile : part.outlet = some .file
    · have hlog := hpass.file hfile (h.path hopens ▸ hfresh hopens) (h.level ▸ hacc)
      have hlabel : (Event.pass part e : Event W).label = some (.log e.record) := by
        cases part <;> first | rfl | cases hfile
      rw [hlabel]
      exact .snoc (h.file hopens) (.log hlog)
    · have hlabel : (Event.pass part e : Event W).label = none := by
        cases part <;> first | rfl | exact absurd rfl hfile
      rw [hlabel, Option.toList_none, List.append_nil, hpass.others hfile]
      exact h.file hopens
  owner t part' e' hs := by
    by_cases ht : t = e.thread
    · subst ht
      simp only [Function.update_self, Option.map_eq_some_iff, Prod.mk.injEq] at hs
      obtain ⟨part'', hnext, rfl, rfl⟩ := hs
      obtain ⟨hthread, hacc, -⟩ := h.owner _ _ _ hstage
      exact ⟨hthread, hacc, fun hopens => h.path hopens ▸ fresh_next hnext⟩
    · simp only [Function.update_of_ne ht] at hs
      exact h.owner t part' e' hs
  inTurn o t := by
    have hturn := h.inTurn o t
    simp only [through_snoc, accepted_snoc, ofThread_append, Event.through, Event.accepted]
    by_cases ht : t = e.thread
    · subst ht
      rw [hstage, ← coming_next part o s.path] at hturn
      simp only [Function.update_self, ← hturn]
      by_cases ho : part.outlet = some o <;> simp [ho, ofThread_self]
    · simp only [Function.update_of_ne ht, ← hturn]
      by_cases ho : part.outlet = some o <;> simp [ho, ofThread_ne ht]

theorem Delivered.outside (h : Delivered F full ls s) (w : W) :
    Delivered F full (ls ++ [.outside w]) { s with world := w } where
  level := h.level
  path := h.path
  logger := h.logger
  console := h.console
  shown := by simpa [through_snoc, Event.through] using h.shown
  sent := by simpa [through_snoc, Event.through] using h.sent
  file hopens := by
    rw [filterMap_snoc]
    exact .snoc (h.file hopens) .outside
  owner := h.owner
  inTurn o t := by simpa [through_snoc, accepted_snoc, Event.through, Event.accepted] using h.inTurn o t

theorem Delivered.step (h : Delivered F full ls s) (hstep : Shared.Step F O s l s') :
    Delivered F full (ls ++ [l]) s' := by
  cases hstep with
  | accepted hidle hrun =>
    obtain ⟨rfl, hacc⟩ := accepts_cases hrun
    refine h.call hidle ?_
    rw [if_pos (h.level ▸ hacc.mp rfl)]
  | refused hidle hrun hres =>
    obtain ⟨rfl, hacc⟩ := accepts_cases hrun
    refine h.call hidle ?_
    rw [if_neg (h.level ▸ mt hacc.mpr hres)]
  | pass hstage hrun =>
    obtain ⟨hnext, hpassed⟩ := pass_passed hrun
    cases hnext
    exact h.pass hstage hpassed
  | outside => exact h.outside _

theorem run_delivered (h : Run (Shared.Step F O) (.idle full) ls s) : Delivered F full ls s :=
  h.history (I := fun ls s => Delivered F full ls s) (delivered_idle F full) fun hi hstep => hi.step hstep

theorem Delivered.through_inTurn (h : Delivered F full ls s) (o : Outlet) (t : Nat) :
    ofThread t (through o ls) <+: ofThread t (accepted full.level ls) := by
  rw [← h.inTurn o t]
  exact List.prefix_append ..

theorem Delivered.through_idle (h : Delivered F full ls s) (ht : s.stage t = none) (o : Outlet) :
    ofThread t (through o ls) = ofThread t (accepted full.level ls) := by
  rw [← h.inTurn o t, ht, coming, List.append_nil]

/-- A call that no other thread interrupts. -/
theorem log_alone (hidle : s.stage e.thread = none)
    (h : (log_ F O e).run s.toFull = (res, full')) :
    Run (Shared.Step F O) s
      (if e.record.Accepted s.level then
        [.call e, .pass .console e, .pass .look e, .pass (.file (s.path ≠ .empty)) e,
          .pass .external e]
      else [.call e])
      ⟨full', s.stage⟩ := by
  rcases haccepts : (accepts e).run s.toFull with ⟨admitted, full⟩
  obtain ⟨rfl, hacc⟩ := accepts_cases haccepts
  by_cases hok : admitted = .ok true
  · subst hok
    rcases hconsole : (passConsole O e).run s.toFull with ⟨r₁, s₁⟩
    obtain ⟨rfl, hpassed⟩ := pass_console (F := F) hconsole
    have hlook : (look : Call Exception (Full W H C) Bool).run s₁ = (.ok (s.path ≠ .empty), s₁) := by
      rw [← hpassed.others (by simp [Stage.outlet])]
      rfl
    rcases hfile : (passFile F (s.path ≠ .empty) e).run s₁ with ⟨r₂, s₂⟩
    obtain ⟨rfl, -⟩ := pass_file hfile
    rcases hexternal : (passExternal O e).run s₂ with ⟨r₃, s₃⟩
    obtain ⟨rfl, -⟩ := pass_external (F := F) hexternal
    rw [log_, Call.run_bind_ok haccepts, if_pos rfl, Call.run_bind_ok hconsole,
      Call.run_bind_ok hlook, Call.run_bind_ok hfile, hexternal] at h
    cases h
    rw [if_pos (hacc.mp rfl)]
    have hback : s.stage = Function.update (Function.update (Function.update (Function.update
        (Function.update s.stage e.thread (some (.console, e))) e.thread (some (.look, e)))
        e.thread (some (.file (s.path ≠ .empty), e))) e.thread (some (.external, e)))
        e.thread none := by
      simp [Function.update_idem, ← hidle]
    rw [hback]
    refine .cons (.accepted hidle haccepts) <|
      .cons (.pass (n := some .look) ?_ (Call.run_bind_ok hconsole)) <|
      .cons (.pass (n := some (.file (s.path ≠ .empty))) ?_ (Call.run_bind_ok hlook)) <|
      .cons (.pass (n := some .external) ?_ (Call.run_bind_ok hfile)) <|
      .cons (.pass (n := none) ?_ (Call.run_bind_ok hexternal)) .nil
    all_goals exact Function.update_self ..
  · have hfull : full' = s.toFull := by
      rcases admitted with e' | b
      · rw [log_, Call.run_bind_error haccepts] at h
        exact (Prod.mk.inj h).2.symm
      · cases b with
        | true => exact absurd rfl hok
        | false =>
          rw [log_, Call.run_bind_ok haccepts] at h
          exact (Prod.mk.inj h).2.symm
    rw [if_neg (mt hacc.mpr hok), hfull]
    exact Run.one (.refused hidle haccepts hok)

-- ---------------------------------------------------------------------------
-- The outlets agree
-- ---------------------------------------------------------------------------

theorem perm_of_ofThread {es es' : List Entry} (h : ∀ t, ofThread t es = ofThread t es') :
    es.Perm es' := by
  refine List.perm_iff_count.mpr fun e => ?_
  have hcount : ∀ es : List Entry, es.count e = (ofThread e.thread es).count e := fun es =>
    (List.count_filter (by simp)).symm
  rw [hcount es, hcount es', h]

def syslogDown : Outer Unit := ⟨fun _ _ => (some (), ()), fun _ _ _ _ => (none, ())⟩

def Full.sample : Full Disk Path Unit :=
  { State.initial .info fun _ => none with logger := "xxx".toList, console := true, outer := () }

def firstEntry : Entry := ⟨noon, .info, 1, none, "a".toList⟩

def secondEntry : Entry := ⟨noon, .error, 2, none, "b".toList⟩

/-- Thread 2 is the second to call and the first at the console. -/
def overtaking : List (Event Disk) :=
  [.call firstEntry, .call secondEntry, .pass .console secondEntry, .pass .console firstEntry,
    .pass .look secondEntry, .pass .look firstEntry, .pass (.file false) firstEntry,
    .pass .external firstEntry, .pass (.file false) secondEntry, .pass .external secondEntry]

end Xutil.Log
