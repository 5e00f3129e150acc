import Xutil.Log.Disk
import Xutil.Log.Sink

/-!
# The path and the open file

`open_logfile_` clears `path_` when it cannot open the file. Whatever throws
before it, in the search for a free name or in the rename, leaves `path_` with
a stream that is closed already.
-/

namespace Xutil.Log

open Calls Runs

variable {W H : Type} {F : Files W H} {s s' : State W H} {l : Label W}

def Logger.Consistent (lg : Logger H) : Prop := lg.path ≠ .empty ↔ lg.ofs.isSome = true

/-- A record that is accepted goes to the open file, as long as there is a path. -/
def Appends (s : State W H) (l : Label W) (s' : State W H) : Prop :=
  ∀ r, l = .log r → r.Accepted s.level → s'.path ≠ .empty →
    ∃ f cs, s'.ofs = some f ∧ s'.calls = s.calls ++ cs ++ [.write f r]

/-- In every reachable state the logger is consistent, and every call appends. -/
def PathMeansOpen (step : State W H → Label W → State W H → Prop) : Prop :=
  ∀ level world ls s, Run step (.initial level world) ls s →
    s.Consistent ∧ ∀ l s', step s l s' → Appends s l s'

/-- Where the rotation is due, the old file gets out of the way. -/
def MovesAside (F : Files W H) : Except Exception Bool × State W H → Prop
  | (.ok true, t) => ∃ u, (renameToPrevious F).run (t.closed F) = (.ok (), u)
  | (.ok false, _) => True
  | (.error _, _) => False

/-- In a call that finds another date in `daily_`, the look at the file, the
search for a free name and the rename all go through. -/
def Proceeds (F : Files W H) (s : State W H) : Label W → Prop
  | .log r => r.Accepted s.level → s.path ≠ .empty → MovesAside F ((needsRotation F r.lt).run s)
  | .setPath _ _ lt => MovesAside F ((needsRotation F lt).run (s.closed F))
  | .outside _ => True

structure Logger.Tidy (lg : Logger H) : Prop where
  consistent : lg.Consistent
  daily : lg.path = .empty → lg.daily = none
  bad : lg.bad = false

theorem Logger.Tidy.ofs {lg : Logger H} (h : lg.Tidy) (hpath : lg.path ≠ .empty) :
    ∃ f, lg.ofs = some f :=
  Option.isSome_iff_exists.mp (h.consistent.mp hpath)

theorem Logger.Tidy.stamped {lg : Logger H} (h : lg.Tidy) (hpath : lg.path ≠ .empty) (lt : Tm) :
    ({ lg with daily := some lt } : Logger H).Tidy :=
  ⟨h.consistent, fun hempty => absurd hempty hpath, h.bad⟩

theorem writeOfs_tidy (hw : F.Writes) (hofs : s.ofs = some f) (hbad : s.bad = false)
    (h : (writeOfs F r).run s = (res, s')) :
    s'.toLogger = s.toLogger ∧ s'.calls = s.calls ++ [.write f r] := by
  obtain ⟨hnone, _⟩ | ⟨_, _, hb, _⟩ | ⟨g, w, hg, _, _, rfl⟩ | ⟨g, w, _, _, hfail, _⟩ := writeOfs_cases h
  · simp [hofs] at hnone
  · simp [hbad] at hb
  · obtain rfl : f = g := Option.some.inj (hofs.symm.trans hg)
    exact ⟨rfl, rfl⟩
  · obtain ⟨w', hok⟩ := hw g r s.world
    simp [hfail] at hok

theorem log_tidy (hw : F.Writes) (h : s.Tidy) (hok : Proceeds F s (.log r))
    (hlog : (log F r).run s = (res, s')) : s'.Tidy ∧ Appends s (.log r : Label W) s' := by
  obtain ⟨hno, rfl⟩ | ⟨hacc, hpath, res', hsink⟩ := log_cases hlog
  · refine ⟨h, ?_⟩
    rintro _ ⟨rfl⟩ hacc hpath
    exact absurd ⟨hacc, hpath⟩ hno
  have hmove := hok hacc hpath
  obtain ⟨f, hofs⟩ := h.ofs hpath
  obtain ⟨e, hneeds⟩ | ⟨t, hneeds, hwrite⟩ | ⟨t, e, hneeds, hfail⟩ | ⟨t, u, hneeds, haside, hopen⟩ :=
    sink_cases hpath hsink
  · simp [hneeds, MovesAside] at hmove
  · obtain ⟨w, rfl⟩ := needsRotation_world hneeds
    obtain ⟨hlogger, hcalls⟩ :=
      writeOfs_tidy (s := { s with world := w, daily := some r.lt }) hw hofs h.bad hwrite
    refine ⟨hlogger ▸ h.stamped hpath r.lt, ?_⟩
    rintro _ ⟨rfl⟩ _ _
    exact ⟨f, [], by rw [hlogger]; exact hofs, by simpa using hcalls⟩
  · simp [hneeds, MovesAside, hfail] at hmove
  · obtain ⟨w, rfl⟩ := needsRotation_world hneeds
    have hu := renameToPrevious_aside haside
    obtain ⟨cs, hcs, _⟩ := hu.calls
    obtain ⟨w', _, rfl⟩ | ⟨f, w', _, hwrite⟩ := hopen
    · refine ⟨⟨by simp [Logger.Consistent, hu.ofs], fun _ => rfl, hu.bad⟩, ?_⟩
      intro _ _ _ hne
      exact absurd rfl hne
    · obtain ⟨hlogger, hcalls⟩ :=
        writeOfs_tidy (s := { u.opened f w' with daily := some r.lt }) hw rfl rfl hwrite
      have hpath' : u.path ≠ .empty := hu.path ▸ hpath
      refine ⟨hlogger ▸ ⟨by simp [Logger.Consistent, State.opened, hpath'],
        fun hempty => absurd hempty hpath', rfl⟩, ?_⟩
      rintro _ ⟨rfl⟩ _ _
      refine ⟨f, cs ++ [.openApp u.path], by rw [hlogger]; rfl, ?_⟩
      rw [hcalls]
      simp [State.opened, hcs]

theorem openLogfile_tidy (hofs : s.ofs = none) (hbad : s.bad = false)
    (h : (openLogfile F path lt).run s = (res, s')) : s'.Tidy := by
  obtain ⟨_, _, rfl⟩ | ⟨hpath, f, w, _, _, rfl⟩ | ⟨_, w, _, _, rfl⟩ := openLogfile_cases hofs h
  · exact ⟨by simp [Logger.Consistent, hofs], fun _ => rfl, hbad⟩
  · exact ⟨by simp [Logger.Consistent, hpath], fun hempty => absurd hempty hpath, rfl⟩
  · exact ⟨by simp [Logger.Consistent, hofs], fun _ => rfl, hbad⟩

theorem closed_closed (s : State W H) (w : W) :
    State.closed F { s.closed F with world := w } = { s.closed F with world := w } := rfl

theorem setPath_tidy (hok : Proceeds F s (.setPath path daily lt))
    (h : (setPath F path daily lt).run s = (res, s')) : s'.Tidy := by
  have hmove : MovesAside F ((needsRotation F lt).run (s.closed F)) := hok
  obtain ⟨e, hneeds, _⟩ | ⟨t, hneeds, hopen⟩ | ⟨t, e, hneeds, hfail, _⟩ |
    ⟨t, u, hneeds, haside, hopen⟩ := setPath_cases h
  · simp [hneeds, MovesAside] at hmove
  · obtain ⟨w, rfl⟩ := needsRotation_world hneeds
    exact openLogfile_tidy rfl rfl hopen
  · obtain ⟨w, rfl⟩ := needsRotation_world hneeds
    simp [hneeds, MovesAside, closed_closed, hfail] at hmove
  · obtain ⟨w, rfl⟩ := needsRotation_world hneeds
    have hu := renameToPrevious_aside (s := s.closed F) haside
    exact openLogfile_tidy hu.ofs hu.bad hopen

theorem step_tidy (hw : F.Writes) (h : s.Tidy) (hstep : Guarded (Step F) (Proceeds F) s l s') :
    s'.Tidy ∧ Appends s l s' := by
  obtain ⟨hstep, hok⟩ := hstep
  cases hstep with
  | log hlog => exact log_tidy hw h hok hlog
  | setPath hset =>
    refine ⟨setPath_tidy hok hset, ?_⟩
    rintro _ ⟨⟩
  | outside =>
    refine ⟨⟨h.consistent, h.daily, h.bad⟩, ?_⟩
    rintro _ ⟨⟩

theorem Logger.Tidy.of_outdated {lg : Logger H} (h : lg.Tidy) (hold : lg.Outdated lt) :
    lg.path ≠ .empty := by
  obtain ⟨d, hd, _⟩ := hold
  intro hempty
  simp [h.daily hempty] at hd

theorem needsRotation_outdated (h : (needsRotation F lt).run s = (r, s')) (hr : r ≠ .ok false) :
    s.Outdated lt := by
  obtain ⟨_, hfalse, _⟩ | ⟨hold, _⟩ := needsRotation_cases h
  · exact absurd hfalse hr
  · exact hold

theorem inconsistent {lg : Logger H} (hpath : lg.path ≠ .empty) (hofs : lg.ofs = none) :
    ¬ lg.Consistent := by
  intro h
  have hopen := h.mp hpath
  simp [hofs] at hopen

/-- A rotation that throws leaves the path there. Either the file is closed or
the record is gone. -/
theorem log_stuck (hno : ¬ Proceeds F s (.log r)) (hlog : (log F r).run s = (res, s')) :
    ¬ (s'.Consistent ∧ Appends s (.log r : Label W) s') := by
  simp only [Proceeds, Classical.not_imp] at hno
  obtain ⟨hacc, hpath, hmove⟩ := hno
  obtain ⟨hno, _⟩ | ⟨_, _, _, hsink⟩ := log_cases hlog
  · exact absurd ⟨hacc, hpath⟩ hno
  obtain ⟨e, hneeds⟩ | ⟨t, hneeds, _⟩ | ⟨t, e, hneeds, hfail⟩ | ⟨t, u, hneeds, haside, _⟩ :=
    sink_cases hpath hsink
  · obtain ⟨w, rfl⟩ := needsRotation_world hneeds
    rintro ⟨_, happ⟩
    obtain ⟨f, cs, _, hcalls⟩ := happ r rfl hacc hpath
    simp at hcalls
  · simp [hneeds, MovesAside] at hmove
  · obtain ⟨w, rfl⟩ := needsRotation_world hneeds
    have hu := renameToPrevious_aside hfail
    rintro ⟨hcons, _⟩
    exact inconsistent (hu.path ▸ hpath) hu.ofs hcons
  · simp [hneeds, MovesAside, haside] at hmove

theorem setPath_stuck (h : s.Tidy) (hno : ¬ Proceeds F s (.setPath path daily lt))
    (hset : (setPath F path daily lt).run s = (res, s')) : ¬ s'.Consistent := by
  have hmove : ¬ MovesAside F ((needsRotation F lt).run (s.closed F)) := hno
  have hpath : ∀ {o t}, (needsRotation F lt).run (s.closed F) = (o, t) → o ≠ .ok false →
      (s.closed F).path ≠ .empty := fun hneeds hne =>
    h.of_outdated (needsRotation_outdated (s := s.closed F) hneeds hne)
  obtain ⟨e, hneeds, _⟩ | ⟨t, hneeds, _⟩ | ⟨t, e, hneeds, hfail, _⟩ | ⟨t, u, hneeds, haside, _⟩ :=
    setPath_cases hset
  · obtain ⟨w, rfl⟩ := needsRotation_world hneeds
    exact inconsistent (hpath hneeds (by simp)) rfl
  · simp [hneeds, MovesAside] at hmove
  · obtain ⟨w, rfl⟩ := needsRotation_world hneeds
    have hu := renameToPrevious_aside (s := s.closed F) hfail
    exact inconsistent (hu.path ▸ hpath hneeds (by simp)) hu.ofs
  · obtain ⟨w, rfl⟩ := needsRotation_world hneeds
    simp [hneeds, MovesAside, closed_closed, haside] at hmove

theorem step_stuck (h : s.Tidy) (hstep : Step F s l s') (hno : ¬ Proceeds F s l) :
    ¬ (s'.Consistent ∧ Appends s l s') := by
  cases hstep with
  | log hlog => exact log_stuck hno hlog
  | setPath hset => exact fun hboth => setPath_stuck h hno hset hboth.1
  | outside => exact absurd trivial hno

/-- The law holds of runs in which whatever a rotation does before it opens the
new file goes through. A rotation that does not get so far breaks it at once. -/
theorem path_means_open (F : Files W H) (hw : F.Writes) :
    PathMeansOpen (Guarded (Step F) (Proceeds F)) ∧
      ∀ level world ls s, Run (Guarded (Step F) (Proceeds F)) (.initial level world) ls s →
        ∀ l s', Step F s l s' → ¬ Proceeds F s l → ¬ (s'.Consistent ∧ Appends s l s') := by
  have hall : ∀ {level world ls s},
      Run (Guarded (Step F) (Proceeds F)) (.initial level world) ls s → s.Tidy := fun h =>
    h.invariant (I := fun s => s.Tidy) ⟨by simp [Logger.Consistent, State.initial], fun _ => rfl, rfl⟩
      fun ht hstep => (step_tidy hw ht hstep).1
  refine ⟨fun level world ls s h => ?_, fun level world ls s h l s' hstep hno => ?_⟩
  · have htidy := hall h
    exact ⟨htidy.consistent, fun l s' hstep => (step_tidy hw htidy hstep).2⟩
  · exact step_stuck (hall h) hstep hno

theorem path_means_open_disk : PathMeansOpen (Guarded (Step disk) (Proceeds disk)) :=
  (path_means_open disk disk_writes).1

def lockedFiles : Files Disk Path := { disk with rename := fun _ _ d => (none, d) }

/-- The rename throws on the second day. The path stays, with the file closed. -/
theorem path_without_file : ¬ PathMeansOpen (Step lockedFiles) := by
  intro h
  have hrun : Run (Step lockedFiles) (.initial .info fun _ => none)
      [.setPath ⟨"log/", "app.log"⟩ true jan31, .log ⟨feb1, .info, "a"⟩] _ :=
    .cons (.setPath rfl) <| .cons (.log rfl) .nil
  exact inconsistent (by decide) rfl (h _ _ _ _ hrun).1

end Xutil.Log
