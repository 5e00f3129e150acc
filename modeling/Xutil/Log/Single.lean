import Xutil.Log.Consistent

/-!
# A file that is not daily

`daily_` is empty for such a file, and `log_` stores the date of every record
in it all the same. From the first record on the logger rotates.
-/

namespace Xutil.Log

open Calls Runs

variable {W H : Type} {F : Files W H} {s s' s₀ s₁ : State W H} {l : Label W} {ls : List (Label W)}

-- ---------------------------------------------------------------------------
-- What has been logged
-- ---------------------------------------------------------------------------

def Label.accepted (level : Level) : Label W → Option Record
  | .log r => if r.Accepted level then some r else none
  | _ => none

/-- All accepted records go to the file that is open in `s₁`, and nothing else
happens to any file. -/
def AppendsAll (s₁ : State W H) (ls : List (Label W)) (s : State W H) : Prop :=
  match s₁.ofs with
  | some f => s.calls = s₁.calls ++ (ls.filterMap (Label.accepted s₁.level)).map (.write f)
  | none => s.calls = s₁.calls ∧ ls.filterMap (Label.accepted s₁.level) = []

def SingleFile (s₁ : State W H) (ls : List (Label W)) (s : State W H) : Prop :=
  s.daily = none ∧ AppendsAll s₁ ls s

def LogOnly (_ : State W H) : Label W → Prop
  | .setPath .. => False
  | _ => True

def Quiet (s : State W H) : Label W → Prop
  | .log r => ¬ r.Accepted s.level
  | .setPath .. => False
  | .outside _ => True

theorem setPath_single (h : (setPath F path false lt).run s₀ = (.ok (), s₁)) :
    s₁.daily = none ∧ s₁.path = path ∧ s₁.bad = false ∧ (path ≠ .empty → ∃ f, s₁.ofs = some f) := by
  have hopened : ∀ {t : State W H}, t.ofs = none → t.bad = false →
      (openLogfile F path none).run t = (.ok (), s₁) →
      s₁.daily = none ∧ s₁.path = path ∧ s₁.bad = false ∧ (path ≠ .empty → ∃ f, s₁.ofs = some f) := by
    intro t hofs hbad hopen
    obtain ⟨rfl, _, rfl⟩ | ⟨_, f, w, _, _, rfl⟩ | ⟨_, w, _, ⟨e, he⟩, _⟩ := openLogfile_cases hofs hopen
    · exact ⟨rfl, rfl, hbad, fun hne => absurd rfl hne⟩
    · exact ⟨rfl, rfl, rfl, fun _ => ⟨f, rfl⟩⟩
    · cases he
  obtain ⟨_, _, he⟩ | ⟨t, hneeds, hopen⟩ | ⟨_, _, _, _, he⟩ | ⟨t, u, hneeds, haside, hopen⟩ :=
    setPath_cases h
  · cases he
  · obtain ⟨w, rfl⟩ := needsRotation_world hneeds
    exact hopened rfl rfl hopen
  · cases he
  · obtain ⟨w, rfl⟩ := needsRotation_world hneeds
    have hu := renameToPrevious_aside (s := s₀.closed F) haside
    exact hopened hu.ofs hu.bad hopen

-- ---------------------------------------------------------------------------
-- Until the first record
-- ---------------------------------------------------------------------------

theorem AppendsAll.nil (s₁ : State W H) : AppendsAll s₁ ([] : List (Label W)) s₁ := by
  unfold AppendsAll
  split <;> simp

theorem appendsAll_skip (h : AppendsAll s₁ ls s) (hl : l.accepted s₁.level = none)
    (hcalls : s'.calls = s.calls) : AppendsAll s₁ (ls ++ [l]) s' := by
  unfold AppendsAll at *
  split at h <;> simp_all

theorem appendsAll_write (h : AppendsAll s₁ ls s) (hl : l.accepted s₁.level = some r)
    (hofs : s₁.ofs = some f) (hcalls : s'.calls = s.calls ++ [.write f r]) :
    AppendsAll s₁ (ls ++ [l]) s' := by
  simp only [AppendsAll, hofs] at *
  simp [hcalls, h, hl]

theorem step_quiet (hstep : Guarded (Step F) Quiet s l s') :
    l.accepted s.level = none ∧ s'.toLogger = s.toLogger ∧ s'.calls = s.calls := by
  obtain ⟨hstep, hok⟩ := hstep
  cases hstep with
  | @log r res _ hlog =>
    have hno : ¬ r.Accepted s.level := hok
    obtain ⟨_, rfl⟩ | ⟨hacc, _⟩ := log_cases hlog
    · exact ⟨if_neg hno, rfl, rfl⟩
    · exact absurd hacc hno
  | setPath => exact hok.elim
  | outside => exact ⟨rfl, rfl, rfl⟩

theorem log_daily (hdaily : s.daily = none) (hacc : r.Accepted s.level)
    (hlog : (log F r).run s = (res, s')) :
    (s.path = .empty ∧ s' = s) ∨ s'.daily = some r.lt := by
  obtain ⟨hno, rfl⟩ | ⟨_, hpath, res', hsink⟩ := log_cases hlog
  · exact .inl ⟨by_contra fun hpath => hno ⟨hacc, hpath⟩, rfl⟩
  have hsame : ¬ s.Outdated r.lt := by
    rintro ⟨d, hd, _⟩
    simp [hdaily] at hd
  right
  obtain ⟨_, rfl⟩ | ⟨_, _, _, rfl⟩ | ⟨_, _, _, _, _, rfl⟩ | ⟨_, _, _, _, _, rfl⟩ :=
    writeOfs_cases (sink_same hsame hsink) <;> rfl

theorem run_quiet (h : Run (Guarded (Step F) Quiet) s₁ ls s) (hdaily : s₁.daily = none) :
    s.toLogger = s₁.toLogger ∧ s.calls = s₁.calls ∧ SingleFile s₁ ls s := by
  refine h.history
    (I := fun ls s => s.toLogger = s₁.toLogger ∧ s.calls = s₁.calls ∧ SingleFile s₁ ls s)
    ⟨rfl, rfl, hdaily, .nil s₁⟩ ?_
  rintro ls t l t' ⟨hlogger, hcalls, hsingle⟩ hstep
  obtain ⟨hl, hlogger', hcalls'⟩ := step_quiet hstep
  refine ⟨hlogger'.trans hlogger, hcalls'.trans hcalls, ?_, ?_⟩
  · rw [hlogger', hlogger, hdaily]
  · exact appendsAll_skip hsingle.2 (by rw [← hlogger]; exact hl) hcalls'

-- ---------------------------------------------------------------------------
-- On one date
-- ---------------------------------------------------------------------------

def SameDate (rs : List Record) : Prop := ∀ r ∈ rs, ∀ r' ∈ rs, r.lt.date = r'.lt.date

structure OneDate (s₁ : State W H) (ls : List (Label W)) (s : State W H) : Prop where
  level : s.level = s₁.level
  path : s.path = s₁.path
  ofs : s.ofs = s₁.ofs
  bad : s.bad = false
  appends : AppendsAll s₁ ls s
  daily : ∀ d, s.daily = some d → ∃ r ∈ ls.filterMap (Label.accepted s₁.level), d.date = r.lt.date

theorem OneDate.same {r : Record} (h : OneDate s₁ ls s)
    (hdate : SameDate (ls.filterMap (Label.accepted s₁.level) ++ [r])) : ¬ s.Outdated r.lt := by
  rintro ⟨d, hd, hne⟩
  obtain ⟨r', hr', hdate'⟩ := h.daily d hd
  exact hne (hdate'.trans (hdate r' (by simp [hr']) r (by simp)))

theorem step_oneDate (hw : F.Writes) (hpath : s₁.path ≠ .empty) (hofs : s₁.ofs = some f)
    (h : OneDate s₁ ls s) (hstep : Guarded (Step F) LogOnly s l s')
    (hdate : SameDate ((ls ++ [l]).filterMap (Label.accepted s₁.level))) :
    OneDate s₁ (ls ++ [l]) s' := by
  obtain ⟨hstep, hok⟩ := hstep
  rw [List.filterMap_append] at hdate
  cases hstep with
  | @log r res _ hlog =>
    obtain ⟨hno, rfl⟩ | ⟨hacc, _, res', hsink⟩ := log_cases hlog
    · have hnacc : ¬ r.Accepted s₁.level := fun hacc => hno ⟨h.level ▸ hacc, h.path ▸ hpath⟩
      have hl : (Label.log r : Label W).accepted s₁.level = none := if_neg hnacc
      refine ⟨h.level, h.path, h.ofs, h.bad, appendsAll_skip h.appends hl rfl, fun d hd => ?_⟩
      obtain ⟨r', hr', hd'⟩ := h.daily d hd
      exact ⟨r', by simp [List.filterMap_append, hr'], hd'⟩
    · have hl : (Label.log r : Label W).accepted s₁.level = some r := if_pos (h.level ▸ hacc)
      simp only [List.filterMap_cons, hl, List.filterMap_nil] at hdate
      obtain ⟨hlogger, hcalls⟩ := writeOfs_tidy (s := { s with daily := some r.lt }) hw
        (h.ofs.trans hofs) h.bad (sink_same (h.same hdate) hsink)
      refine ⟨by rw [hlogger, ← h.level], by rw [hlogger, ← h.path], by rw [hlogger, ← h.ofs],
        by rw [hlogger]; exact h.bad, appendsAll_write h.appends hl hofs hcalls, fun d hd => ?_⟩
      rw [hlogger] at hd
      cases hd
      exact ⟨r, by simp [List.filterMap_append, hl], rfl⟩
  | setPath => exact hok.elim
  | outside =>
    refine ⟨h.level, h.path, h.ofs, h.bad, appendsAll_skip h.appends rfl rfl, fun d hd => ?_⟩
    obtain ⟨r', hr', hd'⟩ := h.daily d hd
    exact ⟨r', by simp [List.filterMap_append, hr'], hd'⟩

theorem run_oneDate (hw : F.Writes) (hpath : s₁.path ≠ .empty) (hofs : s₁.ofs = some f)
    (hbad : s₁.bad = false) (hdaily : s₁.daily = none) (h : Run (Guarded (Step F) LogOnly) s₁ ls s) :
    SameDate (ls.filterMap (Label.accepted s₁.level)) → OneDate s₁ ls s := by
  refine h.history
    (I := fun ls s => SameDate (ls.filterMap (Label.accepted s₁.level)) → OneDate s₁ ls s) ?_ ?_
  · exact fun _ => ⟨rfl, rfl, rfl, hbad, .nil s₁, by simp [hdaily]⟩
  · intro ls t l t' ih hstep hdate
    refine step_oneDate hw hpath hofs (ih fun r hr r' hr' => ?_) hstep hdate
    exact hdate r (by simp [List.filterMap_append, hr]) r' (by simp [List.filterMap_append, hr'])

-- ---------------------------------------------------------------------------
-- The single file
-- ---------------------------------------------------------------------------

theorem AppendsAll.nothing (h : AppendsAll s₁ ls s) (hcalls : s.calls = s₁.calls) :
    ls.filterMap (Label.accepted s₁.level) = [] := by
  unfold AppendsAll at h
  split at h
  · simpa [hcalls] using h
  · exact h.2

/-- After a `set_path` for a file that is not daily, the law holds exactly
until the first record. Apart from `daily_` it holds as long as all records
have one date. -/
theorem single_file (hset : (setPath F path false lt).run s₀ = (.ok (), s₁)) :
    (∀ ls s, Run (Guarded (Step F) Quiet) s₁ ls s → SingleFile s₁ ls s ∧
      ∀ r s', Step F s (.log r) s' → r.Accepted s.level → ¬ SingleFile s₁ (ls ++ [.log r]) s') ∧
      (F.Writes → path ≠ .empty → ∀ ls s, Run (Guarded (Step F) LogOnly) s₁ ls s →
        SameDate (ls.filterMap (Label.accepted s₁.level)) → AppendsAll s₁ ls s) := by
  obtain ⟨hdaily, hpath, hbad, hopen⟩ := setPath_single hset
  refine ⟨fun ls s h => ?_, fun hw hne ls s h hdate => ?_⟩
  · obtain ⟨hlogger, hcalls, hsingle⟩ := run_quiet h hdaily
    refine ⟨hsingle, fun r s' hstep hacc hsingle' => ?_⟩
    cases hstep with
    | log hlog =>
      obtain ⟨_, rfl⟩ | hd := log_daily hsingle.1 hacc hlog
      · have hnothing := hsingle'.2.nothing hcalls
        simp [List.filterMap_append, Label.accepted, ← hlogger, hacc] at hnothing
      · simp [hsingle'.1] at hd
  · obtain ⟨f, hofs⟩ := hopen hne
    exact (run_oneDate hw (hpath ▸ hne) hofs hbad hdaily h hdate).appends

theorem single_file_same_day : ∃ s₁ s : State Disk Path,
    s₁.daily = none ∧ s.calls = s₁.calls ++ [.write ⟨"log/", "app.log"⟩ ⟨jan31, .info, "a"⟩,
      .write ⟨"log/", "app.log"⟩ ⟨jan31, .error, "b"⟩] := by
  have hset : (setPath disk ⟨"log/", "app.log"⟩ false jan31).run (.initial .info fun _ => none) =
    (.ok (), _) := rfl
  have hrun : Run (Guarded (Step disk) LogOnly)
      ((setPath disk ⟨"log/", "app.log"⟩ false jan31).run (.initial .info fun _ => none)).2
      [.log ⟨jan31, .info, "a"⟩, .log ⟨jan31, .error, "b"⟩] _ :=
    .cons ⟨.log rfl, trivial⟩ <| .cons ⟨.log rfl, trivial⟩ .nil
  exact ⟨_, _, rfl, (single_file hset).2 disk_writes (by decide) _ _ hrun (by unfold SameDate; decide)⟩

/-- The second day: the file is moved away. -/
theorem single_file_rotated : ∃ s₁ ls s,
    (setPath disk ⟨"log/", "app.log"⟩ false jan31).run (.initial .info fun _ => none) = (.ok (), s₁) ∧
    Run (Guarded (Step disk) LogOnly) s₁ ls s ∧ ¬ SingleFile s₁ ls s ∧
    .rename ⟨"log/", "app.log"⟩ ⟨"log/", "app.log20240131"⟩ ∈ s.calls := by
  have hrun : Run (Guarded (Step disk) LogOnly)
      ((setPath disk ⟨"log/", "app.log"⟩ false jan31).run (.initial .info fun _ => none)).2
      [.log ⟨jan31, .info, "a"⟩, .log ⟨feb1, .info, "b"⟩] _ :=
    .cons ⟨.log rfl, trivial⟩ <| .cons ⟨.log rfl, trivial⟩ .nil
  refine ⟨_, _, _, rfl, hrun, fun h => ?_, by decide⟩
  exact nomatch (show some feb1 = none from h.1)

end Xutil.Log
