import Xutil.Lib.Lines
import Xutil.Log.Daily
import Xutil.Log.ReadTree

/-!
# Reading the files of a daily log

A daily logger spreads its lines over a file for each stretch of a day. Read in
the order in which they have been moved away, and the current one last, the files
give back the tree of each thread, however the threads have been interleaved.
-/

namespace Xutil.Log

open Brackets Calls Lines Runs Scopes

-- ---------------------------------------------------------------------------
-- The file sink of many threads
-- ---------------------------------------------------------------------------

/-- A condition on what the file sink is asked to do. -/
def Event.Meets (ok : State W H → Label W → Prop) (s : Shared W H C) (l : Event W) : Prop :=
  ∀ l', l.label = some l' → ok s.toState l'

section Sink

variable {W H C : Type} {F : Files W H} {O : Outer C} {full : Full W H C} {s s' : Shared W H C}
  {ls : List (Event W)} {ok : State W H → Label W → Prop}

theorem Delivered.sink_step (h : Delivered F full ls s) (hopens : F.Opens)
    (hstep : Shared.Step F O s l s') :
    (∃ l', l.label = some l' ∧ Step F s.toState l' s'.toState) ∨
      l.label = none ∧ s'.toState = s.toState := by
  cases hstep with
  | accepted _ hrun => exact .inr ⟨rfl, congrArg Full.toState (accepts_cases hrun).1⟩
  | refused _ hrun => exact .inr ⟨rfl, congrArg Full.toState (accepts_cases hrun).1⟩
  | @pass part e _ _ hstage hrun =>
    obtain ⟨-, hpassed⟩ := pass_passed hrun
    obtain ⟨-, hacc, hfresh⟩ := h.owner _ _ _ hstage
    cases part with
    | file named =>
      have hlog := hpassed.file rfl (h.path hopens ▸ hfresh hopens) (h.level ▸ hacc)
      exact .inl ⟨_, rfl, .log hlog⟩
    | console => exact .inr ⟨rfl, hpassed.others (by simp [Stage.outlet])⟩
    | look => exact .inr ⟨rfl, hpassed.others (by simp [Stage.outlet])⟩
    | external => exact .inr ⟨rfl, hpassed.others (by simp [Stage.outlet])⟩
  | outside => exact .inl ⟨_, rfl, .outside⟩

/-- The file sink sees calls one after another, and each meets the condition. -/
theorem run_guarded_sink (hopens : F.Opens)
    (h : Run (Guarded (Shared.Step F O) (Event.Meets ok)) (.idle full) ls s) :
    Delivered F full ls s ∧
      Run (Guarded (Step F) ok) full.toState (ls.filterMap Event.label) s.toState := by
  refine h.history (I := fun ls s => Delivered F full ls s ∧
    Run (Guarded (Step F) ok) full.toState (ls.filterMap Event.label) s.toState)
    ⟨delivered_idle F full, .nil⟩ ?_
  rintro ls s l s' ⟨hi, hrun⟩ ⟨hstep, hmeets⟩
  refine ⟨hi.step hstep, ?_⟩
  rw [filterMap_snoc]
  obtain ⟨l', hl, hsink⟩ | ⟨hl, hsame⟩ := hi.sink_step hopens hstep
  · rw [hl]
    exact hrun.snoc ⟨hsink, hmeets l' hl⟩
  · rw [hl, hsame, Option.toList_none, List.append_nil]
    exact hrun

theorem labels_accepted {level : Level} (h : ∀ e ∈ through .file ls, e.record.Accepted level) :
    (ls.filterMap Event.label).filterMap (Label.accepted level) =
      (through .file ls).map Entry.record := by
  induction ls with
  | nil => rfl
  | cons l ls ih =>
    cases l with
    | call e => exact ih h
    | outside w => exact ih h
    | pass part e =>
      cases part with
      | console => exact ih h
      | look => exact ih h
      | external => exact ih h
      | file named =>
        obtain ⟨he, hes⟩ := List.forall_mem_cons.mp (h : ∀ e' ∈ e :: through .file ls, _)
        have hacc : (Label.log e.record : Label W).accepted level = some e.record := if_pos he
        have hthrough : through .file (.pass (.file named) e :: ls) = e :: through .file ls := rfl
        rw [hthrough, List.map_cons, ← ih hes]
        exact List.filterMap_cons_some hacc

end Sink

-- ---------------------------------------------------------------------------
-- The texts of the files
-- ---------------------------------------------------------------------------

def Disk.text (d : Disk) (path : Path) : Text :=
  unlines '\n' ((d.content path).map fun r => r.str.toList)

/-- The lines of some files, one file after another. -/
def Disk.lines (d : Disk) (paths : List Path) : List Text :=
  paths.flatMap fun path => getlines '\n' [] (d.text path)

theorem Disk.lines_eq {d : Disk} {es : List Entry} {paths : List Path}
    (hcontent : paths.flatMap d.content = es.map Entry.record)
    (hlines : ∀ e ∈ es, '\n' ∉ e.text) : d.lines paths = es.map Entry.text := by
  have hrecords : ∀ path ∈ paths, ∀ r ∈ d.content path, '\n' ∉ r.str.toList := by
    intro path hpath r hr
    have hmem : r ∈ es.map Entry.record := hcontent ▸ List.mem_flatMap.mpr ⟨path, hpath, hr⟩
    obtain ⟨e, he, rfl⟩ := List.mem_map.mp hmem
    simpa [Entry.record] using hlines e he
  have hfile : ∀ path ∈ paths, getlines '\n' [] (d.text path) =
      (d.content path).map fun r => r.str.toList := by
    intro path hpath
    refine getlines_unlines '\n' fun l hl => ?_
    obtain ⟨r, hr, rfl⟩ := List.mem_map.mp hl
    exact hrecords path hpath r hr
  calc
    d.lines paths = paths.flatMap fun path => (d.content path).map fun r => r.str.toList :=
      List.flatMap_congr hfile
    _ = (paths.flatMap d.content).map fun r => r.str.toList := List.map_flatMap.symm
    _ = es.map Entry.text := by
      rw [hcontent, List.map_map]
      exact List.map_congr_left (by simp [Entry.record])

variable {C ε σ : Type} {O : Outer C} {full : Full Disk Path C} {s : Shared Disk Path C}
  {ls : List (Event Disk)}

def logFile : Path := ⟨"log/", "app.log"⟩

def midnight : Time := ⟨feb1, 0, 20, 1, 32400, 60, by decide, by decide, by decide, by decide⟩

def working : Program Unit Unit :=
  .tracer "a".toList .info entry (.setResult 0 .leaf ['7'] .done) .done

/-- The day ends inside the scope. -/
def overnight : List (Event Disk) :=
  delivery true (entryOf 1 .info ">>>a") ++
    delivery true ⟨midnight, .info, 1, some entry, "<<<(7)".toList⟩

def loggingDaily : State Disk Path := ((setPath disk logFile true jan31).run Full.sample.toState).2

end Xutil.Log
