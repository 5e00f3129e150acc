import Xutil.Log.Disk
import Xutil.Log.Sink
import Xutil.Loggers.Model

/-!
# The registry as a map

Which tags are registered is told by the calls that have succeeded. A tag is
`Added` if the last of them that adds or removes it adds it. The empty tag needs
none.
-/

namespace Xutil.Loggers

open Calls Runs
open Log hiding State Label Step

variable {W H : Type} {F : Files W H}

def Adds (tag : String) : Label → Prop
  | .add tag' _ (.ok ()) => tag' = tag
  | _ => False

def Removes (tag : String) : Label → Prop
  | .remove tag' (.ok ()) => tag' = tag
  | _ => False

def Added (ls : List Label) (tag : String) : Prop := Since (Adds tag) (¬ Removes tag ·) ls

/-- `logger(tag)` has returned the object `n`, and the tag has not been removed
since. -/
def Returned (ls : List Label) (tag : String) (n : Nat) : Prop :=
  Since (· = .logger tag (.ok n)) (¬ Removes tag ·) ls

/-- The log file can be opened, or there is none to open. -/
def Opens (F : Files W H) (a : Arguments) (world : W) : Prop :=
  a.path = .empty ∨ ∃ f w, F.openApp a.path world = (some f, w)

-- ---------------------------------------------------------------------------
-- With the mutex
-- ---------------------------------------------------------------------------

theorem setPath_initial (h : (setPath F path false lt).run (.initial level world) = (r, t)) :
    (openLogfile F path none).run (.initial level world) = (r, t) := by
  have hsame : ¬ (Log.State.closed F (.initial level world)).Outdated lt := by
    rintro ⟨_, hdaily, -⟩
    cases hdaily
  rw [setPath, Call.run_bind_ok (run_closeOfs _), Call.run_bind_ok (needsRotation_same hsame)] at h
  exact h

theorem makeLogger_cases (h : (makeLogger F a).run s = (r, s')) :
    (Opens F a s.world ∧ (∃ l, r = .ok l) ∧ s'.loggers = s.loggers) ∨
    (¬ Opens F a s.world ∧ (∃ e, r = .error e) ∧ s'.loggers = s.loggers) := by
  simp only [makeLogger, Call.run] at h
  rcases hset : (setPath F a.path false a.lt).run (.initial a.level s.world) with ⟨o, t⟩
  have hopen := openLogfile_cases rfl (setPath_initial hset)
  rw [Call.run] at hset
  rw [hset] at h
  obtain ⟨hpath, rfl, -⟩ | ⟨-, f, w, hf, rfl, -⟩ | ⟨hpath, w, hf, ⟨e, rfl⟩, -⟩ := hopen <;> cases h
  · exact .inl ⟨.inl hpath, ⟨_, rfl⟩, rfl⟩
  · exact .inl ⟨.inr ⟨f, w, hf⟩, ⟨_, rfl⟩, rfl⟩
  · refine .inr ⟨?_, ⟨_, rfl⟩, rfl⟩
    rintro (hempty | ⟨f', w', hf'⟩)
    · exact hpath hempty
    · cases hf.symm.trans hf'

theorem insertLogger_cases (h : (insertLogger F tag a).run s = (r, s')) :
    ((tag ∈ s.tags ∨ ¬ Opens F a s.world) ∧ (∃ e, r = .error e) ∧ s'.tags = s.tags) ∨
    (tag ∉ s.tags ∧ Opens F a s.world ∧ r = .ok () ∧ ∃ l, s'.tags = s.tags.insert tag l) := by
  by_cases htag : tag ∈ s.tags
  · simp only [insertLogger, Call.run_bind, Call.run_get, if_pos htag] at h
    cases h
    exact .inl ⟨.inl htag, ⟨_, rfl⟩, rfl⟩
  · simp only [insertLogger, Call.run_bind, Call.run_get, if_neg htag] at h
    rcases hmake : (makeLogger F a).run s with ⟨o, t⟩
    obtain ⟨hopens, ⟨l, rfl⟩, hloggers⟩ | ⟨hno, ⟨e, rfl⟩, hloggers⟩ := makeLogger_cases hmake
    · simp only [hmake, Call.run_modify] at h
      cases h
      refine .inr ⟨htag, hopens, rfl, l, ?_⟩
      simp [Registry.tags, Registry.insert, hloggers]
    · simp only [hmake] at h
      cases h
      refine .inl ⟨.inr hno, ⟨e, rfl⟩, ?_⟩
      simp [Registry.tags, hloggers]

theorem eraseLogger_cases (h : (eraseLogger F tag).run s = (r, s')) :
    (tag ∉ s.tags ∧ r = .error (.invalidArgument "") ∧ s' = s) ∨
    (tag ∈ s.tags ∧ r = .ok () ∧ s'.tags = s.tags.erase tag) := by
  simp only [eraseLogger, Call.run_bind, Call.run_get] at h
  split at h
  · rename_i hlookup
    cases h
    exact .inl ⟨AList.lookup_eq_none.mp hlookup, rfl, rfl⟩
  · rename_i hlookup
    cases h
    exact .inr ⟨AList.lookup_isSome.mp (by simp [hlookup]), rfl, rfl⟩

theorem findLogger_cases (h : (findLogger tag).run s = (r, s')) :
    (tag ∉ s.tags ∧ r = .error (.invalidArgument "") ∧ s' = s) ∨
    (∃ l : Object H, s.tags.lookup tag = some l ∧ r = .ok l.serial ∧ s' = s) := by
  simp only [findLogger, Call.run_bind, Call.run_get] at h
  split at h
  · rename_i hlookup
    cases h
    exact .inl ⟨AList.lookup_eq_none.mp hlookup, rfl, rfl⟩
  · rename_i l hlookup
    cases h
    exact .inr ⟨l, hlookup, rfl, rfl⟩

-- ---------------------------------------------------------------------------
-- Whole calls
-- ---------------------------------------------------------------------------

theorem addLogger_cases (h : addLogger F tag a s = some (r, s')) :
    (tag = "" ∧ (∃ e, r = .error e) ∧ s' = s) ∨
    (tag ≠ "" ∧ s.once = true ∧ s'.once = true ∧
      (insertLogger F tag a).run s.toRegistry = (r, s'.toRegistry)) := by
  unfold addLogger at h
  split at h
  · rename_i htag
    cases h
    exact .inl ⟨htag, ⟨_, rfl⟩, rfl⟩
  · rename_i htag
    split at h
    · rename_i honce
      cases h
      exact .inr ⟨htag, honce, honce, rfl⟩
    · cases h

theorem addLogger_returns (F : Files W H) (tag : String) (a : Arguments) (h : s.once = true) :
    ∃ r s', addLogger F tag a s = some (r, s') := by
  unfold addLogger
  split
  · exact ⟨_, _, rfl⟩
  · exact ⟨_, _, rfl⟩

theorem removeLogger_cases (h : removeLogger F tag s = (r, s')) :
    (tag = "" ∧ r = .error (.invalidArgument "") ∧ s' = s) ∨
    (tag ≠ "" ∧ s'.once = (callOnce s).once ∧
      (eraseLogger F tag).run (callOnce s).toRegistry = (r, s'.toRegistry)) := by
  unfold removeLogger at h
  split at h
  · rename_i htag
    cases h
    exact .inl ⟨htag, rfl, rfl⟩
  · rename_i htag
    cases h
    exact .inr ⟨htag, rfl, rfl⟩

theorem logger_cases (h : Loggers.logger tag s = (r, s')) :
    s'.once = (callOnce s).once ∧
      (findLogger tag).run (callOnce s).toRegistry = (r, s'.toRegistry) := by
  cases h
  exact ⟨rfl, rfl⟩

theorem callOnce_of_once (h : s.once = true) : callOnce s = s := if_pos h

theorem callOnce_once (s : State W H) : (callOnce s).once = true := by
  unfold callOnce
  split
  · assumption
  · rfl

-- ---------------------------------------------------------------------------
-- Runs
-- ---------------------------------------------------------------------------

structure Tracked (ls : List Label) (s : State W H) : Prop where
  once : s.once = true
  tags : ∀ tag, tag ∈ s.tags ↔ tag = "" ∨ Added ls tag
  same : ∀ tag n, Returned ls tag n → ∃ l, s.tags.lookup tag = some l ∧ l.serial = n

theorem initial_tracked (world : W) : Tracked [] (callOnce (.initial (H := H) world)) where
  once := rfl
  tags tag := by
    have htags : (callOnce (.initial (H := H) world)).tags =
        (∅ : LoggerMap H).insert "" ⟨{ level := .info }, 0, "", true⟩ := rfl
    rw [htags, AList.mem_insert]
    simp [Added]
  same tag n h := absurd h since_nil

theorem Tracked.unchanged {s s' : State W H} (h : Tracked ls s) (hadds : ∀ tag, ¬ Adds tag l)
    (hremoves : ∀ tag, ¬ Removes tag l) (honce : s'.once = true) (htags : s'.tags = s.tags)
    (hlogger : ∀ tag n, l = .logger tag (.ok n) → ∃ o, s.tags.lookup tag = some o ∧ o.serial = n) :
    Tracked (ls ++ [l]) s' where
  once := honce
  tags tag := by
    rw [htags, h.tags, Added, Added, since_snoc]
    simp [hadds, hremoves]
  same tag n hreturned := by
    rw [htags]
    rcases since_snoc.mp hreturned with hl | ⟨hold, -⟩
    · exact hlogger tag n hl
    · exact h.same tag n hold

theorem Tracked.inserted {s s' : State W H} (h : Tracked ls s) (honce : s'.once = true)
    (hnew : tag ∉ s.tags) (htags : s'.tags = s.tags.insert tag o) :
    Tracked (ls ++ [.add tag a (.ok ())]) s' where
  once := honce
  tags tag' := by
    rw [htags, AList.mem_insert, h.tags, Added, Added, since_snoc]
    simp [Adds, Removes, eq_comm, or_left_comm]
  same tag' n hreturned := by
    rcases since_snoc.mp hreturned with hl | ⟨hold, -⟩
    · cases hl
    · obtain ⟨l, hl, hserial⟩ := h.same tag' n hold
      have hne : tag' ≠ tag := by
        rintro rfl
        exact hnew (AList.lookup_isSome.mp (by simp [hl]))
      exact ⟨l, by rw [htags, AList.lookup_insert_ne hne, hl], hserial⟩

theorem Tracked.erased {s s' : State W H} (h : Tracked ls s) (honce : s'.once = true) (hne : tag ≠ "")
    (htags : s'.tags = s.tags.erase tag) : Tracked (ls ++ [.remove tag (.ok ())]) s' where
  once := honce
  tags tag' := by
    rw [htags, AList.mem_erase, h.tags, Added, Added, since_snoc]
    by_cases htag : tag' = tag
    · simp [htag, Adds, Removes, hne]
    · simp [htag, Adds, Removes, Ne.symm htag]
  same tag' n hreturned := by
    rcases since_snoc.mp hreturned with hl | ⟨hold, hkept⟩
    · cases hl
    · obtain ⟨l, hl, hserial⟩ := h.same tag' n hold
      have htag : tag' ≠ tag := fun heq => hkept heq.symm
      exact ⟨l, by rw [htags, AList.lookup_erase_ne htag, hl], hserial⟩

theorem step_tracked {s s' : State W H} (h : Tracked ls s) (hstep : Step F s l s') :
    Tracked (ls ++ [l]) s' := by
  cases hstep with
  | add hrun =>
    obtain ⟨-, ⟨e, rfl⟩, rfl⟩ | ⟨-, -, honce, hrun⟩ := addLogger_cases hrun
    · exact h.unchanged (fun _ => id) (fun _ => id) h.once rfl nofun
    · obtain ⟨-, ⟨e, rfl⟩, htags⟩ | ⟨hnew, -, rfl, o, htags⟩ := insertLogger_cases hrun
      · exact h.unchanged (fun _ => id) (fun _ => id) honce htags nofun
      · exact h.inserted honce hnew htags
  | remove hrun =>
    obtain ⟨-, rfl, rfl⟩ | ⟨hne, honce, hrun⟩ := removeLogger_cases hrun
    · exact h.unchanged (fun _ => id) (fun _ => id) h.once rfl nofun
    · rw [callOnce_of_once h.once] at hrun honce
      obtain ⟨-, rfl, hsame⟩ | ⟨-, rfl, htags⟩ := eraseLogger_cases hrun
      · exact h.unchanged (fun _ => id) (fun _ => id) (honce.trans h.once) (congrArg _ hsame) nofun
      · exact h.erased (honce.trans h.once) hne htags
  | logger hrun =>
    obtain ⟨honce, hrun⟩ := logger_cases hrun
    rw [callOnce_of_once h.once] at hrun honce
    obtain ⟨-, rfl, hsame⟩ | ⟨o, hlookup, rfl, hsame⟩ := findLogger_cases hrun
    · exact h.unchanged (fun _ => id) (fun _ => id) (honce.trans h.once) (congrArg _ hsame) nofun
    · refine h.unchanged (fun _ => id) (fun _ => id) (honce.trans h.once) (congrArg _ hsame) ?_
      rintro tag n ⟨⟩
      exact ⟨o, hlookup, rfl⟩

def Label.IsLogger : Label → Prop
  | .logger .. => True
  | _ => False

theorem Label.IsLogger.callOnce {l : Label} (h : l.IsLogger) (hstep : Step F s l s') :
    Step F (callOnce s) l s' := by
  cases hstep with
  | add => exact h.elim
  | remove => exact h.elim
  | logger hrun =>
    refine .logger ?_
    rwa [Loggers.logger, callOnce_of_once (callOnce_once s)]

theorem run_cases {s : State W H} (h : Run (Step F) (.initial world) ls s)
    (hfirst : ∀ l ∈ ls.head?, l.IsLogger) : (ls = [] ∧ s = .initial world) ∨ Tracked ls s := by
  cases ls with
  | nil =>
    generalize hls : ([] : List Label) = ls at h
    cases h with
    | nil => exact .inl ⟨rfl, rfl⟩
    | snoc => simp at hls
  | cons l ls =>
    obtain ⟨s₁, hstep, hrest⟩ := h.head
    have hrun : Run (Step F) (callOnce (.initial world)) (l :: ls) s :=
      .cons ((hfirst l rfl).callOnce hstep) hrest
    exact .inr (hrun.history (initial_tracked world) step_tracked)

/-- Before the first call the registry is as good as created. -/
theorem run_tracked {s : State W H} (h : Run (Step F) (.initial world) ls s)
    (hfirst : ∀ l ∈ ls.head?, l.IsLogger) : Tracked ls (callOnce s) := by
  obtain ⟨rfl, rfl⟩ | htracked := run_cases h hfirst
  · exact initial_tracked world
  · rwa [callOnce_of_once htracked.once]

theorem callOnce_lookup (s : State W H) (tag : String) :
    (callOnce s).tags.lookup tag = s.tags.lookup tag ∨ (s.once = false ∧ tag = "") := by
  unfold callOnce
  split
  · exact .inl rfl
  · rename_i honce
    by_cases htag : tag = ""
    · exact .inr ⟨by simpa using honce, htag⟩
    · left
      unfold initialise
      split
      · rfl
      · exact AList.lookup_insert_ne htag

def Label.Threw : Label → Prop
  | .add _ _ r => ∃ e, r = .error e
  | .remove _ r => ∃ e, r = .error e
  | .logger _ r => ∃ e, r = .error e

theorem threw_lookup {s s' : State W H} (hstep : Step F s l s') (hthrew : l.Threw) (tag : String) :
    s'.tags.lookup tag = s.tags.lookup tag ∨ (s.once = false ∧ tag = "") := by
  cases hstep with
  | add hrun =>
    obtain ⟨e, rfl⟩ := hthrew
    obtain ⟨-, -, rfl⟩ | ⟨-, -, -, hrun⟩ := addLogger_cases hrun
    · exact .inl rfl
    · obtain ⟨-, -, htags⟩ | ⟨-, -, hr, -⟩ := insertLogger_cases hrun
      · exact .inl (congrArg _ htags)
      · cases hr
  | remove hrun =>
    obtain ⟨e, rfl⟩ := hthrew
    obtain ⟨-, -, rfl⟩ | ⟨-, -, hrun⟩ := removeLogger_cases hrun
    · exact .inl rfl
    · obtain ⟨-, -, hsame⟩ | ⟨-, hr, -⟩ := eraseLogger_cases hrun
      · rw [hsame]
        exact callOnce_lookup s tag
      · cases hr
  | logger hrun =>
    obtain ⟨e, rfl⟩ := hthrew
    obtain ⟨-, hrun⟩ := logger_cases hrun
    obtain ⟨-, -, hsame⟩ | ⟨_, -, hr, -⟩ := findLogger_cases hrun
    · rw [hsame]
      exact callOnce_lookup s tag
    · cases hr

-- ---------------------------------------------------------------------------
-- What succeeds
-- ---------------------------------------------------------------------------

theorem Tracked.logger {s s' : State W H} (h : Tracked ls (callOnce s))
    (hrun : Loggers.logger tag s = (r, s')) :
    (tag = "" ∨ Added ls tag → ∃ n, r = .ok n ∧ ∀ n', Returned ls tag n' → n = n') ∧
      (¬ (tag = "" ∨ Added ls tag) → r = .error (.invalidArgument "")) := by
  obtain ⟨-, hrun⟩ := logger_cases hrun
  rw [← h.tags]
  obtain ⟨hno, rfl, -⟩ | ⟨o, hlookup, rfl, -⟩ := findLogger_cases hrun
  · exact ⟨fun hmem => absurd hmem hno, fun _ => rfl⟩
  · refine ⟨fun _ => ⟨o.serial, rfl, fun n' hn => ?_⟩, fun hno => ?_⟩
    · obtain ⟨o', hlookup', rfl⟩ := h.same tag n' hn
      cases hlookup.symm.trans hlookup'
      rfl
    · exact absurd (AList.lookup_isSome.mp (by simp [hlookup])) hno

theorem Tracked.addLogger {s : State W H} (h : Tracked ls s) (F : Files W H) (tag : String)
    (a : Arguments) : ∃ r s', Loggers.addLogger F tag a s = some (r, s') ∧
      (r = .ok () ↔ tag ≠ "" ∧ ¬ Added ls tag ∧ Opens F a s.world) := by
  obtain ⟨r, s', hrun⟩ := addLogger_returns F tag a h.once
  refine ⟨r, s', hrun, ?_⟩
  obtain ⟨rfl, ⟨e, rfl⟩, -⟩ | ⟨htag, -, -, hrun⟩ := addLogger_cases hrun
  · simp
  · have hmem : tag ∈ s.tags ↔ Added ls tag := by simp [h.tags, htag]
    obtain ⟨hno, ⟨e, rfl⟩, -⟩ | ⟨hnew, hopens, rfl, -⟩ := insertLogger_cases hrun
    · simp only [reduceCtorEq, false_iff, ← hmem]
      rintro ⟨-, hnew, hopens⟩
      exact hno.elim hnew fun hclosed => hclosed hopens
    · simp [htag, ← hmem, hnew, hopens]

theorem Tracked.removeLogger {s s' : State W H} (h : Tracked ls (callOnce s))
    (hrun : Loggers.removeLogger F tag s = (r, s')) : r = .ok () ↔ tag ≠ "" ∧ Added ls tag := by
  obtain ⟨rfl, rfl, -⟩ | ⟨htag, -, hrun⟩ := removeLogger_cases hrun
  · simp
  · have hmem : tag ∈ (callOnce s).tags ↔ Added ls tag := by simp [h.tags, htag]
    obtain ⟨hno, rfl, -⟩ | ⟨hyes, rfl, -⟩ := eraseLogger_cases hrun
    · simp [htag, ← hmem, hno]
    · simp [htag, ← hmem, hyes]

/-- In a run whose first call is `logger`, `logger(tag)` succeeds if and only if
the tag is empty or added, always with the same object until it is removed.
`add_logger` succeeds, once the run has begun, if and only if the tag is neither
and its file opens, `remove_logger` if and only if the tag is added. A call that
throws changes no entry, but the first one may create the default. -/
theorem logger_registry {s : State W H} (h : Run (Step F) (.initial world) ls s)
    (hfirst : ∀ l ∈ ls.head?, l.IsLogger) :
    (∀ tag r s', Step F s (.logger tag r) s' →
      (tag = "" ∨ Added ls tag → ∃ n, r = .ok n ∧ ∀ n', Returned ls tag n' → n = n') ∧
      (¬ (tag = "" ∨ Added ls tag) → r = .error (.invalidArgument ""))) ∧
    (ls ≠ [] → ∀ tag a, ∃ r s', addLogger F tag a s = some (r, s') ∧
      (r = .ok () ↔ tag ≠ "" ∧ ¬ Added ls tag ∧ Opens F a s.world)) ∧
    (∀ tag r s', Step F s (.remove tag r) s' → (r = .ok () ↔ tag ≠ "" ∧ Added ls tag)) ∧
    ∀ l s', Step F s l s' → l.Threw → ∀ tag,
      s'.tags.lookup tag = s.tags.lookup tag ∨ (ls = [] ∧ tag = "") := by
  have htracked := run_tracked h hfirst
  refine ⟨?_, ?_, ?_, ?_⟩
  · intro tag r s' hstep
    cases hstep with
    | logger hrun => exact htracked.logger hrun
  · intro hne tag a
    obtain ⟨hnil, -⟩ | hold := run_cases h hfirst
    · exact absurd hnil hne
    · exact hold.addLogger F tag a
  · intro tag r s' hstep
    cases hstep with
    | remove hrun => exact htracked.removeLogger hrun
  · intro l s' hstep hthrew tag
    obtain ⟨rfl, -⟩ | hold := run_cases h hfirst
    · exact (threw_lookup hstep hthrew tag).imp_right fun ⟨_, htag⟩ => ⟨rfl, htag⟩
    · refine (threw_lookup hstep hthrew tag).imp_right fun ⟨honce, _⟩ => ?_
      cases hold.once.symm.trans honce

def someLogger : Arguments := ⟨.info, .empty, "", false, jan31⟩

/-- The default logger, then one that is added. -/
theorem logger_registry_tag : ∃ ls, ∃ s s' : State Disk Path, ∃ n,
    Run (Step disk) (.initial fun _ => none) ls s ∧ Added ls "tag" ∧
    Step disk s (.logger "tag" (.ok n)) s' := by
  obtain ⟨s, hrun⟩ : ∃ s : State Disk Path, Run (Step disk) (.initial fun _ => none)
      [.logger "" (.ok 0), .add "tag" someLogger (.ok ())] s :=
    ⟨_, .cons (.logger rfl) <| .cons (.add rfl) .nil⟩
  have hadded : Added [.logger "" (.ok 0), .add "tag" someLogger (.ok ())] "tag" :=
    ⟨[_], _, [], rfl, rfl, by simp⟩
  have hstep : Step disk s (.logger "tag" _) (logger "tag" s).2 := .logger rfl
  obtain ⟨hlogger, -⟩ := logger_registry hrun (by simp [Label.IsLogger])
  obtain ⟨n, hr, -⟩ := (hlogger _ _ _ hstep).1 (.inr hadded)
  exact ⟨_, s, _, n, hrun, hadded, hr ▸ hstep⟩

end Xutil.Loggers
