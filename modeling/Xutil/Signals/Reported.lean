import Xutil.Signals.Model

/-!
# Which signals are reported

Only `sigtimedwait` makes a call return `true`: nothing reads `interrupted_s`. A
signal that runs the handler is lost, unless the call is already on its way out
to say that there was one.
-/

namespace Xutil.Signals

open Runs

namespace Label

def exit? : Label → Option Exit
  | .leave exit => some exit
  | _ => none

def IsCall (l : Label) : Prop := ∃ timeout, l = .call timeout

def IsArrival (l : Label) : Prop := ∃ signal taken, l = .arrive signal taken

end Label

/-- How the calls of a history ended, in order. -/
def exits (ls : List Label) : List Exit := ls.filterMap Label.exit?

/-- A call is in progress. -/
def InCall (ls : List Label) : Prop := Since Label.IsCall (·.exit? = none) ls

/-- Of the next `n` calls to end one returns true. Some have not ended yet
otherwise. -/
def ReportedWithin (n : Nat) (rs : List Exit) : Prop := .returned true ∈ rs.take n ∨ rs.length < n

/-- After each arrival the next call to end returns true, or, if a call was in
progress, the next one or the one after it. -/
def NoneLost (ls : List Label) : Prop :=
  ∀ before l after, ls = before ++ l :: after → l.IsArrival →
    ReportedWithin 1 (exits after) ∨ InCall before ∧ ReportedWithin 2 (exits after)

-- ---------------------------------------------------------------------------
-- Steps
-- ---------------------------------------------------------------------------

theorem settle_termination (h : isTermination signal = true) :
    settle signal errno = some (.returned true) :=
  if_pos h

/-- The default action, which ends the process, is never taken. -/
theorem handled_run (h : Run Step (.disabled p) ls s) (hterm : isTermination signal = true) :
    s.process.handled signal = true := by
  refine h.invariant (I := fun s => s.process.handled signal = true) ?_ ?_
  · simp [State.disabled, disableSignalHandlers, Process.install, hterm]
  · intro t l t' hhandled hstep
    cases hstep <;> simp_all [handleSignal, Process.install]

/-- A call that is to return `true` does so, whatever arrives. -/
theorem Step.leaving (h : Step s l s') (hphase : s.phase = .leaving exit) :
    (l.exit? = none ∧ s'.phase = .leaving exit) ∨ l = .leave exit := by
  cases h with
  | handled => exact .inl ⟨rfl, hphase⟩
  | leave hleaving =>
    obtain rfl := Phase.leaving.inj (hphase.symm.trans hleaving)
    exact .inr rfl
  | _ h => simp_all

/-- Each arrival is taken by `sigtimedwait`, or finds the call about to return
`true`. -/
def Taken (s : State) (l : Label) : Prop :=
  ∀ signal taken, l = .arrive signal taken → taken = true ∨ s.phase = .leaving (.returned true)

theorem Step.arrives (h : Step s l s') (htaken : Taken s l) (harrival : l.IsArrival) :
    s'.phase = .leaving (.returned true) := by
  obtain ⟨signal, taken, rfl⟩ := harrival
  rcases htaken signal taken rfl with rfl | hphase
  · cases h with
    | taken hterm _ => simp [settle_termination hterm, resume]
  · obtain ⟨-, hphase⟩ | hleave := h.leaving hphase
    · exact hphase
    · cases hleave

-- ---------------------------------------------------------------------------
-- Histories
-- ---------------------------------------------------------------------------

theorem exits_snoc (ls : List Label) (l : Label) : exits (ls ++ [l]) = exits ls ++ l.exit?.toList :=
  filterMap_snoc Label.exit? ls l

/-- After each arrival the next call to end returns `true`; until then it is
about to. -/
def Settled (ls : List Label) (s : State) : Prop :=
  ∀ before l after, ls = before ++ l :: after → l.IsArrival →
    (exits after).head? = some (.returned true) ∨
      (exits after = [] ∧ s.phase = .leaving (.returned true))

theorem Settled.step (hsettled : Settled ls s) (h : Step s l s') (htaken : Taken s l) :
    Settled (ls ++ [l]) s' := by
  intro before x after hsplit harrival
  obtain ⟨rfl, rfl, rfl⟩ | ⟨init, rfl, rfl⟩ := snoc_eq_append_cons hsplit
  · exact .inr ⟨rfl, h.arrives htaken harrival⟩
  · rw [exits_snoc]
    obtain hhead | ⟨hnone, hphase⟩ := hsettled before x init rfl harrival
    · exact .inl (by rw [List.head?_append, hhead]; rfl)
    · rw [hnone]
      obtain ⟨hexit, hphase⟩ | rfl := h.leaving hphase
      · exact .inr ⟨by rw [hexit]; rfl, hphase⟩
      · exact .inl rfl

theorem settled_run (h : Run (Guarded Step Taken) s ls s') : Settled ls s' := by
  refine h.history (I := Settled) ?_ ?_
  · intro before l after hsplit
    simp at hsplit
  · rintro ls t l t' hsettled ⟨hstep, htaken⟩
    exact hsettled.step hstep htaken

theorem Settled.noneLost (h : Settled ls s) : NoneLost ls := by
  intro before l after hsplit harrival
  left
  obtain hhead | ⟨hnone, -⟩ := h before l after hsplit harrival
  · obtain ⟨rest, hrest⟩ := List.head?_eq_some_iff.mp hhead
    exact .inl (by simp [hrest])
  · exact .inr (by simp [hnone])

-- ---------------------------------------------------------------------------
-- What the handler takes is lost
-- ---------------------------------------------------------------------------

/-- The history ends between two calls, and no call has returned `true`. -/
def Quiet (s : State) (ls : List Label) (s' : State) : Prop :=
  Run Step s ls s' ∧ s'.phase = .idle ∧ .returned true ∉ exits ls

theorem Quiet.append (h : Quiet s ls s') (h' : Quiet s' ls' s'') : Quiet s (ls ++ ls') s'' := by
  obtain ⟨hrun, -, hfalse⟩ := h
  obtain ⟨hrun', hphase, hfalse'⟩ := h'
  refine ⟨hrun.trans hrun', hphase, ?_⟩
  rw [exits, List.filterMap_append, List.mem_append, not_or]
  exact ⟨hfalse, hfalse'⟩

/-- A call that times out. -/
def timedOut : List Label := [.call 0, .wait, .fail eAgain, .leave (.returned false)]

theorem quiet_timedOut (hidle : s.phase = .idle) : Quiet s timedOut ⟨s.process, .idle⟩ := by
  refine ⟨?_, rfl, by decide⟩
  exact .cons (.call hidle) <| .cons (.wait rfl) <| .cons (.fail rfl) <| .one (.leave rfl)

theorem quiet_exit (hphase : s.phase ≠ .leaving (.returned true)) :
    ∃ ls, Quiet s ls ⟨s.process, .idle⟩ := by
  cases hcase : s.phase with
  | idle =>
    obtain ⟨process, phase⟩ := s
    obtain rfl : phase = .idle := hcase
    exact ⟨[], .nil, rfl, List.not_mem_nil⟩
  | calling ts =>
    refine ⟨[.wait, .fail eAgain, .leave (.returned false)], ?_, rfl, by decide⟩
    exact .cons (.wait hcase) <| .cons (.fail rfl) <| .one (.leave rfl)
  | waiting ts =>
    refine ⟨[.fail eAgain, .leave (.returned false)], ?_, rfl, by decide⟩
    exact .cons (.fail hcase) <| .one (.leave rfl)
  | leaving exit =>
    refine ⟨[.leave exit], .one (.leave hcase), rfl, fun hmem => ?_⟩
    obtain rfl : .returned true = exit := List.mem_singleton.mp hmem
    exact hphase hcase

theorem Step.escapes (h : Step s l s') (htaken : ¬ Taken s l) :
    l.IsArrival ∧ s'.phase ≠ .leaving (.returned true) := by
  cases h with
  | handled hterm hphase _ =>
    refine ⟨⟨_, _, rfl⟩, fun hleaving => htaken ?_⟩
    exact fun _ _ _ => .inr hleaving
  | taken => exact absurd (by rintro _ _ ⟨⟩; exact .inl rfl) htaken
  | interrupts => exact ⟨⟨_, _, rfl⟩, fun h => by cases h⟩
  | _ => exact absurd (by rintro _ _ ⟨⟩) htaken

theorem not_reportedWithin {rs : List Exit} (hfalse : .returned true ∉ rs)
    (hlength : n ≤ rs.length) : ¬ ReportedWithin n rs := by
  rintro (hmem | hshort)
  · exact hfalse (List.mem_of_mem_take hmem)
  · omega

/-- Two more calls time out. -/
theorem lost (h : Step s l s') (htaken : ¬ Taken s l) (ls : List Label) :
    ∃ ls' s'', Run Step s' ls' s'' ∧ ¬ NoneLost (ls ++ l :: ls') := by
  obtain ⟨harrival, hphase⟩ := h.escapes htaken
  obtain ⟨exiting, hexit⟩ := quiet_exit hphase
  obtain ⟨hrun, -, hfalse⟩ :=
    (hexit.append (quiet_timedOut rfl)).append (quiet_timedOut rfl)
  have hlength : 2 ≤ (exits (exiting ++ timedOut ++ timedOut)).length := by
    have htimedOut : exits timedOut = [.returned false] := rfl
    simp only [exits, List.filterMap_append, List.length_append] at htimedOut ⊢
    simp only [htimedOut, List.length_singleton]
    omega
  refine ⟨_, _, hrun, fun hnone => ?_⟩
  obtain hone | ⟨-, htwo⟩ := hnone ls l _ rfl harrival
  · exact not_reportedWithin hfalse (by omega) hone
  · exact not_reportedWithin hfalse hlength htwo

/-- No signal is lost as long as all are taken by `sigtimedwait`. Any other one
may be lost. -/
theorem signals_reported (p : Process) (h : Run (Guarded Step Taken) (.disabled p) ls s) :
    NoneLost ls ∧
      ∀ l s', Step s l s' → ¬ Taken s l →
        ∃ ls' s'', Run Step s' ls' s'' ∧ ¬ NoneLost (ls ++ l :: ls') :=
  ⟨(settled_run h).noneLost, fun _ _ hstep htaken => lost hstep htaken ls⟩

theorem signals_reported_taken :
    NoneLost [.call 0, .wait, .arrive sigInt true, .leave (.returned true)] := by
  have hother (l : Label) (h : ∀ signal taken, l ≠ .arrive signal taken) (s : State) : Taken s l :=
    fun signal taken heq => absurd heq (h signal taken)
  have hrun : Run (Guarded Step Taken) (.disabled {})
      [.call 0, .wait, .arrive sigInt true, .leave (.returned true)]
      ⟨(State.disabled {}).process, .idle⟩ :=
    .cons ⟨.call rfl, hother (.call 0) nofun _⟩ <|
    .cons ⟨.wait rfl, hother .wait nofun _⟩ <|
    .cons ⟨.taken rfl rfl, fun _ _ h => .inl (Label.arrive.inj h).2.symm⟩ <|
    .one ⟨.leave rfl, hother (.leave (.returned true)) nofun _⟩
  exact (signals_reported {} hrun).1

/-- A signal between two calls, the second of which times out. -/
theorem signals_reported_between :
    ¬ ∀ p ls s, Run Step (.disabled p) ls s → NoneLost ls := by
  intro h
  have hidle : Step (.disabled {}) (.arrive sigInt false)
      ⟨handleSignal sigInt (disableSignalHandlers {}), .idle⟩ :=
    .handled rfl (fun _ => nofun) rfl
  have hquiet : Quiet ⟨handleSignal sigInt (disableSignalHandlers {}), .idle⟩ timedOut _ :=
    quiet_timedOut rfl
  obtain ⟨hrun, -, -⟩ := hquiet
  obtain (hmem | hshort) | ⟨hcall, -⟩ :=
    h {} _ _ (.cons hidle hrun) [] _ timedOut rfl ⟨_, _, rfl⟩
  · exact absurd hmem (by decide)
  · exact absurd hshort (by decide)
  · exact since_nil hcall

end Xutil.Signals
