import Xutil.Signals.Reported

/-!
# Signals on Windows

There `wait_for_signals` sleeps and then looks at `interrupted_s`, which a
handler sets at any time. What the handler takes is not lost, unless it falls
between the look and the clearing: nobody "takes care of exclusive control".
The laws are those of the other branch.
-/

namespace Xutil.Signals.Windows

open Runs

-- ---------------------------------------------------------------------------
-- The handler
-- ---------------------------------------------------------------------------

def isTermination (signal : Int) : Bool := signal == sigInt || signal == sigTerm

def install (p : Process) : Process :=
  { p with handled := fun signal => isTermination signal || p.handled signal }

def handleSignal (signal : Int) (p : Process) : Process :=
  install { p with interrupted := isTermination signal || p.interrupted }

def disableSignalHandlers (p : Process) : Process := install p

-- ---------------------------------------------------------------------------
-- `wait_for_signals`
-- ---------------------------------------------------------------------------

/-- Where the thread is: between two calls, in a call, in `sleep_for`, past it,
with what it has seen of `interrupted_s`, or on its way out with that. -/
inductive Phase
  | idle
  | calling
  | sleeping
  | awake
  | looked (interrupted : Bool)
  | leaving (interrupted : Bool)
  deriving Repr, DecidableEq

structure State where
  process : Process
  phase : Phase

/-- After `disable_signal_handlers`. -/
def State.disabled (p : Process) : State := ⟨disableSignalHandlers p, .idle⟩

/-- All that a call does before it ends is a `wait`. The handler has installed
itself again before the next signal arrives. -/
inductive Step (s : State) : Label → State → Prop
  | call : s.phase = .idle → Step s (.call timeout) { s with phase := .calling }
  | test : s.phase = .calling →
      Step s .wait { s with phase := if s.process.interrupted then .awake else .sleeping }
  | sleep : s.phase = .sleeping → Step s .wait { s with phase := .awake }
  | look : s.phase = .awake → Step s .wait { s with phase := .looked s.process.interrupted }
  | clear : s.phase = .looked seen →
      Step s .wait ⟨{ s.process with interrupted := false }, .leaving seen⟩
  | leave : s.phase = .leaving seen → Step s (.leave (.returned seen)) { s with phase := .idle }
  | handled : isTermination signal = true → s.process.handled signal = true →
      Step s (.arrive signal false) { s with process := handleSignal signal s.process }

-- ---------------------------------------------------------------------------
-- What is about to be reported
-- ---------------------------------------------------------------------------

/-- The next call to end returns `true`. -/
def State.Promised (s : State) : Prop :=
  match s.phase with
  | .looked seen | .leaving seen => seen = true
  | _ => s.process.interrupted = true

/-- How many calls have to end until one of them returns `true`. -/
inductive Due (s : State) : Nat → Prop
  | next : s.Promised → Due s 1
  | second : s.phase = .leaving false → s.process.interrupted = true → Due s 2

theorem Step.promised (h : Step s l s') (hs : s.Promised) :
    (l.exit? = none ∧ s'.Promised) ∨ l = .leave (.returned true) := by
  cases h with
  | leave hphase =>
    simp only [State.Promised, hphase] at hs
    exact .inr (hs ▸ rfl)
  | test hphase =>
    simp only [State.Promised, hphase] at hs
    exact .inl ⟨rfl, by simp [State.Promised, hs]⟩
  | handled hterm _ =>
    refine .inl ⟨rfl, ?_⟩
    cases hphase : s.phase <;>
      simp_all [State.Promised, handleSignal, install]
  | call hphase | sleep hphase | look hphase | clear hphase =>
    simp only [State.Promised, hphase] at hs
    exact .inl ⟨rfl, hs⟩

theorem Step.due (h : Step s l s') (hs : Due s n) :
    (l.exit? = none ∧ Due s' n) ∨ l.exit? = some (.returned true) ∨
      ∃ m, n = m + 1 ∧ Due s' m ∧ l.exit? = some (.returned false) := by
  cases hs with
  | next hpromised =>
    obtain ⟨hexit, hs'⟩ | rfl := h.promised hpromised
    · exact .inl ⟨hexit, .next hs'⟩
    · exact .inr (.inl rfl)
  | second hphase hinterrupted =>
    cases h with
    | leave hleaving =>
      obtain rfl := Phase.leaving.inj (hphase.symm.trans hleaving)
      exact .inr (.inr ⟨1, rfl, .next hinterrupted, rfl⟩)
    | handled hterm _ =>
      exact .inl ⟨rfl, .second hphase (by simp [handleSignal, install, hterm])⟩
    | _ h => simp_all

/-- No signal arrives between a look that has seen nothing and the clearing. -/
def Seen (s : State) (l : Label) : Prop := l.IsArrival → s.phase ≠ .looked false

theorem Step.arrives (h : Step s l s') (hseen : Seen s l) (harrival : l.IsArrival) :
    Due s' 1 ∨ s.phase = .leaving false ∧ Due s' 2 := by
  have hlooked := hseen harrival
  obtain ⟨signal, taken, rfl⟩ := harrival
  cases h with
  | handled hterm _ =>
    have hinterrupted : (handleSignal signal s.process).interrupted = true := by
      simp [handleSignal, install, hterm]
    cases hphase : s.phase with
    | leaving seen =>
      cases seen with
      | true => exact .inl (.next rfl)
      | false => exact .inr ⟨rfl, .second rfl hinterrupted⟩
    | looked seen =>
      cases seen with
      | true => exact .inl (.next rfl)
      | false => exact absurd hphase hlooked
    | _ => exact .inl (.next hinterrupted)

-- ---------------------------------------------------------------------------
-- Histories
-- ---------------------------------------------------------------------------

/-- A call that is in progress has begun. -/
theorem inCall_step (h : s.phase ≠ .idle → InCall ls) (hstep : Step s l s') :
    s'.phase ≠ .idle → InCall (ls ++ [l]) := by
  intro hphase
  rw [InCall, since_snoc]
  cases hstep with
  | call => exact .inl ⟨_, rfl⟩
  | leave => exact absurd rfl hphase
  | handled => exact .inr ⟨h hphase, rfl⟩
  | test hold | sleep hold | look hold | clear hold => exact .inr ⟨h (by simp [hold]), rfl⟩

/-- Of the `n` calls that end after an arrival one has returned `true`, or it is
still due. -/
def Reported (n : Nat) (rs : List Exit) (s : State) : Prop :=
  .returned true ∈ rs.take n ∨ ∃ k, rs.length + k = n ∧ Due s k

theorem Due.pos (h : Due s n) : 0 < n := by
  cases h <;> decide

theorem Reported.within (h : Reported n rs s) : ReportedWithin n rs := by
  obtain hmem | ⟨k, hlength, hdue⟩ := h
  · exact .inl hmem
  · have hpos := hdue.pos
    exact .inr (by omega)

theorem Reported.step (h : Reported n (exits ls) s) (hstep : Step s l s') :
    Reported n (exits (ls ++ [l])) s' := by
  rw [exits_snoc]
  obtain hmem | ⟨k, hlength, hdue⟩ := h
  · exact .inl (List.take_append ▸ List.mem_append_left _ hmem)
  · have hpos := hdue.pos
    obtain ⟨hexit, hdue'⟩ | hexit | ⟨m, rfl, hdue', hexit⟩ := hstep.due hdue
    · exact .inr ⟨k, by simpa [hexit] using hlength, hdue'⟩
    · obtain ⟨m, rfl⟩ : ∃ m, k = m + 1 := ⟨k - 1, by omega⟩
      have hk : n - (exits ls).length = m + 1 := by omega
      refine .inl ?_
      rw [hexit, List.take_append, hk, List.mem_append]
      exact .inr (by simp)
    · exact .inr ⟨m, by simp [hexit]; omega, hdue'⟩

/-- Each arrival is reported by the next call to end, or, if a call was in
progress, by the one after it. -/
def Settled (ls : List Label) (s : State) : Prop :=
  ∀ before l after, ls = before ++ l :: after → l.IsArrival →
    Reported 1 (exits after) s ∨ InCall before ∧ Reported 2 (exits after) s

theorem Settled.step (hcall : s.phase ≠ .idle → InCall ls) (hsettled : Settled ls s)
    (h : Step s l s') (hseen : Seen s l) : Settled (ls ++ [l]) s' := by
  intro before x after hsplit harrival
  obtain ⟨rfl, rfl, rfl⟩ | ⟨init, rfl, rfl⟩ := snoc_eq_append_cons hsplit
  · obtain hdue | ⟨hphase, hdue⟩ := h.arrives hseen harrival
    · exact .inl (.inr ⟨1, rfl, hdue⟩)
    · exact .inr ⟨hcall (by simp [hphase]), .inr ⟨2, rfl, hdue⟩⟩
  · obtain hone | ⟨hin, htwo⟩ := hsettled before x init rfl harrival
    · exact .inl (hone.step h)
    · exact .inr ⟨hin, htwo.step h⟩

theorem settled_run (h : Run (Guarded Step Seen) (.disabled p) ls s) : Settled ls s := by
  refine (h.history (I := fun ls s => (s.phase ≠ .idle → InCall ls) ∧ Settled ls s) ?_ ?_).2
  · refine ⟨fun hphase => absurd rfl hphase, fun before l after hsplit => ?_⟩
    simp at hsplit
  · rintro ls t l t' ⟨hcall, hsettled⟩ ⟨hstep, hseen⟩
    exact ⟨inCall_step hcall hstep, hsettled.step hcall hstep hseen⟩

-- ---------------------------------------------------------------------------
-- What falls between the look and the clearing is lost
-- ---------------------------------------------------------------------------

/-- The call ends, and another one that sees nothing. -/
def missed : List Label :=
  [.wait, .leave (.returned false), .call 0, .wait, .wait, .wait, .wait, .leave (.returned false)]

theorem run_missed (h : s.phase = .looked false) : ∃ s', Run Step s missed s' :=
  ⟨_, .cons (.clear h) <| .cons (.leave rfl) <| .cons (.call rfl) <| .cons (.test rfl) <|
    .cons (.sleep rfl) <| .cons (.look rfl) <| .cons (.clear rfl) <| .one (.leave rfl)⟩

theorem lost (h : Step s l s') (hseen : ¬ Seen s l) (ls : List Label) :
    ∃ ls' s'', Run Step s' ls' s'' ∧ ¬ NoneLost (ls ++ l :: ls') := by
  simp only [Seen, Classical.not_imp, not_not] at hseen
  obtain ⟨harrival, hphase⟩ := hseen
  have hphase' : s'.phase = .looked false := by
    obtain ⟨signal, taken, rfl⟩ := harrival
    cases h
    exact hphase
  obtain ⟨s'', hrun⟩ := run_missed hphase'
  refine ⟨missed, s'', hrun, fun hnone => ?_⟩
  obtain hone | ⟨-, htwo⟩ := hnone ls l missed rfl harrival
  · exact not_reportedWithin (by decide) (by decide) hone
  · exact not_reportedWithin (by decide) (by decide) htwo

-- ---------------------------------------------------------------------------
-- What is reported has happened
-- ---------------------------------------------------------------------------

def isArrival : Label → Bool
  | .arrive .. => true
  | _ => false

def isReport : Label → Bool
  | .leave (.returned true) => true
  | _ => false

/-- The signals that have been seen or noted and not yet been reported. While
they have only been seen, those noted are the same. -/
def State.stored (s : State) : ℕ :=
  match s.phase with
  | .looked true => 1
  | .leaving true => 1 + s.process.interrupted.toNat
  | _ => s.process.interrupted.toNat

theorem stored_step (h : Step s l s') :
    [l].countP isReport + s'.stored ≤ s.stored + [l].countP isArrival := by
  cases h with
  | handled hterm _ =>
    obtain ⟨process, phase⟩ := s
    cases hflag : process.interrupted <;>
      rcases phase with _ | _ | _ | _ | (_ | _) | (_ | _) <;>
      simp [State.stored, isReport, isArrival, handleSignal, install, hterm, hflag]
  | call hphase | sleep hphase => simp [State.stored, isReport, isArrival, hphase]
  | test hphase | look hphase =>
    cases hflag : s.process.interrupted <;>
      simp [State.stored, isReport, isArrival, hphase, hflag]
  | @clear seen hphase | @leave seen hphase =>
    cases seen <;> simp [State.stored, isReport, isArrival, hphase]

theorem count_exits (ls : List Label) : (exits ls).count (.returned true) = ls.countP isReport := by
  induction ls with
  | nil => rfl
  | cons l ls ih =>
    have hexits : exits (l :: ls) = l.exit?.toList ++ exits ls := by cases l <;> rfl
    have hreport : l.exit?.toList.count (.returned true) = if isReport l then 1 else 0 := by
      cases l with
      | leave exit => rcases exit with (_ | _) | _ <;> rfl
      | _ => rfl
    rw [hexits, List.count_append, ih, hreport, List.countP_cons, Nat.add_comm]

theorem reports_arrived (h : Run Step (.disabled p) ls s) :
    (exits ls).count (.returned true) ≤ p.interrupted.toNat + ls.countP isArrival := by
  have hrun := h.amortized isReport isArrival State.stored stored_step
  rw [← count_exits] at hrun
  exact Nat.le_trans (Nat.le_add_right ..) hrun

/-- In every run there are no more reports than signals. No signal is lost as
long as none falls between a look that has seen nothing and the clearing. Any
such one may be lost. -/
theorem flag_reported (h : Run Step (.disabled p) ls s) :
    (exits ls).count (.returned true) ≤ p.interrupted.toNat + ls.countP isArrival ∧
      (Run (Guarded Step Seen) (.disabled p) ls s → NoneLost ls) ∧
      ∀ l s', Step s l s' → ¬ Seen s l →
        ∃ ls' s'', Run Step s' ls' s'' ∧ ¬ NoneLost (ls ++ l :: ls') := by
  refine ⟨reports_arrived h, fun hguarded before l after hsplit harrival => ?_,
    fun _ _ hstep hseen => lost hstep hseen ls⟩
  obtain hone | ⟨hin, htwo⟩ := settled_run hguarded before l after hsplit harrival
  · exact .inl hone.within
  · exact .inr ⟨hin, htwo.within⟩

/-- Between two calls nothing is lost. -/
theorem flag_reported_between : NoneLost
    [.arrive sigInt false, .call 0, .wait, .wait, .wait, .leave (.returned true)] := by
  have hother (l : Label) (h : ∀ signal taken, l ≠ .arrive signal taken) (s : State) : Seen s l :=
    fun ⟨signal, taken, heq⟩ => absurd heq (h signal taken)
  have hguarded : Run (Guarded Step Seen) (.disabled {})
      [.arrive sigInt false, .call 0, .wait, .wait, .wait, .leave (.returned true)] _ :=
    .cons ⟨.handled rfl rfl, fun _ => nofun⟩ <|
    .cons ⟨.call rfl, hother (.call 0) nofun _⟩ <|
    .cons ⟨.test rfl, hother .wait nofun _⟩ <|
    .cons ⟨.look rfl, hother .wait nofun _⟩ <|
    .cons ⟨.clear rfl, hother .wait nofun _⟩ <|
    .one ⟨.leave rfl, hother (.leave (.returned true)) nofun _⟩
  have hrun := hguarded.map (f := id) (g := id) fun hstep => hstep.1
  rw [List.map_id] at hrun
  exact (flag_reported hrun).2.1 hguarded

end Xutil.Signals.Windows
