import Mathlib.Logic.Relation
import Xutil.Loggers.Tags

/-!
# The mutex and the once flag of the registry

`add_logger` comes to the flag with the mutex, the others to the mutex past the
flag. Nothing goes wrong as long as the flag is set whenever `add_logger` takes
the mutex, and a deadlock is at hand when it is not.
-/

namespace Xutil.Loggers.Threads

open Log hiding State Label Step
open Calls Runs Relation

variable {T W H : Type}

/-- `t` is stopped until `u` goes on. -/
inductive WaitsFor (s : State T W H) (t u : T) : Prop
  | acquire : s.phase t = .acquire c → s.lock = some u → WaitsFor s t u
  | lock : s.phase t = .initialise c → s.lock = some u → WaitsFor s t u
  | once : s.phase t = .once c → s.once = .running u → WaitsFor s t u

/-- A thread that waits for itself, be it through others. -/
def Deadlock (s : State T W H) : Prop := ∃ t, TransGen (WaitsFor s) t t

/-- A thread that locks first takes the mutex only once the flag is set. -/
def SetFirst (s : State T W H) (l : T × Event) : Prop :=
  ∀ c, l.2 = .acquire c → c.locksFirst = true → s.once = .done

theorem SetFirst.of_ne {s : State T W H} (h : ∀ c, e ≠ .acquire c) : SetFirst s (t, e) :=
  fun c hc => absurd hc (h c)

theorem not_transGen_of_rank {r : T → T → Prop} (rank : T → Nat) (h : ∀ t u, r t u → rank u < rank t)
    (t : T) : ¬ TransGen r t t := by
  intro ht
  have hlt : TransGen (· > ·) (rank t) (rank t) := ht.lift rank h
  rw [transGen_eq_self] at hlt
  exact lt_irrefl _ hlt

-- ---------------------------------------------------------------------------
-- Phases
-- ---------------------------------------------------------------------------

/-- It has the mutex. -/
def Phase.Has : Phase → Prop
  | .once c => c.locksFirst = true
  | .create _ => True
  | .body _ => True
  | _ => False

/-- It runs the initialiser. -/
def Phase.Inside : Phase → Prop
  | .initialise _ => True
  | .create _ => True
  | _ => False

/-- What locks first finds the flag set. -/
def Phase.Fits (once : Once T) : Phase → Prop
  | .once c => c.locksFirst = true → once = .done
  | .initialise c => c.locksFirst = false
  | .create c => c.locksFirst = false
  | _ => True

/-- A thread waits only for those of lower rank. -/
def Phase.rank : Phase → Nat
  | .once c => if c.locksFirst then 0 else 2
  | .create _ => 0
  | .body _ => 0
  | .initialise _ => 1
  | _ => 2

theorem Phase.Has.rank_eq (h : Phase.Has p) : p.rank = 0 := by
  cases p <;> simp_all [Phase.Has, Phase.rank]

theorem Phase.Inside.rank_lt (h : Phase.Inside p) : p.rank < 2 := by
  cases p <;> simp_all [Phase.Inside, Phase.rank]

theorem start_has (c : Command) : ¬ c.start.Has := by
  cases c <;> simp [Command.start, Command.locksFirst, Phase.Has]

theorem start_inside (c : Command) : ¬ c.start.Inside := by
  cases c <;> simp [Command.start, Command.locksFirst, Phase.Inside]

theorem start_fits (c : Command) : c.start.Fits once := by
  cases c <;> simp [Command.start, Command.locksFirst, Phase.Fits]

theorem entered_has (c : Command) : c.entered.Has := by
  cases c <;> simp [Command.entered, Command.locksFirst, Phase.Has]

theorem entered_inside (c : Command) : ¬ c.entered.Inside := by
  cases c <;> simp [Command.entered, Command.locksFirst, Phase.Inside]

theorem entered_fits (c : Command) :
    c.entered.Fits once ↔ (c.locksFirst = true → once = .done) := by
  cases c <;> simp [Command.entered, Command.locksFirst, Phase.Fits]

theorem next_has (c : Command) : c.next.Has ↔ c.locksFirst = true := by
  cases c <;> simp [Command.next, Command.locksFirst, Phase.Has]

theorem next_inside (c : Command) : ¬ c.next.Inside := by
  cases c <;> simp [Command.next, Command.locksFirst, Phase.Inside]

theorem next_fits (c : Command) : c.next.Fits once := by
  cases c <;> simp [Command.next, Command.locksFirst, Phase.Fits]

structure State.Orderly (s : State T W H) : Prop where
  holder : ∀ t, s.lock = some t ↔ (s.phase t).Has
  runner : ∀ t, s.once = .running t ↔ (s.phase t).Inside
  fits : ∀ t, (s.phase t).Fits s.once

theorem State.Orderly.of_phase {s : State T W H} (h : s.Orderly) (hphase : s.phase t = p) :
    (s.lock = some t ↔ p.Has) ∧ (s.once = .running t ↔ p.Inside) ∧ p.Fits s.once := by
  subst hphase
  exact ⟨h.holder t, h.runner t, h.fits t⟩

theorem State.Orderly.rank_lt {s : State T W H} (h : s.Orderly) (hwaits : WaitsFor s t u) :
    (s.phase u).rank < (s.phase t).rank := by
  cases hwaits with
  | acquire hphase hlock =>
    rw [((h.holder u).mp hlock).rank_eq, hphase]
    exact Nat.two_pos
  | lock hphase hlock =>
    rw [((h.holder u).mp hlock).rank_eq, hphase]
    exact Nat.one_pos
  | @once c hphase honce =>
    have hfirst : c.locksFirst = false := by
      have hfits := h.fits t
      rw [hphase] at hfits
      by_contra hfirst
      cases honce.symm.trans (hfits (by simpa using hfirst))
    have hrank : (s.phase t).rank = 2 := by simp [hphase, Phase.rank, hfirst]
    rw [hrank]
    exact ((h.runner u).mp honce).rank_lt

theorem State.Orderly.not_deadlock {s : State T W H} (h : s.Orderly) : ¬ Deadlock s := by
  rintro ⟨t, ht⟩
  exact not_transGen_of_rank (fun t => (s.phase t).rank) (fun _ _ => h.rank_lt) t ht

-- ---------------------------------------------------------------------------
-- Steps
-- ---------------------------------------------------------------------------

theorem initial_orderly (world : W) : (State.initial (T := T) (H := H) world).Orderly := by
  refine ⟨fun t => ?_, fun t => ?_, fun t => ?_⟩ <;>
    simp [State.initial, Phase.Has, Phase.Inside, Phase.Fits]

variable [DecidableEq T]

/-- A step that moves `t` to `p` and leaves to the others what they have. -/
theorem State.Orderly.move {s : State T W H} (h : s.Orderly) {lock' : Option T} {once' : Once T}
    (hlock : ∀ u ≠ t, lock' = some u ↔ s.lock = some u) (hhas : lock' = some t ↔ p.Has)
    (honce : ∀ u ≠ t, once' = .running u ↔ s.once = .running u)
    (hinside : once' = .running t ↔ p.Inside) (hdone : s.once = .done → once' = .done)
    (hfits : p.Fits once') :
    State.Orderly ⟨lock', once', Function.update s.phase t p, reg⟩ := by
  refine ⟨fun u => ?_, fun u => ?_, fun u => ?_⟩ <;> by_cases hu : u = t
  · subst hu
    simpa using hhas
  · simpa [hu, ← h.holder u] using hlock u hu
  · subst hu
    simpa using hinside
  · simpa [hu, ← h.runner u] using honce u hu
  · subst hu
    simpa using hfits
  · have hold := h.fits u
    simp only [Function.update_of_ne hu]
    cases hphase : s.phase u <;> simp_all [Phase.Fits]

theorem step_orderly {s : State T W H} (h : s.Orderly) (hstep : Guarded (Step F) SetFirst s l s') :
    s'.Orderly := by
  obtain ⟨hstep, hset⟩ := hstep
  cases hstep with
  | reject hidle hinvalid => exact h
  | @call t c hphase _ =>
    obtain ⟨hholder, hrunner, -⟩ := h.of_phase hphase
    exact h.move (fun _ _ => .rfl) (hholder.trans (iff_of_false id (start_has c)))
      (fun _ _ => .rfl) (hrunner.trans (iff_of_false id (start_inside c))) id (start_fits c)
  | @acquire t c hphase hlock =>
    obtain ⟨-, hrunner, -⟩ := h.of_phase hphase
    exact h.move (fun u hu => by simp [hlock, hu.symm]) (iff_of_true rfl (entered_has c))
      (fun _ _ => .rfl) (hrunner.trans (iff_of_false id (entered_inside c))) id
      ((entered_fits c).mpr (hset c rfl))
  | @pass t c hphase honce =>
    obtain ⟨hholder, hrunner, -⟩ := h.of_phase hphase
    exact h.move (fun _ _ => .rfl) (hholder.trans (next_has c).symm) (fun _ _ => .rfl)
      (hrunner.trans (iff_of_false id (next_inside c))) id (next_fits c)
  | @enter t c hphase honce =>
    obtain ⟨hholder, -, hfits⟩ := h.of_phase hphase
    have hlast : c.locksFirst ≠ true := fun hfirst => nomatch honce.symm.trans (hfits hfirst)
    exact h.move (fun _ _ => .rfl) (hholder.trans (iff_of_false hlast id))
      (fun u hu => by simp [honce, hu.symm]) (iff_of_true rfl trivial)
      (fun hdone => nomatch honce.symm.trans hdone) (Bool.eq_false_iff.mpr hlast)
  | @lock t c hphase hlock =>
    obtain ⟨-, hrunner, hfits⟩ := h.of_phase hphase
    exact h.move (fun u hu => by simp [hlock, hu.symm]) (iff_of_true rfl trivial) (fun _ _ => .rfl)
      hrunner id hfits
  | @create t c hphase =>
    obtain ⟨hholder, hrunner, hfits⟩ := h.of_phase hphase
    have hlock : s.lock = some t := hholder.mpr trivial
    have honce : s.once = .running t := hrunner.mpr trivial
    have hlast : ¬ c.next.Has := by
      rw [next_has, Bool.not_eq_true]
      exact hfits
    exact h.move (fun u hu => by simp [hlock, hu.symm]) (iff_of_false nofun hlast)
      (fun u hu => by simp [honce, hu.symm]) (iff_of_false nofun (next_inside c)) (fun _ => rfl)
      (next_fits c)
  | @threw t c hphase =>
    obtain ⟨hholder, hrunner, -⟩ := h.of_phase hphase
    have hlock : s.lock = some t := hholder.mpr trivial
    have honce : s.once = .running t := hrunner.mpr trivial
    exact h.move (fun u hu => by simp [hlock, hu.symm]) (iff_of_false nofun id)
      (fun u hu => by simp [honce, hu.symm]) (iff_of_false nofun id)
      (fun hdone => nomatch honce.symm.trans hdone) trivial
  | @body t c _ _ hphase _ =>
    obtain ⟨hholder, hrunner, -⟩ := h.of_phase hphase
    have hlock : s.lock = some t := hholder.mpr trivial
    exact h.move (fun u hu => by simp [hlock, hu.symm]) (iff_of_false nofun id) (fun _ _ => .rfl)
      hrunner id trivial

theorem run_orderly {s : State T W H} (h : Run (Guarded (Step F) SetFirst) (.initial world) ls s) :
    s.Orderly :=
  h.invariant (initial_orderly world) step_orderly

-- ---------------------------------------------------------------------------
-- Taking the mutex too early
-- ---------------------------------------------------------------------------

theorem deadlock_of_not_setFirst {s : State T W H} (h : s.Orderly) (hstep : Step F s l s')
    (hearly : ¬ SetFirst s l) : ∃ ls s'', Run (Step F) s' ls s'' ∧ Deadlock s'' := by
  obtain ⟨t, e⟩ := l
  simp only [SetFirst, not_forall] at hearly
  obtain ⟨c, rfl, hfirst, hnot⟩ := hearly
  cases hstep with
  | acquire hphase hlock =>
    have hentered : c.entered = .once c := by simp [Command.entered, hfirst]
    rw [hentered]
    cases honce : s.once with
    | done => exact absurd honce hnot
    | unset =>
      refine ⟨_, _, .one (.enter (Function.update_self t _ _) honce), t, .single ?_⟩
      exact .lock (Function.update_self t _ _) rfl
    | running u =>
      -- `u` is before the mutex of the initialiser, which `t` now has
      have hinside := (h.runner u).mp honce
      cases hu : s.phase u with
      | initialise c' =>
        have hne : u ≠ t := by
          rintro rfl
          cases hu.symm.trans hphase
        refine ⟨[], _, .nil, t, .tail (.single (.once (Function.update_self t _ _) honce)) ?_⟩
        exact .lock ((Function.update_of_ne hne _ _).trans hu) rfl
      | create c' =>
        obtain ⟨hholder, -, -⟩ := h.of_phase hu
        cases hlock.symm.trans (hholder.mpr trivial)
      | _ =>
        rw [hu] at hinside
        exact hinside.elim

-- ---------------------------------------------------------------------------
-- One thread at a time
-- ---------------------------------------------------------------------------

/-- All the threads are between calls. -/
def quiet (s : Loggers.State W H) : State T W H :=
  ⟨none, if s.once then .done else .unset, fun _ => .idle, s.toRegistry⟩

theorem go_go (s : State T W H) (t : T) (p q : Phase) : (s.go t p).go t q = s.go t q := by
  simp [State.go]

theorem go_phase (s : State T W H) (t : T) (p : Phase) : (s.go t p).phase t = p :=
  Function.update_self t _ _

theorem run_flag (F : Files W H) (s : Loggers.State W H) (t : T) (hlast : c.locksFirst = false)
    (hvalid : c.Valid) : ∃ ls, Run (Step F) (quiet s) ls ((quiet (callOnce s)).go t (.acquire c)) := by
  have hnext : c.next = .acquire c := by simp [Command.next, hlast]
  have hstart : c.start = .once c := by simp [Command.start, hlast]
  have hcall : Step F (quiet s) (t, .call c) ((quiet s).go t (.once c)) := hstart ▸ .call rfl hvalid
  unfold callOnce
  split
  · rename_i honce
    have hpass : Step F ((quiet s).go t (.once c)) (t, .pass c) _ :=
      .pass (go_phase _ t _) (by simp [State.go, quiet, honce])
    rw [go_go, hnext] at hpass
    exact ⟨_, .cons hcall (.one hpass)⟩
  · rename_i honce
    have hrun : Run (Step F) ((quiet s).go t (.once c))
        [(t, .enter c), (t, .lock c), (t, .create c)] _ :=
      .cons (.enter (go_phase _ t _) (by simp [State.go, quiet, honce])) <|
      .cons (.lock (go_phase _ t _) rfl) <| .cons (.create (go_phase _ t _)) .nil
    refine ⟨_ :: [(t, .enter c), (t, .lock c), (t, .create c)], .cons hcall ?_⟩
    simpa [State.go, quiet, hnext] using hrun

theorem run_body {s s' : Loggers.State W H} (t : T) (hlast : c.locksFirst = false)
    (hbody : (c.body F).run s.toRegistry = (r, s'.toRegistry)) (honce : s'.once = s.once) :
    ∃ ls, Run (Step F) ((quiet s).go t (.acquire c)) ls (quiet s') := by
  have hentered : c.entered = .body c := by simp [Command.entered, hlast]
  have hrun : Run (Step F) ((quiet s).go t (.acquire c)) [(t, .acquire c), (t, .body c)] _ :=
    .cons (.acquire (go_phase _ t _) rfl) <|
    .cons (.body ((go_phase _ t _).trans hentered) hbody) .nil
  refine ⟨[(t, .acquire c), (t, .body c)], ?_⟩
  simpa [State.go, quiet, honce] using hrun

theorem run_add {s s' : Loggers.State W H} (t : T) (htag : tag ≠ "") (honce : s.once = true)
    (hbody : (insertLogger F tag a).run s.toRegistry = (r, s'.toRegistry)) (honce' : s'.once = true) :
    ∃ ls, Run (Step F) (quiet (T := T) s) ls (quiet s') := by
  have hrun : Run (Step F) (quiet s) [(t, .call (.add tag a)), (t, .acquire (.add tag a)),
      (t, .pass (.add tag a)), (t, .body (.add tag a))] _ :=
    .cons (.call rfl htag) <| .cons (.acquire (go_phase _ t _) rfl) <|
    .cons (.pass (go_phase _ t _) (by simp [State.go, quiet, honce])) <|
    .cons (.body (go_phase _ t _) hbody) .nil
  refine ⟨[(t, .call (.add tag a)), (t, .acquire (.add tag a)), (t, .pass (.add tag a)),
    (t, .body (.add tag a))], ?_⟩
  simpa [State.go, quiet, honce, honce'] using hrun

/-- What a call does that returns, a thread can do while the others are idle. -/
theorem run_step {s s' : Loggers.State W H} (t : T) (hstep : Loggers.Step F s l s') :
    ∃ ls, Run (Step F) (quiet (T := T) s) ls (quiet s') := by
  cases hstep with
  | @add tag a _ _ hrun =>
    obtain ⟨rfl, -, rfl⟩ | ⟨htag, honce, honce', hrun⟩ := addLogger_cases hrun
    · exact ⟨_, .one (.reject (t := t) (c := .add "" a) rfl (by simp [Command.Valid]))⟩
    · exact run_add t htag honce hrun honce'
  | @remove tag _ _ hrun =>
    obtain ⟨rfl, -, rfl⟩ | ⟨htag, honce, hrun⟩ := removeLogger_cases hrun
    · exact ⟨_, .one (.reject (t := t) (c := .remove "") rfl (by simp [Command.Valid]))⟩
    · obtain ⟨ls, hflag⟩ := run_flag (c := .remove tag) F s t rfl htag
      obtain ⟨ls', hbody⟩ := run_body (c := .remove tag) t rfl hrun honce
      exact ⟨_, hflag.trans hbody⟩
  | @logger tag r _ hrun =>
    obtain ⟨honce, hrun⟩ := logger_cases hrun
    have hfind : ∃ r', ((Command.logger tag).body F).run (callOnce s).toRegistry =
        (r', s'.toRegistry) := by
      rw [Command.body, Call.run_bind, hrun]
      cases r <;> exact ⟨_, rfl⟩
    obtain ⟨ls, hflag⟩ := run_flag (c := .logger tag) F s t rfl trivial
    obtain ⟨r', hfind⟩ := hfind
    obtain ⟨ls', hbody⟩ := run_body (c := .logger tag) t rfl hfind honce
    exact ⟨_, hflag.trans hbody⟩

/-- And where `add_logger` never returns, that thread waits for itself. -/
theorem deadlock_of_addLogger {s : Loggers.State W H} (t : T) (h : addLogger F tag a s = none) :
    ∃ ls, ∃ s' : State T W H, Run (Step F) (quiet s) ls s' ∧ Deadlock s' := by
  unfold addLogger at h
  split at h
  · cases h
  rename_i htag
  split at h
  · cases h
  rename_i honce
  have hrun : Run (Step F) (quiet s) [(t, .call (.add tag a)), (t, .acquire (.add tag a)),
      (t, .enter (.add tag a))] _ :=
    .cons (.call rfl htag) <| .cons (.acquire (go_phase _ t _) rfl) <|
    .one (.enter (go_phase _ t _) (by simp [State.go, quiet, honce]))
  exact ⟨_, _, hrun, t, .single (.lock (go_phase _ t _) rfl)⟩

-- ---------------------------------------------------------------------------
-- Deadlock
-- ---------------------------------------------------------------------------

/-- In a run in which `add_logger` takes the mutex only once the flag is set no
threads wait for each other. The first time it does not, some soon do. -/
theorem registry_deadlock (F : Files W H) (world : W) :
    (∀ ls, ∀ s : State T W H, Run (Guarded (Step F) SetFirst) (.initial world) ls s → ¬ Deadlock s) ∧
    ∀ ls, ∀ s : State T W H, Run (Guarded (Step F) SetFirst) (.initial world) ls s →
      ∀ l s', Step F s l s' → ¬ SetFirst s l → ∃ ls' s'', Run (Step F) s' ls' s'' ∧ Deadlock s'' :=
  ⟨fun _ _ hrun => (run_orderly hrun).not_deadlock,
    fun _ _ hrun _ _ hstep hearly => deadlock_of_not_setFirst (run_orderly hrun) hstep hearly⟩

/-- `logger` sets the flag, then `add_logger` takes the mutex. -/
theorem registry_deadlock_second : ∃ ls, ∃ s : State Unit Disk Path,
    Run (Guarded (Step disk) SetFirst) (.initial fun _ => none) ls s ∧
    s.phase () = .once (.add "tag" someLogger) ∧ ¬ Deadlock s := by
  have hrun : Run (Guarded (Step disk) SetFirst) (.initial (T := Unit) fun _ => none)
      [((), .call (.logger "")), ((), .enter (.logger "")), ((), .lock (.logger "")),
        ((), .create (.logger "")), ((), .acquire (.logger "")), ((), .body (.logger "")),
        ((), .call (.add "tag" someLogger)), ((), .acquire (.add "tag" someLogger))] _ :=
    .cons ⟨.call rfl trivial, .of_ne (by simp)⟩ <| .cons ⟨.enter rfl rfl, .of_ne (by simp)⟩ <|
    .cons ⟨.lock rfl rfl, .of_ne (by simp)⟩ <| .cons ⟨.create rfl, .of_ne (by simp)⟩ <|
    .cons ⟨.acquire rfl rfl, fun _ _ _ => rfl⟩ <| .cons ⟨.body rfl rfl, .of_ne (by simp)⟩ <|
    .cons ⟨.call rfl (by simp [Command.Valid]), .of_ne (by simp)⟩ <|
    .cons ⟨.acquire rfl rfl, fun _ _ _ => rfl⟩ .nil
  exact ⟨_, _, hrun, rfl, (registry_deadlock disk _).1 _ _ hrun⟩

/-- One thread whose first call is `add_logger`. -/
theorem registry_deadlock_first : ¬ ∀ ls, ∀ s : State Unit Disk Path,
    Run (Step disk) (.initial fun _ => none) ls s → ¬ Deadlock s := by
  intro h
  have hrun : Run (Step disk) (.initial (T := Unit) fun _ => none)
      [((), .call (.add "tag" someLogger)), ((), .acquire (.add "tag" someLogger)),
        ((), .enter (.add "tag" someLogger))] _ :=
    .cons (.call rfl (by simp [Command.Valid])) <| .cons (.acquire rfl rfl) <|
    .cons (.enter rfl rfl) .nil
  exact h _ _ hrun ⟨(), .single (.lock rfl rfl)⟩

end Xutil.Loggers.Threads
