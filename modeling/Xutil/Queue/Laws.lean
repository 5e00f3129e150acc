import Xutil.Queue.Model

/-!
# What every interleaving of the event queue keeps

Elements come out in the order they went in, and an element is lost only by
`terminate`. After `terminate` nobody waits and nothing moves.

A consumer that used up a notification and then throws while others sleep is
the one way to lose a wakeup. `wakeup_kept` has that as its condition.
-/

namespace Xutil.Queue

open Monitor (Waiters)
open Runs

variable {T α : Type} [DecidableEq T] {s s' : State T α} {l : Label T α} {ls : List (Label T α)}

-- ---------------------------------------------------------------------------
-- What a stretch can do
-- ---------------------------------------------------------------------------

theorem enqueueWith_cases (h : enqueueWith constructs x q = (e, n, q')) :
    (q.finished = true ∧ e = .returned false ∧ n = .nobody ∧ q' = q) ∨
      (q.finished = false ∧ constructs = true ∧ e = .returned true ∧ n = .one ∧
        q' = { q with queue := q.queue ++ [x] }) ∨
      (q.finished = false ∧ constructs = false ∧ e = .threw ∧ n = .nobody ∧ q' = q) := by
  unfold enqueueWith at h
  cases hf : q.finished <;> cases constructs <;> simp_all

theorem dequeue_cases (h : dequeue assigns q = (e, q')) :
    (q.finished = true ∧ e = .returned none ∧ q' = q) ∨
      (q.finished = false ∧ q.queue = [] ∧ e = .waits ∧ q' = q) ∨
      (∃ x rest, q.finished = false ∧ q.queue = x :: rest ∧ assigns = true ∧
        e = .returned (some x) ∧ q' = { q with queue := rest }) ∨
      (q.finished = false ∧ q.queue ≠ [] ∧ assigns = false ∧ e = .threw ∧ q' = q) := by
  unfold dequeue at h
  cases hq : q.queue <;> cases hf : q.finished <;> cases assigns <;> simp_all

-- ---------------------------------------------------------------------------
-- First in, first out
-- ---------------------------------------------------------------------------

/-- The element an `enqueue` that returned `true` took. -/
def Label.accepted : Label T α → Option α
  | .enqueue _ x _ (.returned true) | .enqueueMove _ x _ (.returned true) => some x
  | _ => none

/-- The element a `dequeue` that returned `true` gave out. -/
def Label.delivered : Label T α → Option α
  | .dequeue _ _ (.returned r) => r
  | _ => none

def Label.Declines : Label T α → Prop
  | .enqueue _ _ _ e | .enqueueMove _ _ _ e => e = .threw ∨ e = .returned false
  | .dequeue _ _ e => e = .threw ∨ e = .returned none
  | _ => False

theorem step_queue (h : Step s l s') :
    (l.accepted = none ∧ l.delivered = none ∧ s'.toQueue = s.toQueue) ∨
      (∃ x, s.finished = false ∧ l.accepted = some x ∧ l.delivered = none ∧ ¬ l.Declines ∧
        s'.toQueue = { s.toQueue with queue := s.queue ++ [x] }) ∨
      (∃ x rest, s.finished = false ∧ l.accepted = none ∧ l.delivered = some x ∧ ¬ l.Declines ∧
        s.queue = x :: rest ∧ s'.toQueue = { s.toQueue with queue := rest }) ∨
      (l.accepted = none ∧ l.delivered = none ∧ ¬ l.Declines ∧
        s'.toQueue = { queue := [], finished := true }) := by
  cases h with
  | enqueue _ run _ =>
    obtain ⟨_, rfl, _, rfl⟩ | ⟨hf, _, rfl, _, rfl⟩ | ⟨_, _, rfl, _, rfl⟩ := enqueueWith_cases run
    · exact .inl ⟨rfl, rfl, rfl⟩
    · exact .inr (.inl ⟨_, hf, rfl, rfl, by simp [Label.Declines], rfl⟩)
    · exact .inl ⟨rfl, rfl, rfl⟩
  | enqueueMove _ run _ =>
    obtain ⟨_, rfl, _, rfl⟩ | ⟨hf, _, rfl, _, rfl⟩ | ⟨_, _, rfl, _, rfl⟩ := enqueueWith_cases run
    · exact .inl ⟨rfl, rfl, rfl⟩
    · exact .inr (.inl ⟨_, hf, rfl, rfl, by simp [Label.Declines], rfl⟩)
    · exact .inl ⟨rfl, rfl, rfl⟩
  | dequeue _ run =>
    obtain ⟨_, rfl, rfl⟩ | ⟨_, _, rfl, rfl⟩ | ⟨x, rest, hf, hq, _, rfl, rfl⟩ | ⟨_, _, _, rfl, rfl⟩ :=
      dequeue_cases run
    · exact .inl ⟨rfl, rfl, rfl⟩
    · exact .inl ⟨rfl, rfl, rfl⟩
    · exact .inr (.inr (.inl ⟨x, rest, hf, rfl, rfl, by simp [Label.Declines], hq, rfl⟩))
    · exact .inl ⟨rfl, rfl, rfl⟩
  | terminate _ run _ =>
    cases run
    exact .inr (.inr (.inr ⟨rfl, rfl, by simp [Label.Declines], rfl⟩))
  | spurious => exact .inl ⟨rfl, rfl, rfl⟩

/-- The elements given out and the ones still queued, against the ones taken. -/
def InOrder (ls : List (Label T α)) (s : State T α) : Prop :=
  (s.finished = false → ls.filterMap Label.delivered ++ s.queue = ls.filterMap Label.accepted) ∧
    (s.finished = true → ls.filterMap Label.delivered <+: ls.filterMap Label.accepted)

theorem InOrder.prefix (h : InOrder ls s) :
    ls.filterMap Label.delivered <+: ls.filterMap Label.accepted := by
  cases hf : s.finished with
  | false => exact ⟨s.queue, h.1 hf⟩
  | true => exact h.2 hf

theorem step_inOrder (h : InOrder ls s) (hstep : Step s l s') : InOrder (ls ++ [l]) s' := by
  simp only [InOrder, List.filterMap_append]
  obtain ⟨ha, hd, hq⟩ | ⟨x, hf, ha, hd, _, hq⟩ | ⟨x, rest, hf, ha, hd, _, hx, hq⟩ | ⟨ha, hd, _, hq⟩ :=
    step_queue hstep
  · simpa [InOrder, ha, hd, hq] using h
  · have hall := h.1 hf
    simp [ha, hd, hq, hf, ← hall]
  · have hall := h.1 hf
    simp [ha, hd, hq, hf, ← hall, hx]
  · simpa [ha, hd, hq] using h.prefix

/-- Before `terminate`, what came out and what is queued is what went in, in
order. After it, what came out is a prefix of what went in. A call that throws
or returns `false` leaves the queue as it was. -/
theorem first_in_first_out (h : Run Step (State.initial : State T α) ls s) :
    (s.finished = false → ls.filterMap Label.delivered ++ s.queue = ls.filterMap Label.accepted) ∧
      (s.finished = true → ls.filterMap Label.delivered <+: ls.filterMap Label.accepted) ∧
      ∀ l s', Step s l s' → l.Declines → s'.queue = s.queue := by
  have hin : InOrder ls s := h.history (by simp [InOrder, State.initial]) step_inOrder
  refine ⟨hin.1, hin.2, fun l s' hstep hdecl => ?_⟩
  obtain ⟨_, _, hq⟩ | ⟨_, _, _, _, hno, _⟩ | ⟨_, _, _, _, _, hno, _⟩ | ⟨_, _, hno, _⟩ :=
    step_queue hstep
  · rw [hq]
  · exact absurd hdecl hno
  · exact absurd hdecl hno
  · exact absurd hdecl hno

theorem first_in_first_out_two : ∃ ls, ∃ s : State Nat Nat, Run Step State.initial ls s ∧
    s.finished = false ∧ ls.filterMap Label.accepted = [5, 6] ∧ s.queue = [6] ∧
    ls.filterMap Label.delivered ++ s.queue = ls.filterMap Label.accepted := by
  have hrun : Run Step (State.initial : State Nat Nat)
      [.enqueue 0 5 true (.returned true), .enqueueMove 0 6 true (.returned true),
        .dequeue 1 true (.returned (some 5))] _ :=
    .cons (.enqueue (by decide) rfl (.one (.nobody rfl))) <|
    .cons (.enqueueMove (by decide) rfl (.one (.nobody rfl))) <|
    .cons (.dequeue (by decide) rfl) .nil
  exact ⟨_, _, hrun, rfl, rfl, rfl, (first_in_first_out hrun).1 rfl⟩

-- ---------------------------------------------------------------------------
-- Wakeups
-- ---------------------------------------------------------------------------

/-- Elements that wait while a consumer sleeps have a notified consumer on its
way to them. -/
def State.Awake (s : State T α) : Prop :=
  s.finished = false → s.queue ≠ [] → s.waiters.sleepers.Nonempty → s.waiters.notified.Nonempty

/-- A notified consumer whose assignment throws must leave enough notified
consumers behind for the elements in the queue, unless nobody sleeps. -/
def Relays (s : State T α) : Label T α → Prop
  | .dequeue t false _ => s.finished = false → t ∈ s.waiters.notified →
      s.waiters.sleepers.Nonempty → s.queue.length < s.waiters.notified.card
  | _ => True

/-- The counting behind `Awake`: one notified consumer for each element. -/
def State.Covered (s : State T α) : Prop :=
  s.finished = false → s.waiters.sleepers.Nonempty → s.queue.length ≤ s.waiters.notified.card

theorem State.Covered.awake (h : s.Covered) : s.Awake := by
  intro hf hq hs
  have hpos : 0 < s.queue.length := List.length_pos_iff.mpr hq
  exact Finset.card_pos.mp (Nat.lt_of_lt_of_le hpos (h hf hs))

theorem enqueue_covered (h : s.Covered) (run : enqueueWith constructs x s.toQueue = (e, n, q))
    (wake : Notifies n s.waiters w) : (State.mk q w).Covered := by
  intro hf' hs'
  obtain ⟨hf, _, rfl, rfl⟩ | ⟨hf, _, _, rfl, rfl⟩ | ⟨hf, _, _, rfl, rfl⟩ := enqueueWith_cases run
  · simp [hf] at hf'
  · cases wake with
    | one hone =>
      cases hone with
      | nobody hnone => simp [hnone] at hs'
      | one ht =>
        have hlen := h hf ⟨_, ht⟩
        simpa [Waiters.card_notified_rouse ht] using hlen
  · cases wake
    exact h hf hs'

theorem step_covered (h : s.Covered) (hstep : Guarded Step Relays s l s') : s'.Covered := by
  obtain ⟨hstep, hrel⟩ := hstep
  intro hf' hs'
  cases hstep with
  | enqueue _ run wake => exact enqueue_covered h run wake hf' hs'
  | enqueueMove _ run wake => exact enqueue_covered h run wake hf' hs'
  | @dequeue t assigns e q hawake run =>
    obtain ⟨hf, _, rfl⟩ | ⟨_, hq, rfl, rfl⟩ | ⟨x, rest, hf, hq, _, rfl, rfl⟩ | ⟨hf, _, rfl, rfl, rfl⟩ :=
      dequeue_cases run
    · simp [hf] at hf'
    · simp [hq]
    · have hs : s.waiters.sleepers.Nonempty := by
        simpa [settle, Waiters.sleepers_leave hawake] using hs'
      have hlen := h hf hs
      have hcard : s.waiters.notified.card - 1 ≤ (s.waiters.notified.erase t).card :=
        Finset.pred_card_le_card_erase
      simp only [hq, List.length_cons] at hlen
      simp only [settle, Waiters.leave]
      omega
    · have hs : s.waiters.sleepers.Nonempty := by
        simpa [settle, Waiters.sleepers_leave hawake] using hs'
      by_cases ht : t ∈ s.waiters.notified
      · have hlt := hrel hf ht hs
        simp only [settle, Waiters.leave, Finset.card_erase_of_mem ht]
        omega
      · simpa [settle, Waiters.leave, Finset.erase_eq_of_notMem ht] using h hf hs
  | terminate _ run _ =>
    cases run
    simp at hf'
  | spurious ht =>
    simpa [Waiters.notified_spurious ht] using h hf' ⟨_, ht⟩

/-- Once the notified consumers are too few, they can all do their work and
still leave a consumer asleep beside a queued element. -/
theorem sleeps_on (hf : s.finished = false) (hs : s.waiters.sleepers.Nonempty)
    (hlt : s.waiters.notified.card < s.queue.length) :
    ∃ ls s', Run (Guarded Step Relays) s ls s' ∧ ¬ s'.Awake := by
  induction hn : s.waiters.notified.card generalizing s with
  | zero =>
    refine ⟨[], s, .nil, fun hawake => ?_⟩
    have hq : s.queue ≠ [] := List.length_pos_iff.mp (by omega)
    have hnone : s.waiters.notified = ∅ := Finset.card_eq_zero.mp hn
    simpa [hnone] using hawake hf hq hs
  | succ n ih =>
    obtain ⟨t, ht⟩ : s.waiters.notified.Nonempty := Finset.card_pos.mp (by omega)
    obtain ⟨x, rest, hq⟩ : ∃ x rest, s.queue = x :: rest :=
      List.exists_cons_of_length_pos (by omega)
    have hawake : t ∉ s.waiters.sleepers :=
      Finset.disjoint_right.mp s.waiters.sleepers_notified ht
    have hstep : Step s (.dequeue t true (.returned (some x)))
        ⟨{ s.toQueue with queue := rest }, s.waiters.leave t⟩ :=
      .dequeue (e := .returned (some x)) hawake (by simp [dequeue, hq, hf])
    have hcard : (s.waiters.leave t).notified.card = n := by
      simp [Waiters.leave, Finset.card_erase_of_mem ht, hn]
    have hlen : (s.waiters.leave t).notified.card < rest.length := by
      simp only [hq, List.length_cons] at hlt
      omega
    obtain ⟨ls, s', hrun, hlost⟩ := ih (s := ⟨{ s.toQueue with queue := rest }, s.waiters.leave t⟩)
      hf (by simpa [Waiters.sleepers_leave hawake] using hs) hlen hcard
    exact ⟨_, s', Run.cons ⟨hstep, trivial⟩ hrun, hlost⟩

/-- The first half is the law. The second says that the condition is the
weakest one: a step that breaks it leaves a state from which steps that all
meet it lose a wakeup. -/
theorem wakeup_kept (h : Run (Guarded Step Relays) (State.initial : State T α) ls s) :
    s.Awake ∧ ∀ l s', Step s l s' → ¬ Relays s l →
      ∃ ls' s'', Run (Guarded Step Relays) s' ls' s'' ∧ ¬ s''.Awake := by
  refine ⟨?_, fun l s' hstep hno => ?_⟩
  · have hcov : s.Covered := h.invariant (by simp [State.Covered, State.initial]) step_covered
    exact hcov.awake
  · cases hstep with
    | @dequeue t assigns e q hawake run =>
      cases assigns with
      | true => simp [Relays] at hno
      | false =>
        simp only [Relays, Classical.not_imp, Nat.not_lt] at hno
        obtain ⟨hf, ht, hs, hle⟩ := hno
        have hpos : 0 < s.waiters.notified.card := Finset.card_pos.mpr ⟨t, ht⟩
        have hne : s.queue ≠ [] := List.length_pos_iff.mp (by omega)
        obtain ⟨hf', _⟩ | ⟨_, hq, _⟩ | ⟨_, _, _, _, hfalse, _⟩ | ⟨_, _, _, rfl, rfl⟩ :=
          dequeue_cases run
        · simp [hf] at hf'
        · exact absurd hq hne
        · cases hfalse
        · refine sleeps_on hf (by simpa [settle, Waiters.sleepers_leave hawake] using hs) ?_
          simp only [settle, Waiters.leave, Finset.card_erase_of_mem ht]
          omega
    | _ => exact absurd trivial hno

theorem wakeup_kept_one : ∃ ls, ∃ s : State Nat Nat, Run (Guarded Step Relays) State.initial ls s ∧
    s.queue = [7] ∧ s.waiters.notified = {1} ∧ s.Awake := by
  have hrun : Run (Guarded Step Relays) (State.initial : State Nat Nat)
      [.dequeue 1 true .waits, .enqueue 0 7 true (.returned true)] _ :=
    .cons ⟨.dequeue (by decide) rfl, trivial⟩ <|
    .cons ⟨.enqueue (by decide) rfl (.one (.one (t := 1) (by decide))), trivial⟩ .nil
  exact ⟨_, _, hrun, rfl, rfl, (wakeup_kept hrun).1⟩

/-- Two consumers sleep. One element arrives and wakes the first, whose
assignment throws. The element stays and the second consumer sleeps on. -/
theorem wakeup_lost : ∃ ls, ∃ s : State Nat Nat, Run Step State.initial ls s ∧ ¬ s.Awake := by
  have hrun : Run Step (State.initial : State Nat Nat)
      [.dequeue 1 true .waits, .dequeue 2 true .waits, .enqueue 0 7 true (.returned true),
        .dequeue 1 false .threw] _ :=
    .cons (.dequeue (by decide) rfl) <|
    .cons (.dequeue (by decide) rfl) <|
    .cons (.enqueue (by decide) rfl (.one (.one (t := 1) (by decide)))) <|
    .cons (.dequeue (by decide) rfl) .nil
  refine ⟨_, _, hrun, ?_⟩
  unfold State.Awake
  decide

-- ---------------------------------------------------------------------------
-- Termination
-- ---------------------------------------------------------------------------

theorem enqueueWith_keeps_finished (run : enqueueWith constructs x q = (e, n, q')) :
    q'.finished = q.finished := by
  obtain ⟨_, _, _, rfl⟩ | ⟨_, _, _, _, rfl⟩ | ⟨_, _, _, _, rfl⟩ := enqueueWith_cases run <;> rfl

theorem dequeue_keeps_finished (run : dequeue assigns q = (e, q')) : q'.finished = q.finished := by
  obtain ⟨_, _, rfl⟩ | ⟨_, _, _, rfl⟩ | ⟨_, _, _, _, _, _, rfl⟩ | ⟨_, _, _, _, rfl⟩ :=
    dequeue_cases run <;> rfl

/-- A call that returned `false` and, for `dequeue`, assigned nothing. -/
def Label.Refused : Label T α → Prop
  | .enqueue _ _ _ e | .enqueueMove _ _ _ e => e = .returned false
  | .dequeue _ _ e => e = .returned none
  | _ => True

theorem enqueue_finished (hf : q.finished = true) (run : enqueueWith constructs x q = (e, n, q')) :
    e = .returned false ∧ n = .nobody ∧ q' = q := by
  obtain ⟨_, he, hn, hq⟩ | ⟨hf', _⟩ | ⟨hf', _⟩ := enqueueWith_cases run
  · exact ⟨he, hn, hq⟩
  · simp [hf] at hf'
  · simp [hf] at hf'

theorem dequeue_finished (hf : q.finished = true) (run : dequeue assigns q = (e, q')) :
    e = .returned none ∧ q' = q := by
  obtain ⟨_, he, hq⟩ | ⟨hf', _⟩ | ⟨_, _, hf', _⟩ | ⟨hf', _⟩ := dequeue_cases run
  · exact ⟨he, hq⟩
  all_goals simp [hf] at hf'

def State.Terminated (s : State T α) : Prop :=
  s.finished = true ∧ s.queue = [] ∧ s.waiters.sleepers = ∅

theorem step_terminated (h : s.Terminated) (hstep : Step s l s') : s'.Terminated ∧ l.Refused := by
  obtain ⟨hf, hq, hs⟩ := h
  cases hstep with
  | enqueue _ run wake =>
    obtain ⟨rfl, rfl, rfl⟩ := enqueue_finished hf run
    cases wake
    exact ⟨⟨hf, hq, hs⟩, rfl⟩
  | enqueueMove _ run wake =>
    obtain ⟨rfl, rfl, rfl⟩ := enqueue_finished hf run
    cases wake
    exact ⟨⟨hf, hq, hs⟩, rfl⟩
  | dequeue hawake run =>
    obtain ⟨rfl, rfl⟩ := dequeue_finished hf run
    exact ⟨⟨hf, hq, by simpa [settle, Waiters.sleepers_leave hawake] using hs⟩, rfl⟩
  | terminate _ run wake =>
    cases run
    cases wake
    exact ⟨⟨rfl, rfl, rfl⟩, trivial⟩
  | spurious ht => simp [hs] at ht

theorem step_drained (h : s.finished = true → s.Terminated) (hstep : Step s l s') :
    s'.finished = true → s'.Terminated := by
  intro hf'
  cases hf : s.finished with
  | true => exact (step_terminated (h hf) hstep).1
  | false =>
    cases hstep with
    | terminate _ run wake =>
      cases run
      cases wake
      exact ⟨rfl, rfl, rfl⟩
    | enqueue _ run _ => simp [enqueueWith_keeps_finished run, hf] at hf'
    | enqueueMove _ run _ => simp [enqueueWith_keeps_finished run, hf] at hf'
    | dequeue _ run => simp [dequeue_keeps_finished run, hf] at hf'
    | spurious => simp [hf] at hf'

theorem run_terminated (h : s.Terminated) (hrun : Run Step s ls s') :
    s'.Terminated ∧ ∀ l ∈ ls, l.Refused := by
  refine hrun.history (I := fun ls t => t.Terminated ∧ ∀ l ∈ ls, l.Refused) ⟨h, by simp⟩ ?_
  rintro ls t l t' ⟨ht, hls⟩ hstep
  obtain ⟨ht', hl⟩ := step_terminated ht hstep
  refine ⟨ht', fun l' hl' => ?_⟩
  rcases List.mem_append.mp hl' with hl' | hl'
  · exact hls l' hl'
  · rw [List.mem_singleton] at hl'
    exact hl' ▸ hl

theorem unblocked (h : s.Terminated) (assigns : Bool) :
    ∃ s', Step s (.dequeue t assigns (.returned none)) s' ∧ t ∉ s'.waiters.waiting := by
  obtain ⟨hf, hq, hs⟩ := h
  have hawake : t ∉ s.waiters.sleepers := by simp [hs]
  exact ⟨⟨s.toQueue, settle t (.returned none) s.waiters⟩,
    .dequeue hawake (by simp [dequeue, hq, hf]), Waiters.not_mem_leave _ _⟩

end Xutil.Queue
