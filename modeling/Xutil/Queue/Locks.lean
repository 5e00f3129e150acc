import Xutil.Lib.Sections
import Xutil.Queue.Laws

/-!
# The queue access by access

What `Step` takes for one step is many: a thread that has `mutex_` looks at
`finished_` and at the deque, changes one and the other and notifies, and only
then gives the lock back. Nobody can tell the difference.
-/

namespace Xutil.Queue

def Label.thread {T α : Type} : Label T α → T
  | .enqueue t .. | .enqueueMove t .. | .dequeue t .. | .terminate t | .spurious t => t

namespace Locked

open Monitor (Waiters)
open Runs Sections

variable {T α : Type} [DecidableEq T]

/-- A call that has the lock, as `Step` knows it, and `empty`. -/
inductive Done (T α : Type)
  | step (l : Label T α)
  | empty (t : T) (answer : Bool)

inductive Whole (s : State T α) : Done T α → State T α → Prop
  | step : Step s l s' → Whole s (.step l) s'
  | empty : Whole s (.empty t s.queue.isEmpty) s

/-- What a thread that has the lock has still to do. A `dequeue` that comes back
from `condition_.wait` is at the top of its loop again. -/
inductive Task (T α : Type)
  | enqueuing (t : T) (moves : Bool) (x : α) (constructs : Bool)
  | appending (t : T) (moves : Bool) (x : α) (constructs : Bool)
  | appended (t : T) (moves : Bool) (x : α)
  | resuming (t : T) (assigns : Bool)
  | dequeuing (t : T) (assigns : Bool)
  | foundNothing (t : T) (assigns : Bool)
  | foundSome (t : T) (assigns : Bool)
  | assigning (t : T) (assigns : Bool)
  | assigned (t : T) (x : α)
  | terminating (t : T)
  | finished (t : T)
  | cleared (t : T)
  | asking (t : T)
  | waking (t : T)
  | ended (done : Done T α)

def enqueued (t : T) (moves : Bool) (x : α) (constructs : Bool) (e : Exit Bool) : Done T α :=
  .step (if moves then .enqueueMove t x constructs e else .enqueue t x constructs e)

/-- A spurious wakeup is put before or after a section that it falls into. -/
inductive Starts (t : T) (s : State T α) : Task T α → Prop
  | enqueuing : t ∉ s.waiters.waiting → Starts t s (.enqueuing t moves x constructs)
  | dequeuing : t ∉ s.waiters.waiting → Starts t s (.dequeuing t assigns)
  | resuming : t ∈ s.waiters.waiting → t ∉ s.waiters.sleepers → Starts t s (.resuming t assigns)
  | terminating : t ∉ s.waiters.waiting → Starts t s (.terminating t)
  | asking : t ∉ s.waiters.waiting → Starts t s (.asking t)
  | waking : t ∈ s.waiters.sleepers → Starts t s (.waking t)

inductive Access : Task T α × State T α → Unit → Task T α × State T α → Prop
  | refuse : s.finished = true → Access (.enqueuing t m x b, s) ()
      (.ended (enqueued t m x b (.returned false)), s)
  | accept : s.finished = false → Access (.enqueuing t m x b, s) () (.appending t m x b, s)
  | append : Access (.appending t m x true, s) ()
      (.appended t m x, { s with queue := s.queue ++ [x] })
  | copyThrew : Access (.appending t m x false, s) ()
      (.ended (enqueued t m x false .threw), s)
  | notifyOne : s.waiters.NotifyOne w → Access (.appended t m x, s) ()
      (.ended (enqueued t m x true (.returned true)), { s with waiters := w })
  | resume : Access (.resuming t b, s) () (.dequeuing t b, { s with waiters := s.waiters.leave t })
  | nothing : s.queue = [] → Access (.dequeuing t b, s) () (.foundNothing t b, s)
  | something : s.queue ≠ [] → Access (.dequeuing t b, s) () (.foundSome t b, s)
  | giveUp : s.finished = true → Access (.foundNothing t b, s) ()
      (.ended (.step (.dequeue t b (.returned none))), s)
  | wait : s.finished = false → Access (.foundNothing t b, s) ()
      (.ended (.step (.dequeue t b .waits)), { s with waiters := s.waiters.sleep t })
  | tooLate : s.finished = true → Access (.foundSome t b, s) ()
      (.ended (.step (.dequeue t b (.returned none))), s)
  | inTime : s.finished = false → Access (.foundSome t b, s) () (.assigning t b, s)
  | assign : s.queue.head? = some x → Access (.assigning t true, s) () (.assigned t x, s)
  | assignThrew : Access (.assigning t false, s) () (.ended (.step (.dequeue t false .threw)), s)
  | popFront : Access (.assigned t x, s) ()
      (.ended (.step (.dequeue t true (.returned (some x)))), { s with queue := s.queue.tail })
  | finish : Access (.terminating t, s) () (.finished t, { s with finished := true })
  | clear : Access (.finished t, s) () (.cleared t, { s with queue := [] })
  | notifyAll : Access (.cleared t, s) ()
      (.ended (.step (.terminate t)), { s with waiters := s.waiters.notifyAll })
  | ask : Access (.asking t, s) () (.ended (.empty t s.queue.isEmpty), s)
  | wake : Access (.waking t, s) ()
      (.ended (.step (.spurious t)), { s with waiters := s.waiters.spurious t })

/-- All that lock `mutex_` exclude each other. A thread's own data is its name. -/
def system : System (State T α) T (Task T α) Unit (Done T α) where
  enters := Starts
  writes _ := true
  access := Access
  leaves p r := p = .ended r
  after t _ := t
  writes_eq _ := rfl
  reads_eq _ h := nomatch h

-- ---------------------------------------------------------------------------
-- One section
-- ---------------------------------------------------------------------------

/-- The waiting of `t`, if there has been any, is over. -/
def back (t : T) (x : State T α) : State T α := { x with waiters := x.waiters.leave t }

/-- What a task says of the state `x` that its section was entered with. -/
inductive Reached (x : State T α) : Task T α → State T α → Prop
  | enqueuing : t ∉ x.waiters.waiting → Reached x (.enqueuing t m y b) x
  | appending : t ∉ x.waiters.waiting → x.finished = false → Reached x (.appending t m y b) x
  | appended : t ∉ x.waiters.waiting → x.finished = false →
      Reached x (.appended t m y) { x with queue := x.queue ++ [y] }
  | resuming : t ∉ x.waiters.sleepers → Reached x (.resuming t b) x
  | dequeuing : t ∉ x.waiters.sleepers → Reached x (.dequeuing t b) (back t x)
  | foundNothing : t ∉ x.waiters.sleepers → x.queue = [] →
      Reached x (.foundNothing t b) (back t x)
  | foundSome : t ∉ x.waiters.sleepers → x.queue ≠ [] → Reached x (.foundSome t b) (back t x)
  | assigning : t ∉ x.waiters.sleepers → x.finished = false → x.queue ≠ [] →
      Reached x (.assigning t b) (back t x)
  | assigned : t ∉ x.waiters.sleepers → x.finished = false → x.queue = y :: rest →
      Reached x (.assigned t y) (back t x)
  | terminating : t ∉ x.waiters.waiting → Reached x (.terminating t) x
  | finished : t ∉ x.waiters.waiting → Reached x (.finished t) { x with finished := true }
  | cleared : t ∉ x.waiters.waiting →
      Reached x (.cleared t) { x with finished := true, queue := [] }
  | asking : Reached x (.asking t) x
  | waking : t ∈ x.waiters.sleepers → Reached x (.waking t) x
  | ended : Whole x done s → Reached x (.ended done) s

variable {x s s' : State T α} {p q : Task T α}

theorem back_of_notMem (h : t ∉ x.waiters.waiting) : back t x = x := by
  rw [back, Waiters.leave_of_notMem h]

theorem reached_start (h : Starts t x p) : Reached x p x := by
  cases h with
  | enqueuing ht => exact .enqueuing ht
  | @dequeuing b ht =>
    have htop : Reached x (.dequeuing t b) (back t x) :=
      .dequeuing fun hmem => ht (Waiters.mem_waiting.mpr (.inl hmem))
    rwa [back_of_notMem ht] at htop
  | resuming _ ht => exact .resuming ht
  | terminating ht => exact .terminating ht
  | asking => exact .asking
  | waking ht => exact .waking ht

theorem whole_enqueue {c : Queue α} (ht : t ∉ x.waiters.waiting) (m : Bool)
    (hrun : enqueueWith b y x.toQueue = (e, n, c)) (hwake : Notifies n x.waiters w) :
    Whole x (enqueued t m y b e) ⟨c, w⟩ := by
  cases m with
  | true => exact .step (.enqueueMove ht hrun hwake)
  | false => exact .step (.enqueue ht hrun hwake)

theorem whole_dequeue {c : Queue α} (ht : t ∉ x.waiters.sleepers)
    (hrun : dequeue b x.toQueue = (e, c)) :
    Whole x (.step (.dequeue t b e)) ⟨c, settle t e x.waiters⟩ :=
  .step (.dequeue ht hrun)

theorem whole_wait (ht : t ∉ x.waiters.sleepers) (hq : x.queue = []) (hf : x.finished = false) :
    Whole x (.step (.dequeue t b .waits))
      { back t x with waiters := (back t x).waiters.sleep t } := by
  have hrun : dequeue b x.toQueue = (.waits, x.toQueue) := by simp [dequeue, hq, hf]
  simpa [settle, back, Waiters.sleep_leave] using whole_dequeue ht hrun

theorem whole_take (ht : t ∉ x.waiters.sleepers) (hf : x.finished = false)
    (hq : x.queue = y :: rest) :
    Whole x (.step (.dequeue t true (.returned (some y))))
      { back t x with queue := (back t x).queue.tail } := by
  have hrun : dequeue true x.toQueue =
      (.returned (some y), { x.toQueue with queue := rest }) := by
    simp [dequeue, hq, hf]
  simpa [settle, back, hq] using whole_dequeue ht hrun

theorem Reached.access (h : Reached x p s) (haccess : Access (p, s) e (q, s')) :
    Reached x q s' := by
  cases haccess with
  | refuse hf =>
    cases h with
    | enqueuing ht => exact .ended (whole_enqueue ht _ (by simp [enqueueWith, hf]) .nobody)
  | accept hf =>
    cases h with
    | enqueuing ht => exact .appending ht hf
  | append =>
    cases h with
    | appending ht hf => exact .appended ht hf
  | copyThrew =>
    cases h with
    | appending ht hf => exact .ended (whole_enqueue ht _ (by simp [enqueueWith, hf]) .nobody)
  | notifyOne hone =>
    cases h with
    | appended ht hf => exact .ended (whole_enqueue ht _ (by simp [enqueueWith, hf]) (.one hone))
  | resume =>
    cases h with
    | resuming ht => exact .dequeuing ht
  | nothing hq =>
    cases h with
    | dequeuing ht => exact .foundNothing ht hq
  | something hq =>
    cases h with
    | dequeuing ht => exact .foundSome ht hq
  | giveUp hf =>
    cases h with
    | foundNothing ht hq =>
      have hf' : x.finished = true := hf
      exact .ended (whole_dequeue ht (by simp [dequeue, hq, hf']))
  | wait hf =>
    cases h with
    | foundNothing ht hq => exact .ended (whole_wait ht hq hf)
  | tooLate hf =>
    cases h with
    | foundSome ht hq =>
      obtain ⟨y, rest, hq⟩ := List.exists_cons_of_ne_nil hq
      have hf' : x.finished = true := hf
      exact .ended (whole_dequeue ht (by simp [dequeue, hq, hf']))
  | inTime hf =>
    cases h with
    | foundSome ht hq => exact .assigning ht hf hq
  | assign hhead =>
    cases h with
    | assigning ht hf hq =>
      obtain ⟨y, rest, hq⟩ := List.exists_cons_of_ne_nil hq
      obtain rfl : y = _ := by simpa [back, hq] using hhead
      exact .assigned ht hf hq
  | assignThrew =>
    cases h with
    | assigning ht hf hq =>
      obtain ⟨y, rest, hq⟩ := List.exists_cons_of_ne_nil hq
      exact .ended (whole_dequeue ht (by simp [dequeue, hq, hf]))
  | popFront =>
    cases h with
    | assigned ht hf hq => exact .ended (whole_take ht hf hq)
  | finish =>
    cases h with
    | terminating ht => exact .finished ht
  | clear =>
    cases h with
    | finished ht => exact .cleared ht
  | notifyAll =>
    cases h with
    | cleared ht => exact .ended (.step (.terminate ht rfl .all))
  | ask =>
    cases h with
    | asking => exact .ended .empty
  | wake =>
    cases h with
    | waking ht => exact .ended (.step (.spurious ht))

-- ---------------------------------------------------------------------------
-- All sections
-- ---------------------------------------------------------------------------

def Done.thread : Done T α → T
  | .step l => l.thread
  | .empty t _ => t

def Task.thread : Task T α → T
  | .enqueuing t .. | .appending t .. | .appended t .. | .resuming t _ | .dequeuing t _
  | .foundNothing t _ | .foundSome t _ | .assigning t _ | .assigned t _ | .terminating t
  | .finished t | .cleared t | .asking t | .waking t => t
  | .ended done => done.thread

omit [DecidableEq T] in
theorem enqueued_thread (t : T) (m : Bool) (y : α) (b : Bool) (e : Exit Bool) :
    (enqueued t m y b e).thread = t := by
  cases m <;> rfl

theorem access_thread (h : Access (p, s) e (q, s')) : q.thread = p.thread := by
  cases h with
  | refuse | copyThrew | notifyOne => exact enqueued_thread ..
  | _ => rfl

theorem start_thread (h : Starts t s p) : p.thread = t := by
  cases h <;> rfl

structure InSection (t : T) (x : State T α) (q : Task T α) (s : State T α) : Prop where
  reached : Reached x q s
  thread : q.thread = t

theorem run_inSection (hstarts : Starts t x p) (h : Run Access (p, x) es (q, s)) :
    InSection t x q s :=
  h.invariant (I := fun qs => InSection t x qs.1 qs.2)
    ⟨reached_start hstarts, start_thread hstarts⟩ fun hi haccess =>
      ⟨hi.reached.access haccess, (access_thread haccess).trans hi.thread⟩

def Done.label : Done T α → Option (Label T α)
  | .step l => some l
  | .empty .. => none

/-- The sections that have been left and did more than look. -/
def steps (ls : List (Sections.Label T Unit (Done T α))) : List (Label T α) :=
  (results ls).filterMap (·.2.label)

/-- Nobody has called the queue yet. -/
def untouched : Sections.State T (State T α) T (Task T α) :=
  .outside .initial id

/-- Without `empty`, whole sections are a run of `Step`. -/
structure Interleaved (as : List (Section T Unit (Done T α))) (u : State T α × (T → T)) :
    Prop where
  run : Run Step .initial (as.filterMap (·.result.label)) u.1
  own : u.2 = id
  thread : ∀ a ∈ as, a.result.thread = a.thread

variable {as : List (Section T Unit (Done T α))} {u u' : State T α × (T → T)}

theorem Interleaved.whole (h : Interleaved as u) (hstep : Serial.Step system u a u') :
    Interleaved (as ++ [a]) u' := by
  obtain ⟨x, own⟩ := u
  obtain rfl : own = id := h.own
  cases hstep with
  | @whole t p es q y r hstarts hrun hleaves =>
    obtain rfl : q = .ended r := hleaves
    have hi := run_inSection hstarts hrun
    refine ⟨?_, Function.update_eq_self .., fun a ha => ?_⟩
    · rw [filterMap_snoc]
      cases hi.reached with
      | ended hwhole =>
        cases hwhole with
        | step hstep => exact h.run.snoc hstep
        | empty => simpa [Done.label] using h.run
    · rcases List.mem_append.mp ha with ha | ha
      · exact h.thread a ha
      · rw [List.mem_singleton.mp ha]
        exact hi.thread

theorem explained_interleaved {u : Sections.State T (State T α) T (Task T α)}
    (h : Explained system (.initial, id) ls u as y es) : Interleaved as (y, u.own) :=
  h.run.history ⟨.nil, rfl, by simp⟩ Interleaved.whole

omit [DecidableEq T] in
theorem steps_eq {ls : List (Sections.Label T Unit (Done T α))}
    (h : as.map Section.left = results ls) : steps ls = as.filterMap (·.result.label) := by
  rw [steps, ← h, List.filterMap_map]
  rfl

variable {ls : List (Sections.Label T Unit (Done T α))}
  {u : Sections.State T (State T α) T (Task T α)}

/-- However the accesses fall: the sections are a run of `Step`, in the order in
which they give the lock back, and `empty` tells how this run has left the
queue. -/
theorem accesses_serial (h : Run (Sections.Step system) untouched ls u) :
    (∃ s : State T α, Run Step .initial (steps ls) s ∧
      ((∀ t, u.inside t = none) → u.resource = s)) ∧
      (∀ t r, (t, r) ∈ results ls → r.thread = t) ∧
      ∀ before t t' answer after, ls = before ++ .leave t (.empty t' answer) :: after →
        ∃ s : State T α, Run Step .initial (steps before) s ∧ answer = s.queue.isEmpty := by
  obtain ⟨as, y, es, hi⟩ := run_explained h
  have hinter := explained_interleaved hi
  refine ⟨⟨y, ?_, fun hout => ?_⟩, fun t r hr => ?_, ?_⟩
  · rw [steps_eq hi.left]
    exact hinter.run
  · exact (hi.still fun t p ht => by simp [hout t] at ht).symm
  · rw [← hi.left] at hr
    obtain ⟨a, ha, hleft⟩ := List.mem_map.mp hr
    cases hleft
    exact hinter.thread a ha
  · rintro before t t' answer after rfl
    obtain ⟨v, hbefore, hrest⟩ := h.split
    obtain ⟨_, hstep, _⟩ := hrest.head
    obtain ⟨as', y', es', hi'⟩ := run_explained hbefore
    refine ⟨y', by rw [steps_eq hi'.left]; exact (explained_interleaved hi').run, ?_⟩
    cases hstep with
    | @leave _ q _ hinside hleaves =>
      obtain rfl : q = .ended (.empty t' answer) := hleaves
      obtain ⟨p, hstarts, hrun⟩ := hi'.opened t _ hinside
      cases (run_inSection hstarts hrun).reached with
      | ended hwhole => cases hwhole; rfl

/-- Thread 1 waits until thread 2 has put 7 in the queue, and then has the lock
again. -/
def handover : List (Sections.Label Nat Unit (Done Nat Nat)) :=
  [.enter 1, .access 1 (), .access 1 (), .leave 1 (.step (.dequeue 1 true .waits)),
    .enter 2, .access 2 (), .access 2 (), .access 2 (),
    .leave 2 (.step (.enqueue 2 7 true (.returned true))),
    .enter 1, .access 1 (), .access 1 (), .access 1 (), .access 1 (), .access 1 (),
    .leave 1 (.step (.dequeue 1 true (.returned (some 7))))]

theorem accesses_serial_handover : ∃ u,
    Run (Sections.Step system) untouched handover u ∧
    ∃ s, Run Step .initial (steps handover) s ∧ u.resource = s := by
  have hrun : Run (Sections.Step system) untouched handover _ :=
    .cons (.enter rfl (.dequeuing (by decide)) (free_outside rfl)) <|
    .cons (.access rfl (.nothing rfl)) <| .cons (.access rfl (.wait rfl)) <|
    .cons (.leave rfl rfl) <|
    .cons (.enter rfl (.enqueuing (by decide))
      (free_outside (by simp [untouched, State.outside]))) <|
    .cons (.access rfl (.accept (m := false) (x := 7) (b := true) rfl)) <|
    .cons (.access rfl .append) <|
    .cons (.access rfl (.notifyOne (.one (t := 1) (by decide)))) <| .cons (.leave rfl rfl) <|
    .cons (.enter rfl (.resuming (by decide) (by decide))
      (free_outside (by simp [untouched, State.outside]))) <|
    .cons (.access rfl .resume) <| .cons (.access rfl (.something (by decide))) <|
    .cons (.access rfl (.inTime rfl)) <| .cons (.access rfl (.assign rfl)) <|
    .cons (.access rfl .popFront) <| .cons (.leave rfl rfl) .nil
  obtain ⟨⟨s, hs, hresource⟩, _⟩ := accesses_serial hrun
  refine ⟨_, hrun, s, hs, hresource fun t => ?_⟩
  by_cases ht : t = 1 <;> by_cases ht' : t = 2 <;> simp [untouched, State.outside, ht, ht']

end Locked

end Xutil.Queue
