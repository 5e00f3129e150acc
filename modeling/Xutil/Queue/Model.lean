import Xutil.Lib.Runs
import Xutil.Lib.Waiters

/-!
# The event queue

`enqueue`, `dequeue` and `terminate` are what one thread does between taking
`mutex_` and giving it back. A `dequeue` that finds the queue empty gives the
lock back in `condition_.wait` and runs its loop from the top once it has the
lock again, so one definition covers the first stretch and every later one.

`Step` interleaves these stretches for any number of threads. Which copies and
assignments throw is part of the label.
-/

namespace Xutil

structure Queue (α : Type) where
  queue : List α := []
  finished : Bool := false
  deriving Repr, DecidableEq

namespace Queue

open Monitor (Waiters)

inductive Exit (β : Type)
  | returned (value : β)
  | threw
  | waits
  deriving Repr, DecidableEq

inductive Notify
  | nobody
  | one
  | all
  deriving Repr, DecidableEq

variable {α : Type}

/-- Both overloads: `push_back` of a copy and `emplace_back` of a moved
element differ in the constructor that may throw. Either has no effect at the
end of a deque if it throws. -/
def enqueueWith (constructs : Bool) (t : α) (q : Queue α) : Exit Bool × Notify × Queue α :=
  if q.finished then (.returned false, .nobody, q)
  else if constructs then (.returned true, .one, { q with queue := q.queue ++ [t] })
  else (.threw, .nobody, q)

/-- `enqueue(T const&)`. -/
def enqueue (copies : Bool) (t : α) (q : Queue α) : Exit Bool × Notify × Queue α :=
  enqueueWith copies t q

/-- `enqueue(T&&)`. -/
def enqueueMove (moves : Bool) (t : α) (q : Queue α) : Exit Bool × Notify × Queue α :=
  enqueueWith moves t q

/-- `some x` is the return value `true` with `x` assigned to the output
argument, `none` is `false` with the argument left alone. -/
def dequeue (assigns : Bool) (q : Queue α) : Exit (Option α) × Queue α :=
  match q.queue with
  | [] => if q.finished then (.returned none, q) else (.waits, q)
  | x :: rest =>
    if q.finished then (.returned none, q)
    -- the assignment comes before `pop_front`, so a throw leaves `x` in place
    else if assigns then (.returned (some x), { q with queue := rest })
    else (.threw, q)

def terminate (_ : Queue α) : Notify × Queue α :=
  (.all, { queue := [], finished := true })

-- ---------------------------------------------------------------------------
-- Threads
-- ---------------------------------------------------------------------------

variable {T : Type} [DecidableEq T]

structure State (T α : Type) [DecidableEq T] extends Queue α where
  waiters : Waiters T

def State.initial : State T α := { waiters := .empty }

inductive Label (T α : Type)
  | enqueue (t : T) (x : α) (copies : Bool) (exit : Exit Bool)
  | enqueueMove (t : T) (x : α) (moves : Bool) (exit : Exit Bool)
  | dequeue (t : T) (assigns : Bool) (exit : Exit (Option α))
  | terminate (t : T)
  | spurious (t : T)

inductive Notifies : Notify → Waiters T → Waiters T → Prop
  | nobody : Notifies .nobody w w
  | one : w.NotifyOne w' → Notifies .one w w'
  | all : Notifies .all w w.notifyAll

def settle (t : T) : Exit (Option α) → Waiters T → Waiters T
  | .waits, w => w.sleep t
  | _, w => w.leave t

/-- A thread that is not waiting may start any call. One that is waiting and
no longer asleep may only go on with its `dequeue`. -/
inductive Step (s : State T α) : Label T α → State T α → Prop
  | enqueue : t ∉ s.waiters.waiting → enqueue copies x s.toQueue = (e, n, q) →
      Notifies n s.waiters w → Step s (.enqueue t x copies e) ⟨q, w⟩
  | enqueueMove : t ∉ s.waiters.waiting → enqueueMove moves x s.toQueue = (e, n, q) →
      Notifies n s.waiters w → Step s (.enqueueMove t x moves e) ⟨q, w⟩
  | dequeue : t ∉ s.waiters.sleepers → dequeue assigns s.toQueue = (e, q) →
      Step s (.dequeue t assigns e) ⟨q, settle t e s.waiters⟩
  | terminate : t ∉ s.waiters.waiting → terminate s.toQueue = (n, q) →
      Notifies n s.waiters w → Step s (.terminate t) ⟨q, w⟩
  | spurious : t ∈ s.waiters.sleepers →
      Step s (.spurious t) { s with waiters := s.waiters.spurious t }

end Queue

end Xutil
