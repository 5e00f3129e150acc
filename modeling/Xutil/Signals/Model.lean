import Xutil.Lib.Lines
import Xutil.Lib.Runs

/-!
# Signals

`handle_signal`, which notes a signal in `interrupted_s`, and `wait_for_signals`,
which waits in `sigtimedwait`, on POSIX. A signal with a handler that arrives
outside `sigtimedwait` runs the handler. Inside, it is the result, or runs the
handler and interrupts the wait. One thread calls `wait_for_signals`.
-/

namespace Xutil.Signals

def sigHup : Int := 1
def sigInt : Int := 2
def sigTerm : Int := 15

def eIntr : Int := 4
def eAgain : Int := 11
def eInval : Int := 22

def isTermination (signal : Int) : Bool :=
  signal == sigInt || signal == sigTerm || signal == sigHup

-- ---------------------------------------------------------------------------
-- The handler
-- ---------------------------------------------------------------------------

/-- `interrupted_s`, and the signals for which `handle_signal` is installed. -/
structure Process where
  interrupted : Bool := false
  handled : Int → Bool := fun _ => false

def Process.install (p : Process) : Process :=
  { p with handled := fun signal => isTermination signal || p.handled signal }

def handleSignal (signal : Int) (p : Process) : Process :=
  Process.install { p with interrupted := isTermination signal || p.interrupted }

def disableSignalHandlers (p : Process) : Process := p.install

-- ---------------------------------------------------------------------------
-- `wait_for_signals`
-- ---------------------------------------------------------------------------

structure Timespec where
  sec : BitVec 64
  nsec : BitVec 64
  deriving Repr, DecidableEq

/-- Of milliseconds. -/
def toTimespec (timeout : BitVec 64) : Timespec where
  sec := timeout.sdiv 1000
  nsec := (timeout * 1000000).srem 1000000000

inductive Exception
  | invalidArgument (what : Text)
  | systemError (errno : Int) (what : Text)
  | runtimeError (what : Text)
  deriving Repr, DecidableEq

inductive Exit
  | returned (occurred : Bool)
  | threw (e : Exception)
  deriving Repr, DecidableEq

/-- What becomes of the result of `sigtimedwait`. Without an exit it is called
again. -/
def settle (result errno : Int) : Option Exit :=
  if isTermination result then some (.returned true)
  else if result = -1 then
    if errno = eAgain then some (.returned false)
    else if errno = eIntr then none
    else if errno = eInval then some (.threw (.invalidArgument "wait_for_signals70".toList))
    else some (.threw (.systemError errno "wait_for_signals73".toList))
  else some (.threw (.runtimeError "wait_for_signals".toList))

/-- Where the thread is: between two calls, in a call but not in `sigtimedwait`,
in `sigtimedwait`, or on its way out of a call. -/
inductive Phase
  | idle
  | calling (ts : Timespec)
  | waiting (ts : Timespec)
  | leaving (exit : Exit)
  deriving Repr, DecidableEq

/-- Every round of the loop waits for the same `ts`. -/
def resume (ts : Timespec) : Option Exit → Phase
  | none => .calling ts
  | some exit => .leaving exit

-- ---------------------------------------------------------------------------
-- Interleavings
-- ---------------------------------------------------------------------------

structure State where
  process : Process
  phase : Phase

/-- After `disable_signal_handlers`. -/
def State.disabled (p : Process) : State := ⟨disableSignalHandlers p, .idle⟩

/-- `taken` is whether `sigtimedwait` returns the signal. -/
inductive Label
  | call (timeout : BitVec 64)
  | wait
  | arrive (signal : Int) (taken : Bool)
  | fail (errno : Int)
  | leave (exit : Exit)
  deriving Repr, DecidableEq

/-- `fail` is a result of -1; with `EINTR`, by the handler of another signal. -/
inductive Step (s : State) : Label → State → Prop
  | call : s.phase = .idle →
      Step s (.call timeout) { s with phase := .calling (toTimespec timeout) }
  | wait : s.phase = .calling ts → Step s .wait { s with phase := .waiting ts }
  | handled : isTermination signal = true → (∀ ts, s.phase ≠ .waiting ts) →
      s.process.handled signal = true →
      Step s (.arrive signal false) { s with process := handleSignal signal s.process }
  | taken : isTermination signal = true → s.phase = .waiting ts →
      Step s (.arrive signal true) { s with phase := resume ts (settle signal 0) }
  | interrupts : isTermination signal = true → s.phase = .waiting ts →
      s.process.handled signal = true →
      Step s (.arrive signal false)
        ⟨handleSignal signal s.process, resume ts (settle (-1) eIntr)⟩
  | fail : s.phase = .waiting ts →
      Step s (.fail errno) { s with phase := resume ts (settle (-1) errno) }
  | leave : s.phase = .leaving exit → Step s (.leave exit) { s with phase := .idle }

end Xutil.Signals
