import Mathlib.Logic.Function.Basic
import Xutil.Lib.Calls
import Xutil.Lib.Runs
import Xutil.Log.Line

/-!
# All of `log_`

A record goes to the console, to the file and to the external logger, in this
order and each under a mutex of its own. What fails on the way to one of them
does not keep it from the next. Whether there is a file is asked before the
mutex of the file is taken. POSIX only.
-/

namespace Xutil.Log

open Calls

variable {W H C : Type}

/-- What a call of `log_` has by the time it has made its text. -/
structure Entry where
  time : Time
  level : Level
  thread : Nat
  pos : Option Position
  message : Text
  deriving DecidableEq

def Entry.text (e : Entry) : Text := putLine e.time e.level e.thread e.pos e.message

def Entry.record (e : Entry) : Record := ⟨e.time.lt, e.level, .ofList e.text⟩

/-- The standard error and the system's logger, whose calls may throw. -/
structure Outer (C : Type) where
  clog : Text → C → Option Unit × C
  syslog : Text → Nat → Text → C → Option Unit × C

/-- A whole logger, and what it has handed to the console and to the external
logger so far. -/
structure Full (W H C : Type) extends State W H where
  logger : Text
  console : Bool
  outer : C
  shown : List Entry := []
  sent : List Entry := []

inductive Outlet
  | console | file | external
  deriving Repr, DecidableEq

/-- Where a call of `log_` stands. `named` is what its look at `path_` has found. -/
inductive Stage
  | console
  | look
  | file (named : Bool)
  | external
  deriving Repr, DecidableEq

-- ---------------------------------------------------------------------------
-- The member function
-- ---------------------------------------------------------------------------

def Level.sequence : Level → Text
  | .fatal => "\x1b[37m\x1b[41m".toList
  | .error => "\x1b[31m".toList
  | .warn => "\x1b[33m".toList
  | .notice => "\x1b[32m".toList
  | .info => "\x1b[37m".toList
  | .debug => "\x1b[35m".toList
  | .trace => "\x1b[34m".toList
  | .verbose => "\x1b[36m".toList
  | _ => "\x1b[0m".toList

/-- `LOG_CRIT` to `LOG_DEBUG`. -/
def Level.priority : Level → Nat
  | .fatal => 2
  | .error => 3
  | .warn => 4
  | .notice => 5
  | .info => 6
  | .debug | .trace | .verbose => 7
  | _ => 2

variable (F : Files W H) (O : Outer C)

def outer (f : C → Option Unit × C) : Call Exception (Full W H C) Unit := fun s =>
  match f s.outer with
  | (some _, c) => (.ok (), { s with outer := c })
  | (none, c) => (.error .stream, { s with outer := c })

def toConsole (e : Entry) : Call Exception (Full W H C) Unit := do
  .modify fun s => { s with shown := s.shown ++ [e] }
  outer (O.clog (e.level.sequence ++ e.text ++ "\x1b[0m\n".toList))

def toFile (e : Entry) : Call Exception (Full W H C) Unit := fun s =>
  let (r, file) := (sink F e.record).run s.toState
  (r, { s with toState := file })

def toExternal (e : Entry) : Call Exception (Full W H C) Unit := do
  .modify fun s => { s with sent := s.sent ++ [e] }
  outer (O.syslog (← .get).logger e.level.priority e.text)

/-- The checks before anything is written. -/
def accepts (e : Entry) : Call Exception (Full W H C) Bool := do
  if e.level = .silent ∨ e.level = .all then .throw (.invalidArgument "")
  return ! decide ((← .get).level.toNat < e.level.toNat)

def passConsole (e : Entry) : Call Exception (Full W H C) Unit := do
  if (← .get).console then Call.ignore (toConsole O e)

/-- The look at `path_`, without a mutex. -/
def look : Call Exception (Full W H C) Bool := do return (← .get).path ≠ .empty

def passFile (named : Bool) (e : Entry) : Call Exception (Full W H C) Unit := do
  if named then Call.ignore (toFile F e)

def passExternal (e : Entry) : Call Exception (Full W H C) Unit := do
  if (← .get).logger ≠ [] then Call.ignore (toExternal O e)

def log_ (e : Entry) : Call Exception (Full W H C) Unit := do
  if ← accepts e then
    passConsole O e
    passFile F (← look) e
    passExternal O e

/-- The part of `log_` at one stage, and the stage after it. -/
def pass (e : Entry) : Stage → Call Exception (Full W H C) (Option Stage)
  | .console => do
    passConsole O e
    return some .look
  | .look => do return some (.file (← look))
  | .file named => do
    passFile F named e
    return some .external
  | .external => do
    passExternal O e
    return none

-- ---------------------------------------------------------------------------
-- Many threads
-- ---------------------------------------------------------------------------

/-- `stage` has the threads in the middle of `log_`: what they write, and where
they stand. -/
structure Shared (W H C : Type) extends Full W H C where
  stage : Nat → Option (Stage × Entry)

inductive Event (W : Type)
  | call (e : Entry)
  | pass (stage : Stage) (e : Entry)
  | outside (world : W)

/-- The settings of the logger do not change meanwhile: most of them are read
without a mutex. But a file that cannot be opened again clears `path_`, which may
fall between the look of another thread and its turn at the file. -/
inductive Shared.Step (s : Shared W H C) : Event W → Shared W H C → Prop
  | accepted : s.stage e.thread = none → (accepts e).run s.toFull = (.ok true, full) →
      Step s (.call e) ⟨full, Function.update s.stage e.thread (some (.console, e))⟩
  | refused : s.stage e.thread = none → (accepts e).run s.toFull = (res, full) → res ≠ .ok true →
      Step s (.call e) ⟨full, s.stage⟩
  | pass : s.stage e.thread = some (part, e) →
      (pass F O e part).run s.toFull = (.ok n, full) →
      Step s (.pass part e) ⟨full, Function.update s.stage e.thread (n.map (·, e))⟩
  | outside : Step s (.outside w) { s with world := w }

end Xutil.Log
