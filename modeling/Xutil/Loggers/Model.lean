import Mathlib.Data.List.AList
import Mathlib.Logic.Function.Basic
import Xutil.Log.Model

/-!
# The registry of loggers

`add_logger`, `remove_logger` and `logger` share a map, the mutex over it and a
once flag whose initialiser takes the mutex too. What each does while it has the
mutex is a `Call` on the map. `Step` runs whole functions one after another,
`Threads.Step` interleaves the stretches between the mutex and the flag.

Memory does not run out, but an initialiser may throw in `Threads.Step`.
-/

namespace Xutil.Loggers

open Calls
open Log hiding State Label Step

variable {W H : Type}

/-- The arguments of `add_logger` but the tag, and the time it reads. -/
structure Arguments where
  level : Level
  path : Path
  logger : String
  console : Bool
  lt : Tm

/-- `serial` tells objects apart. -/
structure Object (H : Type) extends Logger H where
  serial : Nat
  logger : String
  console : Bool

abbrev LoggerMap (H : Type) := AList fun _ : String => Object H

/-- `loggers` is `loggers_s`, which starts as a null pointer. `made` counts the
objects, and the files are in `world`. -/
structure Registry (W H : Type) where
  loggers : Option (LoggerMap H) := none
  made : Nat := 0
  world : W

def Registry.tags (s : Registry W H) : LoggerMap H := s.loggers.getD ∅

def Registry.insert (tag : String) (l : Object H) (s : Registry W H) : Registry W H :=
  { s with loggers := some (s.tags.insert tag l) }

-- ---------------------------------------------------------------------------
-- With the mutex
-- ---------------------------------------------------------------------------

/-- The initialiser of `logger_once_s`. -/
def initialise (s : Registry W H) : Registry W H :=
  if "" ∈ s.tags then { s with loggers := some s.tags }
  else { s with made := s.made + 1 }.insert "" ⟨{ level := .info }, s.made, "", true⟩

/-- `std::make_unique<logger_t>(level, path, logger, console)` -/
def makeLogger (F : Files W H) (a : Arguments) : Call Exception (Registry W H) (Object H) := fun s =>
  match (setPath F a.path false a.lt).run (.initial a.level s.world) with
  | (.ok (), l) =>
    (.ok ⟨l.toLogger, s.made, a.logger, a.console⟩, { s with made := s.made + 1, world := l.world })
  | (.error e, l) => (.error e, { s with world := l.world })

/-- `add_logger` after the flag. -/
def insertLogger (F : Files W H) (tag : String) (a : Arguments) :
    Call Exception (Registry W H) Unit := do
  if tag ∈ (← .get).tags then .throw (.invalidArgument "")
  let l ← makeLogger F a
  .modify (Registry.insert tag l)

/-- `remove_logger` after the flag. The file of the logger is closed with it. -/
def eraseLogger (F : Files W H) (tag : String) : Call Exception (Registry W H) Unit := do
  match (← .get).tags.lookup tag with
  | none => .throw (.invalidArgument "")
  | some l =>
    .modify fun s =>
      { s with
        loggers := some (s.tags.erase tag)
        world := l.ofs.elim s.world fun h => F.close h s.world }

/-- `logger` after the flag. -/
def findLogger (tag : String) : Call Exception (Registry W H) Nat := do
  match (← .get).tags.lookup tag with
  | none => .throw (.invalidArgument "")
  | some l => return l.serial

-- ---------------------------------------------------------------------------
-- One call after another
-- ---------------------------------------------------------------------------

structure State (W H : Type) extends Registry W H where
  once : Bool := false

def State.initial (world : W) : State W H := { world }

def callOnce (s : State W H) : State W H := if s.once then s else ⟨initialise s.toRegistry, true⟩

def locked (body : Call Exception (Registry W H) α) (s : State W H) :
    Except Exception α × State W H :=
  ((body.run s.toRegistry).1, ⟨(body.run s.toRegistry).2, s.once⟩)

/-- It has the mutex at the flag. If the flag is not set it never returns: the
initialiser waits for the mutex. -/
def addLogger (F : Files W H) (tag : String) (a : Arguments) (s : State W H) :
    Option (Except Exception Unit × State W H) :=
  if tag = "" then some (.error (.invalidArgument ""), s)
  else if s.once then some (locked (insertLogger F tag a) s)
  else none

def removeLogger (F : Files W H) (tag : String) (s : State W H) :
    Except Exception Unit × State W H :=
  if tag = "" then (.error (.invalidArgument ""), s) else locked (eraseLogger F tag) (callOnce s)

def logger (tag : String) (s : State W H) : Except Exception Nat × State W H :=
  locked (findLogger tag) (callOnce s)

inductive Label
  | add (tag : String) (a : Arguments) (result : Except Exception Unit)
  | remove (tag : String) (result : Except Exception Unit)
  | logger (tag : String) (result : Except Exception Nat)

inductive Step (F : Files W H) (s : State W H) : Label → State W H → Prop
  | add : addLogger F tag a s = some (r, s') → Step F s (.add tag a r) s'
  | remove : removeLogger F tag s = (r, s') → Step F s (.remove tag r) s'
  | logger : Loggers.logger tag s = (r, s') → Step F s (.logger tag r) s'

-- ---------------------------------------------------------------------------
-- Threads
-- ---------------------------------------------------------------------------

namespace Threads

inductive Command
  | add (tag : String) (a : Arguments)
  | remove (tag : String)
  | logger (tag : String)

/-- The check before anything else. -/
def Command.Valid : Command → Prop
  | .add tag _ => tag ≠ ""
  | .remove tag => tag ≠ ""
  | .logger _ => True

/-- Whether it takes the mutex before it comes to the flag. -/
def Command.locksFirst : Command → Bool
  | .add .. => true
  | .remove .. => false
  | .logger .. => false

def Command.body (F : Files W H) : Command → Call Exception (Registry W H) Unit
  | .add tag a => insertLogger F tag a
  | .remove tag => eraseLogger F tag
  | .logger tag => do
    let _ ← findLogger tag

/-- Where a thread is: about to take the mutex of the function, at the flag, in
the initialiser before and after its mutex, or past both. -/
inductive Phase
  | idle
  | acquire (c : Command)
  | once (c : Command)
  | initialise (c : Command)
  | create (c : Command)
  | body (c : Command)

inductive Once (T : Type)
  | unset
  | running (t : T)
  | done

structure State (T W H : Type) where
  lock : Option T
  once : Once T
  phase : T → Phase
  registry : Registry W H

def State.initial (world : W) : State T W H := ⟨none, .unset, fun _ => .idle, { world }⟩

/-- Past the flag. -/
def Command.next (c : Command) : Phase := if c.locksFirst then .body c else .acquire c

def Command.start (c : Command) : Phase := if c.locksFirst then .acquire c else .once c

/-- With the mutex of the function. -/
def Command.entered (c : Command) : Phase := if c.locksFirst then .once c else .body c

inductive Event
  | call (c : Command)
  | reject (c : Command)
  | acquire (c : Command)
  | pass (c : Command)
  | enter (c : Command)
  | lock (c : Command)
  | create (c : Command)
  | threw (c : Command)
  | body (c : Command)

variable {T : Type} [DecidableEq T]

def State.go (s : State T W H) (t : T) (p : Phase) : State T W H :=
  { s with phase := Function.update s.phase t p }

/-- The mutex can be taken only while nobody has it, and at a flag that is
running there is no step. -/
inductive Step (F : Files W H) (s : State T W H) : T × Event → State T W H → Prop
  | call : s.phase t = .idle → c.Valid → Step F s (t, .call c) (s.go t c.start)
  | reject : s.phase t = .idle → ¬ c.Valid → Step F s (t, .reject c) s
  | acquire : s.phase t = .acquire c → s.lock = none →
      Step F s (t, .acquire c) { s.go t c.entered with lock := some t }
  | pass : s.phase t = .once c → s.once = .done → Step F s (t, .pass c) (s.go t c.next)
  | enter : s.phase t = .once c → s.once = .unset →
      Step F s (t, .enter c) { s.go t (.initialise c) with once := .running t }
  | lock : s.phase t = .initialise c → s.lock = none →
      Step F s (t, .lock c) { s.go t (.create c) with lock := some t }
  | create : s.phase t = .create c →
      Step F s (t, .create c)
        { s.go t c.next with lock := none, once := .done, registry := initialise s.registry }
  | threw : s.phase t = .create c →
      Step F s (t, .threw c) { s.go t .idle with lock := none, once := .unset }
  | body : s.phase t = .body c → (c.body F).run s.registry = (r, registry) →
      Step F s (t, .body c) { s.go t .idle with lock := none, registry := registry }

end Threads

end Xutil.Loggers
