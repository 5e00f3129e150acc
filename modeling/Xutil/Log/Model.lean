import Xutil.Lib.Calls
import Xutil.Lib.Runs
import Xutil.Log.Names

/-!
# `logger_t` and its file sink

`log_` and `set_path` over the file operations they make. A record is what one
`log_` call has sampled and formatted by the time it takes `file_mutex_`. The
console and the external logger see none of this state.

The file system is a parameter. Any of its calls may fail, as may writes to the
open stream.
-/

namespace Xutil.Log

open Calls

inductive Level
  | silent | fatal | error | warn | notice | info | debug | trace | verbose | all
  deriving Repr, DecidableEq

def Level.toNat : Level → Nat
  | .silent => 0
  | .fatal => 1
  | .error => 2
  | .warn => 3
  | .notice => 4
  | .info => 5
  | .debug => 6
  | .trace => 7
  | .verbose => 8
  | .all => 9

inductive Exception
  | invalidArgument (what : String)
  | logicError (what : String)
  | runtimeError (what : String)
  | filesystem
  | stream
  deriving Repr, DecidableEq

structure Record where
  lt : Tm
  level : Level
  str : String
  deriving Repr, DecidableEq

/-- `H` is an open file. `none` is a call that throws. -/
structure Files (W H : Type) where
  fileExists : Path → W → Option Bool × W
  rename : Path → Path → W → Option Unit × W
  openApp : Path → W → Option H × W
  write : H → Record → W → Option Unit × W
  close : H → W → W

def Files.Opens (F : Files W H) : Prop := ∀ path w, ∃ f w', F.openApp path w = (some f, w')

def Files.Writes (F : Files W H) : Prop := ∀ f r w, ∃ w', F.write f r w = (some (), w')

inductive FileCall (H : Type)
  | rename (path previous : Path)
  | openApp (path : Path)
  | write (ofs : H) (r : Record)
  deriving Repr, DecidableEq

/-- `bad` is the `badbit` of the open stream. -/
structure Logger (H : Type) where
  level : Level
  path : Path := .empty
  daily : Option Tm := none
  ofs : Option H := none
  bad : Bool := false

/-- The logger, the files, and what it has asked of them so far. -/
structure State (W H : Type) extends Logger H where
  world : W
  calls : List (FileCall H) := []

/-- `logger_t()`. The other constructor goes on with a `set_path`. -/
def State.initial (level : Level) (world : W) : State W H := { level, world }

variable {W H α : Type} (F : Files W H)

-- ---------------------------------------------------------------------------
-- File operations
-- ---------------------------------------------------------------------------

def io (f : W → Option α × W) (e : Exception) : Call Exception (State W H) α := fun s =>
  match f s.world with
  | (some a, w) => (.ok a, { s with world := w })
  | (none, w) => (.error e, { s with world := w })

def note (c : FileCall H) : Call Exception (State W H) Unit :=
  .modify fun s => { s with calls := s.calls ++ [c] }

def existsFile (path : Path) : Call Exception (State W H) Bool := io (F.fileExists path) .filesystem

def renameFile (path previous : Path) : Call Exception (State W H) Unit := do
  note (.rename path previous)
  io (F.rename path previous) .filesystem

/-- `open` with `failbit` in the exception mask. -/
def openOfs (path : Path) : Call Exception (State W H) Unit := do
  note (.openApp path)
  let h ← io (F.openApp path) .stream
  .modify fun s => { s with ofs := some h, bad := false }

def State.closed (s : State W H) : State W H :=
  { s with ofs := none, bad := false, world := s.ofs.elim s.world fun h => F.close h s.world }

/-- `close` and `clear`. -/
def closeOfs : Call Exception (State W H) Unit := .modify (State.closed F)

/-- Insertion into the stream. Once it is bad it throws without an attempt. -/
def writeOfs (r : Record) : Call Exception (State W H) Unit := do
  match (← .get).ofs with
  | none => return
  | some h =>
    if (← .get).bad then .throw .stream
    note (.write h r)
    (io (F.write h r) .stream).onError fun s => { s with bad := true }

-- ---------------------------------------------------------------------------
-- Member functions
-- ---------------------------------------------------------------------------

def needsRotation (lt : Tm) : Call Exception (State W H) Bool := do
  match (← .get).daily with
  | none => return false
  | some daily =>
    if daily.tmYear ≠ lt.tmYear ∨ daily.tmYday ≠ lt.tmYday then existsFile F (← .get).path
    else return false

def maxRetry : Nat := 10

/-- The loop of `get_previous_path_` with `left` names to go after this one. -/
def firstFree (path : Path) (daily : Tm) : Nat → Call Exception (State W H) Path
  | 0 => do
    if ← existsFile F (previousPath path daily (maxRetry + 1)) then
      .throw (.runtimeError "get_previous_path_")
    return previousPath path daily (maxRetry + 1)
  | left + 1 => do
    if ← existsFile F (previousPath path daily (maxRetry - left)) then firstFree path daily left
    else return previousPath path daily (maxRetry - left)

def getPreviousPath : Call Exception (State W H) Path := do
  match (← .get).daily with
  | none => .throw (.logicError "get_previous_path_")
  | some daily => firstFree F (← .get).path daily (maxRetry + 1)

/-- `std::filesystem::rename(path_, get_previous_path_())`. -/
def renameToPrevious : Call Exception (State W H) Unit := do
  let previous ← getPreviousPath F
  renameFile F (← .get).path previous

def openLogfile (path : Path) (lt : Option Tm) : Call Exception (State W H) Unit := do
  if (← .get).ofs.isSome then .throw (.logicError "open_logfile_")
  .modify fun s => { s with path := path }
  if path = .empty then .modify fun s => { s with daily := none }
  else
    Call.onError
      (do
        openOfs F path
        .modify fun s => { s with daily := lt })
      fun s => { s with path := .empty, daily := none }

/-- The file sink of `log_`, under `file_mutex_`. -/
def sink (r : Record) : Call Exception (State W H) Unit := do
  if ← needsRotation F r.lt then
    closeOfs F
    renameToPrevious F
    openLogfile F (← .get).path (← .get).daily
  .modify fun s => { s with daily := some r.lt }
  writeOfs F r

def log (r : Record) : Call Exception (State W H) Unit := do
  if r.level = .silent ∨ r.level = .all then .throw (.invalidArgument "")
  if (← .get).level.toNat < r.level.toNat then return
  if (← .get).path ≠ .empty then Call.ignore (sink F r)

def setPath (path : Path) (daily : Bool) (lt : Tm) : Call Exception (State W H) Unit := do
  closeOfs F
  if ← needsRotation F lt then renameToPrevious F
  openLogfile F path (if daily then some lt else none)

-- ---------------------------------------------------------------------------
-- Calls one after another
-- ---------------------------------------------------------------------------

/-- `outside` is whatever else happens to the files between two calls. -/
inductive Label (W : Type)
  | log (r : Record)
  | setPath (path : Path) (daily : Bool) (lt : Tm)
  | outside (world : W)

/-- One call after another. Of many threads `file_mutex_` only keeps the file
sinks apart: `log_` looks at `level_` and `path_` before it takes it. -/
inductive Step (s : State W H) : Label W → State W H → Prop
  | log : (log F r).run s = (res, s') → Step s (.log r) s'
  | setPath : (setPath F path daily lt).run s = (res, s') → Step s (.setPath path daily lt) s'
  | outside : Step s (.outside w) { s with world := w }

end Xutil.Log
