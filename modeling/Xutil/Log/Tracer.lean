import Xutil.Lib.Brackets
import Xutil.Lib.Scopes
import Xutil.Log.Delivery
import Xutil.Log.Dump

/-!
# Programs with tracers

What a thread does with the tracers and the `finally_t` objects of its scopes,
the latter on procedures that live on. Everything else it does is a change of a
state of its own, and may throw. `exec` runs a program as the code does and keeps
what it asks the logger to write; `callTree` is what it means: the tree of the
scopes it goes through.
-/

namespace Xutil.Log

open Brackets Calls Scopes

/-- The call of `log` that is made. -/
structure Request where
  level : Level
  pos : Position
  message : Text
  deriving Repr, DecidableEq

/-- A `tracer_t` object. -/
structure Frame where
  pos : Position
  level : Level
  result : Text
  deriving Repr, DecidableEq

/-- `frames` are the tracers that live, the innermost first. `handlers` has the
handlers of `finally_t` as they are set and as they run. -/
structure Thread (σ : Type) where
  own : σ
  frames : List Frame
  asked : List Request
  handlers : List (Token Nat Unit)

/-- How a message starts, and the rest of it. -/
def split : Text → Mark × Text
  | '>' :: '>' :: '>' :: text => (.enter, text)
  | '<' :: '<' :: '<' :: text => (.leave, text)
  | text => (.note, text)

/-- A message that does not look like one of a tracer's scope. -/
abbrev Plain := { message : Text // (split message).1 = .note }

/-- `choose` goes on in a way that depends on the state, be it a branch or a
loop. A tracer is known by the number of those inside of it; a number that is
too large has no counterpart. `guarded` is a `finally_t` whose procedure outlives
it: it keeps a reference, and a temporary is gone when its destructor runs. -/
inductive Program (ε σ : Type)
  | done
  | throw (e : ε)
  | act (f : σ → σ) (next : Program ε σ)
  | choose (next : σ → Program ε σ)
  | log (level : Level) (pos : Position) (message : Plain) (next : Program ε σ)
  | tracer (message : Text) (level : Level) (pos : Position) (body next : Program ε σ)
  | trace (tracer : Nat) (ts : List Ty) (args : Args ts) (next : Program ε σ)
  | setResult (tracer : Nat) (t : Ty) (result : t.Val) (next : Program ε σ)
  | tryCatch (body : Program ε σ) (handler : ε → Program ε σ) (next : Program ε σ)
  | guarded (id : Nat) (procedure body next : Program ε σ)

-- ---------------------------------------------------------------------------
-- As the code runs
-- ---------------------------------------------------------------------------

variable {ε σ : Type} (invalid : ε)

def Level.loggable (level : Level) : Bool := level ≠ .silent && level ≠ .all

/-- `logger_t::log`, which checks the level before it looks at its own. -/
def ask (r : Request) : Call (Stop ε) (Thread σ) Unit := do
  .modify fun s => { s with asked := s.asked ++ [r] }
  if ! r.level.loggable then .throw (.thrown invalid)

def pushFrame (frame : Frame) : Call (Stop ε) (Thread σ) Unit :=
  .modify fun s => { s with frames := frame :: s.frames }

/-- `~tracer_t` -/
def popFrame : Call (Stop ε) (Thread σ) Unit := do
  match (← .get).frames with
  | [] => pure ()
  | frame :: frames =>
    .modify fun s => { s with frames }
    ask invalid ⟨frame.level, frame.pos, "<<<".toList ++ frame.result⟩

def traceFrame (tracer : Nat) (message : Text) : Call (Stop ε) (Thread σ) Unit := do
  match (← .get).frames[tracer]? with
  | none => pure ()
  | some frame => ask invalid ⟨frame.level, frame.pos, "---".toList ++ message⟩

def setFrame (tracer : Nat) (result : Text) (frames : List Frame) : List Frame :=
  frames.modify tracer fun frame => { frame with result }

def noteHandler (mark : Mark) (id : Nat) : Call (Stop ε) (Thread σ) Unit :=
  .modify fun s => { s with handlers := s.handlers ++ [⟨mark, id, ()⟩] }

def exec : Program ε σ → Call (Stop ε) (Thread σ) Unit
  | .done => pure ()
  | .throw e => .throw (.thrown e)
  | .act f next => do
    .modify fun s => { s with own := f s.own }
    exec next
  | .choose next => fun s => (exec (next s.own)).run s
  | .log level pos message next => do
    ask invalid ⟨level, pos, message⟩
    exec next
  | .tracer message level pos body next => do
    ask invalid ⟨level, pos, ">>>".toList ++ message⟩
    pushFrame ⟨pos, level, []⟩
    onExit (exec body) (popFrame invalid)
    exec next
  | .trace tracer ts args next => do
    traceFrame invalid tracer (cat ts args).toList
    exec next
  | .setResult tracer t result next => do
    .modify fun s => { s with frames := setFrame tracer (enclose [t] result).toList s.frames }
    exec next
  | .tryCatch body handler next => do
    catching (exec body) fun e => exec (handler e)
    exec next
  | .guarded id procedure body next => do
    noteHandler .enter id
    onExit (exec body) (do
      noteHandler .leave id
      swallow (exec procedure))
    exec next

-- ---------------------------------------------------------------------------
-- What it means
-- ---------------------------------------------------------------------------

/-- What a line tells of its caller. -/
structure Site where
  level : Level
  filename : Text
  line : Nat
  function : Text
  deriving Repr, DecidableEq

def site (level : Level) (pos : Position) : Site :=
  ⟨level, pos.filename, pos.line, functionLabel pos.functionName⟩

/-- A forest of scopes, how they end, and the state and the tracers after them. -/
structure CallTree (ε σ : Type) where
  scopes : Forest Site Text
  outcome : Except ε Unit
  own : σ
  frames : List Frame

namespace CallTree

def ends (own : σ) (frames : List Frame) : CallTree ε σ := ⟨.nil, .ok (), own, frames⟩

def throws (e : ε) (own : σ) (frames : List Frame) : CallTree ε σ := ⟨.nil, .error e, own, frames⟩

def note (site : Site) (text : Text) (c : CallTree ε σ) : CallTree ε σ :=
  { c with scopes := .note site text c.scopes }

/-- The scope of a tracer around what it has seen. -/
def within (site : Site) (message : Text) (c : CallTree ε σ) : CallTree ε σ :=
  { c with
    scopes := .scope site message c.scopes ((c.frames.head?.map (·.result)).getD []) .nil
    frames := c.frames.tail }

/-- Goes on with what comes next, if it has not thrown. -/
def andThen (c : CallTree ε σ) (next : σ → List Frame → CallTree ε σ) : CallTree ε σ :=
  match c.outcome with
  | .ok _ => { next c.own c.frames with scopes := c.scopes ++ (next c.own c.frames).scopes }
  | .error _ => c

/-- Goes on with the handler, if it has thrown. -/
def orElse (c : CallTree ε σ) (handler : ε → σ → List Frame → CallTree ε σ) : CallTree ε σ :=
  match c.outcome with
  | .ok _ => c
  | .error e => { c with outcome := .ok () }.andThen (handler e)

/-- Goes on in any case, and keeps how it has ended. -/
def inAnyCase (c : CallTree ε σ) (leave : σ → List Frame → CallTree ε σ) : CallTree ε σ :=
  { leave c.own c.frames with
    scopes := c.scopes ++ (leave c.own c.frames).scopes
    outcome := c.outcome }

end CallTree

def callTree : Program ε σ → σ → List Frame → CallTree ε σ
  | .done, own, frames => .ends own frames
  | .throw e, own, frames => .throws e own frames
  | .act f next, own, frames => callTree next (f own) frames
  | .choose next, own, frames => callTree (next own) own frames
  | .log level pos message next, own, frames =>
    if level.loggable then (callTree next own frames).note (site level pos) message
    else .throws invalid own frames
  | .tracer message level pos body next, own, frames =>
    if level.loggable then
      ((callTree body own (⟨pos, level, []⟩ :: frames)).within (site level pos) message).andThen
        (callTree next)
    else .throws invalid own frames
  | .trace tracer ts args next, own, frames =>
    match frames[tracer]? with
    | none => callTree next own frames
    | some frame =>
      if frame.level.loggable then
        (callTree next own frames).note (site frame.level frame.pos)
          ("---".toList ++ (cat ts args).toList)
      else .throws invalid own frames
  | .setResult tracer t result next, own, frames =>
    callTree next own (setFrame tracer (enclose [t] result).toList frames)
  | .tryCatch body handler next, own, frames =>
    ((callTree body own frames).orElse fun e => callTree (handler e)).andThen (callTree next)
  | .guarded _ procedure body next, own, frames =>
    ((callTree body own frames).inAnyCase (callTree procedure)).andThen (callTree next)

end Xutil.Log
