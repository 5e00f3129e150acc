import Xutil.Lib.Calls
import Xutil.Lib.Runs
import Xutil.Lib.Slots

/-!
# The store

A `dispatch` takes `mutex_` twice: exclusively to reduce and shared to notify.
`Step` runs whole calls one after another. `Shared.Step` interleaves the locked
sections of any number of threads.

A listener that is removed leaves a placeholder, and a handle is a position in
the vector.
-/

namespace Xutil.Redux

open Calls Slots

variable {T S A L : Type}

/-- How the reducer ended and what it has made of its `State&` argument. -/
inductive Reduction (S : Type)
  | returned (inPlace : S) (value : Option S)
  | threw (inPlace : S)

abbrev Reducer (S A : Type) := S → A → Reduction S

/-- The state that one reduction leaves. -/
def Reducer.apply (reducer : Reducer S A) (state : S) (action : A) : S :=
  match reducer state action with
  | .returned inPlace value => value.getD inPlace
  | .threw inPlace => inPlace

/-- The reducer does not throw. -/
def Reducer.Total (reducer : Reducer S A) : Prop := ∀ s a, ∃ s' v, reducer s a = .returned s' v

/-- If the reducer throws, it has not written yet. -/
def Reducer.Clean (reducer : Reducer S A) : Prop := ∀ s a s', reducer s a = .threw s' → s' = s

/-- One call of `add_listener`. The serial number only tells them apart. -/
structure Registration (L : Type) where
  serial : Nat
  listener : L
  deriving Repr, DecidableEq

/-- The members behind `mutex_`. `added` counts the calls of `add_listener`. -/
structure Store (S L : Type) where
  state : S
  listeners : List (Option (Registration L)) := []
  added : Nat := 0
  deriving Repr, DecidableEq

def Store.initial (state : S) : Store S L := { state }

/-- The listeners without the placeholders. -/
def Store.registered (s : Store S L) : List (Registration L) := s.listeners.reduceOption

/-- What one listener is called with. -/
structure Notice (S A L : Type) where
  registration : Registration L
  state : S
  action : A
  deriving Repr, DecidableEq

/-- The store during a `dispatch`, with the calls of the listeners so far. -/
structure Calling (S A L : Type) extends Store S L where
  notices : List (Notice S A L) := []
  deriving Repr, DecidableEq

inductive Exception
  | outOfRange
  | reducer
  | listener
  deriving Repr, DecidableEq

-- ---------------------------------------------------------------------------
-- Member functions
-- ---------------------------------------------------------------------------

/-- `dispatch` under the exclusive lock. -/
def reduce (reducer : Reducer S A) (action : A) : Call Exception (Store S L) Unit := fun s =>
  match reducer s.state action with
  | .returned inPlace value => (.ok (), { s with state := value.getD inPlace })
  | .threw inPlace => (.error .reducer, { s with state := inPlace })

/-- `listener(state_, action)`. The listeners that throw this time are given by
their positions, those that are an empty `std::function` among them. -/
def call (throws : Nat → Bool) (action : A) (listener : Nat × Registration L) :
    Call Exception (Calling S A L) Unit := do
  .modify fun s => { s with notices := s.notices ++ [⟨listener.2, s.state, action⟩] }
  if throws listener.1 then .throw .listener

/-- `dispatch` under the shared lock. A placeholder does nothing when called. -/
def notify (throws : Nat → Bool) (action : A) : Call Exception (Calling S A L) Unit := do
  forM (slots (← .get).listeners) (call throws action)

def onStore (m : Call Exception (Store S L) α) : Call Exception (Calling S A L) α := fun s =>
  ((m.run s.toStore).1, { s with toStore := (m.run s.toStore).2 })

def dispatch (reducer : Reducer S A) (throws : Nat → Bool) (action : A) :
    Call Exception (Calling S A L) Unit := do
  onStore (reduce reducer action)
  notify throws action

def addListener (listener : L) : Call Exception (Store S L) Nat := do
  .modify fun s =>
    { s with listeners := s.listeners ++ [some ⟨s.added, listener⟩], added := s.added + 1 }
  return (← .get).listeners.length - 1

/-- The check is that of `listeners_.at`. -/
def removeListener (listener : Nat) : Call Exception (Store S L) Unit := do
  if listener < (← .get).listeners.length then
    .modify fun s => { s with listeners := s.listeners.set listener none }
  else .throw .outOfRange

def clearListeners : Call Exception (Store S L) Unit := .modify fun s => { s with listeners := [] }

def fullcopiedState : Call Exception (Store S L) S := do return (← .get).state

-- ---------------------------------------------------------------------------
-- One call after another
-- ---------------------------------------------------------------------------

inductive Label (S A L : Type)
  | add (registration : Registration L) (handle : Nat)
  | remove (handle : Nat) (result : Except Exception Unit)
  | clear
  | dispatch (action : A) (throws : Nat → Bool) (result : Except Exception Unit)
      (notices : List (Notice S A L))

inductive Step (reducer : Reducer S A) (s : Store S L) : Label S A L → Store S L → Prop
  | add : (addListener l).run s = (.ok h, s') → Step reducer s (.add ⟨s.added, l⟩ h) s'
  | remove : (removeListener h).run s = (r, s') → Step reducer s (.remove h r) s'
  | clear : clearListeners.run s = (.ok (), s') → Step reducer s .clear s'
  | dispatch : (Redux.dispatch reducer throws a).run { s with notices := [] } = (r, c) →
      Step reducer s (.dispatch a throws r c.notices) c.toStore

-- ---------------------------------------------------------------------------
-- Threads
-- ---------------------------------------------------------------------------

namespace Shared

/-- `pending` has the action of each thread that is between the two halves of a
`dispatch`. -/
structure State (T S A L : Type) extends Store S L where
  pending : T → Option A

def State.initial (state : S) : State T S A L := { Store.initial state with pending := fun _ => none }

inductive Label (T S A L : Type)
  | add (t : T) (registration : Registration L) (handle : Nat)
  | remove (t : T) (handle : Nat) (result : Except Exception Unit)
  | clear (t : T)
  | read (t : T) (state : S)
  | reduce (t : T) (action : A)
  | threw (t : T) (action : A)
  | notify (t : T) (action : A) (throws : Nat → Bool) (result : Except Exception Unit)
      (notices : List (Notice S A L))

/-- A thread in the middle of a `dispatch` can only go on with it. -/
inductive Step [DecidableEq T] (reducer : Reducer S A) (s : State T S A L) :
    Label T S A L → State T S A L → Prop
  | add : s.pending t = none → (addListener l).run s.toStore = (.ok h, s') →
      Step reducer s (.add t ⟨s.added, l⟩ h) ⟨s', s.pending⟩
  | remove : s.pending t = none → (removeListener h).run s.toStore = (r, s') →
      Step reducer s (.remove t h r) ⟨s', s.pending⟩
  | clear : s.pending t = none → clearListeners.run s.toStore = (.ok (), s') →
      Step reducer s (.clear t) ⟨s', s.pending⟩
  | read : s.pending t = none → fullcopiedState.run s.toStore = (.ok state, s') →
      Step reducer s (.read t state) ⟨s', s.pending⟩
  | reduce : s.pending t = none → (Redux.reduce reducer a).run s.toStore = (.ok (), s') →
      Step reducer s (.reduce t a) ⟨s', Function.update s.pending t (some a)⟩
  | threw : s.pending t = none → (Redux.reduce reducer a).run s.toStore = (.error e, s') →
      Step reducer s (.threw t a) ⟨s', s.pending⟩
  | notify : s.pending t = some a →
      (Redux.notify throws a).run { s.toStore with notices := [] } = (r, c) →
      Step reducer s (.notify t a throws r c.notices) ⟨c.toStore, Function.update s.pending t none⟩

end Shared

end Xutil.Redux
