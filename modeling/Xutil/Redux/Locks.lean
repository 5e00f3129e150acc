import Xutil.Lib.Sections
import Xutil.Redux.Registry

/-!
# The store access by access

The reducer writes its `State&` argument as often as it likes, and threads that
hold the lock shared call the listeners and look at the state in any order. An
exception of a reducer, a listener or a functor gives the lock back early. Yet
nobody sees a state in between, and what the calls do is what the sections of
`Shared.Step` do, each at the moment in which the call gives the lock back.
-/

namespace Xutil.Redux

open Calls Runs Sections Slots

variable {T S A L : Type}

/-- What a locked section has done. -/
inductive Done (S A L : Type)
  | add (registration : Registration L) (handle : Nat)
  | remove (handle : Nat) (result : Except Exception Unit)
  | clear
  | read (state : S)
  | reduce (action : A)
  | threw (action : A)
  | notify (action : A) (throws : Nat → Bool) (result : Except Exception Unit)
      (notices : List (Notice S A L))

/-- What a thread inside has still to do. -/
inductive Task (S A L : Type)
  | dispatching (action : A)
  | reducing (action : A) (began : S)
  | reduced (action : A) (value : Option S)
  | notifying (action : A) (next : Nat) (notices : List (Notice S A L))
  | adding (listener : L)
  | added (registration : Registration L)
  | removing (handle : Nat)
  | clearing
  | referring
  | viewing (state : S)
  | ended (done : Done S A L)

inductive Event (S A L : Type)
  | called (notice : Notice S A L)
  | looked (state : S)
  | quiet

/-- Whether `std::lock_guard` or `std::shared_lock` is the lock. -/
def Done.writes : Done S A L → Bool
  | .read _ | .notify .. => false
  | _ => true

def Task.writes : Task S A L → Bool
  | .notifying .. | .referring | .viewing _ => false
  | .ended done => done.writes
  | _ => true

/-- The first half of the `dispatch` that a section is the second half of. -/
def Done.pending : Done S A L → Option A
  | .notify a .. => some a
  | _ => none

def Task.pending : Task S A L → Option A
  | .notifying a .. => some a
  | .ended done => done.pending
  | _ => none

/-- An exception leaves `dispatch` before its second half. -/
def Done.next : Done S A L → Option A
  | .reduce a => some a
  | _ => none

inductive Task.Starts : Task S A L → Prop
  | dispatching : Starts (.dispatching a)
  | notifying : Starts (.notifying a 0 [])
  | adding : Starts (.adding l)
  | removing : Starts (.removing h)
  | clearing : Starts .clearing
  | referring : Starts .referring

/-- A listener may throw whenever it is called. A functor that `state` is called
with may look at the state any number of times before it returns or throws, and
`fullcopied_state` looks once. -/
inductive Access (reducer : Reducer S A) :
    Task S A L × Store S L → Event S A L → Task S A L × Store S L → Prop
  | call : Access reducer (.dispatching a, s) .quiet (.reducing a s.state, s)
  | write : Access reducer (.reducing a x, s) .quiet (.reducing a x, { s with state := y })
  | returned : reducer x a = .returned inPlace value →
      Access reducer (.reducing a x, s) .quiet (.reduced a value, { s with state := inPlace })
  | threw : reducer x a = .threw inPlace →
      Access reducer (.reducing a x, s) .quiet (.ended (.threw a), { s with state := inPlace })
  | swap : Access reducer (.reduced a (some y), s) .quiet
      (.ended (.reduce a), { s with state := y })
  | keep : Access reducer (.reduced a none, s) .quiet (.ended (.reduce a), s)
  | listener : s.listeners[i]? = some (some r) →
      Access reducer (.notifying a i ns, s) (.called ⟨r, s.state, a⟩)
        (.notifying a (i + 1) (ns ++ [⟨r, s.state, a⟩]), s)
  | listenerThrew : s.listeners[i]? = some (some r) →
      Access reducer (.notifying a i ns, s) (.called ⟨r, s.state, a⟩)
        (.ended (.notify a (· == i) (.error .listener) (ns ++ [⟨r, s.state, a⟩])), s)
  | placeholder : s.listeners[i]? = some none →
      Access reducer (.notifying a i ns, s) .quiet (.notifying a (i + 1) ns, s)
  | notified : s.listeners.length = i →
      Access reducer (.notifying a i ns, s) .quiet
        (.ended (.notify a (fun _ => false) (.ok ()) ns), s)
  | pushBack : Access reducer (.adding l, s) .quiet (.added ⟨s.added, l⟩, { s with
      listeners := s.listeners ++ [some ⟨s.added, l⟩]
      added := s.added + 1 })
  | size : Access reducer (.added r, s) .quiet (.ended (.add r (s.listeners.length - 1)), s)
  | replace : (removeListener h).run s = (r, s') →
      Access reducer (.removing h, s) .quiet (.ended (.remove h r), s')
  | clear : clearListeners.run s = (.ok (), s') →
      Access reducer (.clearing, s) .quiet (.ended .clear, s')
  | refer : Access reducer (.referring, s) .quiet (.viewing s.state, s)
  | look : Access reducer (.viewing x, s) (.looked s.state) (.viewing x, s)
  | viewed : Access reducer (.viewing x, s) .quiet (.ended (.read x), s)

/-- The threads of a store, each with the action it has still to notify. -/
def system (reducer : Reducer S A) :
    System (Store S L) (Option A) (Task S A L) (Event S A L) (Done S A L) where
  enters pending _ p := p.Starts ∧ p.pending = pending
  writes := Task.writes
  access := Access reducer
  leaves p r := p = .ended r
  after _ r := r.next
  writes_eq h := by cases h <;> rfl
  reads_eq h hreads := by cases h <;> first | rfl | cases hreads

-- ---------------------------------------------------------------------------
-- One section
-- ---------------------------------------------------------------------------

def Event.notice : Event S A L → Option (Notice S A L)
  | .called n => some n
  | _ => none

def Done.notices : Done S A L → List (Notice S A L)
  | .notify _ _ _ ns => ns
  | _ => []

def Task.notices : Task S A L → List (Notice S A L)
  | .notifying _ _ ns => ns
  | .ended done => done.notices
  | _ => []

/-- What the section does to the store it is entered with. -/
inductive Done.Effect (reducer : Reducer S A) (s : Store S L) : Done S A L → Store S L → Prop
  | add : (addListener l).run s = (.ok h, s') → Effect reducer s (.add ⟨s.added, l⟩ h) s'
  | remove : (removeListener h).run s = (r, s') → Effect reducer s (.remove h r) s'
  | clear : clearListeners.run s = (.ok (), s') → Effect reducer s .clear s'
  | read : fullcopiedState.run s = (.ok x, s') → Effect reducer s (.read x) s'
  | reduce : (Redux.reduce reducer a).run s = (.ok (), s') → Effect reducer s (.reduce a) s'
  | threw : (Redux.reduce reducer a).run s = (.error e, s') → Effect reducer s (.threw a) s'
  | notify : (Redux.notify throws a).run { s with notices := [] } = (r, c) →
      Effect reducer s (.notify a throws r c.notices) c.toStore

/-- What a task says of the store `x` that its section was entered with. -/
inductive Reached (reducer : Reducer S A) (x : Store S L) : Task S A L → Store S L → Prop
  | dispatching : Reached reducer x (.dispatching a) x
  | reducing : Reached reducer x (.reducing a x.state) { x with state := y }
  | reduced : reducer x.state a = .returned inPlace value →
      Reached reducer x (.reduced a value) { x with state := inPlace }
  | notifying : Reached reducer x (.notifying a i
      ((slots (x.listeners.take i)).map fun p => ⟨p.2, x.state, a⟩)) x
  | adding : Reached reducer x (.adding l) x
  | added : Reached reducer x (.added ⟨x.added, l⟩) { x with
      listeners := x.listeners ++ [some ⟨x.added, l⟩]
      added := x.added + 1 }
  | removing : Reached reducer x (.removing h) x
  | clearing : Reached reducer x .clearing x
  | referring : Reached reducer x .referring x
  | viewing : Reached reducer x (.viewing x.state) x
  | ended : done.Effect reducer x s → Reached reducer x (.ended done) s

variable {reducer : Reducer S A} {x s s' : Store S L} {p q : Task S A L} {es : List (Event S A L)}

theorem reached_start (h : p.Starts) : Reached reducer x p x := by
  cases h with
  | dispatching => exact .dispatching
  | notifying => exact .notifying (i := 0)
  | adding => exact .adding
  | removing => exact .removing
  | clearing => exact .clearing
  | referring => exact .referring

theorem Reached.access (h : Reached reducer x p s) (haccess : Access reducer (p, s) e (q, s')) :
    Reached reducer x q s' := by
  cases haccess with
  | call => cases h; exact .reducing
  | write => cases h; exact .reducing
  | returned hreturned => cases h; exact .reduced hreturned
  | threw hthrew =>
    cases h
    exact .ended (.threw (e := .reducer) (by simp [reduce, Call.run, hthrew]))
  | swap =>
    cases h with
    | reduced hreturned => exact .ended (.reduce (by simp [reduce, Call.run, hreturned]))
  | keep =>
    cases h with
    | reduced hreturned => exact .ended (.reduce (by simp [reduce, Call.run, hreturned]))
  | @listener i r a _ _ hr =>
    cases h with
    | notifying =>
      have hnext : Reached reducer x (.notifying a (i + 1) _) x := .notifying
      rw [slots_take_succ hr, List.map_append] at hnext
      exact hnext
  | @listenerThrew i r a _ _ hr =>
    cases h with
    | notifying =>
      obtain ⟨after, hsplit⟩ := slots_split hr
      have hrun := notify_first (· == i) a x hsplit
        (fun q hq => by simpa using Nat.ne_of_lt (lt_of_mem_slots_take hq)) (by simp)
      rw [List.map_append] at hrun
      exact .ended (.notify hrun)
  | @placeholder i a _ _ hnone =>
    cases h with
    | notifying =>
      have hnext : Reached reducer x (.notifying a (i + 1) _) x := .notifying
      rw [slots_take_succ hnone, Option.map_none, Option.toList_none, List.append_nil] at hnext
      exact hnext
  | notified hlength =>
    cases h
    rw [List.take_of_length_le (Nat.le_of_eq hlength)]
    exact .ended (.notify (notify_all (fun _ => false) _ x fun _ _ => rfl))
  | pushBack => cases h; exact .added
  | size => cases h; exact .ended (.add rfl)
  | replace hrun => cases h; exact .ended (.remove hrun)
  | clear hrun => cases h; exact .ended (.clear hrun)
  | refer => cases h; exact .viewing
  | look => exact h
  | viewed => cases h; exact .ended (.read rfl)

theorem access_pending (h : Access reducer (p, s) e (q, s')) : q.pending = p.pending := by
  cases h <;> rfl

theorem access_notices (h : Access reducer (p, s) e (q, s')) :
    q.notices = p.notices ++ e.notice.toList := by
  cases h <;> simp [Task.notices, Done.notices, Event.notice]

structure InSection (reducer : Reducer S A) (p : Task S A L) (x : Store S L)
    (es : List (Event S A L)) (q : Task S A L) (s : Store S L) : Prop where
  reached : Reached reducer x q s
  pending : q.pending = p.pending
  notices : es.filterMap Event.notice = q.notices

theorem run_inSection (hstarts : p.Starts) (h : Run (Access reducer) (p, x) es (q, s)) :
    InSection reducer p x es q s := by
  refine h.history (I := fun es qs => InSection reducer p x es qs.1 qs.2)
    ⟨reached_start hstarts, rfl, by cases hstarts <;> rfl⟩ fun hi haccess => ?_
  exact ⟨hi.reached.access haccess, (access_pending haccess).trans hi.pending, by
    rw [filterMap_snoc, hi.notices, access_notices haccess]⟩

-- ---------------------------------------------------------------------------
-- All sections
-- ---------------------------------------------------------------------------

def Done.label (t : T) : Done S A L → Shared.Label T S A L
  | .add r h => .add t r h
  | .remove h r => .remove t h r
  | .clear => .clear t
  | .read x => .read t x
  | .reduce a => .reduce t a
  | .threw a => .threw t a
  | .notify a throws r ns => .notify t a throws r ns

def ofSection (a : Section T (Event S A L) (Done S A L)) : Shared.Label T S A L :=
  a.result.label a.thread

/-- The sections that have been left, one label for each. -/
def calls (ls : List (Sections.Label T (Event S A L) (Done S A L))) :
    List (Shared.Label T S A L) :=
  (results ls).map fun r => r.2.label r.1

theorem calls_eq {ls : List (Sections.Label T (Event S A L) (Done S A L))}
    {as : List (Section T (Event S A L) (Done S A L))} (h : as.map Section.left = results ls) :
    calls ls = as.map ofSection := by
  rw [calls, ← h, List.map_map]
  rfl

/-- What an access can tell of the store. -/
def Event.Of (s : Store S L) : Event S A L → Prop
  | .called n => n.state = s.state ∧ n.registration ∈ s.registered
  | .looked x => x = s.state
  | .quiet => True

theorem access_of (h : Access reducer (p, s) e (q, s')) : e.Of s := by
  cases h with
  | listener hr | listenerThrew hr =>
    exact ⟨rfl, List.reduceOption_mem_iff.mpr (List.mem_of_getElem? hr)⟩
  | look => rfl
  | _ => trivial

variable [DecidableEq T]

def Shared.Label.noticesOf (t : T) : Shared.Label T S A L → List (Notice S A L)
  | .notify u _ _ _ ns => if u = t then ns else []
  | _ => []

theorem outside_dispatch {own : T → Option A} (ht : own t = none)
    (h : Shared.Step reducer ⟨x, own⟩ l ⟨s, own⟩) :
    Shared.Step reducer ⟨x, own⟩ l ⟨s, Function.update own t none⟩ := by
  rwa [Function.update_eq_self_iff.mpr ht.symm]

/-- A whole section is a step of the store with its threads. -/
theorem shared_step {a : Section T (Event S A L) (Done S A L)} {u u' : Store S L × (T → Option A)}
    (h : Serial.Step (system reducer) u a u') :
    Shared.Step reducer ⟨u.1, u.2⟩ (ofSection a) ⟨u'.1, u'.2⟩ ∧
      a.events.filterMap Event.notice = a.result.notices := by
  cases h with
  | @whole t p es q y r henters hrun hleaves =>
    obtain ⟨hstarts, hown⟩ := henters
    obtain rfl : q = .ended r := hleaves
    have hi := run_inSection hstarts hrun
    have hpending : r.pending = u.2 t := hi.pending.trans hown
    refine ⟨?_, hi.notices⟩
    cases hi.reached with
    | ended heffect =>
      cases heffect with
      | add hrun => exact outside_dispatch hpending.symm (.add hpending.symm hrun)
      | remove hrun => exact outside_dispatch hpending.symm (.remove hpending.symm hrun)
      | clear hrun => exact outside_dispatch hpending.symm (.clear hpending.symm hrun)
      | read hrun => exact outside_dispatch hpending.symm (.read hpending.symm hrun)
      | reduce hrun => exact .reduce hpending.symm hrun
      | threw hrun => exact outside_dispatch hpending.symm (.threw hpending.symm hrun)
      | notify hcall => exact .notify hpending.symm hcall

theorem noticesOf_label (t u : T) (r : Done S A L) :
    (r.label u).noticesOf t = if u = t then r.notices else [] := by
  cases r <;> simp [Done.label, Shared.Label.noticesOf, Done.notices]

theorem within_notices {as : List (Section T (Event S A L) (Done S A L))} (t : T)
    (h : ∀ a ∈ as, a.events.filterMap Event.notice = a.result.notices) :
    (within t as).filterMap Event.notice = (as.map ofSection).flatMap (·.noticesOf t) := by
  induction as with
  | nil => rfl
  | cons a as ih =>
    obtain ⟨ha, has⟩ := List.forall_mem_cons.mp h
    rw [List.map_cons, List.flatMap_cons, ← ih has, ofSection, noticesOf_label]
    by_cases ht : a.thread = t <;> simp [within, ht, ha]

variable {ls : List (Sections.Label T (Event S A L) (Done S A L))}
  {u : Sections.State T (Store S L) (Option A) (Task S A L)}

/-- Nobody has called the store yet. -/
def untouched (state : S) : Sections.State T (Store S L) (Option A) (Task S A L) :=
  .outside (.initial state) fun _ => none

theorem explained_shared {as : List (Section T (Event S A L) (Done S A L))}
    {y : Store S L} {es : T → List (Event S A L)}
    (h : Explained (system reducer) (.initial state, fun _ => none) ls u as y es) :
    Run (Shared.Step reducer) (.initial state) (calls ls) ⟨y, u.own⟩ ∧
      ∀ a ∈ as, a.events.filterMap Event.notice = a.result.notices := by
  rw [calls_eq h.left]
  have hrun := h.run.map (f := fun u => (⟨u.1, u.2⟩ : Shared.State T S A L))
    fun hstep => (shared_step hstep).1
  exact ⟨hrun, h.run.forall_label fun hstep => (shared_step hstep).2⟩

/-- Whatever the threads do inside their sections and in which order: the calls
are a run of `Shared.Step`, in the order in which they give the lock back, and
what a listener or a functor is shown is the store that this run has led to. The
listeners are called one by one, and together they are those of the run. -/
theorem sections_serial (h : Run (Sections.Step (system reducer)) (untouched state) ls u) :
    (∃ s, Run (Shared.Step reducer) (.initial state) (calls ls) s ∧ s.pending = u.own ∧
      ((∀ t p, u.inside t = some p → p.writes = false) → s.toStore = u.resource)) ∧
      (∀ t, (eventsOf t ls).filterMap Event.notice =
        (calls ls).flatMap (·.noticesOf t) ++ ((u.inside t).map Task.notices).getD []) ∧
      ∀ before t e after, ls = before ++ .access t e :: after →
        ∃ s, Run (Shared.Step reducer) (.initial state) (calls before) s ∧ e.Of s.toStore := by
  obtain ⟨as, y, es, hi⟩ := run_explained h
  obtain ⟨hrun, hnotices⟩ := explained_shared hi
  refine ⟨⟨_, hrun, rfl, hi.still⟩, fun t => ?_, ?_⟩
  · rw [hi.events, List.filterMap_append, within_notices t hnotices, calls_eq hi.left]
    congr 1
    cases ht : u.inside t with
    | none => rw [hi.closed t ht]; rfl
    | some p =>
      obtain ⟨q, ⟨hstarts, _⟩, hsection⟩ := hi.opened t p ht
      exact (run_inSection hstarts hsection).notices
  · rintro before t e after rfl
    obtain ⟨v, hbefore, hrest⟩ := h.split
    obtain ⟨_, hstep, _⟩ := hrest.head
    obtain ⟨as', y', es', hi'⟩ := run_explained hbefore
    refine ⟨_, (explained_shared hi').1, ?_⟩
    cases hstep with
    | @access _ p _ _ _ hinside haccess =>
      have hof := access_of haccess
      cases hwrites : p.writes with
      | false => rwa [hi'.still_reading hinside hwrites]
      | true => cases haccess <;> trivial

/-- While thread 1 notifies, thread 2 looks. Neither sees the 99 that the reducer
has written meanwhile. -/
def overlapping : List (Sections.Label Nat (Event Nat Nat Nat) (Done Nat Nat Nat)) :=
  [.enter 1, .access 1 .quiet, .access 1 .quiet, .leave 1 (.add ⟨0, 9⟩ 0),
    .enter 1, .access 1 .quiet, .access 1 .quiet, .access 1 .quiet, .access 1 .quiet,
    .leave 1 (.reduce 3), .enter 1, .enter 2, .access 2 .quiet,
    .access 1 (.called ⟨⟨0, 9⟩, 3, 3⟩), .access 2 (.looked 3)]

theorem sections_serial_overlapping : ∃ u,
    Run (Sections.Step (system fun s a => .returned (s + a) none)) (untouched 0) overlapping u ∧
    ∃ s : Shared.State Nat Nat Nat Nat,
      Run (Shared.Step fun s a => .returned (s + a) none) (.initial 0)
        [.add 1 ⟨0, 9⟩ 0, .reduce 1 3] s ∧ s.toStore = u.resource := by
  have hrun : Run (Sections.Step (system fun s a => .returned (s + a) none)) (untouched 0)
      overlapping _ :=
    .cons (.enter rfl ⟨.adding, rfl⟩ (free_outside rfl)) <| .cons (.access rfl .pushBack) <|
    .cons (.access rfl .size) <| .cons (.leave rfl rfl) <|
    .cons (.enter rfl ⟨.dispatching, rfl⟩ (free_outside (by simp [untouched, State.outside]))) <|
    .cons (.access rfl .call) <| .cons (.access rfl (.write (y := 99))) <|
    .cons (.access rfl (.returned rfl)) <| .cons (.access rfl .keep) <| .cons (.leave rfl rfl) <|
    .cons (.enter rfl ⟨.notifying, rfl⟩ (free_outside (by simp [untouched, State.outside]))) <|
    .cons (.enter rfl ⟨.referring, rfl⟩ (by
      intro t q h
      by_cases ht : t = 1 <;> simp [untouched, State.outside, ht] at h
      subst h
      exact ⟨rfl, rfl⟩)) <|
    .cons (.access rfl .refer) <| .cons (.access rfl (.listener rfl)) <|
    .cons (.access rfl .look) .nil
  obtain ⟨⟨s, hs, _, hstore⟩, _⟩ := sections_serial hrun
  refine ⟨_, hrun, s, hs, hstore fun t p h => ?_⟩
  by_cases ht : t = 2
  · subst ht
    cases h
    rfl
  · by_cases ht' : t = 1
    · subst ht'
      cases h
      rfl
    · simp [untouched, State.outside, ht, ht'] at h

end Xutil.Redux
