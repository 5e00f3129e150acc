import Xutil.Redux.Registry

/-!
# One call after another

A `dispatch` calls the registered listeners in order, unless one of them
throws, and `remove_listener` drops whatever its handle stands for at the moment. `clear_listeners` starts
the handles over, so a handle from before may stand for another listener.
-/

namespace Xutil.Redux

open Calls Runs Slots

variable {S A L : Type} {reducer : Reducer S A} {s s' : Store S L} {l : Label S A L}
  {ls : List (Label S A L)}

/-- What a call does to the registered listeners. -/
def Label.edit : Label S A L → Option (Edit L)
  | .add r h => some (.added r h)
  | .remove h _ => some (.removed h)
  | .clear => some .cleared
  | .dispatch .. => none

def edits (ls : List (Label S A L)) : List (Edit L) := ls.filterMap Label.edit

/-- What a call of `dispatch` can do. -/
theorem dispatch_cases
    (h : (dispatch reducer throws a).run { s with notices := [] } = (r, c)) :
    (∃ inPlace v, reducer s.state a = .returned inPlace v ∧
        c.toStore = { s with state := v.getD inPlace } ∧
        Notified throws (slots s.listeners) c.state a r c.notices) ∨
      (∃ inPlace, reducer s.state a = .threw inPlace ∧ c.toStore = { s with state := inPlace } ∧
        r = .error .reducer ∧ c.notices = []) := by
  rcases hred : (reduce reducer a).run s with ⟨r', t⟩
  have hfirst : (onStore (reduce reducer a)).run { s with notices := [] } =
      (r', ({ t with notices := [] } : Calling S A L)) := by
    simp only [onStore, Call.run] at hred ⊢
    simp [hred]
  obtain ⟨rfl, ⟨inPlace, v, hr, rfl⟩ | ⟨inPlace, hr, rfl⟩⟩ := reduce_run hred
  · rw [dispatch, Call.run_bind_ok hfirst] at h
    obtain ⟨hstore, hnotified⟩ := notify_run h
    exact .inl ⟨inPlace, v, hr, by simp [hstore, Reducer.apply, hr], by rwa [hstore]⟩
  · rw [dispatch, Call.run_bind_error hfirst] at h
    cases h
    exact .inr ⟨inPlace, hr, by simp [Reducer.apply, hr], rfl, rfl⟩

theorem step_edits (h : Step reducer s l s') : Edits l.edit s s' := by
  cases h with
  | add hrun => exact addListener_edits hrun
  | remove hrun => exact removeListener_edits hrun
  | clear hrun => exact clearListeners_edits hrun
  | dispatch hrun =>
    obtain ⟨_, _, _, hstore, _⟩ | ⟨_, _, hstore, _⟩ := dispatch_cases hrun <;> rw [hstore] <;> rfl

theorem run_tracked (h : Run (Step reducer) (.initial state) ls s) :
    Tracked (edits ls) s.registry := by
  refine h.history (I := fun ls s => Tracked (edits ls) s.registry) ?_ ?_
  · exact tracked_nil
  · intro ls t l t' ht hstep
    rw [edits, filterMap_snoc]
    exact ht.step (step_edits hstep)

-- ---------------------------------------------------------------------------
-- Handles
-- ---------------------------------------------------------------------------

/-- Of the listeners that a `dispatch` calls, `a` goes and nothing else. -/
def RemovesOnly (a : Registration L) (s s' : Store S L) : Prop :=
  s'.registered = s.registered.filter (·.serial ≠ a.serial)

/-- A handle names one registration, whenever it is used. -/
def NamesOne (step : Store S L → Label S A L → Store S L → Prop) : Prop :=
  ∀ state ls s, Run step (.initial state) ls s → ∀ a h, .add a h ∈ ls →
    ∀ r s', step s (.remove h r) s' → RemovesOnly a s s'

/-- A later `add_listener` has returned the handle again, and it has been neither
removed nor cleared after that. -/
def Reissued (ls : List (Label S A L)) (a : Registration L) (h : Nat) : Prop :=
  ∃ b, b.serial ≠ a.serial ∧ Holds (edits ls) h b

theorem remove_registered (h : Step reducer s (.remove n r) s') :
    s'.registered = (s.registry.live.filter (·.1 ≠ n)).map Prod.snd := by
  obtain ⟨_, hreg⟩ : Edits (some (.removed n)) s s' := step_edits h
  rw [registered_eq, hreg]
  rfl

/-- A reducer that keeps the state. -/
def keepState : Reducer Nat Unit := fun s _ => .returned s none

/-- A `dispatch` whose reducer does not throw calls every listener that was
added and neither removed nor cleared, whatever the listeners do. -/
def CallsAll (L : Type) (reducer : Reducer S A) : Prop :=
  ∀ state ls (s : Store S L), Run (Step reducer) (.initial state) ls s →
    ∀ a throws r ns s', Step reducer s (.dispatch a throws r ns) s' → r ≠ .error .reducer →
      ∀ n b, Holds (edits ls) n b → b ∈ ns.map Notice.registration

end Xutil.Redux
