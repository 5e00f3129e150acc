import Xutil.Redux.Registry

/-!
# Many threads

Between the two halves of a `dispatch` other threads may reduce, register and
clear. So a listener may see a later state than the one its action has led to,
but it never sees one without it, nor an earlier one than the listener before.
-/

namespace Xutil.Redux.Shared

open Calls Runs Slots

variable {T S A L : Type} {reducer : Reducer S A} {s s' : State T S A L} {l : Label T S A L}
  {ls : List (Label T S A L)}

def Label.thread : Label T S A L → T
  | .add t .. | .remove t .. | .clear t | .read t _ | .reduce t _ | .threw t _ | .notify t .. => t

def Label.edit : Label T S A L → Option (Edit L)
  | .add _ r h => some (.added r h)
  | .remove _ h _ => some (.removed h)
  | .clear _ => some .cleared
  | _ => none

def edits (ls : List (Label T S A L)) : List (Edit L) := ls.filterMap Label.edit

def Label.reduced : Label T S A L → Option A
  | .reduce _ a => some a
  | _ => none

/-- The actions in the order of their reductions. -/
def reduced (ls : List (Label T S A L)) : List A := ls.filterMap Label.reduced

theorem reduced_snoc (ls : List (Label T S A L)) (l : Label T S A L) :
    reduced (ls ++ [l]) = reduced ls ++ l.reduced.toList :=
  filterMap_snoc _ _ _

variable [DecidableEq T]

def Label.reducedBy (t : T) : Label T S A L → Option A
  | .reduce u a => if u = t then some a else none
  | _ => none

def Label.notifiedBy (t : T) : Label T S A L → Option A
  | .notify u a .. => if u = t then some a else none
  | _ => none

/-- The actions folded with the reducer. -/
def folded (reducer : Reducer S A) (state : S) (ls : List (Label T S A L)) : S :=
  (reduced ls).foldl reducer.apply state

structure InStep (reducer : Reducer S A) (state : S) (ls : List (Label T S A L))
    (s : State T S A L) : Prop where
  folded : s.state = folded reducer state ls
  tracked : Tracked (edits ls) s.registry
  paired : ∀ t, ls.filterMap (Label.notifiedBy t) ++ (s.pending t).toList =
    ls.filterMap (Label.reducedBy t)
  own : ∀ t a, s.pending t = some a → Since (· = .reduce t a) (·.thread ≠ t) ls

theorem inStep_initial (reducer : Reducer S A) (state : S) :
    InStep reducer state [] (.initial state : State T S A L) where
  folded := rfl
  tracked := tracked_nil
  paired _ := rfl
  own _ _ h := nomatch h

/-- A step of a thread outside `dispatch`, which keeps the state. -/
theorem InStep.other (hi : InStep reducer state ls s) (hpending : s.pending l.thread = none)
    (hedit : Edits l.edit s.toStore s'.toStore) (hstate : s'.state = s.state)
    (hkeep : s'.pending = s.pending) (hreduced : ∀ t, l.reducedBy t = none)
    (hnotified : ∀ t, l.notifiedBy t = none) (hfold : l.reduced = none) :
    InStep reducer state (ls ++ [l]) s' where
  folded := by
    rw [hstate, hi.folded, Shared.folded, Shared.folded, reduced_snoc, hfold]
    simp
  tracked := by
    rw [edits, filterMap_snoc]
    exact hi.tracked.step hedit
  paired t := by simpa [filterMap_snoc, hkeep, hreduced, hnotified] using hi.paired t
  own t a h := by
    rw [hkeep] at h
    refine since_snoc.mpr (.inr ⟨hi.own t a h, ?_⟩)
    rintro rfl
    cases hpending.symm.trans h

/-- What thread `t` has reduced and not notified changes with its own steps. -/
theorem InStep.paired_update (hi : InStep reducer state ls s) {pending : Option A}
    (hthread : (l.notifiedBy t).toList ++ pending.toList =
      (s.pending t).toList ++ (l.reducedBy t).toList)
    (hothers : ∀ v, v ≠ t → l.notifiedBy v = none ∧ l.reducedBy v = none) (v : T) :
    (ls ++ [l]).filterMap (Label.notifiedBy v) ++
        (Function.update s.pending t pending v).toList =
      (ls ++ [l]).filterMap (Label.reducedBy v) := by
  rw [filterMap_snoc, filterMap_snoc]
  by_cases hv : v = t
  · subst hv
    rw [Function.update_self, List.append_assoc, hthread, ← List.append_assoc, hi.paired]
  · obtain ⟨hnotified, hreduced⟩ := hothers v hv
    rw [hnotified, hreduced, Function.update_of_ne hv]
    simpa using hi.paired v

theorem InStep.reduce (hi : InStep reducer state ls s) (hpending : s.pending t = none)
    (hrun : (Redux.reduce reducer a).run s.toStore = (.ok (), u)) :
    InStep reducer state (ls ++ [.reduce t a]) ⟨u, Function.update s.pending t (some a)⟩ where
  folded := by
    obtain ⟨rfl, _⟩ := reduce_run hrun
    simp [hi.folded, Shared.folded, reduced_snoc, Label.reduced]
  tracked := by
    obtain ⟨rfl, _⟩ := reduce_run hrun
    rw [edits, filterMap_snoc]
    exact hi.tracked.step (e := none) rfl
  paired := by
    refine hi.paired_update (by simp [Label.notifiedBy, Label.reducedBy, hpending]) fun v hv => ?_
    simp [Label.notifiedBy, Label.reducedBy, Ne.symm hv]
  own v a' h := by
    rw [since_snoc]
    by_cases hv : v = t
    · subst hv
      obtain rfl : a = a' := by simpa using h
      exact .inl rfl
    · have hold : s.pending v = some a' := (Function.update_of_ne hv _ _).symm.trans h
      exact .inr ⟨hi.own v a' hold, Ne.symm hv⟩

theorem InStep.notify (hi : InStep reducer state ls s) (hpending : s.pending t = some a)
    (throws : Nat → Bool) (r : Except Exception Unit) (ns : List (Notice S A L)) :
    InStep reducer state (ls ++ [.notify t a throws r ns])
      ⟨s.toStore, Function.update s.pending t none⟩ where
  folded := by simp [hi.folded, Shared.folded, reduced_snoc, Label.reduced]
  tracked := by
    rw [edits, filterMap_snoc]
    exact hi.tracked.step (e := none) rfl
  paired := by
    refine hi.paired_update (by simp [Label.notifiedBy, Label.reducedBy, hpending]) fun v hv => ?_
    simp [Label.notifiedBy, Label.reducedBy, Ne.symm hv]
  own v a' h := by
    by_cases hv : v = t
    · subst hv
      simp at h
    · have hold : s.pending v = some a' := (Function.update_of_ne hv _ _).symm.trans h
      exact since_snoc.mpr (.inr ⟨hi.own v a' hold, Ne.symm hv⟩)

theorem step_inStep (htotal : reducer.Total) (hi : InStep reducer state ls s)
    (h : Step reducer s l s') : InStep reducer state (ls ++ [l]) s' := by
  cases h with
  | add hpending hrun =>
    exact hi.other hpending (addListener_edits hrun) (addListener_state hrun) rfl
      (fun _ => rfl) (fun _ => rfl) rfl
  | remove hpending hrun =>
    exact hi.other hpending (removeListener_edits hrun) (removeListener_state hrun) rfl
      (fun _ => rfl) (fun _ => rfl) rfl
  | clear hpending hrun =>
    cases hrun
    exact hi.other hpending (clearListeners_edits rfl) rfl rfl (fun _ => rfl) (fun _ => rfl) rfl
  | read hpending hrun =>
    cases hrun
    exact hi.other hpending rfl rfl rfl (fun _ => rfl) (fun _ => rfl) rfl
  | reduce hpending hrun => exact hi.reduce hpending hrun
  | @threw t a e u hpending hrun =>
    obtain ⟨s₁, v, hret⟩ := htotal s.state a
    obtain ⟨_, ⟨_, _, _, hr⟩ | ⟨_, hthrew, _⟩⟩ := reduce_run hrun
    · cases hr
    · cases hret.symm.trans hthrew
  | notify hpending hrun =>
    rw [(notify_run hrun).1]
    exact hi.notify hpending _ _ _

theorem run_inStep (htotal : reducer.Total) (h : Run (Step reducer) (.initial state) ls s) :
    InStep reducer state ls s :=
  h.history (inStep_initial reducer state) (step_inStep htotal)

/-- A thread can notify what it has reduced, whichever listeners throw. -/
theorem notify_possible (hpending : s.pending t = some a) (throws : Nat → Bool) :
    ∃ r ns s', Step reducer s (.notify t a throws r ns) s' := by
  rcases hrun : (Redux.notify throws a).run { s.toStore with notices := [] } with ⟨r, c⟩
  exact ⟨r, c.notices, _, .notify hpending hrun⟩

theorem reduce_possible (htotal : reducer.Total) (hpending : s.pending t = none) (a : A) :
    ∃ s', Step reducer s (.reduce t a) s' := by
  obtain ⟨s₁, v, hret⟩ := htotal s.state a
  exact ⟨_, .reduce hpending (by simp [Redux.reduce, Call.run, hret]; rfl)⟩

/-- The state is the fold of all reductions so far. Every `dispatch` notifies
once, the listeners that are registered at that step, with its own action and a
fold that its own reduction is part of. Later notifications see more. A thread
outside `dispatch` can always reduce, and one that has reduced can notify. -/
theorem concurrent_dispatch (htotal : reducer.Total)
    (h : Run (Step reducer) (.initial state) ls s) :
    s.state = folded reducer state ls ∧
      (∀ t, ls.filterMap (Label.notifiedBy t) ++ (s.pending t).toList =
        ls.filterMap (Label.reducedBy t)) ∧
      (∀ before t x after, ls = before ++ .read t x :: after → x = folded reducer state before) ∧
      (∀ before t a throws r ns after, ls = before ++ .notify t a throws r ns :: after →
        Since (· = .reduce t a) (·.thread ≠ t) before ∧ reduced before <+: reduced ls ∧
          ∃ regs : List (Nat × Registration L), (regs.map Prod.snd).Pairwise (·.serial < ·.serial) ∧
            (∀ n b, (n, b) ∈ regs ↔ Holds (edits before) n b) ∧
            ((∀ p ∈ regs, throws p.1 = false) →
              r = .ok () ∧ ns = regs.map fun p => ⟨p.2, folded reducer state before, a⟩)) ∧
      (∀ before t a throws r ns between t' a' throws' r' ns' after,
        ls = before ++ .notify t a throws r ns :: (between ++ .notify t' a' throws' r' ns' :: after) →
          reduced before <+: reduced (before ++ .notify t a throws r ns :: between)) ∧
      (∀ t a throws, s.pending t = some a → ∃ r ns s', Step reducer s (.notify t a throws r ns) s') ∧
      ∀ t a, s.pending t = none → ∃ s', Step reducer s (.reduce t a) s' := by
  have hi := run_inStep htotal h
  refine ⟨hi.folded, hi.paired, ?_, ?_, ?_, ?_, ?_⟩
  · rintro before t x after rfl
    obtain ⟨u, hbefore, hrest⟩ := h.split
    obtain ⟨_, hstep, _⟩ := hrest.head
    cases hstep with
    | read _ hrun =>
      cases hrun
      exact (run_inStep htotal hbefore).folded
  · rintro before t a throws r ns after rfl
    obtain ⟨u, hbefore, hrest⟩ := h.split
    obtain ⟨_, hstep, _⟩ := hrest.head
    have hu := run_inStep htotal hbefore
    cases hstep with
    | notify hpending hrun =>
      refine ⟨hu.own t a hpending, (List.prefix_append _ _).filterMap Label.reduced,
        slots u.listeners, hu.tracked.order, hu.tracked.holds, ?_⟩
      rw [← hu.folded]
      exact (notify_run hrun).2.none_throws
  · rintro before t a throws r ns between t' a' throws' r' ns' after rfl
    exact (List.prefix_append _ _).filterMap Label.reduced
  · exact fun t a throws hpending => notify_possible hpending throws
  · exact fun t a hpending => reduce_possible htotal hpending a

/-- Two reductions fall before either notification. -/
theorem concurrent_dispatch_two : ∃ ls, ∃ s : State Bool Nat Nat Nat,
    Run (Step fun s a => .returned (s + a) none) (.initial 0) ls s ∧
    s.state = folded (fun s a => .returned (s + a) none) 0 ls ∧ reduced ls = [3, 4] ∧
    .notify false 3 (fun _ => false) (.ok ()) [⟨⟨0, 9⟩, 7, 3⟩] ∈ ls := by
  have hrun : Run (Step fun s a => .returned (s + a) none) (.initial 0 : State Bool Nat Nat Nat)
      [.add true ⟨0, 9⟩ 0, .reduce false 3, .reduce true 4,
        .notify false 3 (fun _ => false) (.ok ()) [⟨⟨0, 9⟩, 7, 3⟩],
        .notify true 4 (fun _ => false) (.ok ()) [⟨⟨0, 9⟩, 7, 4⟩]] _ :=
    .cons (.add rfl rfl) <| .cons (.reduce rfl rfl) <| .cons (.reduce rfl rfl) <|
    .cons (.notify rfl (c := ⟨⟨7, [some ⟨0, 9⟩], 1⟩, [⟨⟨0, 9⟩, 7, 3⟩]⟩) rfl) <|
    .cons (.notify rfl (c := ⟨⟨7, [some ⟨0, 9⟩], 1⟩, [⟨⟨0, 9⟩, 7, 4⟩]⟩) rfl) .nil
  exact ⟨_, _, hrun, (concurrent_dispatch (fun _ _ => ⟨_, _, rfl⟩) hrun).1, rfl, by simp⟩

end Xutil.Redux.Shared
