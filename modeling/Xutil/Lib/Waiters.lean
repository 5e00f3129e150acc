import Mathlib.Data.Finset.Card
import Mathlib.Data.Finset.Lattice.Lemmas

/-!
# Threads waiting on a condition variable

A waiting thread is asleep, notified, or woken without a notification. The
last two have yet to take the lock again. The three sets are disjoint by
construction. Which sleeper a `notify_one` picks is left open.
-/

namespace Monitor

structure Waiters (T : Type*) [DecidableEq T] where
  sleepers : Finset T
  notified : Finset T
  woken : Finset T
  sleepers_notified : Disjoint sleepers notified
  sleepers_woken : Disjoint sleepers woken
  notified_woken : Disjoint notified woken

variable {T : Type*} [DecidableEq T]

namespace Waiters

def empty : Waiters T :=
  ⟨∅, ∅, ∅, Finset.disjoint_empty_left _, Finset.disjoint_empty_left _, Finset.disjoint_empty_left _⟩

def waiting (w : Waiters T) : Finset T := w.sleepers ∪ w.notified ∪ w.woken

theorem disjoint_insert_erase {a b : Finset T} (h : Disjoint a b) :
    Disjoint (insert t a) (b.erase t) :=
  Finset.disjoint_insert_left.mpr ⟨Finset.notMem_erase t b, h.mono_right (Finset.erase_subset t b)⟩

theorem disjoint_erase_erase {a b : Finset T} (h : Disjoint a b) :
    Disjoint (a.erase t) (b.erase t) :=
  h.mono (Finset.erase_subset t a) (Finset.erase_subset t b)

/-- `wait`: the thread gives the lock back and joins the sleepers. -/
def sleep (w : Waiters T) (t : T) : Waiters T where
  sleepers := insert t w.sleepers
  notified := w.notified.erase t
  woken := w.woken.erase t
  sleepers_notified := disjoint_insert_erase w.sleepers_notified
  sleepers_woken := disjoint_insert_erase w.sleepers_woken
  notified_woken := disjoint_erase_erase w.notified_woken

/-- The thread has the lock again and is done with waiting. -/
def leave (w : Waiters T) (t : T) : Waiters T where
  sleepers := w.sleepers.erase t
  notified := w.notified.erase t
  woken := w.woken.erase t
  sleepers_notified := disjoint_erase_erase w.sleepers_notified
  sleepers_woken := disjoint_erase_erase w.sleepers_woken
  notified_woken := disjoint_erase_erase w.notified_woken

def rouse (w : Waiters T) (t : T) : Waiters T where
  sleepers := w.sleepers.erase t
  notified := insert t w.notified
  woken := w.woken.erase t
  sleepers_notified := (disjoint_insert_erase w.sleepers_notified.symm).symm
  sleepers_woken := disjoint_erase_erase w.sleepers_woken
  notified_woken := disjoint_insert_erase w.notified_woken

def spurious (w : Waiters T) (t : T) : Waiters T where
  sleepers := w.sleepers.erase t
  notified := w.notified.erase t
  woken := insert t w.woken
  sleepers_notified := disjoint_erase_erase w.sleepers_notified
  sleepers_woken := (disjoint_insert_erase w.sleepers_woken.symm).symm
  notified_woken := (disjoint_insert_erase w.notified_woken.symm).symm

def notifyAll (w : Waiters T) : Waiters T where
  sleepers := ∅
  notified := w.sleepers ∪ w.notified
  woken := w.woken
  sleepers_notified := Finset.disjoint_empty_left _
  sleepers_woken := Finset.disjoint_empty_left _
  notified_woken := Finset.disjoint_union_left.mpr ⟨w.sleepers_woken, w.notified_woken⟩

inductive NotifyOne (w : Waiters T) : Waiters T → Prop
  | nobody : w.sleepers = ∅ → NotifyOne w w
  | one : t ∈ w.sleepers → NotifyOne w (w.rouse t)

theorem mem_waiting {w : Waiters T} :
    t ∈ w.waiting ↔ t ∈ w.sleepers ∨ t ∈ w.notified ∨ t ∈ w.woken := by
  simp [waiting]

theorem not_mem_leave (w : Waiters T) (t : T) : t ∉ (w.leave t).waiting := by
  simp [mem_waiting, leave]

/-- Nothing happens to a thread that does not wait. -/
theorem leave_of_notMem {w : Waiters T} (h : t ∉ w.waiting) : w.leave t = w := by
  simp only [mem_waiting, not_or] at h
  obtain ⟨hs, hn, hw⟩ := h
  simp only [leave, Finset.erase_eq_of_notMem hs, Finset.erase_eq_of_notMem hn,
    Finset.erase_eq_of_notMem hw]

theorem sleep_leave (w : Waiters T) (t : T) : (w.leave t).sleep t = w.sleep t := by
  have hinsert : insert t (w.sleepers.erase t) = insert t w.sleepers := by grind
  simp only [sleep, leave, hinsert, Finset.erase_idem]

theorem card_notified_rouse {w : Waiters T} (h : t ∈ w.sleepers) :
    (w.rouse t).notified.card = w.notified.card + 1 :=
  Finset.card_insert_of_notMem (Finset.disjoint_left.mp w.sleepers_notified h)

theorem notified_spurious {w : Waiters T} (h : t ∈ w.sleepers) :
    (w.spurious t).notified = w.notified :=
  Finset.erase_eq_of_notMem (Finset.disjoint_left.mp w.sleepers_notified h)

theorem sleepers_leave {w : Waiters T} (h : t ∉ w.sleepers) :
    (w.leave t).sleepers = w.sleepers :=
  Finset.erase_eq_of_notMem h

end Waiters

end Monitor
