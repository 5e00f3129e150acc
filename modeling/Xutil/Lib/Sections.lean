import Mathlib.Logic.Function.Basic
import Xutil.Lib.Runs

/-!
# Sections under a readers-writer lock

Threads access one resource from inside sections, one access at a time. A
section that writes excludes all others, and one that only reads excludes those
that write. Then a run is as good as one in which each section is a single step,
taken when it is left.
-/

namespace Sections

open Runs

/-- A section is entered with a task, and each access leaves the task that is
still to be done. What a thread may enter next depends on its own data and on
what it finds. -/
structure System (σ Λ P E R : Type) where
  enters : Λ → σ → P → Prop
  writes : P → Bool
  access : P × σ → E → P × σ → Prop
  leaves : P → R → Prop
  after : Λ → R → Λ
  writes_eq : access (p, x) e (q, y) → writes q = writes p
  reads_eq : access (p, x) e (q, y) → writes p = false → y = x

structure State (T σ Λ P : Type) where
  resource : σ
  own : T → Λ
  inside : T → Option P

def State.outside (resource : σ) (own : T → Λ) : State T σ Λ P := ⟨resource, own, fun _ => none⟩

inductive Label (T E R : Type)
  | enter (t : T)
  | access (t : T) (event : E)
  | leave (t : T) (result : R)

/-- The lock can be taken for a task. -/
def Free (sys : System σ Λ P E R) (s : State T σ Λ P) (p : P) : Prop :=
  ∀ t q, s.inside t = some q → sys.writes p = false ∧ sys.writes q = false

theorem free_outside {sys : System σ Λ P E R} {s : State T σ Λ P}
    (h : s.inside = fun _ => none) : Free sys s p := by
  simp [Free, h]

inductive Step [DecidableEq T] (sys : System σ Λ P E R) (s : State T σ Λ P) :
    Label T E R → State T σ Λ P → Prop
  | enter : s.inside t = none → sys.enters (s.own t) s.resource p → Free sys s p →
      Step sys s (.enter t) { s with inside := Function.update s.inside t (some p) }
  | access : s.inside t = some p → sys.access (p, s.resource) e (q, y) →
      Step sys s (.access t e)
        { s with resource := y, inside := Function.update s.inside t (some q) }
  | leave : s.inside t = some p → sys.leaves p r →
      Step sys s (.leave t r) { s with
        own := Function.update s.own t (sys.after (s.own t) r)
        inside := Function.update s.inside t none }

-- ---------------------------------------------------------------------------
-- One section after another
-- ---------------------------------------------------------------------------

/-- A section from its entry to its end. -/
structure Section (T E R : Type) where
  thread : T
  events : List E
  result : R

namespace Serial

inductive Step [DecidableEq T] (sys : System σ Λ P E R) (s : σ × (T → Λ)) :
    Section T E R → σ × (T → Λ) → Prop
  | whole : sys.enters (s.2 t) s.1 p → Run sys.access (p, s.1) es (q, y) → sys.leaves q r →
      Step sys s ⟨t, es, r⟩ (y, Function.update s.2 t (sys.after (s.2 t) r))

end Serial

variable {T σ Λ P E R : Type} {sys : System σ Λ P E R} {ls : List (Label T E R)}

def Section.left (a : Section T E R) : T × R := (a.thread, a.result)

def Label.left : Label T E R → Option (T × R)
  | .leave t r => some (t, r)
  | _ => none

/-- The results in the order in which the sections are left. -/
def results (ls : List (Label T E R)) : List (T × R) := ls.filterMap Label.left

theorem results_snoc (ls : List (Label T E R)) (l : Label T E R) :
    results (ls ++ [l]) = results ls ++ l.left.toList :=
  filterMap_snoc _ _ _

variable [DecidableEq T]

def Label.eventOf (t : T) : Label T E R → Option E
  | .access u e => if u = t then some e else none
  | _ => none

def eventsOf (t : T) (ls : List (Label T E R)) : List E := ls.filterMap (Label.eventOf t)

theorem eventsOf_snoc (t : T) (ls : List (Label T E R)) (l : Label T E R) :
    eventsOf t (ls ++ [l]) = eventsOf t ls ++ (l.eventOf t).toList :=
  filterMap_snoc _ _ _

/-- The events of all the sections of a thread. -/
def within (t : T) (as : List (Section T E R)) : List E :=
  (as.filter (·.thread = t)).flatMap (·.events)

theorem within_snoc (t : T) (as : List (Section T E R)) (a : Section T E R) :
    within t (as ++ [a]) = within t as ++ if a.thread = t then a.events else [] := by
  by_cases h : a.thread = t <;> simp [within, h]

-- ---------------------------------------------------------------------------
-- Every run has a serial one
-- ---------------------------------------------------------------------------

/-- A serial run of the sections that have been left, up to the resource `y`,
and what each section still inside has done since. -/
structure Explained (sys : System σ Λ P E R) (start : σ × (T → Λ)) (ls : List (Label T E R))
    (s : State T σ Λ P) (as : List (Section T E R)) (y : σ) (es : T → List E) : Prop where
  run : Run (Serial.Step sys) start as (y, s.own)
  left : as.map Section.left = results ls
  events : ∀ t, eventsOf t ls = within t as ++ es t
  closed : ∀ t, s.inside t = none → es t = []
  opened : ∀ t p, s.inside t = some p →
    ∃ q, sys.enters (s.own t) y q ∧ Run sys.access (q, y) (es t) (p, s.resource)
  alone : ∀ t p, s.inside t = some p → sys.writes p = true → ∀ u q, s.inside u = some q → u = t
  still : (∀ t p, s.inside t = some p → sys.writes p = false) → y = s.resource

variable {start : σ × (T → Λ)} {s s' : State T σ Λ P} {as : List (Section T E R)} {y : σ}
  {es : T → List E}

theorem explained_outside (sys : System σ Λ P E R) (x : σ) (own : T → Λ) :
    Explained sys (x, own) [] (.outside x own) [] x fun _ => [] where
  run := .nil
  left := rfl
  events _ := rfl
  closed _ _ := rfl
  opened _ _ h := nomatch h
  alone _ _ h := nomatch h
  still _ := rfl

/-- Beside a section no other one writes. -/
theorem Explained.reads_beside (h : Explained sys start ls s as y es) (ht : s.inside t = some p)
    (hu : s.inside u = some q) (hne : u ≠ t) : sys.writes p = false ∧ sys.writes q = false := by
  constructor
  · exact Bool.eq_false_iff.mpr fun hwrites => hne (h.alone t p ht hwrites u q hu)
  · exact Bool.eq_false_iff.mpr fun hwrites => hne (h.alone u q hu hwrites t p ht).symm

/-- A section that reads has the resource that the serial run has led to. -/
theorem Explained.still_reading (h : Explained sys start ls s as y es) (ht : s.inside t = some p)
    (hreads : sys.writes p = false) : y = s.resource := by
  refine h.still fun u q hu => ?_
  by_cases hut : u = t
  · subst hut
    cases ht.symm.trans hu
    exact hreads
  · exact (h.reads_beside ht hu hut).2

theorem Explained.enter (h : Explained sys start ls s as y es) (ht : s.inside t = none)
    (henters : sys.enters (s.own t) s.resource p) (hfree : Free sys s p) :
    Explained sys start (ls ++ [.enter t])
      { s with inside := Function.update s.inside t (some p) } as y es := by
  have hstill : y = s.resource := h.still fun u q hu => (hfree u q hu).2
  have hold : ∀ u q, u ≠ t → Function.update s.inside t (some p) u = some q →
      s.inside u = some q := fun u q hu hq => by rwa [Function.update_of_ne hu] at hq
  exact {
    run := h.run
    left := by rw [results_snoc, h.left]; simp [Label.left]
    events := fun u => by rw [eventsOf_snoc, h.events]; simp [Label.eventOf]
    closed := fun u hu => by
      by_cases hut : u = t
      · subst hut
        exact h.closed u ht
      · exact h.closed u ((Function.update_of_ne hut _ _).symm.trans hu)
    opened := fun u q hu => by
      by_cases hut : u = t
      · subst hut
        obtain rfl : p = q := by simpa using hu
        rw [h.closed u ht, hstill]
        exact ⟨p, henters, .nil⟩
      · exact h.opened u q (hold u q hut hu)
    alone := fun u q hu hwrites v q' hv => by
      by_cases hut : u = t
      · subst hut
        obtain rfl : p = q := by simpa using hu
        refine Decidable.byContradiction fun hvu => ?_
        cases hwrites.symm.trans (hfree v q' (hold v q' hvu hv)).1
      · by_cases hvt : v = t
        · cases hwrites.symm.trans (hfree u q (hold u q hut hu)).2
        · exact h.alone u q (hold u q hut hu) hwrites v q' (hold v q' hvt hv)
    still := fun _ => hstill }

theorem Explained.access (h : Explained sys start ls s as y es) (ht : s.inside t = some p)
    (haccess : sys.access (p, s.resource) e (q, z)) :
    Explained sys start (ls ++ [.access t e])
      { s with resource := z, inside := Function.update s.inside t (some q) } as y
      (Function.update es t (es t ++ [e])) := by
  have hwrites := sys.writes_eq haccess
  have hold : ∀ u q', u ≠ t → Function.update s.inside t (some q) u = some q' →
      s.inside u = some q' := fun u q' hu hq => by rwa [Function.update_of_ne hu] at hq
  exact {
    run := h.run
    left := by rw [results_snoc, h.left]; simp [Label.left]
    events := fun u => by
      rw [eventsOf_snoc, h.events]
      by_cases hut : u = t
      · subst hut
        simp [Label.eventOf]
      · simp [Label.eventOf, hut, Ne.symm hut]
    closed := fun u hu => by
      have hut : u ≠ t := by
        rintro rfl
        simp at hu
      rw [Function.update_of_ne hut]
      exact h.closed u ((Function.update_of_ne hut _ _).symm.trans hu)
    opened := fun u q' hu => by
      by_cases hut : u = t
      · subst hut
        obtain rfl : q = q' := by simpa using hu
        obtain ⟨p₀, henters, hrun⟩ := h.opened u p ht
        rw [Function.update_self]
        exact ⟨p₀, henters, hrun.snoc haccess⟩
      · -- With another section inside, this one only reads.
        have hu' := hold u q' hut hu
        rw [sys.reads_eq haccess (h.reads_beside ht hu' hut).1, Function.update_of_ne hut]
        exact h.opened u q' hu'
    alone := fun u q' hu hw v q'' hv => by
      have hinside : ∀ w r, Function.update s.inside t (some q) w = some r →
          ∃ r', s.inside w = some r' ∧ sys.writes r' = sys.writes r := by
        intro w r hw
        by_cases hwt : w = t
        · subst hwt
          obtain rfl : q = r := by simpa using hw
          exact ⟨p, ht, hwrites.symm⟩
        · exact ⟨r, hold w r hwt hw, rfl⟩
      obtain ⟨r, hr, hrw⟩ := hinside u q' hu
      obtain ⟨r', hr', _⟩ := hinside v q'' hv
      exact h.alone u r hr (hrw.trans hw) v r' hr'
    still := fun hreads => by
      have hp : sys.writes p = false := hwrites ▸ hreads t q (Function.update_self ..)
      rw [sys.reads_eq haccess hp]
      exact h.still_reading ht hp }

theorem Explained.leave (h : Explained sys start ls s as y es) (ht : s.inside t = some p)
    (hleaves : sys.leaves p r) :
    Explained sys start (ls ++ [.leave t r])
      { s with
        own := Function.update s.own t (sys.after (s.own t) r)
        inside := Function.update s.inside t none }
      (as ++ [⟨t, es t, r⟩]) s.resource (Function.update es t []) := by
  obtain ⟨p₀, henters, hrun⟩ := h.opened t p ht
  have hold : ∀ u q, Function.update s.inside t none u = some q →
      u ≠ t ∧ s.inside u = some q := by
    intro u q hu
    have hut : u ≠ t := by
      rintro rfl
      simp at hu
    exact ⟨hut, (Function.update_of_ne hut _ _).symm.trans hu⟩
  exact {
    run := h.run.snoc (.whole henters hrun hleaves)
    left := by rw [results_snoc, List.map_append, h.left]; rfl
    events := fun u => by
      rw [eventsOf_snoc, h.events, within_snoc]
      by_cases hut : u = t
      · subst hut
        simp [Label.eventOf]
      · simp [Label.eventOf, hut, Ne.symm hut]
    closed := fun u hu => by
      by_cases hut : u = t
      · subst hut
        simp
      · rw [Function.update_of_ne hut]
        exact h.closed u ((Function.update_of_ne hut _ _).symm.trans hu)
    opened := fun u q hu => by
      obtain ⟨hut, hu'⟩ := hold u q hu
      obtain ⟨q₀, hq₀, hrun'⟩ := h.opened u q hu'
      rw [h.still_reading ht (h.reads_beside ht hu' hut).1] at hq₀ hrun'
      exact ⟨q₀, by simpa [hut] using hq₀, by simpa [hut] using hrun'⟩
    alone := fun u q hu hw v q' hv => h.alone u q (hold u q hu).2 hw v q' (hold v q' hv).2
    still := fun _ => rfl }

theorem run_explained {x : σ} {own : T → Λ} (h : Run (Step sys) (.outside x own) ls s) :
    ∃ as y es, Explained sys (x, own) ls s as y es := by
  refine h.history (I := fun ls s => ∃ as y es, Explained sys (x, own) ls s as y es)
    ⟨[], x, fun _ => [], explained_outside sys x own⟩ ?_
  rintro ls s l s' ⟨as, y, es, hi⟩ hstep
  cases hstep with
  | enter ht henters hfree => exact ⟨_, _, _, hi.enter ht henters hfree⟩
  | access ht haccess => exact ⟨_, _, _, hi.access ht haccess⟩
  | leave ht hleaves => exact ⟨_, _, _, hi.leave ht hleaves⟩

end Sections
