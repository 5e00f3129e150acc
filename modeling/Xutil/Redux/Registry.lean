import Xutil.Redux.Model

/-!
# The registered listeners as an ordered collection

`Registry` is what the vector of listeners stands for: the registrations that
are neither removed nor cleared, in order, each under its handle. Every step of
a store is an edit of it or leaves it alone, and `Tracked` reads the collection
off the history of the edits.
-/

namespace Xutil.Redux

open Calls Runs Slots

variable {S A L : Type} {reducer : Reducer S A} {s s' : Store S L}

inductive Edit (L : Type)
  | added (registration : Registration L) (handle : Nat)
  | removed (handle : Nat)
  | cleared

/-- The handles below `handed` have been given out since the collection was
last cleared. -/
structure Registry (L : Type) where
  live : List (Nat × Registration L) := []
  handed : Nat := 0
  added : Nat := 0

def Registry.edit (g : Registry L) : Edit L → Registry L
  | .added r h => { live := g.live ++ [(h, r)], handed := g.handed + 1, added := g.added + 1 }
  | .removed h => { g with live := g.live.filter (·.1 ≠ h) }
  | .cleared => { g with live := [], handed := 0 }

/-- A registration gets the next handle and the next serial number. -/
def Edit.Due (g : Registry L) : Edit L → Prop
  | .added r h => h = g.handed ∧ r.serial = g.added
  | _ => True

/-- The registration `r` got the handle `h`, which has been neither removed nor
cleared since. -/
def Holds (es : List (Edit L)) (h : Nat) (r : Registration L) : Prop :=
  Since (· = .added r h) (fun e => e ≠ .removed h ∧ e ≠ .cleared) es

/-- The handle has been given out and nothing was cleared since. -/
def Handed (es : List (Edit L)) (h : Nat) : Prop :=
  Since (fun e => ∃ r, e = .added r h) (· ≠ .cleared) es

structure Tracked (es : List (Edit L)) (g : Registry L) : Prop where
  holds : ∀ h r, (h, r) ∈ g.live ↔ Holds es h r
  handed : ∀ h, h < g.handed ↔ Handed es h
  below : ∀ p ∈ g.live, p.1 < g.handed
  known : ∀ r h, .added r h ∈ es →
    r.serial < g.added ∧ ∀ p ∈ g.live, p.2.serial = r.serial → p = (h, r)
  order : (g.live.map Prod.snd).Pairwise (·.serial < ·.serial)
  fresh : ∀ p ∈ g.live, p.2.serial < g.added

theorem tracked_nil : Tracked [] ({} : Registry L) where
  holds h r := by simp [Holds]
  handed h := by simp [Handed]
  below := by simp
  known := by simp
  order := by simp
  fresh := by simp

theorem Tracked.add (ht : Tracked es g) (hr : r.serial = g.added) :
    Tracked (es ++ [.added r g.handed]) (g.edit (.added r g.handed)) where
  holds h r' := by
    have hold := ht.holds h r'
    simp only [Registry.edit, Holds, since_snoc, List.mem_append, List.mem_singleton,
      Prod.mk.injEq, Edit.added.injEq, ne_eq, reduceCtorEq, not_false_eq_true, and_self, and_true]
    rw [hold, Holds]
    exact or_comm.trans (or_congr_left (by tauto))
  handed h := by
    simp only [Registry.edit, Handed, since_snoc, Edit.added.injEq, ne_eq, reduceCtorEq,
      not_false_eq_true, and_true]
    rw [← Handed, ← ht.handed h]
    simp
    omega
  below p hp := by
    rcases List.mem_append.mp hp with hp | hp
    · exact Nat.lt_succ_of_lt (ht.below p hp)
    · rw [List.mem_singleton.mp hp]
      exact Nat.lt_succ_self _
  known r' h hmem := by
    rcases List.mem_append.mp hmem with hmem | hmem
    · obtain ⟨hlt, hall⟩ := ht.known r' h hmem
      refine ⟨Nat.lt_succ_of_lt hlt, fun p hp hser => ?_⟩
      rcases List.mem_append.mp hp with hp | hp
      · exact hall p hp hser
      · rw [List.mem_singleton.mp hp] at hser
        exact absurd (hser.symm.trans hr) (Nat.ne_of_lt hlt)
    · obtain ⟨rfl, rfl⟩ : r' = r ∧ h = g.handed := by simpa using hmem
      refine ⟨by simp [Registry.edit, hr], fun p hp hser => ?_⟩
      rcases List.mem_append.mp hp with hp | hp
      · have hlt := ht.fresh p hp
        omega
      · exact List.mem_singleton.mp hp
  order := by
    simp only [Registry.edit, List.map_append, List.map_cons, List.map_nil]
    refine List.pairwise_append.mpr ⟨ht.order, by simp, fun a ha b hb => ?_⟩
    obtain ⟨p, hp, rfl⟩ := List.mem_map.mp ha
    rw [List.mem_singleton.mp hb, hr]
    exact ht.fresh p hp
  fresh p hp := by
    rcases List.mem_append.mp hp with hp | hp
    · exact Nat.lt_succ_of_lt (ht.fresh p hp)
    · rw [List.mem_singleton.mp hp, hr]
      exact Nat.lt_succ_self _

theorem Tracked.remove (ht : Tracked es g) (h : Nat) :
    Tracked (es ++ [.removed h]) (g.edit (.removed h)) where
  holds h' r := by
    simp only [Registry.edit, List.mem_filter, ht.holds, Holds, since_snoc]
    simp [eq_comm (a := h) (b := h')]
  handed h' := by
    have hold := ht.handed h'
    simpa [Registry.edit, Handed, since_snoc] using hold
  below p hp := ht.below p (List.mem_filter.mp hp).1
  known r h' hmem := by
    obtain ⟨hlt, hall⟩ := ht.known r h' (by simpa using hmem)
    exact ⟨hlt, fun p hp => hall p (List.mem_filter.mp hp).1⟩
  order := ht.order.sublist ((List.filter_sublist).map _)
  fresh p hp := ht.fresh p (List.mem_filter.mp hp).1

theorem Tracked.clear (ht : Tracked es g) : Tracked (es ++ [.cleared]) (g.edit .cleared) where
  holds h r := by simp [Registry.edit, Holds, since_snoc]
  handed h := by simp [Registry.edit, Handed, since_snoc]
  below := by simp [Registry.edit]
  known r h hmem := ⟨(ht.known r h (by simpa using hmem)).1, by simp [Registry.edit]⟩
  order := by simp [Registry.edit]
  fresh := by simp [Registry.edit]

theorem Tracked.edit (ht : Tracked es g) (hdue : e.Due g) : Tracked (es ++ [e]) (g.edit e) := by
  cases e with
  | added r h =>
    obtain ⟨rfl, hr⟩ := hdue
    exact ht.add hr
  | removed h => exact ht.remove h
  | cleared => exact ht.clear

-- ---------------------------------------------------------------------------
-- The vector stands for the collection
-- ---------------------------------------------------------------------------

def Store.registry (s : Store S L) : Registry L :=
  { live := slots s.listeners, handed := s.listeners.length, added := s.added }

theorem registered_eq (s : Store S L) : s.registered = s.registry.live.map Prod.snd :=
  (map_snd_slots s.listeners).symm

theorem addListener_run (l : L) (s : Store S L) : (addListener l).run s =
    (.ok s.listeners.length,
      { s with listeners := s.listeners ++ [some ⟨s.added, l⟩], added := s.added + 1 }) := by
  simp [addListener, Call.run_bind]

theorem removeListener_run (h : Nat) (s : Store S L) : (removeListener h).run s =
    if h < s.listeners.length then (.ok (), { s with listeners := s.listeners.set h none })
    else (.error .outOfRange, s) := by
  simp only [removeListener, Call.run_bind, Call.run_get]
  split <;> rfl

theorem addListener_state (hrun : (addListener l).run s = (.ok h, s')) : s'.state = s.state := by
  rw [addListener_run] at hrun
  cases hrun
  rfl

theorem removeListener_state (hrun : (removeListener h).run s = (r, s')) : s'.state = s.state := by
  rw [removeListener_run] at hrun
  split at hrun <;> cases hrun <;> rfl

/-- The edit that a step makes, which is due. -/
def Edits (e : Option (Edit L)) (s s' : Store S L) : Prop :=
  match e with
  | some e => e.Due s.registry ∧ s'.registry = s.registry.edit e
  | none => s'.registry = s.registry

theorem addListener_edits (hrun : (addListener l).run s = (.ok h, s')) :
    Edits (some (.added ⟨s.added, l⟩ h)) s s' := by
  rw [addListener_run] at hrun
  cases hrun
  exact ⟨⟨rfl, rfl⟩, by simp [Store.registry, Registry.edit, slots_push]⟩

theorem removeListener_edits (hrun : (removeListener h).run s = (r, s')) :
    Edits (some (.removed h)) s s' := by
  rw [removeListener_run] at hrun
  split at hrun <;> cases hrun
  · exact ⟨trivial, by simp [Store.registry, Registry.edit, slots_set_none]⟩
  · refine ⟨trivial, ?_⟩
    have hset : s.listeners.set h none = s.listeners :=
      List.set_eq_of_length_le (Nat.le_of_not_lt ‹_›)
    simp only [Store.registry, Registry.edit, ← slots_set_none, hset]

theorem clearListeners_edits (hrun : clearListeners.run s = (.ok (), s')) :
    Edits (some .cleared) s s' := by
  cases hrun
  exact ⟨trivial, rfl⟩

theorem reduce_run (hrun : (reduce reducer a).run s = (r, s')) :
    s' = { s with state := reducer.apply s.state a } ∧
      ((∃ inPlace v, reducer s.state a = .returned inPlace v ∧ r = .ok ()) ∨
        (∃ inPlace, reducer s.state a = .threw inPlace ∧ r = .error .reducer)) := by
  simp only [reduce, Call.run] at hrun
  split at hrun <;> cases hrun <;> simp [Reducer.apply, *]

/-- Listeners are called in order, all of them or those up to the first that
throws. -/
inductive Notified (throws : Nat → Bool) (regs : List (Nat × Registration L)) (state : S)
    (action : A) : Except Exception Unit → List (Notice S A L) → Prop
  | all : (∀ p ∈ regs, throws p.1 = false) →
      Notified throws regs state action (.ok ()) (regs.map fun p => ⟨p.2, state, action⟩)
  | threw : regs = before ++ p :: after → (∀ q ∈ before, throws q.1 = false) → throws p.1 = true →
      Notified throws regs state action (.error .listener)
        ((before ++ [p]).map fun p => ⟨p.2, state, action⟩)

theorem Notified.none_throws {regs : List (Nat × Registration L)} {ns : List (Notice S A L)}
    (h : Notified throws regs state a r ns) (hall : ∀ p ∈ regs, throws p.1 = false) :
    r = .ok () ∧ ns = regs.map fun p => ⟨p.2, state, a⟩ := by
  cases h with
  | all => exact ⟨rfl, rfl⟩
  | @threw _ p _ hsplit _ hp =>
    have hno := hall p (by simp [hsplit])
    simp [hp] at hno

theorem Notified.first_throws {regs : List (Nat × Registration L)} {ns : List (Notice S A L)}
    (h : Notified throws regs state a r ns) (before : List (Nat × Registration L))
    (p : Nat × Registration L) (after : List (Nat × Registration L))
    (hsplit : regs = before ++ p :: after) (hbefore : ∀ q ∈ before, throws q.1 = false)
    (hp : throws p.1 = true) :
    r = .error .listener ∧ ns = (before ++ [p]).map fun p => ⟨p.2, state, a⟩ := by
  cases h with
  | all hall =>
    have hno := hall p (by simp [hsplit])
    simp [hp] at hno
  | threw hsplit' hbefore' hp' =>
    obtain ⟨rfl, rfl⟩ := Call.first_unique hbefore hp hbefore' hp' (hsplit.symm.trans hsplit')
    exact ⟨rfl, rfl⟩

def Calling.noted (action : A) (c : Calling S A L) (p : Nat × Registration L) : Calling S A L :=
  { c with notices := c.notices ++ [⟨p.2, c.state, action⟩] }

theorem foldl_noted (a : A) (ps : List (Nat × Registration L)) (c : Calling S A L) :
    ps.foldl (Calling.noted a) c =
      { c with notices := c.notices ++ ps.map fun p => ⟨p.2, c.state, a⟩ } := by
  induction ps generalizing c with
  | nil => simp
  | cons p ps ih => simp [ih, Calling.noted]

theorem run_call (throws : Nat → Bool) (a : A) (p : Nat × Registration L) (c : Calling S A L) :
    (call throws a p).run c = (if throws p.1 then .error .listener else .ok (), c.noted a p) := by
  cases ht : throws p.1 <;> simp [call, Call.run_bind, ht, Calling.noted]

theorem notify_run (hrun : (notify throws a).run { s with notices := [] } = (r, c)) :
    c.toStore = s ∧ Notified throws (slots s.listeners) s.state a r c.notices := by
  obtain ⟨hall, hloop⟩ | ⟨before, p, after, hsplit, hbefore, hp, hloop⟩ :=
    Call.run_forM (run_call throws a) (slots s.listeners) { s with notices := [] }
  · obtain ⟨rfl, rfl⟩ := Prod.mk.inj (hloop.symm.trans hrun)
    rw [foldl_noted]
    exact ⟨rfl, .all hall⟩
  · obtain ⟨rfl, rfl⟩ := Prod.mk.inj (hloop.symm.trans hrun)
    rw [foldl_noted]
    exact ⟨rfl, .threw hsplit hbefore hp⟩

theorem notify_all (throws : Nat → Bool) (a : A) (s : Store S L)
    (hall : ∀ p ∈ slots s.listeners, throws p.1 = false) :
    (notify throws a).run { s with notices := [] } =
      (.ok (), { s with notices := (slots s.listeners).map fun p => ⟨p.2, s.state, a⟩ }) := by
  rcases hrun : (notify throws a).run { s with notices := [] } with ⟨r, ⟨t, ns⟩⟩
  obtain ⟨hstore, hnotified⟩ := notify_run hrun
  obtain ⟨hr, hns⟩ := hnotified.none_throws hall
  simp only at hstore hns
  rw [hr, hns, hstore]

theorem notify_first (throws : Nat → Bool) (a : A) (s : Store S L)
    (hsplit : slots s.listeners = before ++ p :: after)
    (hbefore : ∀ q ∈ before, throws q.1 = false) (hp : throws p.1 = true) :
    (notify throws a).run { s with notices := [] } =
      (.error .listener, { s with notices := (before ++ [p]).map fun p => ⟨p.2, s.state, a⟩ }) := by
  rcases hrun : (notify throws a).run { s with notices := [] } with ⟨r, ⟨t, ns⟩⟩
  obtain ⟨hstore, hnotified⟩ := notify_run hrun
  obtain ⟨hr, hns⟩ := hnotified.first_throws before p after hsplit hbefore hp
  simp only at hstore hns
  rw [hr, hns, hstore]

theorem Tracked.step (ht : Tracked es s.registry) (h : Edits e s s') :
    Tracked (es ++ e.toList) s'.registry := by
  cases e with
  | none =>
    rw [show s'.registry = s.registry from h]
    simpa using ht
  | some e => exact h.2 ▸ ht.edit h.1

end Xutil.Redux
