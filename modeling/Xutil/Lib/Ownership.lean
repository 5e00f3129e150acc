import Mathlib.Data.List.Count
import Mathlib.Data.List.Induction
import Mathlib.Logic.Equiv.Basic

/-!
# Handles and their owners

A history of handles that are acquired, used and released, and the owners that
hold them. `Lawful` says of the history alone that a handle is used only between
its acquisition and its release. `Owned` ties it to the owners: the live handles
are those that are held, each by one owner. The rules of `Owned` are what an
owner may do.
-/

namespace Ownership

variable {O H : Type}

inductive Event (H : Type)
  | acquired (h : H)
  | used (h : H)
  | released (h : H)
  deriving Repr, DecidableEq

def Event.handle : Event H → H
  | .acquired h => h
  | .used h => h
  | .released h => h

/-- Acquired and not yet released. -/
def Live (es : List (Event H)) (h : H) : Prop := .acquired h ∈ es ∧ .released h ∉ es

def Event.Allowed (es : List (Event H)) : Event H → Prop
  | .acquired h => ∀ e ∈ es, e.handle ≠ h
  | .used h => Live es h
  | .released h => Live es h

inductive Lawful : List (Event H) → Prop
  | nil : Lawful []
  | snoc : Lawful es → e.Allowed es → Lawful (es ++ [e])

theorem lawful_snoc : Lawful (es ++ [e]) ↔ Lawful es ∧ Event.Allowed es e := by
  constructor
  · generalize hall : es ++ [e] = all
    rintro (_ | ⟨hlawful, hallowed⟩)
    · simp at hall
    · obtain ⟨rfl, he⟩ := List.append_inj' hall rfl
      obtain rfl : e = _ := by simpa using he
      exact ⟨hlawful, hallowed⟩
  · rintro ⟨hlawful, hallowed⟩
    exact .snoc hlawful hallowed

theorem Lawful.left (h : Lawful (es ++ es')) : Lawful (H := H) es := by
  induction es' using List.reverseRecOn with
  | nil => simpa using h
  | append_singleton es' e ih =>
    rw [← List.append_assoc, lawful_snoc] at h
    exact ih h.1

/-- A handle is released at most once. -/
theorem Lawful.count_released [DecidableEq H] (hlawful : Lawful es) (h : H) :
    es.count (.released h) = if .released h ∈ es then 1 else 0 := by
  induction hlawful with
  | nil => simp
  | @snoc es e _ hallowed ih =>
    rw [List.count_append, ih]
    by_cases he : e = .released h
    · subst he
      have hnot : .released h ∉ es := hallowed.2
      simp [hnot]
    · simp [he, Ne.symm he]

theorem live_snoc_used : Live (es ++ [.used h']) h ↔ Live es h := by
  simp [Live]

theorem live_snoc_acquired : Live (es ++ [.acquired h']) h ↔
    Live es h ∨ (h = h' ∧ .released h ∉ es) := by
  simp [Live, or_and_right]

theorem live_snoc_released : Live (es ++ [.released h']) h ↔ Live es h ∧ h ≠ h' := by
  simp [Live, and_assoc]

-- ---------------------------------------------------------------------------
-- Owners
-- ---------------------------------------------------------------------------

structure Owned (es : List (Event H)) (holds : O → Option H) : Prop where
  lawful : Lawful es
  live : ∀ h, Live es h ↔ ∃ o, holds o = some h
  unique : ∀ o o' h, holds o = some h → holds o' = some h → o = o'

theorem Owned.empty : Owned (O := O) (H := H) [] fun _ => none :=
  ⟨.nil, by simp [Live], by simp⟩

theorem Owned.used {holds : O → Option H} (hown : Owned es holds) (h : Live es x) :
    Owned (es ++ [.used x]) holds :=
  ⟨.snoc hown.lawful h, fun y => by rw [live_snoc_used, hown.live], hown.unique⟩

/-- A series of uses of live handles. -/
theorem Owned.uses {holds : O → Option H} (hown : Owned es holds)
    (h : ∀ e ∈ us, ∃ x, e = .used x ∧ Live es x) : Owned (es ++ us) holds := by
  induction us generalizing es with
  | nil => simpa using hown
  | cons e us ih =>
    obtain ⟨x, rfl, hx⟩ := h e (by simp)
    have hrest : ∀ e ∈ us, ∃ y, e = .used y ∧ Live (es ++ [.used x]) y := by
      intro e he
      obtain ⟨y, rfl, hy⟩ := h e (by simp [he])
      exact ⟨y, rfl, live_snoc_used.mpr hy⟩
    simpa using ih (hown.used hx) hrest

theorem Owned.reindex {holds : O → Option H} (hown : Owned es holds) (f : O ≃ O) :
    Owned es (holds ∘ f) := by
  refine ⟨hown.lawful, fun x => ?_, fun o o' x ho ho' => f.injective (hown.unique _ _ _ ho ho')⟩
  rw [hown.live]
  exact ⟨fun ⟨o, ho⟩ => ⟨f.symm o, by simpa using ho⟩, fun ⟨o, ho⟩ => ⟨f o, ho⟩⟩

/-- A handle that nobody holds any more has been released once. -/
theorem Owned.count_released [DecidableEq H] {holds : O → Option H} (hown : Owned es holds)
    (hnone : ∀ o, holds o ≠ some x) (hx : .acquired x ∈ es) : es.count (.released x) = 1 := by
  have hdead : ¬ Live es x := by
    rw [hown.live]
    rintro ⟨o, ho⟩
    exact hnone o ho
  have hmem : .released x ∈ es := by
    by_contra hnot
    exact hdead ⟨hx, hnot⟩
  rw [hown.lawful.count_released, if_pos hmem]

theorem Owned.acquired [DecidableEq O] {holds : O → Option H} (hown : Owned es holds)
    (hfresh : ∀ e ∈ es, e.handle ≠ x) (hnone : holds o = none) :
    Owned (es ++ [.acquired x]) (Function.update holds o (some x)) := by
  have hother : ∀ o', holds o' ≠ some x := fun o' ho =>
    hfresh _ ((hown.live x).mpr ⟨o', ho⟩).1 rfl
  refine ⟨.snoc hown.lawful hfresh, fun y => ?_, fun o₁ o₂ y ho₁ ho₂ => ?_⟩
  · rw [live_snoc_acquired, hown.live]
    constructor
    · rintro (⟨o', ho⟩ | ⟨rfl, -⟩)
      · have hne : o' ≠ o := by
          rintro rfl
          cases hnone.symm.trans ho
        exact ⟨o', by rwa [Function.update_of_ne hne]⟩
      · exact ⟨o, Function.update_self ..⟩
    · rintro ⟨o', ho⟩
      by_cases hne : o' = o
      · subst hne
        rw [Function.update_self] at ho
        cases ho
        exact .inr ⟨rfl, fun hmem => hfresh _ hmem rfl⟩
      · rw [Function.update_of_ne hne] at ho
        exact .inl ⟨o', ho⟩
  · by_cases h₁ : o₁ = o <;> by_cases h₂ : o₂ = o <;>
      simp only [h₁, h₂, Function.update_self, Function.update_of_ne, ne_eq, not_false_eq_true] at ho₁ ho₂
    · rw [h₁, h₂]
    · cases ho₁
      exact absurd ho₂ (hother o₂)
    · cases ho₂
      exact absurd ho₁ (hother o₁)
    · exact hown.unique _ _ _ ho₁ ho₂

theorem Owned.released [DecidableEq O] {holds : O → Option H} (hown : Owned es holds)
    (hsome : holds o = some x) :
    Owned (es ++ [.released x]) (Function.update holds o none) := by
  have hkept : ∀ o' y, Function.update holds o none o' = some y ↔ o' ≠ o ∧ holds o' = some y := by
    intro o' y
    by_cases hne : o' = o <;> simp [hne]
  refine ⟨.snoc hown.lawful ((hown.live x).mpr ⟨o, hsome⟩), fun y => ?_, fun o₁ o₂ y ho₁ ho₂ => ?_⟩
  · simp only [live_snoc_released, hown.live, hkept]
    constructor
    · rintro ⟨⟨o', ho⟩, hne⟩
      refine ⟨o', ?_, ho⟩
      rintro rfl
      exact hne (Option.some.inj (ho.symm.trans hsome))
    · rintro ⟨o', hne, ho⟩
      refine ⟨⟨o', ho⟩, ?_⟩
      rintro rfl
      exact hne (hown.unique _ _ _ ho hsome)
  · exact hown.unique _ _ _ ((hkept _ _).mp ho₁).2 ((hkept _ _).mp ho₂).2

-- ---------------------------------------------------------------------------
-- Handles by number
-- ---------------------------------------------------------------------------

/-- The next handle is `n`. -/
structure Numbered (es : List (Event Nat)) (holds : O → Option Nat) (n : Nat) : Prop
    extends Owned es holds where
  below : ∀ e ∈ es, e.handle < n

theorem Numbered.empty : Numbered (O := O) [] (fun _ => none) 0 :=
  ⟨.empty, by simp⟩

theorem Numbered.uses {holds : O → Option Nat} (h : Numbered es holds n)
    (hus : ∀ e ∈ us, ∃ x, e = .used x ∧ Live es x) : Numbered (es ++ us) holds n := by
  refine ⟨h.toOwned.uses hus, fun e he => ?_⟩
  rcases List.mem_append.mp he with he | he
  · exact h.below e he
  · obtain ⟨x, rfl, hx⟩ := hus e he
    exact h.below (.acquired x) hx.1

theorem Numbered.reindex {holds : O → Option Nat} (h : Numbered es holds n) (f : O ≃ O) :
    Numbered es (holds ∘ f) n :=
  ⟨h.toOwned.reindex f, h.below⟩

theorem Numbered.acquired [DecidableEq O] {holds : O → Option Nat} (h : Numbered es holds n)
    (hnone : holds o = none) :
    Numbered (es ++ [.acquired n]) (Function.update holds o (some n)) (n + 1) := by
  refine ⟨h.toOwned.acquired (fun e he => Nat.ne_of_lt (h.below e he)) hnone, fun e he => ?_⟩
  rcases List.mem_append.mp he with he | he
  · exact Nat.lt_succ_of_lt (h.below e he)
  · rw [List.mem_singleton.mp he]
    exact Nat.lt_succ_self n

theorem Numbered.released [DecidableEq O] {holds : O → Option Nat} (h : Numbered es holds n)
    (hsome : holds o = some x) :
    Numbered (es ++ [.released x]) (Function.update holds o none) n := by
  refine ⟨h.toOwned.released hsome, fun e he => ?_⟩
  rcases List.mem_append.mp he with he | he
  · exact h.below e he
  · rw [List.mem_singleton.mp he]
    exact h.below (.acquired x) ((h.live x).mpr ⟨o, hsome⟩).1

end Ownership
