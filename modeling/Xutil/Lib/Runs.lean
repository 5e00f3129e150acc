import Mathlib.Data.List.Basic

/-!
# Runs of labelled steps

`Run step s ls s'` is a finite run of a step relation, with the labels of its
steps in order. A safety law is one step lemma handed to `Run.history`, which
sees the labels so far, or to `Run.invariant`, which does not. `Guarded`
restricts a relation to the steps that meet a condition. `Since` speaks of the
labels of a run alone.
-/

namespace Runs

variable {σ ι : Type*} {step : σ → ι → σ → Prop}

/-- The last step is the outermost one, so an induction over a run has the
labels before the step at hand. -/
inductive Run (step : σ → ι → σ → Prop) (s : σ) : List ι → σ → Prop
  | nil : Run step s [] s
  | snoc : Run step s ls s' → step s' l s'' → Run step s (ls ++ [l]) s''

/-- The steps of a relation that meet a condition. -/
def Guarded (step : σ → ι → σ → Prop) (ok : σ → ι → Prop) (s : σ) (l : ι) (s' : σ) : Prop :=
  step s l s' ∧ ok s l

theorem Run.history {I : List ι → σ → Prop} (h : Run step s ls s') (start : I [] s)
    (keep : ∀ {ls t l t'}, I ls t → step t l t' → I (ls ++ [l]) t') : I ls s' := by
  induction h with
  | nil => exact start
  | snoc _ hstep ih => exact keep ih hstep

theorem Run.invariant {I : σ → Prop} (h : Run step s ls s') (start : I s)
    (keep : ∀ {t l t'}, I t → step t l t' → I t') : I s' :=
  h.history (I := fun _ => I) start keep

/-- What the steps bring is stored or has been paid for. -/
theorem Run.amortized (h : Run step s ls s') (gain cost : ι → Bool) (stored : σ → Nat)
    (hstep : ∀ {s l s'}, step s l s' → [l].countP gain + stored s' ≤ stored s + [l].countP cost) :
    ls.countP gain + stored s' ≤ stored s + ls.countP cost := by
  induction h with
  | nil => simp
  | snoc _ hlast ih =>
    have hone := hstep hlast
    rw [List.countP_append, List.countP_append]
    omega

theorem Run.one (h : step s l s') : Run step s [l] s' := .snoc .nil h

theorem Run.trans (h : Run step s ls s') (h' : Run step s' ls' s'') :
    Run step s (ls ++ ls') s'' := by
  induction h' with
  | nil => simpa using h
  | snoc _ hstep ih => simpa [← List.append_assoc] using Run.snoc ih hstep

theorem Run.cons (h : step s l s') (h' : Run step s' ls s'') : Run step s (l :: ls) s'' :=
  (Run.one h).trans h'

/-- Another relation takes the step of each step. -/
theorem Run.map {τ κ : Type*} {step' : τ → κ → τ → Prop} {f : σ → τ} {g : ι → κ}
    (h : Run step s ls s') (hstep : ∀ {s l s'}, step s l s' → step' (f s) (g l) (f s')) :
    Run step' (f s) (ls.map g) (f s') := by
  induction h with
  | nil => exact .nil
  | snoc _ hlast ih =>
    rw [List.map_append]
    exact ih.snoc (hstep hlast)

theorem Run.forall_label {P : ι → Prop} (h : Run step s ls s')
    (hstep : ∀ {s l s'}, step s l s' → P l) : ∀ l ∈ ls, P l := by
  refine h.history (I := fun ls _ => ∀ l ∈ ls, P l) (by simp) fun {ls _ l _} hls hl => ?_
  simpa [or_imp, forall_and] using ⟨hls, hstep hl⟩

theorem Run.split (h : Run step s (ls ++ ls') s'') : ∃ s', Run step s ls s' ∧ Run step s' ls' s'' := by
  generalize hall : ls ++ ls' = all at h
  induction h generalizing ls' with
  | nil =>
    obtain ⟨rfl, rfl⟩ := List.append_eq_nil_iff.mp hall
    exact ⟨s, .nil, .nil⟩
  | @snoc before t l t' hrun hstep ih =>
    rcases List.eq_nil_or_concat ls' with rfl | ⟨init, l', rfl⟩
    · obtain rfl : ls = before ++ [l] := by simpa using hall
      exact ⟨t', .snoc hrun hstep, .nil⟩
    · rw [List.concat_eq_append, ← List.append_assoc] at hall
      obtain ⟨hinit, hl⟩ := List.append_inj' hall rfl
      obtain rfl : l' = l := by simpa using hl
      obtain ⟨s', hfirst, hsecond⟩ := ih hinit
      exact ⟨s', hfirst, by simpa using Run.snoc hsecond hstep⟩

theorem Run.head (h : Run step s (l :: ls) s'') : ∃ s', step s l s' ∧ Run step s' ls s'' := by
  have happend : Run step s ([l] ++ ls) s'' := h
  obtain ⟨s', hone, hrest⟩ := happend.split
  generalize hl : [l] = one at hone
  cases hone with
  | nil => simp at hl
  | @snoc before _ l' _ hrun hstep =>
    rcases List.append_eq_singleton_iff.mp hl.symm with ⟨rfl, hl'⟩ | ⟨_, hl'⟩
    · obtain rfl : l' = l := by simpa using hl'
      generalize hnil : ([] : List ι) = none at hrun
      cases hrun with
      | nil => exact ⟨s', hstep, hrest⟩
      | snoc => simp at hnil
    · simp at hl'

-- ---------------------------------------------------------------------------
-- Histories
-- ---------------------------------------------------------------------------

theorem filterMap_snoc {κ : Type*} (f : ι → Option κ) (ls : List ι) (l : ι) :
    (ls ++ [l]).filterMap f = ls.filterMap f ++ (f l).toList := by
  cases hl : f l <;> simp [hl]

/-- A label of a longer history is the last one, or one of those before it. -/
theorem snoc_eq_append_cons {before after : List ι} (h : ls ++ [l] = before ++ x :: after) :
    (after = [] ∧ ls = before ∧ l = x) ∨ ∃ init, after = init ++ [l] ∧ ls = before ++ x :: init := by
  rcases List.eq_nil_or_concat after with rfl | ⟨init, last, rfl⟩
  · obtain ⟨rfl, hl⟩ := List.append_inj' h rfl
    exact .inl ⟨rfl, rfl, by simpa using hl⟩
  · rw [List.concat_eq_append, ← List.cons_append, ← List.append_assoc] at h
    obtain ⟨rfl, hl⟩ := List.append_inj' h rfl
    obtain rfl : l = last := by simpa using hl
    exact .inr ⟨init, List.concat_eq_append, rfl⟩

/-- Some label meets `p`, and every later one meets `q`. -/
def Since (p q : ι → Prop) (ls : List ι) : Prop :=
  ∃ before l after, ls = before ++ l :: after ∧ p l ∧ ∀ l' ∈ after, q l'

variable {p q : ι → Prop}

@[simp] theorem since_nil : ¬ Since p q [] := by
  rintro ⟨before, l, after, h, _⟩
  simp at h

theorem since_snoc : Since p q (ls ++ [l]) ↔ p l ∨ (Since p q ls ∧ q l) := by
  constructor
  · rintro ⟨before, l', after, h, hp, hq⟩
    obtain ⟨rfl, rfl, rfl⟩ | ⟨init, rfl, rfl⟩ := snoc_eq_append_cons h
    · exact .inl hp
    · exact .inr ⟨⟨before, l', init, rfl, hp, fun x hx => hq x (by simp [hx])⟩, hq l (by simp)⟩
  · rintro (hp | ⟨⟨before, l', after, rfl, hp, hq⟩, hl⟩)
    · exact ⟨ls, l, [], rfl, hp, by simp⟩
    · refine ⟨before, l', after ++ [l], by simp, hp, fun x hx => ?_⟩
      rcases List.mem_append.mp hx with hx | hx
      · exact hq x hx
      · rwa [List.mem_singleton.mp hx]

theorem Since.exists_mem (h : Since p q ls) : ∃ l ∈ ls, p l := by
  obtain ⟨before, l, after, rfl, hp, _⟩ := h
  exact ⟨l, by simp, hp⟩

end Runs
