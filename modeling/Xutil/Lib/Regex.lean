import Mathlib.Logic.Function.Basic

/-!
# Regular expressions with backtracking

`run` tries the alternatives of an expression in the order of a backtracking
matcher: repetitions and options take as much as they can before they give up.
What follows the expression is its continuation, so that a choice is undone when
the rest fails. `Matches` says what an expression can match, without any order.
-/

inductive Regex (α : Type)
  | one (accepts : α → Bool)
  | seq (r₁ r₂ : Regex α)
  | star (r : Regex α)
  | opt (r : Regex α)
  | group (n : Nat) (r : Regex α)

namespace Regex

variable {α β : Type}

def plus (r : Regex α) : Regex α := .seq r (.star r)

/-- The `.` of ECMAScript. -/
def isDot (c : Char) : Bool := c != '\n' && c != '\r'

theorem isDot_iff : isDot c = true ↔ c ≠ '\n' ∧ c ≠ '\r' := by
  simp [isDot]

/-- What each group has matched; a group that has not is empty. -/
abbrev Captures (α : Type) := Nat → List α

abbrev Match (α : Type) := Captures α × List α

-- ---------------------------------------------------------------------------
-- The matcher
-- ---------------------------------------------------------------------------

/-- Repeats `f`. An iteration that takes nothing is refused, so that the length
of the input bounds the iterations. -/
def loop (f : (Match α → Option β) → Match α → Option β) (k : Match α → Option β) :
    Nat → Match α → Option β
  | 0, x => k x
  | n + 1, x =>
    f (fun y => if y.2.length < x.2.length then loop f k n y else none) x <|> k x

def run : Regex α → (Match α → Option β) → Match α → Option β
  | .one _, _, (_, []) => none
  | .one p, k, (c, a :: s) => if p a then k (c, s) else none
  | .seq r₁ r₂, k, x => run r₁ (run r₂ k) x
  | .star r, k, x => loop (run r) k x.2.length x
  | .opt r, k, x => run r k x <|> k x
  | .group n r, k, x =>
    run r (fun y => k (Function.update y.1 n (x.2.take (x.2.length - y.2.length)), y.2)) x

/-- The whole of the input is to be matched. -/
def regexMatch (r : Regex α) (s : List α) : Option (Captures α) :=
  run r (fun y => if y.2.isEmpty then some y.1 else none) (fun _ => [], s)

-- ---------------------------------------------------------------------------
-- What an expression matches
-- ---------------------------------------------------------------------------

inductive Matches : Regex α → Captures α → List α → Captures α → Prop
  | one : p a = true → Matches (.one p) c [a] c
  | seq : Matches r₁ c w₁ c₁ → Matches r₂ c₁ w₂ c₂ → Matches (.seq r₁ r₂) c (w₁ ++ w₂) c₂
  | starNil : Matches (.star r) c [] c
  | starCons : w₁ ≠ [] → Matches r c w₁ c₁ → Matches (.star r) c₁ w₂ c₂ →
      Matches (.star r) c (w₁ ++ w₂) c₂
  | optNone : Matches (.opt r) c [] c
  | optSome : Matches r c w c' → Matches (.opt r) c w c'
  | group : Matches r c w c' → Matches (.group n r) c w (Function.update c' n w)

theorem matches_one : Matches (.one p) c w c' ↔ ∃ a, p a = true ∧ w = [a] ∧ c' = c := by
  constructor
  · rintro ⟨⟩
    exact ⟨_, ‹_›, rfl, rfl⟩
  · rintro ⟨a, hp, rfl, rfl⟩
    exact .one hp

theorem matches_seq : Matches (.seq r₁ r₂) c w c' ↔
    ∃ w₁ c₁ w₂, w = w₁ ++ w₂ ∧ Matches r₁ c w₁ c₁ ∧ Matches r₂ c₁ w₂ c' := by
  constructor
  · rintro ⟨⟩
    exact ⟨_, _, _, rfl, ‹_›, ‹_›⟩
  · rintro ⟨_, _, _, rfl, h₁, h₂⟩
    exact .seq h₁ h₂

theorem matches_group : Matches (.group n r) c w c' ↔
    ∃ c₁, Matches r c w c₁ ∧ c' = Function.update c₁ n w := by
  constructor
  · rintro ⟨⟩
    exact ⟨_, ‹_›, rfl⟩
  · rintro ⟨_, h, rfl⟩
    exact .group h

theorem matches_opt : Matches (.opt r) c w c' ↔ (w = [] ∧ c' = c) ∨ Matches r c w c' := by
  constructor
  · rintro (_ | _ | _ | _ | _ | h)
    · exact .inl ⟨rfl, rfl⟩
    · exact .inr h
  · rintro (⟨rfl, rfl⟩ | h)
    · exact .optNone
    · exact .optSome h

/-- Repetitions of a class of characters. -/
theorem matches_star_one : Matches (.star (.one p)) c w c' ↔ (∀ a ∈ w, p a = true) ∧ c' = c := by
  constructor
  · generalize hr : Regex.star (.one p) = r
    intro h
    induction h with
    | starNil => exact ⟨by simp, rfl⟩
    | starCons _ h₁ _ _ ih =>
      cases hr
      obtain ⟨a, hp, rfl, rfl⟩ := matches_one.mp h₁
      obtain ⟨hall, rfl⟩ := ih rfl
      exact ⟨by simpa [hp] using hall, rfl⟩
    | _ => cases hr
  · rintro ⟨hall, rfl⟩
    induction w with
    | nil => exact .starNil
    | cons a w ih =>
      obtain ⟨ha, hall⟩ := List.forall_mem_cons.mp hall
      exact .starCons (List.cons_ne_nil a []) (.one ha) (ih hall)

theorem Matches.forall_star {P : α → Prop}
    (hr : ∀ {c w c'}, Matches r c w c' → ∀ a ∈ w, P a) (h : Matches (.star r) c w c') :
    ∀ a ∈ w, P a := by
  generalize hstar : Regex.star r = r' at h
  induction h with
  | starNil => simp
  | starCons _ h₁ _ _ ih =>
    cases hstar
    exact List.forall_mem_append.mpr ⟨hr h₁, ih rfl⟩
  | _ => cases hstar

-- ---------------------------------------------------------------------------
-- The matcher finds what the expression matches
-- ---------------------------------------------------------------------------

def Sound (f : (Match α → Option β) → Match α → Option β) (r : Regex α) : Prop :=
  ∀ k c s b, f k (c, s) = some b →
    ∃ w t c', s = w ++ t ∧ Matches r c w c' ∧ k (c', t) = some b

def Complete (f : (Match α → Option β) → Match α → Option β) (r : Regex α) : Prop :=
  ∀ k c w c' t, Matches r c w c' → (k (c', t)).isSome → (f k (c, w ++ t)).isSome

theorem loop_sound {f : (Match α → Option β) → Match α → Option β} (hf : Sound f r)
    (h : loop f k n (c, s) = some b) :
    ∃ w t c', s = w ++ t ∧ Matches (.star r) c w c' ∧ k (c', t) = some b := by
  induction n generalizing c s with
  | zero => exact ⟨[], s, c, rfl, .starNil, h⟩
  | succ n ih =>
    simp only [loop, Option.orElse_eq_orElse, Option.orElse_eq_or, Option.or_eq_some_iff] at h
    rcases h with h | ⟨-, h⟩
    · obtain ⟨w₁, s₁, c₁, rfl, h₁, hk⟩ := hf _ _ _ _ h
      split at hk
      · rename_i hlt
        obtain ⟨w₂, t, c', rfl, h₂, hk⟩ := ih hk
        have hne : w₁ ≠ [] := by
          rintro rfl
          simp at hlt
        exact ⟨w₁ ++ w₂, t, c', by simp, .starCons hne h₁ h₂, hk⟩
      · cases hk
    · exact ⟨[], s, c, rfl, .starNil, h⟩

theorem loop_complete {f : (Match α → Option β) → Match α → Option β} (hf : Complete f r)
    (h : Matches (.star r) c w c') (hk : (k (c', t)).isSome) (hn : w.length ≤ n) :
    (loop f k n (c, w ++ t)).isSome := by
  generalize hr : Regex.star r = r' at h
  induction h generalizing n with
  | starNil =>
    cases n with
    | zero => exact hk
    | succ n => simp [loop, hk]
  | @starCons w₁ _ _ c₁ w₂ _ hne h₁ _ _ ih =>
    cases hr
    have hpos : 0 < w₁.length := List.length_pos_iff.mpr hne
    rw [List.length_append] at hn
    obtain ⟨n, rfl⟩ : ∃ m, n = m + 1 := ⟨n - 1, by omega⟩
    have hrest : (loop f k n (c₁, w₂ ++ t)).isSome := ih hk (by omega) rfl
    rw [List.append_assoc]
    have hfirst := hf (fun y => if y.2.length < (w₁ ++ (w₂ ++ t)).length then loop f k n y else none)
      _ _ _ (w₂ ++ t) h₁ (by simpa [hpos] using hrest)
    simp only [loop, Option.orElse_eq_orElse, Option.orElse_eq_or, Option.isSome_or, Bool.or_eq_true]
    exact .inl hfirst
  | _ => cases hr

theorem run_sound (r : Regex α) : Sound (run (β := β) r) r := by
  induction r with
  | one p =>
    rintro k c (_ | ⟨a, s⟩) b h
    · cases h
    · simp only [run] at h
      split at h
      · exact ⟨[a], s, c, rfl, .one ‹_›, h⟩
      · cases h
  | seq r₁ r₂ ih₁ ih₂ =>
    intro k c s b h
    obtain ⟨w₁, s₁, c₁, rfl, h₁, h⟩ := ih₁ _ _ _ _ h
    obtain ⟨w₂, t, c', rfl, h₂, h⟩ := ih₂ _ _ _ _ h
    exact ⟨w₁ ++ w₂, t, c', by simp, .seq h₁ h₂, h⟩
  | star r ih => exact fun k c s b h => loop_sound ih h
  | opt r ih =>
    intro k c s b h
    simp only [run, Option.orElse_eq_orElse, Option.orElse_eq_or, Option.or_eq_some_iff] at h
    rcases h with h | ⟨-, h⟩
    · obtain ⟨w, t, c', hs, hm, h⟩ := ih _ _ _ _ h
      exact ⟨w, t, c', hs, .optSome hm, h⟩
    · exact ⟨[], s, c, rfl, .optNone, h⟩
  | group n r ih =>
    intro k c s b h
    obtain ⟨w, t, c', rfl, hm, h⟩ := ih _ _ _ _ h
    have htake : (w ++ t).take ((w ++ t).length - t.length) = w := by simp
    simp only [htake] at h
    exact ⟨w, t, _, rfl, .group hm, h⟩

theorem run_complete (r : Regex α) : Complete (run (β := β) r) r := by
  induction r with
  | one p =>
    intro k c w c' t h hk
    obtain ⟨a, hp, rfl, rfl⟩ := matches_one.mp h
    simpa [run, hp] using hk
  | seq r₁ r₂ ih₁ ih₂ =>
    intro k c w c' t h hk
    obtain ⟨w₁, c₁, w₂, rfl, h₁, h₂⟩ := matches_seq.mp h
    rw [List.append_assoc]
    exact ih₁ _ _ _ _ _ h₁ (ih₂ _ _ _ _ _ h₂ hk)
  | star r ih => exact fun k c w c' t h hk => loop_complete ih h hk (by simp)
  | opt r ih =>
    intro k c w c' t h hk
    rcases matches_opt.mp h with ⟨rfl, rfl⟩ | h
    · simp [run, hk]
    · simp [run, ih _ _ _ _ _ h hk]
  | group n r ih =>
    intro k c w c' t h hk
    obtain ⟨c₁, hm, rfl⟩ := matches_group.mp h
    exact ih _ _ _ _ _ hm (by simpa using hk)

/-- An expression fails where no match of it starts. -/
theorem run_eq_none {r : Regex α} (h : ∀ w s c', t = w ++ s → ¬ Matches r c w c')
    (k : Match α → Option β) : run r k (c, t) = none := by
  cases hrun : run r k (c, t) with
  | none => rfl
  | some b =>
    obtain ⟨w, s, c', ht, hm, -⟩ := run_sound r _ _ _ _ hrun
    exact absurd hm (h w s c' ht)

theorem regexMatch_matches {r : Regex α} (h : regexMatch r s = some c) :
    Matches r (fun _ => []) s c := by
  obtain ⟨w, t, c', rfl, hm, hk⟩ := run_sound r _ _ _ _ h
  simp only at hk
  split at hk
  · obtain rfl : t = [] := by simpa using ‹t.isEmpty = true›
    cases hk
    simpa using hm
  · cases hk

theorem Matches.isSome_regexMatch {r : Regex α} (h : Matches r (fun _ => []) s c) :
    (regexMatch r s).isSome := by
  have h := run_complete r (fun y => if y.2.isEmpty then some y.1 else none) _ _ _ [] h rfl
  rwa [List.append_nil] at h

-- ---------------------------------------------------------------------------
-- The first alternative
-- ---------------------------------------------------------------------------

/-- Before `t`, the matcher takes `w` unless the rest fails after it. -/
def First (r : Regex α) (c : Captures α) (w : List α) (c' : Captures α) (t : List α) : Prop :=
  ∀ (k : Match α → Option (Captures α)), (k (c', t)).isSome → run r k (c, w ++ t) = k (c', t)

theorem First.seq (h₁ : First r₁ c w₁ c₁ (w₂ ++ t)) (h₂ : First r₂ c₁ w₂ c₂ t) :
    First (.seq r₁ r₂) c (w₁ ++ w₂) c₂ t := by
  intro k hk
  have hrest : run r₂ k (c₁, w₂ ++ t) = k (c₂, t) := h₂ k hk
  rw [List.append_assoc, ← hrest]
  exact h₁ _ (by rwa [hrest])

theorem First.cons (hp : p a = true) (h : First r c w c' t) :
    First (.seq (.one p) r) c (a :: w) c' t := by
  intro k hk
  simp [run, hp, h k hk]

theorem First.group (h : First r c w c' t) :
    First (.group n r) c w (Function.update c' n w) t := by
  intro k hk
  have htake : (w ++ t).take ((w ++ t).length - t.length) = w := by simp
  have hrun := h (fun y => k (Function.update y.1 n ((w ++ t).take ((w ++ t).length - y.2.length)), y.2))
  simp only [htake] at hrun
  exact hrun hk

/-- A repetition of a class of characters ends at the first one outside. -/
theorem First.star_one {t : List α} (hall : ∀ a ∈ w, p a = true) (hstop : ∀ a ∈ t.head?, p a = false) :
    First (.star (.one p)) c w c t := by
  intro k hk
  suffices hloop : ∀ n, w.length ≤ n → loop (run (.one p)) k n (c, w ++ t) = k (c, t) from
    hloop _ (by simp)
  intro n hn
  induction w generalizing n with
  | nil =>
    cases n with
    | zero => rfl
    | succ n =>
      cases t with
      | nil => simp [loop, run]
      | cons a t => simp [loop, run, hstop a rfl]
  | cons a w ih =>
    obtain ⟨n, rfl⟩ : ∃ m, n = m + 1 := ⟨n - 1, by simp at hn; omega⟩
    obtain ⟨ha, hall⟩ := List.forall_mem_cons.mp hall
    have hrest := ih hall n (by simpa using hn)
    obtain ⟨b, hb⟩ := Option.isSome_iff_exists.mp hk
    simp [loop, run, ha, hrest, hb]

/-- A repetition ends where its expression cannot start. -/
theorem First.star {ws : List (List α)} (hne : ∀ w ∈ ws, w ≠ [])
    (hfirst : ∀ w ∈ ws, ∀ s, First r c w c s)
    (hstop : ∀ k : Match α → Option (Captures α), run r k (c, t) = none) :
    First (.star r) c ws.flatten c t := by
  intro k hk
  suffices hloop : ∀ n, ws.flatten.length ≤ n → loop (run r) k n (c, ws.flatten ++ t) = k (c, t) from
    hloop _ (by simp)
  intro n hn
  induction ws generalizing n with
  | nil =>
    cases n with
    | zero => rfl
    | succ n => simp [loop, hstop]
  | cons w ws ih =>
    obtain ⟨hw, hne⟩ := List.forall_mem_cons.mp hne
    obtain ⟨hfirst, hfirsts⟩ := List.forall_mem_cons.mp hfirst
    have hpos : 0 < w.length := List.length_pos_iff.mpr hw
    rw [List.flatten_cons, List.length_append] at hn
    obtain ⟨n, rfl⟩ : ∃ m, n = m + 1 := ⟨n - 1, by omega⟩
    have hrest := ih hne hfirsts n (by omega)
    obtain ⟨b, hb⟩ := Option.isSome_iff_exists.mp hk
    have hrun := hfirst (ws.flatten ++ t)
      (fun y => if y.2.length < (w ++ (ws.flatten ++ t)).length then loop (run r) k n y else none)
      (by simp [hpos, hrest, hb])
    rw [List.flatten_cons, List.append_assoc, loop, hrun]
    simp [hpos, hrest, hb]

theorem First.opt (h : First r c w c' t) : First (.opt r) c w c' t := by
  intro k hk
  obtain ⟨b, hb⟩ := Option.isSome_iff_exists.mp hk
  simp [run, h k hk, hb]

/-- An option whose expression cannot start here is passed over. -/
theorem First.opt_none {r : Regex α} (h : ∀ k : Match α → Option (Captures α), run r k (c, t) = none) :
    First (.opt r) c [] c t := by
  intro k hk
  simp [run, h k]

theorem First.regexMatch {r : Regex α} (h : First r (fun _ => []) s c []) :
    regexMatch r s = some c := by
  have hrun := h (fun y => if y.2.isEmpty then some y.1 else none) rfl
  rwa [List.append_nil] at hrun

end Regex
