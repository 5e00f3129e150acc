import Mathlib.Data.List.Basic

/-!
# Bracketed words

A scope leaves a mark when it is entered and one when it is left, with marks of
what happened in it between. `parse` reads such a word back as the forest of
its scopes. Each mark carries the key of its scope, and marks can be selected
by their keys: the scopes that stay keep their order and their nesting.
-/

namespace Brackets

inductive Mark
  | enter | note | leave
  deriving Repr, DecidableEq

structure Token (κ τ : Type) where
  mark : Mark
  key : κ
  text : τ
  deriving Repr, DecidableEq

/-- A list of notes and scopes. A scope has what was inside of it, and `rest`
is what came after it. -/
inductive Forest (κ τ : Type)
  | nil
  | note (key : κ) (text : τ) (rest : Forest κ τ)
  | scope (key : κ) (entered : τ) (inside : Forest κ τ) (left : τ) (rest : Forest κ τ)
  deriving Repr, DecidableEq

variable {κ τ : Type}

namespace Forest

def append : Forest κ τ → Forest κ τ → Forest κ τ
  | nil, g => g
  | note k t rest, g => note k t (rest.append g)
  | scope k e inside l rest, g => scope k e inside l (rest.append g)

instance : Append (Forest κ τ) := ⟨append⟩

@[simp] theorem note_append (k : κ) (t : τ) (rest g : Forest κ τ) :
    note k t rest ++ g = note k t (rest ++ g) := rfl

@[simp] theorem scope_append (k : κ) (e l : τ) (inside rest g : Forest κ τ) :
    scope k e inside l rest ++ g = scope k e inside l (rest ++ g) := rfl

@[simp] theorem append_nil (f : Forest κ τ) : f ++ nil = f := by
  induction f with
  | nil => rfl
  | note k t rest ih => rw [note_append, ih]
  | scope k e inside l rest _ ih => rw [scope_append, ih]

def word : Forest κ τ → List (Token κ τ)
  | nil => []
  | note k t rest => ⟨.note, k, t⟩ :: rest.word
  | scope k e inside l rest => ⟨.enter, k, e⟩ :: (inside.word ++ ⟨.leave, k, l⟩ :: rest.word)

@[simp] theorem word_append (f g : Forest κ τ) : (f ++ g).word = f.word ++ g.word := by
  induction f with
  | nil => rfl
  | note k t rest ih => simp [word, ih]
  | scope k e inside l rest _ ih => simp [word, ih]

/-- The scopes and notes with such a key. What is inside a scope that goes
takes its place. -/
def select (p : κ → Bool) : Forest κ τ → Forest κ τ
  | nil => nil
  | note k t rest => if p k then note k t (rest.select p) else rest.select p
  | scope k e inside l rest =>
    if p k then scope k e (inside.select p) l (rest.select p) else inside.select p ++ rest.select p

/-- A scope is left as often as it is entered. -/
theorem countP_word [DecidableEq κ] (f : Forest κ τ) (k : κ) :
    f.word.countP (fun t => t.mark = .enter ∧ t.key = k) =
      f.word.countP (fun t => t.mark = .leave ∧ t.key = k) := by
  induction f with
  | nil => rfl
  | note k' t rest ih => simpa [word, List.countP_cons] using ih
  | scope k' e inside l rest ih ih' =>
    simp only [word, List.countP_cons, List.countP_append, ih, ih', reduceCtorEq, false_and, true_and,
      decide_false, Bool.false_eq_true, if_false, Nat.add_zero]
    omega

theorem word_select (p : κ → Bool) (f : Forest κ τ) :
    (f.select p).word = f.word.filter fun t => p t.key := by
  induction f with
  | nil => rfl
  | note k t rest ih => cases hk : p k <;> simp [select, word, hk, ih]
  | scope k e inside l rest ih ih' => cases hk : p k <;> simp [select, word, hk, ih, ih']

end Forest

-- ---------------------------------------------------------------------------
-- Reading a word back
-- ---------------------------------------------------------------------------

variable [DecidableEq κ]

/-- What has been read from the right: a forest, and the scopes around it that
have been left, each with the forest after it. -/
def parseStep (t : Token κ τ) :
    Forest κ τ × List (κ × τ × Forest κ τ) → Option (Forest κ τ × List (κ × τ × Forest κ τ))
  | (f, around) =>
    match t.mark, around with
    | .note, around => some (.note t.key t.text f, around)
    | .leave, around => some (.nil, (t.key, t.text, f) :: around)
    | .enter, [] => none
    | .enter, (k, l, rest) :: around =>
      if t.key = k then some (.scope k t.text f l rest, around) else none

def parseRight : List (Token κ τ) → Option (Forest κ τ × List (κ × τ × Forest κ τ))
  | [] => some (.nil, [])
  | t :: ts => (parseRight ts).bind (parseStep t)

def parse (ts : List (Token κ τ)) : Option (Forest κ τ) :=
  match parseRight ts with
  | some (f, []) => some f
  | _ => none

theorem parseRight_word (f : Forest κ τ) (h : parseRight ts = some (g, around)) :
    parseRight (f.word ++ ts) = some (f ++ g, around) := by
  induction f generalizing ts g around with
  | nil => exact h
  | note k t rest ih => simp [Forest.word, parseRight, ih h, parseStep]
  | scope k e inside l rest ihInside ihRest =>
    have hleave : parseRight (⟨.leave, k, l⟩ :: (rest.word ++ ts)) =
        some (.nil, (k, l, rest ++ g) :: around) := by
      simp [parseRight, ihRest h, parseStep]
    have hinside := ihInside hleave
    rw [Forest.append_nil] at hinside
    simp [Forest.word, parseRight, hinside, parseStep]

theorem parse_word (f : Forest κ τ) : parse f.word = some f := by
  have h : parseRight (f.word ++ []) = some (f ++ .nil, []) := parseRight_word f rfl
  rw [List.append_nil, Forest.append_nil] at h
  simp [parse, h]

end Brackets
