import Xutil.Db.Binding
import Xutil.Db.Statement

/-!
# What `fetch` assigns

`column` has one index for the arguments and for the elements of a tuple. An
argument before a tuple takes the place of its first element, and what comes
after a tuple is dropped. `binds` is `binds_t<T>::column` for each type.
-/

namespace Xutil.Db

open Calls

variable {T : Type} {Val : T → Type}

/-- It may have no value yet. -/
structure Variable (Val : T → Type) where
  type : T
  value : Option (Val type)

/-- An argument of `fetch`. -/
inductive Target (Val : T → Type)
  | scalar (x : Variable Val)
  | tuple (xs : List (Variable Val))

/-- The type of an argument. -/
inductive Shape (T : Type)
  | scalar (type : T)
  | tuple (types : List T)
  deriving Repr, DecidableEq

def Target.shape : Target Val → Shape T
  | .scalar x => .scalar x.type
  | .tuple xs => .tuple (xs.map (·.type))

/-- The variables of the targets, in order. -/
def leaves : List (Target Val) → List (Variable Val)
  | [] => []
  | .scalar x :: targets => x :: leaves targets
  | .tuple xs :: targets => xs ++ leaves targets

section
variable (binds : (type : T) → Value → Val type) (row : Nat → Value)

/-- `binds_t<T>::column(statement_, i, x)` -/
def Variable.assign (i : Nat) (x : Variable Val) : Variable Val :=
  { x with value := some (binds x.type (row i)) }

/-- `column<i>(argument)` for a tuple. -/
def columnTuple (i : Nat) (argument : List (Variable Val)) : List (Variable Val) :=
  if h : i < argument.length then
    columnTuple (i + 1) (argument.set i (argument[i].assign binds row i))
  else argument
termination_by argument.length - i

/-- `column<i>(arguments...)` -/
def column (i : Nat) : List (Target Val) → List (Target Val)
  | [] => []
  | .tuple argument :: arguments => .tuple (columnTuple binds row i argument) :: arguments
  | .scalar argument :: arguments =>
    .scalar (argument.assign binds row i) :: column (i + 1) arguments

end

/-- `fetch(arguments...)`, and the arguments after it. The overload for one tuple
does the same. -/
def fetchInto {DB Cur : Type} (E : Program DB Cur) (binds : (type : T) → Value → Val type)
    (arguments : List (Target Val)) :
    Call Exception (Session DB Cur) (Bool × List (Target Val)) := do
  match ← fetch E fun row => column binds row 0 arguments with
  | some arguments => return (true, arguments)
  | none => return (false, arguments)

-- ---------------------------------------------------------------------------
-- Positions
-- ---------------------------------------------------------------------------

variable {DB Cur : Type} {E : Program DB Cur} {binds : (type : T) → Value → Val type}
  {row : Nat → Value}

/-- The variable at each position has the column as far from column `i`. -/
def FilledFrom (binds : (type : T) → Value → Val type) (row : Nat → Value) (i : Nat)
    (xs : List (Variable Val)) : Prop :=
  ∀ k x, xs[k]? = some x → x.value = some (binds x.type (row (i + k)))

theorem filledFrom_nil : FilledFrom binds row i [] := by
  simp [FilledFrom]

theorem filledFrom_cons : FilledFrom binds row i (x :: xs) ↔
    x.value = some (binds x.type (row i)) ∧ FilledFrom binds row (i + 1) xs := by
  constructor
  · intro h
    refine ⟨h 0 x rfl, fun k y hy => ?_⟩
    rw [Nat.add_assoc, Nat.add_comm 1]
    exact h (k + 1) y hy
  · rintro ⟨hx, hxs⟩ k y hy
    cases k with
    | zero =>
      cases hy
      exact hx
    | succ k =>
      rw [← Nat.succ_add_eq_add_succ]
      exact hxs k y hy

theorem filledFrom_append : FilledFrom binds row i (xs ++ ys) ↔
    FilledFrom binds row i xs ∧ FilledFrom binds row (i + xs.length) ys := by
  induction xs generalizing i with
  | nil => simp [filledFrom_nil]
  | cons x xs ih =>
    rw [List.cons_append, filledFrom_cons, filledFrom_cons, ih, and_assoc, List.length_cons,
      Nat.add_assoc, Nat.add_comm 1]

theorem assign_filled (i : Nat) (x : Variable Val) :
    (x.assign binds row i).value = some (binds (x.assign binds row i).type (row i)) := rfl

/-- The elements before the index are left as they are. -/
theorem getElem?_columnTuple (i : Nat) (xs : List (Variable Val)) (k : Nat) :
    (columnTuple binds row i xs)[k]? =
      if k < i then xs[k]? else xs[k]?.map (·.assign binds row k) := by
  induction i, xs using columnTuple.induct binds row with
  | case1 i xs hi ih =>
    rw [columnTuple, dif_pos hi, ih]
    rcases Nat.lt_trichotomy k i with hk | rfl | hk
    · simp [hk, Nat.lt_succ_of_lt hk, Nat.ne_of_gt hk]
    · simp [hi]
    · simp [Nat.not_lt_of_gt hk, Nat.not_lt.mpr hk, Nat.ne_of_lt hk]
  | case2 i xs hi =>
    rw [columnTuple, dif_neg hi]
    split
    · rfl
    · rw [List.getElem?_eq_none (by omega)]
      rfl

theorem columnTuple_filled (xs : List (Variable Val)) :
    FilledFrom binds row 0 (columnTuple binds row 0 xs) := by
  intro k x hx
  rw [getElem?_columnTuple, if_neg (Nat.not_lt_zero k)] at hx
  obtain ⟨y, -, rfl⟩ := Option.map_eq_some_iff.mp hx
  rw [Nat.zero_add]
  rfl

end Xutil.Db
