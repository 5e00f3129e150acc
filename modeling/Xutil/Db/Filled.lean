import Xutil.Db.Targets

/-!
# Which targets are filled

Whether a call of `fetch` assigns to all its variables depends on the types of
its arguments alone.
-/

namespace Xutil.Db

open Calls

variable {T : Type} {Val : T → Type} {DB Cur : Type} {E : Program DB Cur}
  {binds : (type : T) → Value → Val type} {row : Nat → Value}

-- ---------------------------------------------------------------------------
-- Shapes
-- ---------------------------------------------------------------------------

/-- No variable among the arguments. -/
def Bare (shapes : List (Shape T)) : Prop := ∀ shape ∈ shapes, shape = .tuple []

/-- Nothing comes after a tuple, and nothing before one with elements, where `i`
scalars have come before all of them. -/
def FillableFrom (i : Nat) (shapes : List (Shape T)) : Prop :=
  ∀ before types after, shapes = before ++ .tuple types :: after →
    Bare after ∧ (types = [] ∨ i = 0 ∧ Bare before)

def Fillable (shapes : List (Shape T)) : Prop := FillableFrom 0 shapes

theorem fillableFrom_nil : FillableFrom (T := T) i [] := by
  intro before types after h
  simp at h

theorem fillableFrom_scalar :
    FillableFrom i (.scalar type :: shapes) ↔ FillableFrom (i + 1) shapes := by
  constructor
  · intro h before types after hsplit
    obtain ⟨hafter, hempty | ⟨-, hbare⟩⟩ :=
      h (.scalar type :: before) types after (by simp [hsplit])
    · exact ⟨hafter, .inl hempty⟩
    · cases hbare _ List.mem_cons_self
  · intro h before types after hsplit
    cases before with
    | nil => cases (List.cons.inj hsplit).1
    | cons shape before =>
      obtain ⟨rfl, hrest⟩ := List.cons.inj hsplit
      obtain ⟨hafter, hempty | ⟨hi, -⟩⟩ := h before types after hrest
      · exact ⟨hafter, .inl hempty⟩
      · cases hi

theorem fillableFrom_tuple :
    FillableFrom i (.tuple types :: shapes) ↔ Bare shapes ∧ (types = [] ∨ i = 0) := by
  constructor
  · intro h
    obtain ⟨hafter, hempty | ⟨hi, -⟩⟩ := h [] types shapes rfl
    · exact ⟨hafter, .inl hempty⟩
    · exact ⟨hafter, .inr hi⟩
  · rintro ⟨hbare, htypes⟩ before types' after hsplit
    cases before with
    | nil =>
      obtain ⟨heq, rfl⟩ := List.cons.inj hsplit
      obtain rfl := Shape.tuple.inj heq
      exact ⟨hbare, htypes.imp_right fun hi => ⟨hi, by simp [Bare]⟩⟩
    | cons shape before =>
      obtain ⟨-, rfl⟩ := List.cons.inj hsplit
      obtain rfl : types' = [] := by simpa using hbare (.tuple types') (by simp)
      exact ⟨fun shape hshape => hbare shape (by simp [hshape]), .inl rfl⟩

theorem leaves_of_bare {targets : List (Target Val)} (h : Bare (targets.map Target.shape)) :
    leaves targets = [] := by
  induction targets with
  | nil => rfl
  | cons target targets ih =>
    obtain ⟨htarget, htargets⟩ := List.forall_mem_cons.mp h
    cases target with
    | scalar x => cases htarget
    | tuple xs =>
      obtain rfl : xs = [] := by simpa [Target.shape] using htarget
      exact ih htargets

theorem column_filled {targets : List (Target Val)}
    (h : FillableFrom i (targets.map Target.shape)) :
    FilledFrom binds row i (leaves (column binds row i targets)) := by
  induction targets generalizing i with
  | nil => exact filledFrom_nil
  | cons target targets ih =>
    cases target with
    | scalar x => exact filledFrom_cons.mpr ⟨assign_filled i x, ih (fillableFrom_scalar.mp h)⟩
    | tuple xs =>
      obtain ⟨hbare, htypes⟩ := fillableFrom_tuple.mp h
      rw [column, leaves, leaves_of_bare hbare, List.append_nil]
      rcases htypes with hempty | rfl
      · obtain rfl : xs = [] := by simpa using hempty
        rw [columnTuple, dif_neg (by simp)]
        exact filledFrom_nil
      · exact columnTuple_filled xs

-- ---------------------------------------------------------------------------
-- Variables without a value
-- ---------------------------------------------------------------------------

def Shape.blank : Shape T → Target Val
  | .scalar type => .scalar ⟨type, none⟩
  | .tuple types => .tuple (types.map fun type => ⟨type, none⟩)

theorem shape_blank (shapes : List (Shape T)) :
    (shapes.map (Shape.blank : Shape T → Target Val)).map Target.shape = shapes := by
  rw [List.map_map]
  refine List.map_id'' (fun shape => ?_) shapes
  cases shape <;> simp [Shape.blank, Target.shape, Function.comp_def]

theorem bare_of_filled {shapes : List (Shape T)}
    (h : FilledFrom binds row i (leaves (shapes.map Shape.blank))) : Bare shapes := by
  induction shapes with
  | nil => simp [Bare]
  | cons shape shapes ih =>
    cases shape with
    | scalar type => cases h 0 _ rfl
    | tuple types =>
      cases types with
      | nil => exact List.forall_mem_cons.mpr ⟨rfl, ih h⟩
      | cons type types => cases h 0 _ rfl

theorem fillableFrom_of_filled {shapes : List (Shape T)}
    (h : FilledFrom binds row i (leaves (column binds row i (shapes.map Shape.blank)))) :
    FillableFrom i shapes := by
  induction shapes generalizing i with
  | nil => exact fillableFrom_nil
  | cons shape shapes ih =>
    cases shape with
    | scalar type => exact fillableFrom_scalar.mpr (ih (filledFrom_cons.mp h).2)
    | tuple types =>
      obtain ⟨htuple, hrest⟩ := filledFrom_append.mp h
      refine fillableFrom_tuple.mpr ⟨bare_of_filled hrest, ?_⟩
      by_contra hnot
      obtain ⟨hne, hi⟩ := not_or.mp hnot
      obtain ⟨type, types, rfl⟩ := List.exists_cons_of_ne_nil hne
      -- the first element is not assigned
      cases htuple 0 _ ((getElem?_columnTuple i _ 0).trans (if_pos (Nat.pos_of_ne_zero hi)))

-- ---------------------------------------------------------------------------
-- Types
-- ---------------------------------------------------------------------------

def Shape.types : Shape T → List T
  | .scalar type => [type]
  | .tuple types => types

theorem leaves_types (targets : List (Target Val)) :
    (leaves targets).map (·.type) = (targets.map Target.shape).flatMap Shape.types := by
  induction targets with
  | nil => rfl
  | cons target targets ih =>
    cases target with
    | scalar x => simp [leaves, Target.shape, Shape.types, ih]
    | tuple xs => simp [leaves, Target.shape, Shape.types, ih]

theorem columnTuple_types (i : Nat) (xs : List (Variable Val)) :
    (columnTuple binds row i xs).map (·.type) = xs.map (·.type) := by
  refine List.ext_getElem? fun k => ?_
  rw [List.getElem?_map, List.getElem?_map, getElem?_columnTuple]
  split
  · rfl
  · rw [Option.map_map]
    rfl

theorem column_shape (i : Nat) (targets : List (Target Val)) :
    (column binds row i targets).map Target.shape = targets.map Target.shape := by
  induction targets generalizing i with
  | nil => rfl
  | cons target targets ih =>
    cases target with
    | scalar x => exact congrArg (Shape.scalar x.type :: ·) (ih (i + 1))
    | tuple xs => simp [column, Target.shape, columnTuple_types]

/-- What is filled from a row is determined by its types. -/
theorem FilledFrom.eq (hxs : FilledFrom binds row i xs) (hys : FilledFrom binds row i ys)
    (htypes : xs.map (·.type) = ys.map (·.type)) : xs = ys := by
  induction xs generalizing i ys with
  | nil => exact (List.map_eq_nil_iff.mp htypes.symm).symm
  | cons x xs ih =>
    obtain ⟨y, ys, rfl, hy, hrest⟩ := List.map_eq_cons_iff.mp htypes.symm
    obtain ⟨hx, hxs'⟩ := filledFrom_cons.mp hxs
    obtain ⟨hy', hys'⟩ := filledFrom_cons.mp hys
    obtain ⟨type, value⟩ := x
    obtain ⟨type', value'⟩ := y
    obtain rfl : type' = type := hy
    obtain rfl : value = value' := hx.trans hy'.symm
    rw [ih hxs' hys' hrest.symm]

-- ---------------------------------------------------------------------------
-- `fetch`
-- ---------------------------------------------------------------------------

theorem fetch_read {α : Type} (read : (Nat → Value) → α) {s s' : Session DB Cur}
    (hrow : (fetch E id).run s = (.ok (some row), s')) :
    (fetch E read).run s = (.ok (some (read row)), s') := by
  cases hf : s.fetch with
  | true =>
    rw [fetch_pending hf] at hrow ⊢
    cases hrow
    rfl
  | false =>
    rw [fetch_step hf] at hrow ⊢
    rcases hstep : (stepRow E).run s with ⟨_ | _, t⟩ <;> rw [hstep] at hrow
    · cases hrow
    · cases ht : t.fetch <;> simp only [ht, if_true, Bool.false_eq_true, if_false] at hrow ⊢ <;>
        cases hrow
      rfl

theorem fetchInto_run {s s' : Session DB Cur} (hrow : (fetch E id).run s = (.ok (some row), s'))
    (arguments : List (Target Val)) : (fetchInto E binds arguments).run s =
      (.ok (true, column binds row 0 arguments), s') := by
  rw [fetchInto, Call.run_bind_ok (fetch_read _ hrow)]
  rfl

/-- Whatever the arguments of these shapes hold, `fetch` returns true and has
assigned to the variable at each position the column there. -/
def Fills (E : Program DB Cur) (binds : (type : T) → Value → Val type) (s : Session DB Cur)
    (row : Nat → Value) (shapes : List (Shape T)) : Prop :=
  ∀ arguments, arguments.map Target.shape = shapes → ∃ after s',
    (fetchInto E binds arguments).run s = (.ok (true, after), s') ∧
      after.map Target.shape = shapes ∧ FilledFrom binds row 0 (leaves after)

/-- Where there is a row to fetch, all is assigned if and only if nothing comes
after a tuple, and nothing before one with elements. One tuple is assigned the
same values as its elements one by one. -/
theorem fetch_fills {s s' : Session DB Cur} (hrow : (fetch E id).run s = (.ok (some row), s'))
    (binds : (type : T) → Value → Val type) :
    (∀ shapes, Fills E binds s row shapes ↔ Fillable shapes) ∧
      ∀ xs : List (Variable Val), ∃ after after',
        (fetchInto E binds [.tuple xs]).run s = (.ok (true, after), s') ∧
        (fetchInto E binds (xs.map .scalar)).run s = (.ok (true, after'), s') ∧
        leaves after = leaves after' := by
  constructor
  · intro shapes
    constructor
    · intro h
      obtain ⟨after, t, hrun, -, hfilled⟩ := h (shapes.map Shape.blank) (shape_blank shapes)
      rw [fetchInto_run hrow] at hrun
      cases hrun
      exact fillableFrom_of_filled hfilled
    · rintro h arguments rfl
      exact ⟨_, _, fetchInto_run hrow arguments, column_shape 0 arguments, column_filled h⟩
  · intro xs
    refine ⟨_, _, fetchInto_run hrow _, fetchInto_run hrow _, ?_⟩
    have htuple : Fillable ([Target.tuple xs].map Target.shape) :=
      fillableFrom_tuple.mpr ⟨by simp [Bare], .inr rfl⟩
    have hscalars : Fillable ((xs.map Target.scalar).map Target.shape) := by
      intro before types after hsplit
      have hmem : Shape.tuple types ∈ (xs.map Target.scalar).map Target.shape := by simp [hsplit]
      simp [Target.shape] at hmem
    refine (column_filled htuple).eq (column_filled hscalars) ?_
    rw [leaves_types, leaves_types, column_shape, column_shape]
    simp [Target.shape, Shape.types, List.flatMap_map]
    exact List.map_eq_flatMap

/-- One row with the numbers 1, 2 and 3. -/
def selectNumbers : Program Unit Bool where
  nVar := 0
  admits _ := none
  start _ := true
  next cur db :=
    if cur then (.row [.integer 1, .integer 2, .integer 3] false, db) else (.done, db)
  halt _ db := (none, db)

def selecting : Session Unit Bool := { db := () }

def selected : Session Unit Bool where
  stmt := {
    vdbe := .run false (some [.integer 1, .integer 2, .integer 3])
    runs := 1
    yielded := [[.integer 1, .integer 2, .integer 3]] }
  db := ()

theorem fetch_selectNumbers : (fetch selectNumbers id).run selecting =
    (.ok (some (columns [.integer 1, .integer 2, .integer 3])), selected) := rfl

def noConversion : Conversion := ⟨fun _ => 0, fun _ => []⟩

/-- `std::int32_t` -/
def int32 : Ty := .plain (.integral (.integer ⟨.four, true⟩))

/-- A tuple on its own. -/
theorem fetch_fills_tuple : Fills selectNumbers (Ty.column noConversion) selecting
    (columns [.integer 1, .integer 2, .integer 3]) [.tuple [int32, int32, int32]] :=
  ((fetch_fills fetch_selectNumbers (Ty.column noConversion)).1 _).mpr
    (fillableFrom_tuple.mpr ⟨by simp [Bare], .inr rfl⟩)

/-- An integer before a pair, whose first element is left as it is. -/
theorem fetch_fills_mixed : ¬ ∀ shapes, Fills selectNumbers (Ty.column noConversion) selecting
    (columns [.integer 1, .integer 2, .integer 3]) shapes := by
  intro h
  obtain ⟨after, s', hrun, -, hfilled⟩ :=
    h _ [.scalar ⟨int32, none⟩, .tuple [⟨int32, none⟩, ⟨int32, none⟩]] rfl
  rw [fetchInto_run fetch_selectNumbers] at hrun
  cases hrun
  have hfirst := hfilled 1 ⟨int32, none⟩ (by simp [column, columnTuple, leaves])
  cases hfirst

end Xutil.Db
