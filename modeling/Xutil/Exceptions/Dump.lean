import Mathlib.Algebra.Group.Nat.Defs
import Xutil.Lib.Calls
import Xutil.Lib.Lines

/-!
# Dumping an exception

`dump_exception` goes down a chain of nested exceptions by throwing the next one
again. It catches only a `std::exception`, and whatever else is thrown ends the
program, for the function is `noexcept`. The stream takes all that it is given.
-/

namespace Xutil.Exceptions

open Calls

/-- A value that is a `std::exception`: its message and the name of its type. -/
structure Std where
  what : Text
  type : Text
  deriving Repr, DecidableEq

/-- Whether a value is a `std::nested_exception`, and what it has captured, down
to the innermost one. A captured value without a `Std` is of another type. -/
inductive Nested
  | absent
  | empty
  | captured (value : Option Std) (nested : Nested)
  deriving Repr, DecidableEq

/-- What is written up to a line end. -/
inductive Line
  | headline (what name : Text)
  | numbered (n : Nat) (what name : Text)
  deriving Repr, DecidableEq

abbrev Stream := List Line

/-- How a function is left other than by returning. -/
inductive Escape
  | thrown (value : Option Std)
  | terminate
  deriving Repr, DecidableEq

def Line.text : Line → Text
  | .headline what name => what ++ " (".toList ++ name ++ ")\n".toList
  | .numbered n what name =>
    " [".toList ++ Nat.toDigits 10 n ++ "] ".toList ++ what ++ " (".toList ++ name ++ ")\n".toList

def write (line : Line) : Call Escape Stream Unit := .modify (· ++ [line])

/-- The type of a nested exception would not be simple. -/
def name (e : Std) : Nested → Text
  | .absent => e.type
  | _ => "std::nested_exception".toList

def describe (e : Std) (nested : Nested) (n : UInt32) : Call Escape Stream Unit := do
  if n = 0 then write (.headline e.what (name e nested))
  write (.numbered n.toNat e.what (name e nested))

/-- `rethrow_if_nested` throws what was captured. If nothing was, it terminates. -/
def dumpException_ (e : Std) (nested : Nested) (n : UInt32) : Call Escape Stream Unit := do
  describe e nested n
  match nested with
  | .absent => return
  | .empty => .throw .terminate
  | .captured (some ee) below => dumpException_ ee below (n + 1)
  | .captured none _ => .throw (.thrown none)

/-- An exception that leaves a `noexcept` function terminates. -/
def noexcept (m : Call Escape Stream Unit) : Call Escape Stream Unit := fun os =>
  match m.run os with
  | (.ok (), os) => (.ok (), os)
  | (.error _, os) => (.error .terminate, os)

def dumpException (e : Std) (nested : Nested) : Call Escape Stream Unit :=
  noexcept (dumpException_ e nested 0)

-- ---------------------------------------------------------------------------
-- Chains
-- ---------------------------------------------------------------------------

/-- The lines for the exceptions of a chain, from the outside in. -/
def numberedFrom (n : Nat) : Nested → List Line
  | .absent => []
  | .empty => []
  | .captured (some e) below => .numbered n e.what (name e below) :: numberedFrom (n + 1) below
  | .captured none below => numberedFrom n below

/-- A headline and the lines for an exception and all those below it. -/
def report (e : Std) (nested : Nested) : List Line :=
  .headline e.what (name e nested) :: numberedFrom 0 (.captured (some e) nested)

def Nested.depth : Nested → Nat
  | .absent => 0
  | .empty => 0
  | .captured _ below => below.depth + 1

/-- Each value of the chain is a `std::exception`, and none is nested without
having captured something. -/
def Nested.Standard : Nested → Prop
  | .absent => True
  | .empty => False
  | .captured value below => value.isSome ∧ below.Standard

-- ---------------------------------------------------------------------------
-- Going down a chain
-- ---------------------------------------------------------------------------

/-- The lines for one exception. Zero is reached again after `2 ^ 32` of them. -/
def described (e : Std) (nested : Nested) (n : UInt32) : List Line :=
  (if n = 0 then [.headline e.what (name e nested)] else []) ++
    [.numbered n.toNat e.what (name e nested)]

/-- All that is written for a standard chain. -/
def dumped (e : Std) (nested : Nested) (n : UInt32) : List Line :=
  described e nested n ++
    match nested with
    | .absent => []
    | .empty => []
    | .captured (some ee) below => dumped ee below (n + 1)
    | .captured none _ => []

theorem describe_run (e : Std) (nested : Nested) (n : UInt32) (os : Stream) :
    (describe e nested n).run os = (.ok (), os ++ described e nested n) := by
  unfold describe described
  split
  · simp [write, Call.run_bind]
  · simp [write]

theorem dumpException_run (e : Std) (nested : Nested) (n : UInt32) (os : Stream) :
    (nested.Standard ∧ (dumpException_ e nested n).run os = (.ok (), os ++ dumped e nested n)) ∨
    (¬ nested.Standard ∧
      ∃ escape os', (dumpException_ e nested n).run os = (.error escape, os')) := by
  induction nested generalizing e n os with
  | absent =>
    left
    refine ⟨trivial, ?_⟩
    rw [dumpException_, Call.run_bind_ok (describe_run ..), dumped, List.append_nil]
    rfl
  | empty =>
    right
    refine ⟨id, .terminate, os ++ described e .empty n, ?_⟩
    rw [dumpException_, Call.run_bind_ok (describe_run ..)]
    rfl
  | captured value below ih =>
    cases value with
    | none =>
      right
      refine ⟨fun h => Bool.noConfusion h.1, .thrown none,
        os ++ described e (.captured none below) n, ?_⟩
      rw [dumpException_, Call.run_bind_ok (describe_run ..)]
      rfl
    | some ee =>
      rw [dumpException_, Call.run_bind_ok (describe_run ..), dumped, ← List.append_assoc]
      obtain ⟨hstandard, hrun⟩ | ⟨hforeign, escape, os', hrun⟩ :=
        ih ee (n + 1) (os ++ described e (.captured (some ee) below) n)
      · exact .inl ⟨⟨rfl, hstandard⟩, hrun⟩
      · exact .inr ⟨fun h => hforeign h.2, escape, os', hrun⟩

/-- A standard chain ends, or goes on with a standard exception. -/
@[elab_as_elim]
theorem Nested.Standard.inductionOn {motive : ∀ nested : Nested, nested.Standard → Prop}
    (absent : motive .absent trivial)
    (captured : ∀ (ee : Std) (below : Nested) (h : below.Standard), motive below h →
      motive (.captured (some ee) below) ⟨rfl, h⟩)
    {nested : Nested} (h : nested.Standard) : motive nested h := by
  induction nested with
  | absent => exact absent
  | empty => exact h.elim
  | captured value below ih =>
    cases value with
    | none => cases h.1
    | some ee => exact captured ee below h.2 (ih h.2)

-- ---------------------------------------------------------------------------
-- The numbers of the lines
-- ---------------------------------------------------------------------------

theorem described_pos (e : Std) (nested : Nested) (hpos : 0 < n) (hn : n < 2 ^ 32) :
    described e nested (.ofNat n) = [.numbered n e.what (name e nested)] := by
  have hne : UInt32.ofNat n ≠ 0 := by
    intro h
    have hzero := congrArg UInt32.toNat h
    rw [UInt32.toNat_ofNat_of_lt' hn] at hzero
    exact Nat.ne_of_gt hpos hzero
  rw [described, if_neg hne, UInt32.toNat_ofNat_of_lt' hn, List.nil_append]

theorem described_wrap (e : Std) (nested : Nested) :
    described e nested (.ofNat (2 ^ 32)) =
      [.headline e.what (name e nested), .numbered 0 e.what (name e nested)] := rfl

theorem dumped_short (n : Nat) (e : Std) {nested : Nested} (h : nested.Standard) (hpos : 0 < n)
    (hn : n + nested.depth < 2 ^ 32) :
    dumped e nested (.ofNat n) = numberedFrom n (.captured (some e) nested) := by
  induction h using Nested.Standard.inductionOn generalizing n e with
  | absent =>
    rw [dumped, described_pos e _ hpos hn]
    rfl
  | captured ee below _ ih =>
    rw [Nested.depth] at hn
    have hbelow := ih (n + 1) ee (Nat.succ_pos n) (by omega)
    rw [UInt32.ofNat_add] at hbelow
    rw [dumped, described_pos e _ hpos (by omega), numberedFrom]
    exact congrArg (_ :: ·) hbelow

theorem described_length (e : Std) (nested : Nested) (n : UInt32) :
    (described e nested n).length = if n = 0 then 2 else 1 := by
  unfold described
  split <;> rfl

theorem dumped_length (n : UInt32) (e : Std) {nested : Nested} (h : nested.Standard) :
    nested.depth + 1 ≤ (dumped e nested n).length := by
  induction h using Nested.Standard.inductionOn generalizing n e with
  | absent =>
    rw [dumped, List.append_nil, described_length]
    split <;> simp [Nested.depth]
  | captured ee below _ ih =>
    have hbelow := ih (n + 1) ee
    rw [dumped, List.length_append, described_length, Nested.depth]
    split <;> omega

/-- After `2 ^ 32` lines the headline is written again. -/
theorem dumped_long (n : Nat) (e : Std) {nested : Nested} (h : nested.Standard) (hn : n ≤ 2 ^ 32)
    (hdepth : 2 ^ 32 ≤ n + nested.depth) :
    nested.depth + 2 ≤ (dumped e nested (.ofNat n)).length := by
  induction h using Nested.Standard.inductionOn generalizing n e with
  | absent =>
    rw [Nested.depth] at hdepth ⊢
    obtain rfl : n = 2 ^ 32 := Nat.le_antisymm hn hdepth
    rw [dumped, described_wrap]
    exact Nat.le_refl 2
  | captured ee below hstandard ih =>
    rw [Nested.depth] at hdepth ⊢
    rw [dumped, List.length_append]
    rcases Nat.lt_or_eq_of_le hn with hlt | rfl
    · have hbelow := ih (n + 1) ee hlt (by omega)
      rw [UInt32.ofNat_add] at hbelow
      have hhere := described_length e (.captured (some ee) below) (.ofNat n)
      have hone : UInt32.ofNat 1 = 1 := rfl
      rw [hone] at hbelow
      split at hhere <;> omega
    · have hbelow := dumped_length (.ofNat (2 ^ 32) + 1) ee hstandard
      rw [described_wrap]
      simp only [List.length_cons, List.length_nil]
      omega

theorem described_zero (e : Std) (nested : Nested) :
    described e nested 0 =
      [.headline e.what (name e nested), .numbered 0 e.what (name e nested)] := rfl

theorem dumped_zero (e : Std) {nested : Nested} (h : nested.Standard)
    (hdepth : nested.depth < 2 ^ 32) : dumped e nested 0 = report e nested := by
  cases h using Nested.Standard.inductionOn with
  | absent => rfl
  | captured ee below hstandard _ =>
    rw [Nested.depth] at hdepth
    have hbelow := dumped_short 1 ee hstandard Nat.one_pos (by omega)
    rw [dumped, described_zero, report, numberedFrom]
    exact congrArg (_ :: _ :: ·) hbelow

theorem numberedFrom_length (n : Nat) {nested : Nested} (h : nested.Standard) :
    (numberedFrom n nested).length = nested.depth := by
  induction h using Nested.Standard.inductionOn generalizing n with
  | absent => rfl
  | captured e below _ ih => exact congrArg (· + 1) (ih (n + 1))

theorem report_length (e : Std) {nested : Nested} (h : nested.Standard) :
    (report e nested).length = nested.depth + 2 := by
  have hall : (Nested.captured (some e) nested).Standard := ⟨rfl, h⟩
  exact congrArg (· + 1) (numberedFrom_length 0 hall)

theorem report_lt_dumped (e : Std) {nested : Nested} (h : nested.Standard)
    (hdepth : 2 ^ 32 ≤ nested.depth) : (report e nested).length < (dumped e nested 0).length := by
  rw [report_length e h]
  cases h using Nested.Standard.inductionOn with
  | absent => simp [Nested.depth] at hdepth
  | captured ee below hstandard _ =>
    rw [Nested.depth] at hdepth ⊢
    have hbelow := dumped_long 1 ee hstandard (by decide) (by omega)
    have hone : UInt32.ofNat 1 = 0 + 1 := rfl
    rw [hone] at hbelow
    rw [dumped, described_zero, List.length_append]
    simp only [List.length_cons, List.length_nil]
    omega

-- ---------------------------------------------------------------------------
-- `dump_exception`
-- ---------------------------------------------------------------------------

/-- It returns, and has written the whole report. -/
def Reports (e : Std) (nested : Nested) : Prop :=
  ∀ os, (dumpException e nested).run os = (.ok (), os ++ report e nested)

/-- A chain is reported if and only if all its values are standard exceptions,
none is nested without having captured something, and the numbers of its lines
do not wrap. -/
theorem dump_exception (e : Std) (nested : Nested) :
    Reports e nested ↔ nested.Standard ∧ nested.depth < 2 ^ 32 := by
  have hnoexcept (os : Stream) : (dumpException e nested).run os =
      match (dumpException_ e nested 0).run os with
      | (.ok (), os) => (.ok (), os)
      | (.error _, os) => (.error .terminate, os) := rfl
  constructor
  · intro h
    have hrun := h []
    rw [hnoexcept] at hrun
    obtain ⟨hstandard, hdump⟩ | ⟨-, escape, os', hdump⟩ := dumpException_run e nested 0 [] <;>
      rw [hdump] at hrun
    · have heq : dumped e nested 0 = report e nested := congrArg Prod.snd hrun
      refine ⟨hstandard, Nat.lt_of_not_le fun hdepth => ?_⟩
      have hlength := report_lt_dumped e hstandard hdepth
      rw [heq] at hlength
      exact Nat.lt_irrefl _ hlength
    · cases congrArg Prod.fst hrun
  · rintro ⟨hstandard, hdepth⟩ os
    obtain ⟨-, hdump⟩ | ⟨hforeign, -⟩ := dumpException_run e nested 0 os
    · rw [hnoexcept, hdump, dumped_zero e hstandard hdepth]
    · exact absurd hstandard hforeign

/-- `throw_with_nested` while an `int` is handled. -/
theorem dump_exception_int : ¬ ∀ e nested, Reports e nested := by
  intro h
  have hrun := h ⟨"e".toList, "E".toList⟩ (.captured none .absent) []
  cases congrArg Prod.fst hrun

end Xutil.Exceptions
