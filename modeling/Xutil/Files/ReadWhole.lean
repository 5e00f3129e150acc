import Mathlib.Data.List.TakeWhile
import Xutil.Lib.Lines

/-!
# Reading files

`read_whole` puts a NUL after the contents and returns the buffer as a C string,
which ends at the first NUL, not at the last one. `read_lines` starts from that
string.
-/

namespace Xutil.Files

abbrev Bytes := List UInt8

/-- A regular file. -/
structure File where
  content : Bytes
  readable : Bool
  deriving Repr, DecidableEq

inductive Exception
  | invalidArgument (what : Bytes)
  | failure
  deriving Repr, DecidableEq

/-- What is at a path. -/
abbrev Disk := Bytes → Option File

def newline : UInt8 := 10

/-- The string that a pointer to the first of `buffer` is converted to. -/
def cString (buffer : Bytes) : Bytes := buffer.takeWhile (· ≠ 0)

/-- Without `binary` a file is read the same way. An empty file is not opened. -/
def readWhole (disk : Disk) (path : Bytes) (_binary : Bool) : Except Exception Bytes :=
  match disk path with
  | none => .error (.invalidArgument path)
  | some file =>
    if file.content.length = 0 then .ok []
    else if ! file.readable then .error .failure
    else .ok (cString (file.content ++ [0]))

def readLines (disk : Disk) (path : Bytes) : Except Exception (List Bytes) := do
  let file ← readWhole disk path false
  return if file.isEmpty then [] else Lines.getlines newline [] file

-- ---------------------------------------------------------------------------
-- What is read
-- ---------------------------------------------------------------------------

/-- What is before the first NUL. -/
def untilNul (content : Bytes) : Bytes := content.takeWhile (· ≠ 0)

theorem cString_terminated (content : Bytes) : cString (content ++ [0]) = untilNul content := by
  induction content with
  | nil => rfl
  | cons c content ih =>
    by_cases hc : c = 0
    · simp [cString, untilNul, hc]
    · simpa [cString, untilNul, hc] using ih

theorem readWhole_readable (hfile : disk path = some ⟨content, true⟩) (binary : Bool) :
    readWhole disk path binary = .ok (untilNul content) := by
  rw [readWhole, hfile]
  cases content with
  | nil => rfl
  | cons c content => exact congrArg Except.ok (cString_terminated (c :: content))

theorem readLines_readable (hfile : disk path = some ⟨content, true⟩) :
    readLines disk path = .ok (Lines.lines newline (untilNul content)) := by
  rw [readLines, readWhole_readable hfile]
  cases untilNul content with
  | nil => rfl
  | cons c text => exact congrArg Except.ok (Lines.getlines_lines newline (c :: text))

theorem untilNul_eq_iff : untilNul content = content ↔ 0 ∉ content := by
  rw [untilNul, List.takeWhile_eq_self_iff]
  constructor
  · intro h hmem
    simpa using h 0 hmem
  · intro h c hc
    have hne : c ≠ 0 := fun heq => h (heq ▸ hc)
    simpa using hne

/-- All of the file is read, as one string and line by line. -/
def ReadsAll (disk : Disk) (path content : Bytes) : Prop :=
  readWhole disk path true = .ok content ∧
    readLines disk path = .ok (Lines.lines newline content)

/-- All of a file is read if and only if it has no NUL. -/
theorem read_all (hfile : disk path = some ⟨content, true⟩) :
    ReadsAll disk path content ↔ 0 ∉ content := by
  rw [ReadsAll, readWhole_readable hfile, readLines_readable hfile, ← untilNul_eq_iff,
    Except.ok.injEq, Except.ok.injEq]
  exact ⟨And.left, fun h => ⟨h, by rw [h]⟩⟩

/-- The same file everywhere. -/
def everywhere (content : Bytes) : Disk := fun _ => some ⟨content, true⟩

/-- Three lines, the second one empty, and no line end after the last one. -/
theorem read_all_lines : ReadsAll (everywhere [97, 10, 10, 98]) [] [97, 10, 10, 98] := by
  have hfile : everywhere [97, 10, 10, 98] [] = some ⟨[97, 10, 10, 98], true⟩ := rfl
  exact (read_all hfile).mpr (by decide)

theorem read_all_nul : ¬ ∀ (disk : Disk) (path content : Bytes),
    disk path = some ⟨content, true⟩ → ReadsAll disk path content := by
  intro h
  obtain ⟨hwhole, -⟩ := h (everywhere [97, 0, 98]) [] [97, 0, 98] rfl
  have hread : readWhole (everywhere [97, 0, 98]) [] true = .ok [97] := rfl
  cases hread.symm.trans hwhole

end Xutil.Files
