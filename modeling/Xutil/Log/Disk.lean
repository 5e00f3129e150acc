import Mathlib.Logic.Function.Basic
import Xutil.Log.Model

/-!
# Files that never fail

The contents of a file are the records appended to it. A file that is open is
known by its path, which is enough as long as nobody renames it meanwhile.
-/

namespace Xutil.Log

abbrev Disk := Path → Option (List Record)

def Disk.rename (path previous : Path) (d : Disk) : Option Unit × Disk :=
  match d path with
  | some rs => (some (), Function.update (Function.update d path none) previous (some rs))
  | none => (none, d)

def Disk.openApp (path : Path) (d : Disk) : Option Path × Disk :=
  match d path with
  | some _ => (some path, d)
  | none => (some path, Function.update d path (some []))

def Disk.write (path : Path) (r : Record) (d : Disk) : Option Unit × Disk :=
  match d path with
  | some rs => (some (), Function.update d path (some (rs ++ [r])))
  | none => (some (), d)

def disk : Files Disk Path where
  fileExists path d := (some (path ≠ .empty ∧ (d path).isSome), d)
  rename := Disk.rename
  openApp := Disk.openApp
  write := Disk.write
  close _ d := d

def Disk.content (d : Disk) (path : Path) : List Record := (d path).getD []

theorem disk_opens : disk.Opens := by
  intro path d
  simp only [disk, Disk.openApp]
  split <;> exact ⟨path, _, rfl⟩

theorem disk_writes : disk.Writes := by
  intro path r d
  simp only [disk, Disk.write]
  split <;> exact ⟨_, rfl⟩

end Xutil.Log
