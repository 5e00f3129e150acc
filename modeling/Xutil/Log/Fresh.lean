import Xutil.Log.Single

/-!
# The name that a file is moved to

The loop of `get_previous_path_` as it stands checks the limit after it has made
up a name and before it looks for it. It tries the names of `firstFree`, in that
order, and ends.
-/

namespace Xutil.Log

open Calls

section
variable {W H : Type} (F : Files W H)

/-- The loop at number `n`, with the name that it looks for. -/
def retry (base : String) (n : Nat) (path : Path) : Call Exception (State W H) Path := do
  if ← existsFile F path then
    let path := path.replaceFilename (base ++ "." ++ n.repr)
    if maxRetry < n then .throw (.runtimeError "get_previous_path_")
    else retry base (n + 1) path
  else return path
termination_by maxRetry + 1 - n

/-- `get_previous_path_`, loop and all. -/
def getPreviousPathLoop : Call Exception (State W H) Path := do
  match (← .get).daily with
  | none => .throw (.logicError "get_previous_path_")
  | some daily =>
    let path := (← .get).path
    let base := path.filename ++ putDate daily
    retry F base 0 (path.replaceFilename base)

theorem replaceFilename_previousPath (path : Path) (daily : Tm) (n : Nat) :
    (previousPath path daily n).replaceFilename
        (path.filename ++ putDate daily ++ "." ++ n.repr) = previousPath path daily (n + 1) := by
  cases n <;> rfl

/-- There are as many names left as numbers up to the limit. -/
theorem retry_eq (path : Path) (daily : Tm) (left : Nat) (hleft : left ≤ maxRetry + 1) :
    retry F (path.filename ++ putDate daily) (maxRetry + 1 - left)
      (previousPath path daily (maxRetry + 1 - left)) = firstFree F path daily left := by
  induction left with
  | zero =>
    rw [retry, firstFree]
    rfl
  | succ left ih =>
    have hlimit : ¬ maxRetry < maxRetry - left := by omega
    have hnext : maxRetry - left + 1 = maxRetry + 1 - left := by omega
    rw [Nat.add_sub_add_right, retry, firstFree]
    simp only [replaceFilename_previousPath, hnext, ih (by omega), hlimit, if_false]

theorem getPreviousPathLoop_run (s : State W H) :
    (getPreviousPathLoop F).run s = (getPreviousPath F).run s := by
  rw [getPreviousPathLoop, getPreviousPath, Call.run_bind_ok (Call.run_get s),
    Call.run_bind_ok (Call.run_get s)]
  cases s.daily with
  | none => rfl
  | some daily =>
    simp only [Call.run_bind_ok (Call.run_get s)]
    exact congrArg (Call.run · s) (retry_eq F s.path daily (maxRetry + 1) (Nat.le_refl _))

end

-- ---------------------------------------------------------------------------
-- The names
-- ---------------------------------------------------------------------------

/-- The file name and the date, and then with the numbers up to the limit. -/
def candidates (path : Path) (daily : Tm) : List Path :=
  let base := path.filename ++ putDate daily
  path.replaceFilename base ::
    (List.range (maxRetry + 1)).map fun n => path.replaceFilename (base ++ "." ++ n.repr)

/-- What `firstFree` has to try with `left` names to go after the next one. -/
def remaining (path : Path) (daily : Tm) (left : Nat) : List Path :=
  (List.range' (maxRetry + 1 - left) (left + 1)).map (previousPath path daily)

theorem candidates_eq (path : Path) (daily : Tm) :
    candidates path daily = remaining path daily (maxRetry + 1) := rfl

/-- The first name that is not taken. -/
def chosen (d : Disk) (names : List Path) : Except Exception Path :=
  match names.find? fun p => (d p).isNone with
  | some p => .ok p
  | none => .error (.runtimeError "get_previous_path_")

theorem remaining_succ (path : Path) (daily : Tm) (hleft : left ≤ maxRetry) :
    remaining path daily (left + 1) =
      previousPath path daily (maxRetry - left) :: remaining path daily left := by
  have hnext : maxRetry - left + 1 = maxRetry + 1 - left := by omega
  rw [remaining, Nat.add_sub_add_right, List.range'_succ, List.map_cons, hnext, remaining]

theorem existsFile_disk (hpath : path ≠ .empty) :
    (existsFile disk path).run s = (.ok (s.world path).isSome, s) := by
  simp [existsFile, io, disk, Call.run, hpath]

/-- A name is free and is the first one, or all are taken. -/
theorem chosen_cases (d : Disk) (names : List Path) :
    (∃ p ∈ names, d p = none ∧ names.find? (fun p => (d p).isNone) = some p ∧
      chosen d names = .ok p) ∨
    ((∀ p ∈ names, (d p).isSome) ∧ names.find? (fun p => (d p).isNone) = none ∧
      chosen d names = .error (.runtimeError "get_previous_path_")) := by
  rw [chosen]
  cases hfind : names.find? fun p => (d p).isNone with
  | none =>
    rw [List.find?_eq_none] at hfind
    exact .inr ⟨fun p hp => by simpa [Option.isSome_iff_ne_none] using hfind p hp, rfl, rfl⟩
  | some p =>
    have hfree : d p = none := by simpa using List.find?_some hfind
    exact .inl ⟨p, List.mem_of_find?_eq_some hfind, hfree, rfl, rfl⟩

theorem firstFree_run (path : Path) (daily : Tm) (s : State Disk Path)
    (hleft : left ≤ maxRetry + 1) :
    (firstFree disk path daily left).run s = (chosen s.world (remaining path daily left), s) := by
  induction left with
  | zero =>
    rw [firstFree, Call.run_bind_ok (existsFile_disk (previousPath_ne_empty _ _ _))]
    cases hq : s.world (previousPath path daily (maxRetry + 1)) with
    | none => simp [chosen, remaining, hq]
    | some rs => simp [chosen, remaining, hq, Call.run_bind]
  | succ left ih =>
    rw [firstFree, Call.run_bind_ok (existsFile_disk (previousPath_ne_empty _ _ _)),
      remaining_succ path daily (Nat.le_of_succ_le_succ hleft)]
    cases hq : s.world (previousPath path daily (maxRetry - left)) with
    | none => simp [chosen, hq]
    | some rs => simpa [chosen, hq] using ih (Nat.le_of_succ_le hleft)

theorem mem_candidates (h : p ∈ candidates path daily) : ∃ n, p = previousPath path daily n := by
  rw [candidates_eq] at h
  obtain ⟨n, -, rfl⟩ := List.mem_map.mp h
  exact ⟨n, rfl⟩

/-- The loop ends with the first of the twelve names that does not exist, which
is not that of the log itself, or throws where all of them exist. -/
theorem previous_path_fresh {s : State Disk Path} (hdaily : s.daily = some daily) :
    (candidates s.path daily).length = 12 ∧
    ∃ r, (getPreviousPathLoop disk).run s = (r, s) ∧
      (∀ p, r = .ok p ↔ (candidates s.path daily).find? (fun p => (s.world p).isNone) = some p) ∧
      (∀ p, r = .ok p → p ≠ s.path ∧ s.world p = none) ∧
      (∀ e, r = .error e → e = .runtimeError "get_previous_path_") ∧
      ((∃ e, r = .error e) ↔ ∀ p ∈ candidates s.path daily, (s.world p).isSome) := by
  refine ⟨rfl, chosen s.world (candidates s.path daily), ?_, ?_⟩
  · rw [getPreviousPathLoop_run, getPreviousPath, Call.run_bind_ok (Call.run_get s), hdaily,
      candidates_eq]
    exact firstFree_run s.path daily s (Nat.le_refl _)
  obtain ⟨p, hp, hfree, hfind, hok⟩ | ⟨hall, hfind, herror⟩ :=
    chosen_cases s.world (candidates s.path daily)
  · rw [hok, hfind]
    obtain ⟨n, rfl⟩ := mem_candidates hp
    refine ⟨by simp, ?_, by simp, iff_of_false (by simp) fun hall => ?_⟩
    · rintro _ ⟨⟩
      exact ⟨previousPath_ne s.path daily n, hfree⟩
    · have hsome := hall _ hp
      simp [hfree] at hsome
  · rw [herror, hfind]
    exact ⟨by simp, by simp, by simp, iff_of_true ⟨_, rfl⟩ hall⟩

/-- One record where the first name would be. -/
def taken : State Disk Path where
  level := .info
  path := ⟨"/var/log/", "app.log"⟩
  daily := some jan31
  world p := if p.filename = "app.log20240131" then some [] else none

theorem previous_path_fresh_numbered : (getPreviousPathLoop disk).run taken =
    (.ok ⟨"/var/log/", "app.log20240131.0"⟩, taken) := by
  obtain ⟨-, r, hrun, hok, -⟩ := previous_path_fresh (s := taken) rfl
  have hfirst := (hok ⟨"/var/log/", "app.log20240131.0"⟩).mpr (by decide)
  rw [hrun, hfirst]

end Xutil.Log
