import Xutil.Log.Model

/-!
# What one call does to the logger

The `_cases` lemmas say where a call can stop and what it has changed by then.
-/

namespace Xutil.Log

open Calls Runs

variable {W H α : Type} {F : Files W H} {s s' : State W H}

-- ---------------------------------------------------------------------------
-- Rotation
-- ---------------------------------------------------------------------------

def Logger.Outdated (lg : Logger H) (lt : Tm) : Prop := ∃ d, lg.daily = some d ∧ d.date ≠ lt.date

theorem io_cases {f : W → Option α × W} (h : (io f e).run s = (r, s')) :
    (∃ a w, f s.world = (some a, w) ∧ r = .ok a ∧ s' = { s with world := w }) ∨
      (∃ w, f s.world = (none, w) ∧ r = .error e ∧ s' = { s with world := w }) := by
  simp only [io, Call.run] at h
  split at h <;> cases h
  · exact .inl ⟨_, _, ‹_›, rfl, rfl⟩
  · exact .inr ⟨_, ‹_›, rfl, rfl⟩

theorem io_ok {f : W → Option α × W} (h : f s.world = (some a, w)) (e : Exception) :
    (io f e).run s = (.ok a, { s with world := w }) := by
  simp only [io, Call.run, h]

@[simp] theorem run_note (c : FileCall H) (s : State W H) :
    (note c).run s = (.ok (), { s with calls := s.calls ++ [c] }) := rfl

theorem needsRotation_cases (h : (needsRotation F lt).run s = (r, s')) :
    (¬ s.Outdated lt ∧ r = .ok false ∧ s' = s) ∨
      (s.Outdated lt ∧ (existsFile F s.path).run s = (r, s')) := by
  cases hd : s.daily with
  | none =>
    simp [needsRotation, Call.run_bind, hd] at h
    exact .inl ⟨by simp [Logger.Outdated, hd], h.1.symm, h.2.symm⟩
  | some d =>
    by_cases hdate : d.date = lt.date
    · have hsame : d.tmYear = lt.tmYear ∧ d.tmYday = lt.tmYday := Prod.mk.inj hdate
      simp [needsRotation, Call.run_bind, hd, hsame] at h
      exact .inl ⟨by simp [Logger.Outdated, hd, hdate], h.1.symm, h.2.symm⟩
    · have hdiff : d.tmYear ≠ lt.tmYear ∨ d.tmYday ≠ lt.tmYday :=
        Classical.not_and_iff_not_or_not.mp fun hsame => hdate (Prod.ext hsame.1 hsame.2)
      simp only [needsRotation, Call.run_bind, hd, Call.run_get] at h
      rw [if_pos hdiff] at h
      exact .inr ⟨⟨d, hd, hdate⟩, h⟩

theorem existsFile_world (h : (existsFile F path).run s = (r, s')) : ∃ w, s' = { s with world := w } := by
  obtain ⟨_, w, _, _, rfl⟩ | ⟨w, _, _, rfl⟩ := io_cases h <;> exact ⟨w, rfl⟩

theorem needsRotation_world (h : (needsRotation F lt).run s = (r, s')) :
    ∃ w, s' = { s with world := w } := by
  obtain ⟨_, _, rfl⟩ | ⟨_, h⟩ := needsRotation_cases h
  · exact ⟨_, rfl⟩
  · exact existsFile_world h

theorem firstFree_world (h : (firstFree F path daily left).run s = (r, s')) :
    ∃ w, s' = { s with world := w } := by
  induction left generalizing s with
  | zero =>
    obtain ⟨b, t, hexists, h⟩ | ⟨e, hexists, _⟩ := Call.run_bind_cases h
    · obtain ⟨w, rfl⟩ := existsFile_world hexists
      cases b <;> cases h <;> exact ⟨w, rfl⟩
    · exact existsFile_world hexists
  | succ left ih =>
    obtain ⟨b, t, hexists, h⟩ | ⟨e, hexists, _⟩ := Call.run_bind_cases h
    · obtain ⟨w, rfl⟩ := existsFile_world hexists
      cases b with
      | false => cases h; exact ⟨w, rfl⟩
      | true =>
        obtain ⟨w', hs'⟩ := ih h
        exact ⟨w', hs'⟩
    · exact existsFile_world hexists

theorem getPreviousPath_world (h : (getPreviousPath F).run s = (r, s')) :
    ∃ w, s' = { s with world := w } := by
  rw [getPreviousPath, Call.run_bind_ok (Call.run_get s)] at h
  cases hd : s.daily with
  | none =>
    rw [hd] at h
    cases h
    exact ⟨_, rfl⟩
  | some d =>
    rw [hd] at h
    exact firstFree_world h

/-- Only renames are asked for, and one of them if it goes through. -/
theorem renameToPrevious_cases (h : (renameToPrevious F).run s = (r, s')) :
    (∃ w, s' = { s with world := w } ∧ ∃ e, r = .error e) ∨
      (∃ w previous, s' = { s with world := w, calls := s.calls ++ [.rename s.path previous] }) := by
  obtain ⟨previous, t, hprev, h⟩ | ⟨e, hprev, rfl⟩ := Call.run_bind_cases h
  · obtain ⟨w, rfl⟩ := getPreviousPath_world hprev
    obtain ⟨_, w', _, _, rfl⟩ | ⟨w', _, _, rfl⟩ := io_cases h <;> exact .inr ⟨w', previous, rfl⟩
  · obtain ⟨w, rfl⟩ := getPreviousPath_world hprev
    exact .inl ⟨w, rfl, e, rfl⟩

-- ---------------------------------------------------------------------------
-- Opening
-- ---------------------------------------------------------------------------

theorem openLogfile_cases (hofs : s.ofs = none) (h : (openLogfile F path lt).run s = (r, s')) :
    (path = .empty ∧ r = .ok () ∧ s' = { s with path := .empty, daily := none }) ∨
      (path ≠ .empty ∧ ∃ f w, F.openApp path s.world = (some f, w) ∧ r = .ok () ∧
        s' = { s with path := path, daily := lt, ofs := some f, bad := false, world := w,
                      calls := s.calls ++ [.openApp path] }) ∨
      (path ≠ .empty ∧ ∃ w, F.openApp path s.world = (none, w) ∧ (∃ e, r = .error e) ∧
        s' = { s with path := .empty, daily := none, world := w,
                      calls := s.calls ++ [.openApp path] }) := by
  by_cases hpath : path = .empty
  · simp [openLogfile, Call.run_bind, hofs, hpath] at h
    obtain ⟨rfl, rfl⟩ := h
    exact .inl ⟨hpath, rfl, by rw [hofs]⟩
  · simp only [openLogfile, openOfs, note, Call.run_bind, Call.run_onError, Call.run_get,
      Call.run_modify, hofs, Option.isSome_none, Bool.false_eq_true, ite_false, hpath] at h
    rcases hio : (io (F.openApp path) .stream).run
      { s with path := path, ofs := none, calls := s.calls ++ [.openApp path] } with ⟨_ | f, t⟩
    · simp only [hio] at h
      cases h
      obtain ⟨_, _, _, he, _⟩ | ⟨w, hopen, _, rfl⟩ := io_cases hio
      · cases he
      · exact .inr (.inr ⟨hpath, w, hopen, ⟨_, rfl⟩, by rw [hofs]⟩)
    · simp only [hio] at h
      cases h
      obtain ⟨f, w, hopen, hf, rfl⟩ | ⟨_, _, he, _⟩ := io_cases hio
      · cases hf
        exact .inr (.inl ⟨hpath, f, w, hopen, rfl, rfl⟩)
      · cases he

-- ---------------------------------------------------------------------------
-- Writing
-- ---------------------------------------------------------------------------

theorem writeOfs_cases (h : (writeOfs F r).run s = (res, s')) :
    (s.ofs = none ∧ s' = s) ∨
      (∃ f, s.ofs = some f ∧ s.bad = true ∧ s' = s) ∨
      (∃ f w, s.ofs = some f ∧ s.bad = false ∧ F.write f r s.world = (some (), w) ∧
        s' = { s with world := w, calls := s.calls ++ [.write f r] }) ∨
      (∃ f w, s.ofs = some f ∧ s.bad = false ∧ F.write f r s.world = (none, w) ∧
        s' = { s with bad := true, world := w, calls := s.calls ++ [.write f r] }) := by
  rw [writeOfs, Call.run_bind_ok (Call.run_get s)] at h
  cases hofs : s.ofs with
  | none =>
    rw [hofs] at h
    cases h
    exact .inl ⟨rfl, rfl⟩
  | some f =>
    cases hbad : s.bad with
    | true =>
      simp [Call.run_bind, hofs, hbad] at h
      exact .inr (.inl ⟨f, rfl, rfl, h.2.symm⟩)
    | false =>
      simp only [hofs, hbad, note, Call.run_bind, Call.run_get, Call.run_onError, Call.run_modify,
        Bool.false_eq_true, ite_false] at h
      rcases hio : (io (F.write f r) .stream).run { s with calls := s.calls ++ [.write f r] }
        with ⟨_ | _, t⟩
      · simp only [hio] at h
        cases h
        obtain ⟨_, _, _, he, _⟩ | ⟨w, hwrite, _, rfl⟩ := io_cases hio
        · cases he
        · exact .inr (.inr (.inr ⟨f, w, rfl, rfl, hwrite, by rw [hofs]⟩))
      · simp only [hio] at h
        cases h
        obtain ⟨_, w, hwrite, _, rfl⟩ | ⟨_, _, he, _⟩ := io_cases hio
        · exact .inr (.inr (.inl ⟨f, w, rfl, rfl, hwrite, rfl⟩))
        · cases he

-- ---------------------------------------------------------------------------
-- The member functions
-- ---------------------------------------------------------------------------

@[simp] theorem run_closeOfs (s : State W H) : (closeOfs F).run s = (.ok (), s.closed F) := rfl

/-- The old file has been moved aside, or an attempt to do so has thrown. -/
structure Aside (s u : State W H) : Prop where
  level : u.level = s.level
  path : u.path = s.path
  daily : u.daily = s.daily
  ofs : u.ofs = none
  bad : u.bad = false
  calls : ∃ cs, u.calls = s.calls ++ cs ∧ ∀ c ∈ cs, ∃ previous, c = .rename s.path previous

theorem renameToPrevious_aside
    (h : (renameToPrevious F).run (State.closed F { s with world := w }) = (r, u)) :
    Aside s u := by
  obtain ⟨w', rfl, _⟩ | ⟨w', previous, rfl⟩ := renameToPrevious_cases h
  · exact ⟨rfl, rfl, rfl, rfl, rfl, [], by simp [State.closed], by simp⟩
  · exact ⟨rfl, rfl, rfl, rfl, rfl, [.rename s.path previous], rfl, by simp⟩

def State.opened (u : State W H) (f : H) (w : W) : State W H :=
  { u with ofs := some f, bad := false, world := w, calls := u.calls ++ [.openApp u.path] }

theorem sink_cases (hpath : s.path ≠ .empty) (h : (sink F r).run s = (res, s')) :
    (∃ e, (needsRotation F r.lt).run s = (.error e, s')) ∨
      (∃ t, (needsRotation F r.lt).run s = (.ok false, t) ∧
        (writeOfs F r).run { t with daily := some r.lt } = (res, s')) ∨
      (∃ t e, (needsRotation F r.lt).run s = (.ok true, t) ∧
        (renameToPrevious F).run (t.closed F) = (.error e, s')) ∨
      (∃ t u, (needsRotation F r.lt).run s = (.ok true, t) ∧
        (renameToPrevious F).run (t.closed F) = (.ok (), u) ∧
        ((∃ w, F.openApp u.path u.world = (none, w) ∧
            s' = { u with path := .empty, daily := none, world := w,
                          calls := u.calls ++ [.openApp u.path] }) ∨
          (∃ f w, F.openApp u.path u.world = (some f, w) ∧
            (writeOfs F r).run { u.opened f w with daily := some r.lt } = (res, s')))) := by
  obtain ⟨b, t, hneeds, h⟩ | ⟨e, hneeds, rfl⟩ := Call.run_bind_cases h
  · cases b with
    | false => exact .inr (.inl ⟨t, hneeds, h⟩)
    | true =>
      obtain ⟨w, rfl⟩ := needsRotation_world hneeds
      rw [if_pos rfl, Call.run_bind_ok (run_closeOfs _)] at h
      obtain ⟨_, u, haside, h⟩ | ⟨e, haside, rfl⟩ := Call.run_bind_cases h
      · obtain ⟨_, hpath', _, hofs, _⟩ := renameToPrevious_aside haside
        refine .inr (.inr (.inr ⟨_, u, hneeds, haside, ?_⟩))
        rw [Call.run_bind_ok (Call.run_get u), Call.run_bind_ok (Call.run_get u)] at h
        rcases hopen : (openLogfile F u.path u.daily).run u with ⟨ro, v⟩
        obtain ⟨hempty, _⟩ | ⟨_, f, w', hw, rfl, rfl⟩ | ⟨_, w', hw, ⟨e, rfl⟩, rfl⟩ :=
          openLogfile_cases hofs hopen
        · exact absurd (hpath'.symm.trans hempty) hpath
        · rw [Call.run_bind_ok hopen] at h
          exact .inr ⟨f, w', hw, h⟩
        · rw [Call.run_bind_error hopen] at h
          cases h
          exact .inl ⟨w', hw, rfl⟩
      · exact .inr (.inr (.inl ⟨_, e, hneeds, haside⟩))
  · exact .inl ⟨e, hneeds⟩

theorem needsRotation_same (h : ¬ s.Outdated lt) : (needsRotation F lt).run s = (.ok false, s) := by
  rcases hn : (needsRotation F lt).run s with ⟨o, t⟩
  obtain ⟨_, rfl, rfl⟩ | ⟨hold, _⟩ := needsRotation_cases hn
  · rfl
  · exact absurd hold h

theorem sink_same (hsame : ¬ s.Outdated r.lt) (h : (sink F r).run s = (res, s')) :
    (writeOfs F r).run { s with daily := some r.lt } = (res, s') := by
  rw [sink, Call.run_bind_ok (needsRotation_same hsame)] at h
  exact h

/-- The level is one to log at and not above the logger's. -/
def Record.Accepted (r : Record) (level : Level) : Prop :=
  r.level ≠ .silent ∧ r.level ≠ .all ∧ r.level.toNat ≤ level.toNat

instance (r : Record) (level : Level) : Decidable (r.Accepted level) :=
  inferInstanceAs (Decidable (_ ∧ _ ∧ _))

theorem log_cases (h : (log F r).run s = (res, s')) :
    (¬ (r.Accepted s.level ∧ s.path ≠ .empty) ∧ s' = s) ∨
      (r.Accepted s.level ∧ s.path ≠ .empty ∧ ∃ res', (sink F r).run s = (res', s')) := by
  by_cases hlevel : r.level = .silent ∨ r.level = .all
  · simp only [log, hlevel, ite_true] at h
    cases h
    exact .inl ⟨fun ⟨hacc, _⟩ => hlevel.elim hacc.1 hacc.2.1, rfl⟩
  by_cases habove : s.level.toNat < r.level.toNat
  · simp only [log, hlevel, ite_false, Call.run_bind, Call.run_get, habove, ite_true] at h
    cases h
    exact .inl ⟨fun ⟨hacc, _⟩ => Nat.not_lt.mpr hacc.2.2 habove, rfl⟩
  by_cases hpath : s.path = .empty
  · simp only [log, hlevel, ite_false, Call.run_bind, Call.run_get, habove, hpath, ne_eq,
      not_true_eq_false] at h
    cases h
    exact .inl ⟨fun ⟨_, hne⟩ => hne hpath, rfl⟩
  · simp only [log, hlevel, ite_false, Call.run_bind, Call.run_get, habove, hpath, ne_eq,
      not_false_eq_true, ite_true] at h
    cases h
    exact .inr ⟨⟨fun hs => hlevel (.inl hs), fun ha => hlevel (.inr ha), Nat.not_lt.mp habove⟩,
      hpath, _, rfl⟩

theorem setPath_cases (h : (setPath F path daily lt).run s = (res, s')) :
    (∃ e, (needsRotation F lt).run (s.closed F) = (.error e, s') ∧ res = .error e) ∨
      (∃ t, (needsRotation F lt).run (s.closed F) = (.ok false, t) ∧
        (openLogfile F path (if daily then some lt else none)).run t = (res, s')) ∨
      (∃ t e, (needsRotation F lt).run (s.closed F) = (.ok true, t) ∧
        (renameToPrevious F).run t = (.error e, s') ∧ res = .error e) ∨
      (∃ t u, (needsRotation F lt).run (s.closed F) = (.ok true, t) ∧
        (renameToPrevious F).run t = (.ok (), u) ∧
        (openLogfile F path (if daily then some lt else none)).run u = (res, s')) := by
  rw [setPath, Call.run_bind_ok (run_closeOfs s)] at h
  obtain ⟨b, t, hneeds, h⟩ | ⟨e, hneeds, rfl⟩ := Call.run_bind_cases h
  · cases b with
    | false => exact .inr (.inl ⟨t, hneeds, h⟩)
    | true =>
      rw [if_pos rfl] at h
      obtain ⟨_, u, haside, h⟩ | ⟨e, haside, rfl⟩ := Call.run_bind_cases h
      · exact .inr (.inr (.inr ⟨t, u, hneeds, haside, h⟩))
      · exact .inr (.inr (.inl ⟨t, e, hneeds, haside, rfl⟩))
  · exact .inl ⟨e, hneeds, rfl⟩

end Xutil.Log
