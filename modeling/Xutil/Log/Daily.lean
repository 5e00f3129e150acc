import Xutil.Log.Fresh

/-!
# A daily file

Each rotation moves the whole file to a free name of the date it has kept, so
every file has one date, and the moved files in the order of their rotations,
with the current one last, read as the log in call order.
-/

namespace Xutil.Log

open Calls Runs

variable {s s' s₀ s₁ : State Disk Path} {l : Label Disk} {ls : List (Label Disk)} {p : Path}

-- ---------------------------------------------------------------------------
-- The operations on files that never fail
-- ---------------------------------------------------------------------------

theorem closed_disk (s : State Disk Path) : s.closed disk = { s with ofs := none, bad := false } := by
  unfold State.closed
  cases s.ofs <;> rfl

theorem firstFree_disk (h : (firstFree disk path daily left).run s = (r, s'))
    (hleft : left ≤ maxRetry + 1) :
    s' = s ∧ ((∃ n, r = .ok (previousPath path daily n) ∧ s.world (previousPath path daily n) = none) ∨
      ∀ n, maxRetry + 1 - left ≤ n → n ≤ maxRetry + 1 → s.world (previousPath path daily n) ≠ none) := by
  rw [firstFree_run path daily s hleft] at h
  cases h
  refine ⟨rfl, ?_⟩
  rcases chosen_cases s.world (remaining path daily left) with
    ⟨p, hp, hfree, -, hok⟩ | ⟨hall, -⟩
  · obtain ⟨n, -, rfl⟩ := List.mem_map.mp hp
    exact .inl ⟨n, hok, hfree⟩
  · refine .inr fun n hn hn' => Option.isSome_iff_ne_none.mp (hall _ ?_)
    exact List.mem_map_of_mem (List.mem_range'_1.mpr ⟨hn, by omega⟩)

theorem rename_disk {d : Disk} (h : d path = some rs) (hne : previous ≠ path) :
    ∃ d', Disk.rename path previous d = (some (), d') ∧ d' path = none ∧ d' previous = some rs ∧
      ∀ x, x ≠ path → x ≠ previous → d' x = d x := by
  refine ⟨Function.update (Function.update d path none) previous (some rs),
    by simp only [Disk.rename, h], ?_, Function.update_self _ _ _, fun x hx hx' => ?_⟩
  · rw [Function.update_of_ne hne.symm, Function.update_self]
  · rw [Function.update_of_ne hx', Function.update_of_ne hx]

theorem openApp_disk (path : Path) (d : Disk) :
    (Disk.openApp path d).1 = some path ∧ (Disk.openApp path d).2 path = some (d.content path) ∧
      ∀ x, x ≠ path → (Disk.openApp path d).2 x = d x := by
  unfold Disk.openApp Disk.content
  cases hd : d path with
  | none => exact ⟨rfl, by simp, fun x hx => Function.update_of_ne hx _ _⟩
  | some rs => exact ⟨rfl, by simp [hd], fun _ _ => rfl⟩

theorem write_disk {d : Disk} (h : d path = some rs) (r : Record) :
    Disk.write path r d = (some (), Function.update d path (some (rs ++ [r]))) := by
  simp only [Disk.write, h]

-- ---------------------------------------------------------------------------
-- One record
-- ---------------------------------------------------------------------------

def Archive (p q : Path) : Prop := ∃ d n, q = previousPath p d n

/-- The file is open and holds the records of the date in `daily_`. Every file
beside it holds the records of the date in its name. -/
structure Daily (p : Path) (accepted : List Record) (s : State Disk Path) : Prop where
  path : s.path = p
  ofs : s.ofs = some p
  bad : s.bad = false
  current : ∃ d rs, s.daily = some d ∧ s.world p = some rs ∧ ∀ r ∈ rs, r.lt.date = d.date
  archives : ∀ d n rs, s.world (previousPath p d n) = some rs → ∀ r ∈ rs, r.lt.date = d.date
  order : ∃ qs : List Path, qs.Nodup ∧ (∀ q, q ∈ qs ↔ Archive p q ∧ s.world q ≠ none) ∧
    (qs ++ [p]).flatMap s.world.content = accepted

theorem Daily.dated (h : Daily p acc s) (hdaily : s.daily = some d) (hcur : s.world p = some rs) :
    ∀ r ∈ rs, r.lt.date = d.date := by
  obtain ⟨d', rs', hdaily', hcur', hall⟩ := h.current
  obtain rfl : d = d' := Option.some.inj (hdaily.symm.trans hdaily')
  obtain rfl : rs = rs' := Option.some.inj (hcur.symm.trans hcur')
  exact hall

/-- A name is free for the date that an accepted record finds in `daily_`. -/
def NameFree (s : State Disk Path) : Label Disk → Prop
  | .log r => r.Accepted s.level → ∀ d, s.daily = some d → d.date ≠ r.lt.date →
      ∃ n, n ≤ maxRetry + 1 ∧ s.world (previousPath s.path d n) = none
  | _ => False

theorem writeOfs_disk (hofs : s.ofs = some p) (hbad : s.bad = false) (hcur : s.world p = some rs)
    (h : (writeOfs disk r).run s = (res, s')) :
    s'.toLogger = s.toLogger ∧ s'.world = Function.update s.world p (some (rs ++ [r])) := by
  have hwrite : disk.write p r s.world = (some (), Function.update s.world p (some (rs ++ [r]))) :=
    write_disk hcur r
  obtain ⟨hnone, _⟩ | ⟨_, _, hb, _⟩ | ⟨g, w, hg, _, hok, rfl⟩ | ⟨g, w, hg, _, hfail, _⟩ := writeOfs_cases h
  · simp [hofs] at hnone
  · simp [hbad] at hb
  · obtain rfl : p = g := Option.some.inj (hofs.symm.trans hg)
    exact ⟨rfl, (congrArg Prod.snd (hwrite.symm.trans hok)).symm⟩
  · obtain rfl : p = g := Option.some.inj (hofs.symm.trans hg)
    simp [hwrite] at hfail

theorem renameToPrevious_disk (hdaily : s.daily = some d) (hcur : s.world s.path = some rs)
    (hfree : n ≤ maxRetry + 1 ∧ s.world (previousPath s.path d n) = none) :
    ∃ m u, s.world (previousPath s.path d m) = none ∧ (renameToPrevious disk).run s = (.ok (), u) ∧
      u.toLogger = s.toLogger ∧ u.world s.path = none ∧
      u.world (previousPath s.path d m) = some rs ∧
      ∀ x, x ≠ s.path → x ≠ previousPath s.path d m → u.world x = s.world x := by
  rcases hsearch : (firstFree disk s.path d (maxRetry + 1)).run s with ⟨o, t⟩
  obtain ⟨rfl, ⟨m, rfl, hm⟩ | hnone⟩ := firstFree_disk hsearch (Nat.le_refl _)
  · have hprev : (getPreviousPath disk).run t = (.ok (previousPath t.path d m), t) := by
      rw [getPreviousPath, Call.run_bind_ok (Call.run_get t), hdaily]
      exact hsearch
    obtain ⟨w, hren, hgone, hmoved, hrest⟩ := rename_disk hcur (previousPath_ne t.path d m)
    have hrun := io_ok
      (s := { t with calls := t.calls ++ [.rename t.path (previousPath t.path d m)] }) hren .filesystem
    exact ⟨m, _, hm, (Call.run_bind_ok hprev).trans hrun, rfl, hgone, hmoved, hrest⟩
  · exact absurd hfree.2 (hnone n (by omega) hfree.1)

theorem needsRotation_disk (hp : s.path ≠ .empty) (hcur : s.world s.path = some rs)
    (hold : s.Outdated lt) : (needsRotation disk lt).run s = (.ok true, s) := by
  rcases hn : (needsRotation disk lt).run s with ⟨o, t⟩
  obtain ⟨hsame, _⟩ | ⟨_, hex⟩ := needsRotation_cases hn
  · exact absurd hold hsame
  · rw [← hex, existsFile_disk hp, hcur]
    rfl

theorem sink_same_disk (h : Daily p acc s) (hdaily : s.daily = some d) (hcur : s.world p = some rs)
    (hdate : d.date = r.lt.date) (hsink : (sink disk r).run s = (res, s')) :
    s'.toLogger = { s.toLogger with daily := some r.lt } ∧ s'.world p = some (rs ++ [r]) ∧
      ∀ x, x ≠ p → s'.world x = s.world x := by
  have hsame : ¬ s.Outdated r.lt := by
    rintro ⟨d', hd', hne⟩
    obtain rfl : d = d' := Option.some.inj (hdaily.symm.trans hd')
    exact hne hdate
  obtain ⟨hlogger, hworld⟩ := writeOfs_disk (s := { s with daily := some r.lt }) h.ofs h.bad hcur
    (sink_same hsame hsink)
  rw [hworld]
  exact ⟨hlogger, Function.update_self _ _ _, fun x hx => Function.update_of_ne hx _ _⟩

/-- The file moves to a free name and a new one gets the record. -/
theorem sink_rotate_disk (h : Daily p acc s) (hp : p ≠ .empty) (hdaily : s.daily = some d)
    (hcur : s.world p = some rs) (hdate : d.date ≠ r.lt.date)
    (hfree : n ≤ maxRetry + 1 ∧ s.world (previousPath p d n) = none)
    (hsink : (sink disk r).run s = (res, s')) :
    s'.toLogger = { s.toLogger with daily := some r.lt } ∧
      ∃ m, s.world (previousPath p d m) = none ∧ s'.world p = some [r] ∧
        s'.world (previousPath p d m) = some rs ∧
        ∀ x, x ≠ p → x ≠ previousPath p d m → s'.world x = s.world x := by
  obtain rfl := h.path
  have hneeds : (needsRotation disk r.lt).run s = (.ok true, s) :=
    needsRotation_disk hp hcur ⟨d, hdaily, hdate⟩
  obtain ⟨m, u, hm, hren, hlogger, hgone, hmoved, hrest⟩ :=
    renameToPrevious_disk (s := { s with ofs := none, bad := false }) hdaily hcur hfree
  obtain ⟨e, ha⟩ | ⟨t, hb, _⟩ | ⟨t, e, ht, hfail⟩ | ⟨t, u', ht, haside, hopen⟩ := sink_cases hp hsink
  · cases hneeds.symm.trans ha
  · cases hneeds.symm.trans hb
  · cases hneeds.symm.trans ht
    rw [closed_disk] at hfail
    cases hren.symm.trans hfail
  · cases hneeds.symm.trans ht
    rw [closed_disk] at haside
    cases hren.symm.trans haside
    have hupath : u.path = s.path := by rw [hlogger]
    obtain ⟨hsome, hnew, hkept⟩ := openApp_disk u.path u.world
    obtain ⟨w, hfail, _⟩ | ⟨f, w, hok, hwrite⟩ := hopen
    · cases hsome.symm.trans (congrArg Prod.fst hfail)
    · obtain rfl : u.path = f := Option.some.inj (hsome.symm.trans (congrArg Prod.fst hok))
      obtain rfl : _ = w := congrArg Prod.snd hok
      obtain ⟨hlogger', hworld⟩ := writeOfs_disk rfl rfl hnew hwrite
      rw [hupath] at hworld hkept
      have hempty : u.world.content s.path = [] := by simp [Disk.content, hgone]
      have hold : ∀ x, x ≠ s.path → s'.world x = u.world x := by
        intro x hx
        rw [hworld, Function.update_of_ne hx]
        exact hkept x hx
      refine ⟨?_, m, hm, ?_, (hold _ (previousPath_ne s.path d m)).trans hmoved,
        fun x hx hx' => (hold x hx).trans (hrest x hx hx')⟩
      · rw [hlogger']
        simp [State.opened, hlogger, h.ofs, h.bad]
      · rw [hworld, Function.update_self, hempty]
        rfl

-- ---------------------------------------------------------------------------
-- The run
-- ---------------------------------------------------------------------------

theorem content_congr {d d' : Disk} {qs : List Path} (h : ∀ q ∈ qs, d' q = d q) :
    qs.flatMap d'.content = qs.flatMap d.content :=
  List.flatMap_congr fun q hq => by rw [Disk.content, Disk.content, h q hq]

theorem Archive.ne {q : Path} (h : Archive p q) : q ≠ p := by
  obtain ⟨d, n, rfl⟩ := h
  exact previousPath_ne p d n

theorem Daily.append (h : Daily p acc s) (hdaily : s.daily = some d) (hcur : s.world p = some rs)
    (hdate : d.date = r.lt.date) (hlogger : s'.toLogger = { s.toLogger with daily := some r.lt })
    (hp : s'.world p = some (rs ++ [r])) (hrest : ∀ x, x ≠ p → s'.world x = s.world x) :
    Daily p (acc ++ [r]) s' := by
  have hall := h.dated hdaily hcur
  obtain ⟨qs, hnodup, hmem, horder⟩ := h.order
  refine ⟨by rw [hlogger, ← h.path], by rw [hlogger, ← h.ofs], by rw [hlogger, ← h.bad],
    ⟨r.lt, rs ++ [r], by rw [hlogger], hp, ?_⟩, ?_, qs, hnodup, ?_, ?_⟩
  · intro r' hr'
    rcases List.mem_append.mp hr' with hr' | hr'
    · exact (hall r' hr').trans hdate
    · rw [List.mem_singleton.mp hr']
  · intro d' n rs' hrs'
    rw [hrest _ (previousPath_ne p d' n)] at hrs'
    exact h.archives d' n rs' hrs'
  · intro q
    rw [hmem]
    constructor
    · rintro ⟨hq, hne⟩
      exact ⟨hq, by rwa [hrest q hq.ne]⟩
    · rintro ⟨hq, hne⟩
      exact ⟨hq, by rwa [hrest q hq.ne] at hne⟩
  · have hqs : qs.flatMap s'.world.content = qs.flatMap s.world.content :=
      content_congr fun q hq => hrest q ((hmem q).mp hq).1.ne
    rw [← horder, List.flatMap_append, List.flatMap_append, hqs]
    simp [Disk.content, hp, hcur]

theorem Daily.rotate (h : Daily p acc s) (hdaily : s.daily = some d) (hcur : s.world p = some rs)
    (hfree : s.world (previousPath p d n) = none)
    (hlogger : s'.toLogger = { s.toLogger with daily := some r.lt })
    (hp : s'.world p = some [r]) (hq : s'.world (previousPath p d n) = some rs)
    (hrest : ∀ x, x ≠ p → x ≠ previousPath p d n → s'.world x = s.world x) :
    Daily p (acc ++ [r]) s' := by
  have hall := h.dated hdaily hcur
  obtain ⟨qs, hnodup, hmem, horder⟩ := h.order
  have hnew : previousPath p d n ∉ qs := fun hq => ((hmem _).mp hq).2 hfree
  refine ⟨by rw [hlogger, ← h.path], by rw [hlogger, ← h.ofs], by rw [hlogger, ← h.bad],
    ⟨r.lt, [r], by rw [hlogger], hp, by simp⟩, ?_, qs ++ [previousPath p d n], ?_, ?_, ?_⟩
  · intro d' n' rs' hrs'
    by_cases hsame : previousPath p d' n' = previousPath p d n
    · rw [hsame, hq] at hrs'
      cases hrs'
      rw [(previousPath_inj hsame).1]
      exact hall
    · rw [hrest _ (previousPath_ne p d' n') hsame] at hrs'
      exact h.archives d' n' rs' hrs'
  · exact List.nodup_append.mpr ⟨hnodup, by simp,
      fun a ha b hb => fun hab => hnew (List.mem_singleton.mp hb ▸ hab ▸ ha)⟩
  · intro q
    rw [List.mem_append, List.mem_singleton]
    constructor
    · rintro (hmem' | rfl)
      · obtain ⟨harch, hne⟩ := (hmem q).mp hmem'
        refine ⟨harch, ?_⟩
        rwa [hrest q harch.ne fun he => hnew (he ▸ hmem')]
      · exact ⟨⟨d, n, rfl⟩, by simp [hq]⟩
    · rintro ⟨harch, hne⟩
      by_cases hsame : q = previousPath p d n
      · exact .inr hsame
      · rw [hrest q harch.ne hsame] at hne
        exact .inl ((hmem q).mpr ⟨harch, hne⟩)
  · have hqs : qs.flatMap s'.world.content = qs.flatMap s.world.content :=
      content_congr fun q hmem' =>
        hrest q ((hmem q).mp hmem').1.ne fun he => hnew (he ▸ hmem')
    rw [← horder, List.flatMap_append, List.flatMap_append, List.flatMap_append, hqs]
    simp [Disk.content, hp, hq, hcur]

theorem step_daily (hp : p ≠ .empty) (h : Daily p acc s)
    (hstep : Guarded (Step disk) NameFree s l s') :
    Daily p (acc ++ (l.accepted s.level).toList) s' ∧ s'.level = s.level ∧
      ∀ q rs, q ≠ p → s.world q = some rs → s'.world q = some rs := by
  obtain ⟨hstep, hok⟩ := hstep
  cases hstep with
  | @log r res _ hlog =>
    by_cases hacc : r.Accepted s.level
    · have hl : (Label.log r : Label Disk).accepted s.level = some r := if_pos hacc
      obtain ⟨d, rs, hdaily, hcur, _⟩ := h.current
      obtain ⟨hno, _⟩ | ⟨_, _, res', hsink⟩ := log_cases hlog
      · exact absurd ⟨hacc, h.path ▸ hp⟩ hno
      rw [hl]
      by_cases hdate : d.date = r.lt.date
      · obtain ⟨hlogger, hnew, hrest⟩ := sink_same_disk h hdaily hcur hdate hsink
        refine ⟨h.append hdaily hcur hdate hlogger hnew hrest, by rw [hlogger], ?_⟩
        intro q rs' hne hq
        rwa [hrest q hne]
      · obtain ⟨n, hn⟩ := hok hacc d hdaily hdate
        rw [h.path] at hn
        obtain ⟨hlogger, m, hfree, hnew, hq, hrest⟩ :=
          sink_rotate_disk h hp hdaily hcur hdate hn hsink
        refine ⟨h.rotate hdaily hcur hfree hlogger hnew hq hrest, by rw [hlogger], ?_⟩
        intro q rs' hne hq'
        by_cases hsame : q = previousPath p d m
        · simp [hsame, hfree] at hq'
        · rwa [hrest q hne hsame]
    · have hl : (Label.log r : Label Disk).accepted s.level = none := if_neg hacc
      obtain ⟨_, rfl⟩ | ⟨hacc', _⟩ := log_cases hlog
      · rw [hl]
        exact ⟨by simpa using h, rfl, fun _ _ _ hq => hq⟩
      · exact absurd hacc' hacc
  | setPath => exact hok.elim
  | outside => exact hok.elim

theorem run_daily (hp : p ≠ .empty) (h : Daily p acc s)
    (hrun : Run (Guarded (Step disk) NameFree) s ls s') :
    Daily p (acc ++ ls.filterMap (Label.accepted s.level)) s' ∧ s'.level = s.level ∧
      ∀ q rs, q ≠ p → s.world q = some rs → s'.world q = some rs := by
  refine hrun.history (I := fun ls t => Daily p (acc ++ ls.filterMap (Label.accepted s.level)) t ∧
    t.level = s.level ∧ ∀ q rs, q ≠ p → s.world q = some rs → t.world q = some rs) ?_ ?_
  · exact ⟨by simpa using h, rfl, fun _ _ _ hq => hq⟩
  · rintro ls t l t' ⟨ht, hlevel, hkept⟩ hstep
    obtain ⟨ht', hlevel', hkept'⟩ := step_daily hp ht hstep
    refine ⟨?_, hlevel'.trans hlevel, fun q rs hne hq => hkept' q rs hne (hkept q rs hne hq)⟩
    rw [hlevel, List.append_assoc] at ht'
    rw [List.filterMap_append]
    cases hl : l.accepted s.level <;> simpa [hl] using ht'

-- ---------------------------------------------------------------------------
-- From set_path on
-- ---------------------------------------------------------------------------

theorem needsRotation_empty (h : s.path = .empty) : (needsRotation disk lt).run s = (.ok false, s) := by
  rcases hn : (needsRotation disk lt).run s with ⟨o, t⟩
  obtain ⟨_, rfl, rfl⟩ | ⟨_, hex⟩ := needsRotation_cases hn
  · rfl
  · rw [← hex, h]
    simp [existsFile, io, disk, Call.run]

theorem setPath_daily (hempty : s₀.path = .empty) (hp : p ≠ .empty) (hfile : s₀.world p = none)
    (harch : ∀ d n, s₀.world (previousPath p d n) = none)
    (hset : (setPath disk p true lt).run s₀ = (res, s₁)) : Daily p [] s₁ ∧ s₁.level = s₀.level := by
  have hneeds : (needsRotation disk lt).run (s₀.closed disk) = (.ok false, s₀.closed disk) :=
    needsRotation_empty hempty
  obtain ⟨e, ha, _⟩ | ⟨t, hb, hopen⟩ | ⟨t, e, hb, _⟩ | ⟨t, u, hb, _⟩ := setPath_cases hset
  · cases hneeds.symm.trans ha
  · cases hneeds.symm.trans hb
    rw [closed_disk] at hopen
    obtain ⟨hsome, hnew, hkept⟩ := openApp_disk p s₀.world
    obtain ⟨he, _⟩ | ⟨_, f, w, hok, _, rfl⟩ | ⟨_, w, hfail, _⟩ := openLogfile_cases rfl hopen
    · exact absurd he hp
    · obtain rfl : p = f := Option.some.inj (hsome.symm.trans (congrArg Prod.fst hok))
      obtain rfl : _ = w := congrArg Prod.snd hok
      have hnone : ∀ q, Archive p q → (disk.openApp p s₀.world).2 q = none := by
        rintro q ⟨d, n, rfl⟩
        exact (hkept _ (previousPath_ne p d n)).trans (harch d n)
      have hcontent : s₀.world.content p = [] := by simp [Disk.content, hfile]
      rw [hcontent] at hnew
      refine ⟨⟨rfl, rfl, rfl, ⟨lt, [], rfl, hnew, by simp⟩, ?_, [], by simp, ?_, ?_⟩, rfl⟩
      · intro d n rs hrs
        cases (hnone _ ⟨d, n, rfl⟩).symm.trans hrs
      · intro q
        simpa using hnone q
      · have hnew' : (disk.openApp p s₀.world).2 p = some [] := hnew
        simp [Disk.content, hnew']
    · cases hsome.symm.trans (congrArg Prod.fst hfail)
  · cases hneeds.symm.trans hb
  · cases hneeds.symm.trans hb

/-- The daily file holds the records of the date in `daily_`, every archive the
records of the date in its name, and none is ever written again. The archives
in some order, and then the file, are the accepted records in call order, so
each of them holds a stretch of the log. -/
theorem daily_files (hempty : s₀.path = .empty) (hp : p ≠ .empty) (hfile : s₀.world p = none)
    (harch : ∀ d n, s₀.world (previousPath p d n) = none)
    (hset : (setPath disk p true lt).run s₀ = (res, s₁))
    (h : Run (Guarded (Step disk) NameFree) s₁ ls s) :
    (∃ d rs, s.daily = some d ∧ s.world p = some rs ∧ ∀ r ∈ rs, r.lt.date = d.date) ∧
      (∀ d n rs, s.world (previousPath p d n) = some rs → ∀ r ∈ rs, r.lt.date = d.date) ∧
      (∀ ls' s', Run (Guarded (Step disk) NameFree) s ls' s' →
        ∀ q rs, q ≠ p → s.world q = some rs → s'.world q = some rs) ∧
      ∃ qs : List Path, qs.Nodup ∧ (∀ q, q ∈ qs ↔ Archive p q ∧ s.world q ≠ none) ∧
        (qs ++ [p]).flatMap s.world.content = ls.filterMap (Label.accepted s₀.level) ∧
        ∀ q ∈ qs ++ [p], s.world.content q <:+: ls.filterMap (Label.accepted s₀.level) := by
  obtain ⟨hstart, hlevel⟩ := setPath_daily hempty hp hfile harch hset
  obtain ⟨hdaily, _, _⟩ := run_daily hp hstart h
  rw [List.nil_append, hlevel] at hdaily
  obtain ⟨qs, hnodup, hmem, horder⟩ := hdaily.order
  refine ⟨hdaily.current, hdaily.archives, fun ls' s' hrun => (run_daily hp hdaily hrun).2.2,
    qs, hnodup, hmem, horder, fun q hq => ?_⟩
  rw [← horder, List.flatMap_def]
  exact List.infix_of_mem_flatten (List.mem_map_of_mem hq)

/-- Three records, of which the last goes back to the date of the first. -/
theorem daily_files_back_and_forth : ∃ s : State Disk Path, ∃ qs : List Path,
    s.daily = some jan31 ∧ s.world ⟨"log/", "app.log"⟩ = some [⟨jan31, .info, "c"⟩] ∧
    (qs ++ [Path.mk "log/" "app.log"]).flatMap s.world.content =
      [⟨jan31, .info, "a"⟩, ⟨feb1, .info, "b"⟩, ⟨jan31, .info, "c"⟩] := by
  have hset : (setPath disk ⟨"log/", "app.log"⟩ true jan31).run (.initial .info fun _ => none) =
    (.ok (), _) := rfl
  have hfree : ∀ {s : State Disk Path} {r : Record} {d},
      s.daily = some d → s.world (previousPath s.path d 0) = none → NameFree s (.log r) := by
    intro s r d hd hnone _ d' hd' _
    obtain rfl : d = d' := Option.some.inj (hd.symm.trans hd')
    exact ⟨0, by decide, hnone⟩
  have hrun : Run (Guarded (Step disk) NameFree)
      ((setPath disk ⟨"log/", "app.log"⟩ true jan31).run (.initial .info fun _ => none)).2
      [.log ⟨jan31, .info, "a"⟩, .log ⟨feb1, .info, "b"⟩, .log ⟨jan31, .info, "c"⟩] _ :=
    .cons ⟨.log rfl, hfree rfl rfl⟩ <| .cons ⟨.log rfl, hfree rfl rfl⟩ <|
    .cons ⟨.log rfl, hfree rfl rfl⟩ .nil
  obtain ⟨_, _, _, qs, _, _, horder, _⟩ :=
    daily_files (by rfl) (by decide) (by rfl) (fun _ _ => by rfl) hset hrun
  exact ⟨_, qs, rfl, rfl, horder.trans (by decide)⟩

end Xutil.Log
