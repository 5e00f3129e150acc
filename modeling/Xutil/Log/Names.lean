import Mathlib.Order.Monotone.Basic

/-!
# Dates and the names of rotated files

A rotated file is named after the file and a date, with a number where that
name is taken: `app.log20240131`, `app.log20240131.0`. Two such names are equal
only for one date and one number, and none is the name of the file itself.
-/

namespace Xutil.Log

-- ---------------------------------------------------------------------------
-- Local dates
-- ---------------------------------------------------------------------------

def isLeap (year : Nat) : Bool := year % 4 == 0 && (year % 100 != 0 || year % 400 == 0)

def monthDays (year : Nat) : Nat → Nat
  | 1 => if isLeap year then 29 else 28
  | 3 | 5 | 8 | 10 => 30
  | _ => 31

/-- The days of the year before a month, which is counted from 0. -/
def daysBefore (year : Nat) : Nat → Nat
  | 0 => 0
  | mon + 1 => daysBefore year mon + monthDays year mon

/-- The date in a `std::tm` that `localtime_r` has filled in. -/
structure Tm where
  tmYear : Int
  tmMon : Nat
  tmMday : Nat
  tmYday : Nat
  year_nonneg : 0 ≤ tmYear + 1900
  mon_lt : tmMon < 12
  mday_pos : 0 < tmMday
  mday_le : tmMday ≤ monthDays (tmYear + 1900).toNat tmMon
  yday_eq : tmYday + 1 = daysBefore (tmYear + 1900).toNat tmMon + tmMday
  deriving DecidableEq, Repr

def jan31 : Tm := ⟨124, 0, 31, 30, by decide, by decide, by decide, by decide, by decide⟩

def feb1 : Tm := ⟨124, 1, 1, 31, by decide, by decide, by decide, by decide, by decide⟩

def Tm.year (lt : Tm) : Nat := (lt.tmYear + 1900).toNat

/-- What the rotation compares. -/
def Tm.date (lt : Tm) : Int × Nat := (lt.tmYear, lt.tmYday)

theorem monthDays_le (year mon : Nat) : monthDays year mon ≤ 31 := by
  unfold monthDays
  split
  · split <;> decide
  all_goals decide

theorem daysBefore_mono (year : Nat) : Monotone (daysBefore year) :=
  monotone_nat_of_le_succ fun mon => Nat.le_add_right _ (monthDays year mon)

theorem mon_le_of_yday_le {year m m' d d' : Nat} (hd : d ≤ monthDays year m) (hd' : 0 < d')
    (h : daysBefore year m' + d' ≤ daysBefore year m + d) : m' ≤ m := by
  by_contra hlt
  have hmono : daysBefore year (m + 1) ≤ daysBefore year m' := daysBefore_mono year (by omega)
  simp only [daysBefore] at hmono
  omega

theorem Tm.date_eq_iff {a b : Tm} :
    a.date = b.date ↔ a.year = b.year ∧ a.tmMon = b.tmMon ∧ a.tmMday = b.tmMday := by
  have ha := a.yday_eq
  have hb := b.yday_eq
  constructor
  · intro h
    obtain ⟨hyear, hyday⟩ := Prod.mk.inj h
    rw [hyear] at ha
    have hm : a.tmMon = b.tmMon := Nat.le_antisymm
      (mon_le_of_yday_le b.mday_le a.mday_pos (by omega))
      (mon_le_of_yday_le (hyear ▸ a.mday_le) b.mday_pos (by omega))
    rw [hm] at ha
    exact ⟨by rw [Tm.year, Tm.year, hyear], hm, by omega⟩
  · rintro ⟨hyear, hmon, hmday⟩
    have hy : a.tmYear = b.tmYear := by
      have := a.year_nonneg
      have := b.year_nonneg
      simp only [Tm.year] at hyear
      omega
    rw [hy, hmon, hmday] at ha
    exact Prod.ext hy (by simp only [Tm.date]; omega)

-- ---------------------------------------------------------------------------
-- Dates as text
-- ---------------------------------------------------------------------------

def twoDigits (n : Nat) : String := .ofList [(n / 10).digitChar, (n % 10).digitChar]

/-- `std::put_time` with `"%Y%m%d"`. -/
def putDate (lt : Tm) : String := lt.year.repr ++ twoDigits (lt.tmMon + 1) ++ twoDigits lt.tmMday

theorem putDate_value (lt : Tm) : Nat.ofDigitChars 10 (putDate lt).toList 0 =
    (lt.year * 100 + (lt.tmMon + 1)) * 100 + lt.tmMday := by
  have hmon := lt.mon_lt
  have hmday := Nat.le_trans lt.mday_le (monthDays_le _ _)
  simp only [putDate, twoDigits, String.toList_append, String.toList_ofList, Nat.toList_repr,
    Nat.ofDigitChars_append, Nat.ofDigitChars_ten_toDigits]
  rw [Nat.ofDigitChars_cons_digitChar_of_lt_ten (by omega),
    Nat.ofDigitChars_cons_digitChar_of_lt_ten (by omega),
    Nat.ofDigitChars_cons_digitChar_of_lt_ten (by omega),
    Nat.ofDigitChars_cons_digitChar_of_lt_ten (by omega)]
  simp only [Nat.ofDigitChars_nil]
  omega

theorem putDate_inj {a b : Tm} : (putDate a).toList = (putDate b).toList ↔ a.date = b.date := by
  constructor
  · intro h
    have hvalue := congrArg (fun ds => Nat.ofDigitChars 10 ds 0) h
    simp only [putDate_value] at hvalue
    have ha := a.mon_lt
    have hb := b.mon_lt
    have ha' := Nat.le_trans a.mday_le (monthDays_le _ _)
    have hb' := Nat.le_trans b.mday_le (monthDays_le _ _)
    exact Tm.date_eq_iff.mpr ⟨by omega, by omega, by omega⟩
  · intro h
    obtain ⟨hyear, hmon, hmday⟩ := Tm.date_eq_iff.mp h
    rw [putDate, putDate, hyear, hmon, hmday]

theorem isDigit_of_mem_putDate {lt : Tm} (h : c ∈ (putDate lt).toList) : c.isDigit = true := by
  have hmon := lt.mon_lt
  have hmday := Nat.le_trans lt.mday_le (monthDays_le _ _)
  simp only [putDate, twoDigits, String.toList_append, String.toList_ofList, Nat.toList_repr,
    List.mem_append, List.mem_cons, List.not_mem_nil, or_false] at h
  obtain (h | rfl | rfl) | rfl | rfl := h
  · exact Nat.isDigit_of_mem_toDigits (by decide) (by decide) h
  all_goals
    rw [Nat.isDigit_digitChar]
    exact decide_eq_true (by omega)

theorem putDate_ne_nil (lt : Tm) : (putDate lt).toList ≠ [] := by
  simp [putDate, twoDigits]

-- ---------------------------------------------------------------------------
-- Paths
-- ---------------------------------------------------------------------------

/-- A path up to its last separator and the file name after it. -/
structure Path where
  parent : String
  filename : String
  deriving DecidableEq, Repr

def Path.empty : Path := ⟨"", ""⟩

def Path.replaceFilename (path : Path) (filename : String) : Path := { path with filename }

/-- The names `get_previous_path_` tries, in its order. -/
def previousPath (path : Path) (daily : Tm) : Nat → Path
  | 0 => path.replaceFilename (path.filename ++ putDate daily)
  | n + 1 => path.replaceFilename (path.filename ++ putDate daily ++ "." ++ n.repr)

def numbering : Nat → List Char
  | 0 => []
  | n + 1 => '.' :: Nat.toDigits 10 n

theorem previousPath_filename (path : Path) (daily : Tm) (n : Nat) :
    (previousPath path daily n).filename.toList =
      path.filename.toList ++ ((putDate daily).toList ++ numbering n) := by
  cases n <;> simp [previousPath, Path.replaceFilename, numbering]

theorem numbering_inj : numbering m = numbering n → m = n := by
  cases m <;> cases n
  · exact fun _ => rfl
  · intro h; simp [numbering] at h
  · intro h; simp [numbering] at h
  · intro h
    have hvalue := congrArg (fun ds => Nat.ofDigitChars 10 ds 0) (List.cons.inj h).2
    simpa [Nat.ofDigitChars_ten_toDigits] using hvalue

theorem previousPath_ne (path : Path) (daily : Tm) (n : Nat) : previousPath path daily n ≠ path := by
  intro h
  have hlist := previousPath_filename path daily n
  rw [h] at hlist
  exact putDate_ne_nil daily (List.append_eq_nil_iff.mp (List.self_eq_append_right.mp hlist)).1

theorem previousPath_ne_empty (path : Path) (daily : Tm) (n : Nat) :
    previousPath path daily n ≠ .empty := by
  intro h
  have hlist := previousPath_filename path daily n
  rw [h] at hlist
  have hnil := List.append_eq_nil_iff.mp hlist.symm
  exact putDate_ne_nil daily (List.append_eq_nil_iff.mp hnil.2).1

theorem digits_append_inj {ds ds' : List Char} (hd : ∀ c ∈ ds, c.isDigit = true)
    (hd' : ∀ c ∈ ds', c.isDigit = true) (h : ds ++ numbering m = ds' ++ numbering n) :
    ds = ds' ∧ numbering m = numbering n := by
  induction ds generalizing ds' with
  | nil =>
    cases ds' with
    | nil => exact ⟨rfl, h⟩
    | cons c ds' =>
      have hc := hd' c (by simp)
      cases m with
      | zero => simp [numbering] at h
      | succ m =>
        obtain ⟨rfl, _⟩ := List.cons.inj h
        simp at hc
  | cons c ds ih =>
    cases ds' with
    | nil =>
      have hc := hd c (by simp)
      cases n with
      | zero => simp [numbering] at h
      | succ n =>
        obtain ⟨rfl, _⟩ := List.cons.inj h
        simp at hc
    | cons c' ds' =>
      obtain ⟨rfl, htail⟩ := List.cons.inj h
      obtain ⟨rfl, hn⟩ := ih (fun c hc => hd c (by simp [hc])) (fun c hc => hd' c (by simp [hc])) htail
      exact ⟨rfl, hn⟩

theorem previousPath_inj {path : Path} {a b : Tm}
    (h : previousPath path a m = previousPath path b n) : a.date = b.date ∧ m = n := by
  have hlist := congrArg (fun q => q.filename.toList) h
  simp only [previousPath_filename, List.append_cancel_left_eq] at hlist
  obtain ⟨hdate, hnum⟩ := digits_append_inj (fun _ => isDigit_of_mem_putDate)
    (fun _ => isDigit_of_mem_putDate) hlist
  exact ⟨putDate_inj.mp hdate, numbering_inj hnum⟩

end Xutil.Log
