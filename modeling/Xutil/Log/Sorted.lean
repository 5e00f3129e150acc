import Xutil.Log.Line

/-!
# Lines sort by time

A line starts with its local time, all fields of a fixed width while the year
has four digits. So among lines with one offset the order of the texts is that
of the instants.
-/

namespace Xutil.Log

open Digits

-- ---------------------------------------------------------------------------
-- Instants
-- ---------------------------------------------------------------------------

def daysBeforeYear : Nat → Nat
  | 0 => 0
  | year + 1 => daysBeforeYear year + daysBefore year 12

def Tm.days (lt : Tm) : Nat := daysBeforeYear lt.year + lt.tmYday

/-- Microseconds since the year 0. -/
def Time.instant (t : Time) : Int :=
  ((((t.lt.days * 24 + t.tmHour) * 60 + t.tmMin) * 60 + t.tmSec : Nat) - t.gmtoff) * 1000000 + t.ms

theorem daysBeforeYear_mono : Monotone daysBeforeYear :=
  monotone_nat_of_le_succ fun year => Nat.le_add_right _ (daysBefore year 12)

theorem Tm.yday_lt (lt : Tm) : lt.tmYday < daysBefore lt.year (lt.tmMon + 1) := by
  have hyday := lt.yday_eq
  have hmday := lt.mday_le
  simp only [Tm.year, daysBefore]
  omega

theorem Tm.days_lt_of_year {a b : Tm} (h : a.year < b.year) : a.days < b.days := by
  have hmonth : daysBefore a.year (a.tmMon + 1) ≤ daysBefore a.year 12 :=
    daysBefore_mono a.year a.mon_lt
  have hyears : daysBeforeYear (a.year + 1) ≤ daysBeforeYear b.year := daysBeforeYear_mono h
  have hyday := a.yday_lt
  simp only [daysBeforeYear] at hyears
  simp only [Tm.days]
  omega

theorem Tm.days_lt_of_mon {a b : Tm} (hyear : a.year = b.year) (h : a.tmMon < b.tmMon) :
    a.days < b.days := by
  have hmonth : daysBefore a.year (a.tmMon + 1) ≤ daysBefore a.year b.tmMon :=
    daysBefore_mono a.year h
  have hyday := a.yday_lt
  have hyday' : b.tmYday + 1 = daysBefore b.year b.tmMon + b.tmMday := b.yday_eq
  have hmday := b.mday_pos
  rw [hyear] at hmonth hyday
  simp only [Tm.days, hyear]
  omega

theorem Tm.days_of_mday {a b : Tm} (hyear : a.year = b.year) (hmon : a.tmMon = b.tmMon) :
    a.days + b.tmMday = b.days + a.tmMday := by
  have hyday : a.tmYday + 1 = daysBefore a.year a.tmMon + a.tmMday := a.yday_eq
  have hyday' : b.tmYday + 1 = daysBefore b.year b.tmMon + b.tmMday := b.yday_eq
  rw [hyear, hmon] at hyday
  simp only [Tm.days, hyear]
  omega

-- ---------------------------------------------------------------------------
-- The fields of a stamp
-- ---------------------------------------------------------------------------

def Time.numbers (t : Time) : List Nat :=
  [t.lt.year, t.lt.tmMon + 1, t.lt.tmMday, t.tmHour, t.tmMin, t.tmSec, t.ms]

def stampShape : List (Nat × Text) :=
  [(4, ['-']), (2, ['-']), (2, ['T']), (2, [':']), (2, [':']), (2, ['.']), (6, [])]

/-- Earlier means smaller in the first field that differs. -/
theorem Time.numbers_lt {a b : Time} (hoffset : a.gmtoff = b.gmtoff) (h : a.instant < b.instant) :
    a.numbers < b.numbers := by
  have hyear := @Tm.days_lt_of_year a.lt b.lt
  have hyear' := @Tm.days_lt_of_year b.lt a.lt
  have hmon := @Tm.days_lt_of_mon a.lt b.lt
  have hmon' := @Tm.days_lt_of_mon b.lt a.lt
  have hmday := @Tm.days_of_mday a.lt b.lt
  have hhour := a.hour_lt
  have hhour' := b.hour_lt
  have hmin := a.min_lt
  have hmin' := b.min_lt
  have hsec := a.sec_lt
  have hsec' := b.sec_lt
  have hms := a.ms_lt
  have hms' := b.ms_lt
  simp only [Time.instant, hoffset] at h
  simp only [Time.numbers, List.cons_lt_cons_iff, List.not_lt_nil, and_false, or_false]
  omega

theorem twoDigits_eq_fixed (h : n < 100) : (twoDigits n).toList = fixed 2 n := by
  have hdiv : n / 10 % 10 = n / 10 := Nat.mod_eq_of_lt (by omega)
  simp [twoDigits, fixed, hdiv]

theorem repr_year (h : 1000 ≤ year) (h' : year < 10000) : year.repr.toList = fixed 4 year := by
  rw [← leftpad_eq_fixed (by decide) h', Nat.toList_repr]
  have hlength : ¬ (Nat.toDigits 10 year).length ≤ 3 := by
    rw [Nat.length_toDigits_le_iff (by decide) (by decide)]
    omega
  have hzero : 4 - (Nat.toDigits 10 year).length = 0 := by omega
  rw [List.leftpad, hzero, List.replicate_zero, List.nil_append]

theorem Time.fits (t : Time) (h : t.lt.year < 10000) : Fits stampShape t.numbers := by
  have hmon := t.lt.mon_lt
  have hmday := Nat.le_trans t.lt.mday_le (monthDays_le _ _)
  have hhour := t.hour_lt
  have hmin := t.min_lt
  have hsec := t.sec_lt
  refine .cons h (.cons ?_ (.cons ?_ (.cons ?_ (.cons ?_ (.cons ?_ (.cons t.ms_lt .nil))))))
  all_goals
    show _ < 100
    omega

theorem putStamp_eq_fields (t : Time) (h : 1000 ≤ t.lt.year) (h' : t.lt.year < 10000) :
    putStamp t = fields stampShape t.numbers ++ putOffset t.gmtoff := by
  have hmon := t.lt.mon_lt
  have hmday := Nat.le_trans t.lt.mday_le (monthDays_le _ _)
  have hhour := t.hour_lt
  have hmin := t.min_lt
  have hsec := t.sec_lt
  rw [putStamp, putTime, repr_year h h', leftpad_eq_fixed (by decide) t.ms_lt,
    twoDigits_eq_fixed (by omega), twoDigits_eq_fixed (by omega), twoDigits_eq_fixed (by omega),
    twoDigits_eq_fixed (by omega), twoDigits_eq_fixed (by omega)]
  simp [fields, stampShape, Time.numbers]

/-- The line of an earlier record is the smaller text, whatever else is in the
two lines. -/
theorem lines_sorted (a b : Time) (hoffset : a.gmtoff = b.gmtoff)
    (ha : 1000 ≤ a.lt.year ∧ a.lt.year < 10000) (hb : 1000 ≤ b.lt.year ∧ b.lt.year < 10000)
    (h : a.instant < b.instant) (level level' : Level) (thread thread' : Nat)
    (pos pos' : Option Position) (message message' : Text) :
    putLine a level thread pos message < putLine b level' thread' pos' message' := by
  rw [putLine, putLine, putStamp_eq_fields a ha.1 ha.2, putStamp_eq_fields b hb.1 hb.2,
    List.append_assoc, List.append_assoc]
  exact fields_lt (a.fits ha.2) (b.fits hb.2) (Time.numbers_lt hoffset h) _ _

def afternoon : Time := ⟨jan31, 13, 5, 10, 32400, 75, by decide, by decide, by decide, by decide⟩

theorem lines_sorted_noon :
    putLine noon .verbose 1 none "b".toList < putLine afternoon .error 2 (some entry) "a".toList := by
  refine lines_sorted noon afternoon rfl (by decide) (by decide) ?_ .verbose .error 1 2 none
    (some entry) "b".toList "a".toList
  simp only [Time.instant, noon, afternoon]
  omega

end Xutil.Log
