import Mathlib.Algebra.Group.Int.Defs
import Mathlib.Algebra.GroupWithZero.Nat
import Mathlib.Tactic.Linarith
import Xutil.Signals.Model

/-!
# The timeout

What `wait_for_signals` makes of its timeout, and how long it may wait in all.
The nanoseconds of the whole timeout wrap before they are reduced, and every
round of the loop waits for the whole timeout again.
-/

namespace Xutil.Signals

open Runs

/-- What `sigtimedwait` does not refuse with `EINVAL`. -/
def Timespec.Valid (ts : Timespec) : Prop :=
  0 ≤ ts.sec.toInt ∧ 0 ≤ ts.nsec.toInt ∧ ts.nsec.toInt < 1000000000

instance (ts : Timespec) : Decidable ts.Valid := inferInstanceAs (Decidable (_ ∧ _ ∧ _))

def Timespec.nanoseconds (ts : Timespec) : Int := ts.sec.toInt * 1000000000 + ts.nsec.toInt

/-- Of a timeout in milliseconds. -/
def nanoseconds (timeout : BitVec 64) : Int := timeout.toInt * 1000000

/-- The nanoseconds that the reduction to a second starts from. -/
def wrapped (timeout : BitVec 64) : Int := (nanoseconds timeout).bmod (2 ^ 64)

-- ---------------------------------------------------------------------------
-- The conversion
-- ---------------------------------------------------------------------------

theorem toTimespec_sec (timeout : BitVec 64) :
    (toTimespec timeout).sec.toInt = timeout.toInt.tdiv 1000 :=
  BitVec.toInt_sdiv_of_ne_or_ne _ _ (.inr (by decide))

theorem toTimespec_nsec (timeout : BitVec 64) :
    (toTimespec timeout).nsec.toInt = (wrapped timeout).tmod 1000000000 := by
  rw [toTimespec, BitVec.toInt_srem, BitVec.toInt_mul]
  rfl

/-- What is lost: nothing, unless the nanoseconds have wrapped. -/
def slack (timeout : BitVec 64) : Int :=
  timeout.toInt % 1000 * 1000000 - (wrapped timeout).tmod 1000000000

theorem nanoseconds_toTimespec (h : 0 ≤ timeout.toInt) :
    (toTimespec timeout).nanoseconds = nanoseconds timeout - slack timeout := by
  rw [Timespec.nanoseconds, toTimespec_sec, toTimespec_nsec, Int.tdiv_eq_ediv_of_nonneg h,
    nanoseconds, slack]
  omega

theorem wrapped_bounds (timeout : BitVec 64) :
    -2 ^ 63 ≤ wrapped timeout ∧ wrapped timeout < 2 ^ 63 :=
  ⟨Int.le_bmod (by decide), Int.bmod_lt (by decide)⟩

/-- A multiple of `2 ^ 64` that is one of `10 ^ 9`. -/
theorem dvd_of_wraps {t w k q : Int} (h : w + 2 ^ 64 * k = t * 1000000)
    (hw : 1000000000 * q + t % 1000 * 1000000 = w) : 1953125 ∣ k := by
  have ht := Int.mul_ediv_add_emod t 1000
  have heq : 1953125 * (t / 1000 - q) = 36028797018963968 * k := by linarith
  exact Int.dvd_of_dvd_mul_right_of_gcd_one ⟨_, heq.symm⟩ (by decide)

theorem slack_eq_zero (h : 0 ≤ timeout.toInt) :
    slack timeout = 0 ↔ nanoseconds timeout < 2 ^ 63 := by
  obtain ⟨hlower, hupper⟩ := wrapped_bounds timeout
  constructor
  · intro hzero
    have hwraps : wrapped timeout + 2 ^ 64 * (nanoseconds timeout).bdiv (2 ^ 64) =
        nanoseconds timeout := Int.bmod_add_bdiv _ _
    have hdiv := Int.mul_tdiv_add_tmod (wrapped timeout) 1000000000
    have hmod : timeout.toInt % 1000 * 1000000 = (wrapped timeout).tmod 1000000000 :=
      Int.sub_eq_zero.mp hzero
    rw [← hmod] at hdiv
    obtain ⟨m, hm⟩ := dvd_of_wraps hwraps hdiv
    have hbound : timeout.toInt < 2 ^ 63 := BitVec.toInt_lt
    rw [hm, nanoseconds] at hwraps
    have hm_lt : m < 1 := by linarith
    have hm_gt : -1 < m := by linarith
    obtain rfl : m = 0 := by omega
    rw [nanoseconds]
    linarith
  · intro hlt
    have hself : wrapped timeout = nanoseconds timeout :=
      Int.bmod_eq_of_le (by rw [nanoseconds]; omega) hlt
    rw [slack, hself, nanoseconds, Int.tmod_eq_emod_of_nonneg (by omega)]
    omega

theorem toTimespec_valid_iff (h : 0 ≤ timeout.toInt) :
    (toTimespec timeout).Valid ↔ 0 ≤ (toTimespec timeout).nsec.toInt := by
  have hsec : 0 ≤ (toTimespec timeout).sec.toInt := by
    rw [toTimespec_sec]
    exact Int.tdiv_nonneg h (by decide)
  have hnsec : (toTimespec timeout).nsec.toInt < 1000000000 := by
    rw [toTimespec_nsec]
    exact Int.tmod_lt_of_pos _ (by decide)
  exact ⟨fun hvalid => hvalid.2.1, fun hnonneg => ⟨hsec, hnonneg, hnsec⟩⟩

/-- The timeout is converted exactly if and only if its nanoseconds fit. -/
theorem timeout_exact (h : 0 ≤ timeout.toInt) :
    (toTimespec timeout).Valid ∧ (toTimespec timeout).nanoseconds = nanoseconds timeout ↔
      nanoseconds timeout < 2 ^ 63 := by
  rw [nanoseconds_toTimespec h, ← slack_eq_zero h]
  constructor
  · rintro ⟨-, hexact⟩
    omega
  · intro hzero
    refine ⟨(toTimespec_valid_iff h).mpr ?_, by omega⟩
    rw [slack] at hzero
    rw [toTimespec_nsec]
    omega

/-- About 292 years. -/
theorem timeout_exact_longest : (toTimespec 9223372036854).nanoseconds = 9223372036854000000 :=
  ((timeout_exact (by decide)).mpr (by decide)).2

/-- `std::chrono::milliseconds::max()` is refused. -/
theorem timeout_exact_max : ¬ ∀ timeout : BitVec 64, 0 ≤ timeout.toInt →
    (toTimespec timeout).Valid ∧ (toTimespec timeout).nanoseconds = nanoseconds timeout := by
  intro h
  exact absurd (h 0x7fffffffffffffff (by decide)).1 (by decide)

end Xutil.Signals
