import Xutil.Signals.Reported
import Xutil.Signals.Timeout

/-!
# Rounds of the loop

How long `wait_for_signals` may wait when other signals interrupt it. Time is in
nanoseconds, and the clock is that of `sigtimedwait`.
-/

namespace Xutil.Signals

open Runs

/-- How a call of `sigtimedwait` ends, after `waited` nanoseconds. -/
structure Result where
  value : Int
  errno : Int
  waited : Nat
  deriving Repr, DecidableEq

def interrupted (waited : Nat) : Result := ⟨-1, eIntr, waited⟩

/-- The loop, with what `sigtimedwait` returns each time: the time it is given in
each call, and how the loop ends, unless it is still in the last of them. -/
def loop (ts : Timespec) : List Result → List Timespec × Option Exit
  | [] => ([ts], none)
  | r :: rs =>
    match settle r.value r.errno with
    | some exit => ([ts], some exit)
    | none => (ts :: (loop ts rs).1, (loop ts rs).2)

def waitForSignals (timeout : BitVec 64) (results : List Result) :
    List Timespec × Option Exit :=
  loop (toTimespec timeout) results

/-- A time that is not valid is refused at once. -/
def Timespec.allowed (ts : Timespec) : Int := if ts.Valid then ts.nanoseconds else 0

-- ---------------------------------------------------------------------------
-- The loop and the steps
-- ---------------------------------------------------------------------------

def Result.label (r : Result) : Label :=
  if isTermination r.value then .arrive r.value true else .fail r.errno

theorem result_step {r : Result} (h : isTermination r.value = true ∨ r.value = -1) :
    Step ⟨p, .waiting ts⟩ r.label ⟨p, resume ts (settle r.value r.errno)⟩ := by
  unfold Result.label
  split
  · next hterm =>
    rw [settle_termination hterm]
    have htaken : Step ⟨p, .waiting ts⟩ _ _ := .taken hterm rfl
    rwa [settle_termination hterm] at htaken
  · next hterm =>
    rw [h.resolve_left hterm]
    exact .fail rfl

/-- Any number of rounds is a run from the first call to where the loop is. -/
theorem loop_run {results : List Result}
    (h : ∀ r ∈ results, isTermination r.value = true ∨ r.value = -1) :
    ∃ used, used <+: results ∧ Run Step ⟨p, .calling ts⟩ (used.flatMap fun r => [.wait, r.label])
      ⟨p, resume ts (loop ts results).2⟩ := by
  induction results with
  | nil => exact ⟨[], List.prefix_rfl, .nil⟩
  | cons r rs ih =>
    obtain ⟨hr, hrs⟩ := List.forall_mem_cons.mp h
    have hround : Run Step ⟨p, .calling ts⟩ [.wait, r.label]
        ⟨p, resume ts (settle r.value r.errno)⟩ := .cons (.wait rfl) (.one (result_step hr))
    cases hsettle : settle r.value r.errno with
    | some exit =>
      rw [hsettle] at hround
      refine ⟨[r], List.prefix_append [r] rs, ?_⟩
      simpa [loop, hsettle] using hround
    | none =>
      rw [hsettle] at hround
      obtain ⟨used, hused, hrest⟩ := ih hrs
      refine ⟨r :: used, List.cons_prefix_cons.mpr ⟨rfl, hused⟩, ?_⟩
      simpa [loop, hsettle] using hround.trans hrest

-- ---------------------------------------------------------------------------
-- Interruptions
-- ---------------------------------------------------------------------------

theorem mem_loop (h : c ∈ (loop ts results).1) : c = ts := by
  induction results with
  | nil => exact List.mem_singleton.mp h
  | cons r rs ih =>
    rw [loop] at h
    split at h
    · exact List.mem_singleton.mp h
    · rcases List.mem_cons.mp h with rfl | h
      · rfl
      · exact ih h

theorem loop_ne_nil (ts : Timespec) (results : List Result) : (loop ts results).1 ≠ [] := by
  cases results with
  | nil => simp [loop]
  | cons r rs => rw [loop]; split <;> simp

theorem loop_interrupted (ts : Timespec) (waits : List Nat) (rest : List Result) :
    (loop ts (waits.map interrupted ++ rest)).1 =
      List.replicate waits.length ts ++ (loop ts rest).1 := by
  induction waits with
  | nil => rfl
  | cons w waits ih =>
    have hcons : (loop ts ((w :: waits).map interrupted ++ rest)).1 =
        ts :: (loop ts (waits.map interrupted ++ rest)).1 := rfl
    rw [hcons, ih]
    rfl

/-- Each round is given the whole timeout. -/
theorem loop_getElem? (ts : Timespec) (waits : List Nat) (rest : List Result)
    (hi : i ≤ waits.length) : (loop ts (waits.map interrupted ++ rest)).1[i]? = some ts := by
  have hlen : i < (loop ts (waits.map interrupted ++ rest)).1.length := by
    have hrest := List.length_pos_of_ne_nil (loop_ne_nil ts rest)
    rw [loop_interrupted, List.length_append, List.length_replicate]
    omega
  rw [List.getElem?_eq_getElem hlen, mem_loop (List.getElem_mem hlen)]

/-- No interrupted call has waited longer than it was allowed to. -/
def Waited (timeout : BitVec 64) (waits : List Nat) (rest : List Result) : Prop :=
  ∀ (i : Nat) (ts : Timespec) (w : Nat),
    (waitForSignals timeout (waits.map interrupted ++ rest)).1[i]? = some ts →
      waits[i]? = some w → w ≤ ts.allowed

/-- Each call is allowed no more than the interrupted ones before it have left. -/
def Budgeted (timeout : BitVec 64) (waits : List Nat) (rest : List Result) : Prop :=
  ∀ (i : Nat) (ts : Timespec), i ≤ waits.length →
    (waitForSignals timeout (waits.map interrupted ++ rest)).1[i]? = some ts →
      ts.allowed ≤ max 0 (nanoseconds timeout - (waits.take i).sum)

theorem waited_iff : Waited timeout waits rest ↔ ∀ w ∈ waits, w ≤ (toTimespec timeout).allowed := by
  constructor
  · intro h w hw
    obtain ⟨i, hi⟩ := List.mem_iff_getElem?.mp hw
    have hlen : i < waits.length := (List.getElem?_eq_some_iff.mp hi).1
    exact h i _ w (loop_getElem? _ waits rest (Nat.le_of_lt hlen)) hi
  · intro h i ts w hts hw
    obtain rfl := mem_loop (List.mem_of_getElem? hts)
    exact h w (List.mem_of_getElem? hw)

theorem budgeted_iff : Budgeted timeout waits rest ↔ ∀ i ≤ waits.length,
    (toTimespec timeout).allowed ≤ max 0 (nanoseconds timeout - (waits.take i).sum) := by
  constructor
  · exact fun h i hi => h i _ hi (loop_getElem? _ waits rest hi)
  · intro h i ts hi hts
    obtain rfl := mem_loop (List.mem_of_getElem? hts)
    exact h i hi

-- ---------------------------------------------------------------------------
-- The timeout as a whole
-- ---------------------------------------------------------------------------

theorem zero_of_valid (h : timeout.toInt ≤ 0) (hvalid : (toTimespec timeout).Valid) :
    timeout.toInt = 0 := by
  obtain ⟨n, hn⟩ := Int.exists_eq_neg_ofNat h
  obtain ⟨hsec, hnsec, -⟩ := hvalid
  rw [toTimespec_sec, hn, Int.neg_tdiv, Int.tdiv_eq_ediv_of_nonneg (by omega)] at hsec
  have hself : wrapped timeout = nanoseconds timeout := by
    apply Int.bmod_eq_of_le <;> rw [nanoseconds, hn] <;> omega
  have hneg : nanoseconds timeout = -(n * 1000000) := by
    rw [nanoseconds, hn, Int.neg_mul]
  rw [toTimespec_nsec, hself, hneg, Int.neg_tmod, Int.tmod_eq_emod_of_nonneg (by omega)] at hnsec
  omega

/-- A negative timeout is refused. -/
theorem allowed_of_nonpos (h : timeout.toInt ≤ 0) : (toTimespec timeout).allowed = 0 := by
  unfold Timespec.allowed
  split
  · next hvalid =>
    have hzero : timeout = 0 := BitVec.eq_of_toInt_eq (zero_of_valid h hvalid)
    rw [hzero]
    rfl
  · rfl

/-- Of a timeout that is refused nothing is used, so there is room. -/
theorem slack_of_refused (h : 0 < timeout.toInt) (hrefused : ¬ (toTimespec timeout).Valid) :
    0 ≤ slack timeout := by
  rw [toTimespec_valid_iff (Int.le_of_lt h), toTimespec_nsec] at hrefused
  rw [slack]
  omega

theorem allowed_of_valid (h : 0 < timeout.toInt) (hvalid : (toTimespec timeout).Valid) :
    0 < (toTimespec timeout).allowed ∧
      (toTimespec timeout).allowed = nanoseconds timeout - slack timeout := by
  have hallowed : (toTimespec timeout).allowed = (toTimespec timeout).nanoseconds := if_pos hvalid
  have heq := nanoseconds_toTimespec (Int.le_of_lt h)
  rw [hallowed]
  refine ⟨?_, heq⟩
  by_cases hsecond : timeout.toInt < 1000
  · rw [heq, (slack_eq_zero (Int.le_of_lt h)).mpr (by rw [nanoseconds]; omega), nanoseconds]
    omega
  · obtain ⟨-, hnsec, -⟩ := hvalid
    rw [Timespec.nanoseconds, toTimespec_sec, Int.tdiv_eq_ediv_of_nonneg (Int.le_of_lt h)]
    omega

theorem sum_take_le (waits : List Nat) (i : Nat) : (waits.take i).sum ≤ waits.sum := by
  have happend : (waits.take i ++ waits.drop i).sum = (waits.take i).sum + (waits.drop i).sum :=
    List.sum_append
  rw [List.take_append_drop] at happend
  omega

/-- No call is allowed more than is left if and only if the interrupted ones
have waited no longer than what the conversion has lost: nothing, unless the
nanoseconds do not fit. -/
theorem timeout_kept (hwaited : Waited timeout waits rest) :
    (Budgeted timeout waits rest ↔ timeout.toInt ≤ 0 ∨ waits.sum ≤ slack timeout) ∧
      (0 ≤ timeout.toInt → nanoseconds timeout < 2 ^ 63 → slack timeout = 0) := by
  refine ⟨?_, fun h hfits => (slack_eq_zero h).mpr hfits⟩
  rw [budgeted_iff]
  rw [waited_iff] at hwaited
  by_cases hpos : timeout.toInt ≤ 0
  · refine iff_of_true (fun i _ => ?_) (.inl hpos)
    exact Int.le_trans (Int.le_of_eq (allowed_of_nonpos hpos)) (Int.le_max_left ..)
  rw [or_iff_right hpos]
  by_cases hvalid : (toTimespec timeout).Valid
  · obtain ⟨hallowed, heq⟩ := allowed_of_valid (by omega) hvalid
    constructor
    · intro h
      have hlast := h waits.length (Nat.le_refl _)
      rw [List.take_length] at hlast
      omega
    · intro hsum i _
      have htake := sum_take_le waits i
      omega
  · have hzero : (toTimespec timeout).allowed = 0 := if_neg hvalid
    rw [hzero] at hwaited ⊢
    have hsum : waits.sum = 0 := by
      refine List.sum_eq_zero_iff_forall_eq_nat.mpr fun w hw => ?_
      have hle := hwaited w hw
      omega
    have hslack := slack_of_refused (by omega) hvalid
    exact iff_of_true (fun i _ => Int.le_max_left ..) (by omega)

theorem allowed_second : (toTimespec 1000).allowed = 1000000000 := by decide

/-- Two interruptions at once, of a wait of a second. -/
theorem timeout_kept_at_once : Budgeted 1000 [0, 0] [] := by
  refine (timeout_kept (waited_iff.mpr ?_)).1.mpr (.inr (by decide))
  rw [allowed_second]
  decide

/-- After half a second a second is allowed again. -/
theorem timeout_kept_restarted :
    ¬ ∀ timeout waits rest, Waited timeout waits rest → Budgeted timeout waits rest := by
  intro h
  have hwaited : Waited 1000 [500000000] [] := by
    rw [waited_iff, allowed_second]
    decide
  have hsecond := budgeted_iff.mp (h _ _ _ hwaited) 1 (Nat.le_refl 1)
  rw [allowed_second] at hsecond
  exact absurd hsecond (by decide)

end Xutil.Signals
