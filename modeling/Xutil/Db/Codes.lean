import Xutil.Db.Ends

/-!
# Result codes

A connection masks its result codes, and the flags it was opened with decide
whether the mask keeps the extended part. `from_error_code` lists the primary
codes alone.
-/

namespace Xutil.Db

/-- `error_code_t` -/
def ErrorCode.value : ErrorCode → Int
  | .aborted => 4
  | .interrupted => 9
  | .busy => 5
  | .locked => 6
  | .authorization => 23
  | .constraint => 19
  | .invalidType => 20
  | .invalidUsage => 21
  | .noMemory => 7
  | .notFound => 12
  | .invalidDB => 26
  | .corruptDB => 11
  | .openFailed => 14
  | .diskFull => 13
  | .ioError => 10
  | .largeFileUnsupported => 22
  | .permissionDenied => 3
  | .unknownError => 1
  | .internalError => 2
  | .ok => 0
  | .row => 100
  | .done => 101

theorem fromErrorCode_value (e : ErrorCode) : fromErrorCode e.value = e := by
  cases e <;> rfl

theorem fromErrorCode_cases (code : Int) :
    fromErrorCode code = .unknownError ∨ code = (fromErrorCode code).value := by
  unfold fromErrorCode
  split <;> simp [ErrorCode.value]

/-- The low byte, which names the error. -/
def primary (rc : BitVec 32) : BitVec 32 := rc &&& 0xff

theorem primary_of_value {e : ErrorCode} (h : rc.toInt = e.value) : primary rc = rc := by
  rw [← BitVec.ofInt_toInt (x := rc), h]
  cases e <;> decide

namespace Handles

open Calls Runs

/-- `db_flag_t` -/
inductive DbFlag
  | readOnly | readWrite | create | deleteOnClose | exclusive | autoProxy
  | mainDB | temporaryDB | transientDB
  | mainJournal | temporaryJournal | subJournal | superJournal
  | noMutex | fullMutex | sharedCache | privateCache | wal | noFollow | exResCode
  deriving Repr, DecidableEq

def DbFlag.value : DbFlag → BitVec 32
  | .readOnly => 0x1
  | .readWrite => 0x2
  | .create => 0x4
  | .deleteOnClose => 0x8
  | .exclusive => 0x10
  | .autoProxy => 0x20
  | .mainDB => 0x100
  | .temporaryDB => 0x200
  | .transientDB => 0x400
  | .mainJournal => 0x800
  | .temporaryJournal => 0x1000
  | .subJournal => 0x2000
  | .superJournal => 0x4000
  | .noMutex => 0x8000
  | .fullMutex => 0x10000
  | .sharedCache => 0x20000
  | .privateCache => 0x40000
  | .wal => 0x80000
  | .noFollow => 0x1000000
  | .exResCode => 0x2000000

/-- `errMask` of a connection opened with these flags. -/
def errMask (flags : BitVec 32) : BitVec 32 :=
  if flags &&& DbFlag.exResCode.value ≠ 0 then 0xffffffff else 0xff

theorem and_exResCode (flag : DbFlag) :
    flag.value &&& DbFlag.exResCode.value ≠ 0 ↔ flag = .exResCode := by
  cases flag <;> decide

theorem toFlags_exResCode (flags : List DbFlag) (initial : BitVec 32) :
    toFlags (flags.map DbFlag.value) initial &&& DbFlag.exResCode.value ≠ 0 ↔
      initial &&& DbFlag.exResCode.value ≠ 0 ∨ .exResCode ∈ flags := by
  induction flags generalizing initial with
  | nil => simp [toFlags]
  | cons flag flags ih =>
    have hcons : toFlags ((flag :: flags).map DbFlag.value) initial =
        toFlags (flags.map DbFlag.value) (initial ||| flag.value) := rfl
    have hor : (initial ||| flag.value) &&& DbFlag.exResCode.value ≠ 0 ↔
        initial &&& DbFlag.exResCode.value ≠ 0 ∨ flag = .exResCode := by
      rw [← and_exResCode, BitVec.and_or_distrib_right]
      exact BitVec.or_eq_zero_iff.not.trans not_and_or
    rw [hcons, ih, hor, or_assoc, List.mem_cons, eq_comm (a := flag)]

theorem errMask_toFlags (source : Source) (flags : List DbFlag) :
    errMask (toFlags (flags.map DbFlag.value) source.initial) =
      if .exResCode ∈ flags then 0xffffffff else 0xff := by
  have hinitial : source.initial &&& DbFlag.exResCode.value = 0 := by
    cases source with
    | memory => rfl
    | path _ => exact BitVec.zero_and
    | uri _ => exact (by decide : sqliteOpenUri &&& DbFlag.exResCode.value = 0)
  simp only [errMask, toFlags_exResCode, hinitial, ne_eq, not_true_eq_false, false_or]

/-- Only the primary codes are told apart. -/
theorem fromErrorCode_masked {e : ErrorCode} (flags : List DbFlag)
    (he : e.value = (primary rc).toInt) :
    fromErrorCode (rc &&& if DbFlag.exResCode ∈ flags then 0xffffffff else 0xff).toInt = e ↔
      .exResCode ∉ flags ∨ primary rc = rc ∨ e = .unknownError := by
  by_cases hflags : DbFlag.exResCode ∈ flags
  · have hall : rc &&& 0xffffffff = rc := BitVec.and_allOnes
    rw [if_pos hflags, hall]
    constructor
    · intro h
      rcases fromErrorCode_cases rc.toInt with hunknown | hvalue
      · exact .inr (.inr (h.symm.trans hunknown))
      · exact .inr (.inl (primary_of_value hvalue))
    · rintro (hnot | hrc | rfl)
      · exact absurd hflags hnot
      · rw [← hrc, ← he, fromErrorCode_value]
      · rcases fromErrorCode_cases rc.toInt with hunknown | hvalue
        · exact hunknown
        · rw [← primary_of_value hvalue, ← he, fromErrorCode_value]
  · rw [if_neg hflags]
    refine iff_of_true ?_ (.inl hflags)
    exact (congrArg fromErrorCode he.symm).trans (fromErrorCode_value e)

-- ---------------------------------------------------------------------------
-- The flags of a connection
-- ---------------------------------------------------------------------------

def openedWith (h : Nat) : SqliteCall → Option (BitVec 32)
  | .openV2 _ flags db => if db = some h then some flags else none
  | _ => none

/-- The flags in the last `sqlite3_open_v2` that gave out this handle. -/
def Heap.openFlags (s : Heap) (h : Nat) : BitVec 32 :=
  (s.calls.reverse.findSome? (openedWith h)).getD 0

/-- Connections that exist keep their flags. -/
structure Later (s s' : Heap) : Prop where
  opened : s.opened ≤ s'.opened
  openFlags : ∀ h < s.opened, s'.openFlags h = s.openFlags h

theorem Later.refl (s : Heap) : Later s s := ⟨Nat.le_refl _, fun _ _ => rfl⟩

theorem Later.trans (h : Later s s') (h' : Later s' s'') : Later s s'' :=
  ⟨Nat.le_trans h.opened h'.opened, fun x hx =>
    (h'.openFlags x (Nat.lt_of_lt_of_le hx h.opened)).trans (h.openFlags x hx)⟩

theorem later_of_calls {s s' : Heap} (hopened : s.opened ≤ s'.opened)
    (hcalls : s'.calls = s.calls ++ cs)
    (hnone : ∀ c ∈ cs, ∀ h < s.opened, openedWith h c = none) : Later s s' := by
  refine ⟨hopened, fun h hh => ?_⟩
  have hcs : cs.reverse.findSome? (openedWith h) = none := by
    rw [List.findSome?_eq_none_iff]
    exact fun c hc => hnone c (List.mem_reverse.mp hc) h hh
  rw [Heap.openFlags, hcalls, List.reverse_append, List.findSome?_append, hcs, Option.none_or,
    Heap.openFlags]

/-- Calls that open nothing. -/
def Quiet (cs : List SqliteCall) : Prop := ∀ c ∈ cs, ∀ h, openedWith h c = none

theorem quiet_uses (s : Heap) (w : Nat) (fs : List StatementFunction) : Quiet (uses s w fs) := by
  simp [Quiet, uses, openedWith]

theorem quiet_questions (s : Heap) (w : Nat) : Quiet (questions s w) := by
  simp [Quiet, questions, openedWith]

theorem later_quiet {s s' : Heap} (hopened : s'.opened = s.opened)
    (hcalls : s'.calls = s.calls ++ cs) (hquiet : Quiet cs) : Later s s' :=
  later_of_calls (Nat.le_of_eq hopened.symm) hcalls fun c hc h _ => hquiet c hc h

theorem Ends.later (h : Ends p w s r) : Later s r.2 := by
  cases h with
  | returns _ huses =>
    obtain ⟨hsame, fs, hcalls⟩ := huses
    exact later_quiet hsame.opened hcalls (quiet_uses s w fs)
  | throws _ hthrows =>
    obtain ⟨hsame, fs, hcalls⟩ := hthrows
    rw [List.append_assoc] at hcalls
    refine later_quiet hsame.opened hcalls fun c hc => ?_
    exact (List.mem_append.mp hc).elim (quiet_uses s w fs c) (quiet_questions s w c)

/-- A new connection has a handle of its own. -/
theorem later_open {s s' : Heap} {reply : Reply} (hopened : s.opened ≤ s'.opened)
    (hcalls : s'.calls = s.calls ++ .openV2 filename flags (s.given reply) :: cs)
    (hquiet : Quiet cs) : Later s s' := by
  refine later_of_calls hopened hcalls (List.forall_mem_cons.mpr ⟨fun h hh => ?_, ?_⟩)
  · have hne : s.given reply ≠ some h := by
      unfold Heap.given
      split
      · exact fun heq => Nat.ne_of_gt hh (Option.some.inj heq)
      · simp
    exact if_neg hne
  · exact fun c hc h _ => hquiet c hc h

theorem constructDb_later : Later s ((constructDb source flags v reply).run s).2 := by
  by_cases hvalid : source.Valid
  · rw [constructDb_valid hvalid]
    by_cases hcode : reply.code = sqliteOk
    · rw [openDb_ok hcode]
      exact later_open (Nat.le_add_right ..) rfl (by simp [Quiet])
    · rw [openDb_failed hcode]
      exact later_open (Nat.le_add_right ..) rfl (by simp [Quiet, openedWith])
  · rw [constructDb_invalid hvalid]
    exact .refl s

theorem destroyDb_later : Later s ((destroyDb v).run s).2 := by
  rw [destroyDb_run]
  cases s.db v <;> exact later_quiet rfl rfl (by simp [Quiet, openedWith])

theorem prepare_later : Later s ((prepare v sql flags w reply).run s).2 := by
  by_cases hvalid : s.db v = none ∨ sql = ""
  · rw [prepare_invalid hvalid]
    exact .refl s
  · obtain ⟨hnone, hsql⟩ := not_or.mp hvalid
    obtain ⟨db, hdb⟩ := Option.ne_none_iff_exists'.mp hnone
    by_cases hcode : reply.code = sqliteOk
    · rw [prepare_ok hdb hsql hcode]
      exact later_quiet rfl rfl (by simp [Quiet, openedWith])
    · rw [prepare_failed hdb hsql hcode]
      exact later_quiet rfl rfl (by simp [Quiet, openedWith])

theorem destroyStatement_later : Later s ((destroyStatement w).run s).2 := by
  rw [destroyStatement_run]
  cases s.statement w <;> exact later_quiet rfl rfl (by simp [Quiet, openedWith])

theorem step_later (hstep : Step s l s') : Later s s' := by
  cases hstep with
  | construct _ hrun =>
    obtain rfl : _ = _ := congrArg Prod.snd hrun
    exact constructDb_later
  | destroyDb _ hrun =>
    obtain rfl : _ = _ := congrArg Prod.snd hrun
    exact destroyDb_later
  | prepare _ _ hrun =>
    obtain rfl : _ = _ := congrArg Prod.snd hrun
    exact prepare_later
  | execute _ hrun =>
    obtain rfl : _ = _ := congrArg Prod.snd hrun
    exact (execute_ends _ _ _).later
  | fetch _ hrun =>
    obtain rfl : _ = _ := congrArg Prod.snd hrun
    exact (fetch_ends _ _).later
  | destroyStatement _ hrun =>
    obtain rfl : _ = _ := congrArg Prod.snd hrun
    exact destroyStatement_later
  | _ => exact later_quiet rfl (List.append_nil _).symm (by simp [Quiet])

theorem construct_ok (hopen : Step s (.construct source flags v opening (.ok ())) s') :
    (openDb source.filename (toFlags flags source.initial) v opening).run s = (.ok (), s') ∧
      opening.code = sqliteOk := by
  cases hopen with
  | construct _ hrun =>
    by_cases hvalid : source.Valid
    · rw [constructDb_valid hvalid] at hrun
      refine ⟨hrun, ?_⟩
      by_contra hcode
      rw [openDb_failed hcode] at hrun
      cases hrun
    · rw [constructDb_invalid hvalid] at hrun
      cases hrun

/-- A connection has the flags of its `db_t`, whatever has been done since. -/
theorem openFlags_run (hopen : Step s₀ (.construct source flags v opening (.ok ())) s₁)
    (hgiven : s₀.given opening = some h) (hrun : Run Step s₁ ls s) :
    s.openFlags h = toFlags flags source.initial := by
  obtain ⟨hrun₁, hcode⟩ := construct_ok hopen
  rw [openDb_ok hcode] at hrun₁
  obtain rfl : _ = s₁ := congrArg Prod.snd hrun₁
  have hhandle : opening.handle = true := by
    by_contra hno
    simp [Heap.given, hno] at hgiven
  have hlater := hrun.invariant (I := Later _) (.refl _) fun hl hstep => hl.trans (step_later hstep)
  obtain rfl : s₀.opened = h := by simpa [Heap.given, hhandle] using hgiven
  rw [hlater.openFlags _ (by simp [hhandle])]
  simp [Heap.openFlags, openedWith, hgiven]

end Handles

end Xutil.Db
