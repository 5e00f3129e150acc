import Xutil.Db.Tidy
import Xutil.Lib.Runs

/-!
# Handles are used only while they live

Whatever is moved where, an object closes or finalises the handle that it holds
and no other. A failed open closes its handle and then asks it for the error, so
the law holds of the programs in which no open fails with a handle.
-/

namespace Xutil.Db.Handles

open Calls Runs Ownership

/-- The exception of a failed open has the code of that open. -/
def Label.OwnCode : Label → Prop
  | .construct source _ _ reply r =>
    source.Valid → reply.code ≠ sqliteOk → r = .error (.sqlite (fromErrorCode reply.code))
  | _ => True

/-- No handle is given to SQLite after its release, and one that no object holds
any more has been released once. -/
structure Respects (ls : List Label) (s : Heap) : Prop where
  dbs : Lawful s.dbEvents
  stmts : Lawful s.stmtEvents
  closed : ∀ h, .acquired h ∈ s.dbEvents → (∀ v, s.db v ≠ some h) →
    s.dbEvents.count (.released h) = 1
  finalized : ∀ st, .acquired st ∈ s.stmtEvents → (∀ w, s.statement w ≠ some st) →
    s.stmtEvents.count (.released st) = 1
  ownCode : ∀ l ∈ ls, l.OwnCode

/-- An open that fails leaves no handle and is out of memory, and no call of a
statement fails once its connection is closed. -/
def Careful (s : Heap) : Label → Prop
  | .construct source _ _ reply _ =>
    source.Valid → reply.code ≠ sqliteOk → reply.handle = false ∧ reply.code = sqliteNomem
  | .execute w first binds last _ =>
    first.code ≠ sqliteOk ∨ BindFails binds ∨ StepFails last → s.ConnectionOpen w
  | .fetch w _ reply _ => s.fetch w = false ∧ StepFails reply → s.ConnectionOpen w
  | _ => True

theorem tidy_step (h : Tidy s) (hstep : Step s l s') (hcareful : Careful s l) : Tidy s' := by
  cases hstep with
  | @construct v source flags reply r s' hnone hrun =>
    obtain rfl : _ = _ := congrArg Prod.snd hrun
    by_cases hvalid : source.Valid
    · rw [constructDb_valid hvalid]
      by_cases hcode : reply.code = sqliteOk
      · exact h.openDb_ok hnone hcode
      · exact h.openDb_failed hcode (hcareful hvalid hcode).1
    · rw [constructDb_invalid hvalid]
      exact h
  | moveDb _ hw => exact h.moveDb hw
  | assignDb => exact ⟨h.dbs.reindex _, h.stmts, h.connected⟩
  | destroyDb _ hrun =>
    obtain rfl : _ = _ := congrArg Prod.snd hrun
    exact h.destroyDb
  | prepare _ hnone hrun =>
    obtain rfl : _ = _ := congrArg Prod.snd hrun
    exact h.prepare hnone
  | execute _ hrun =>
    obtain rfl : _ = _ := congrArg Prod.snd hrun
    exact (execute_ends _ _ _).tidy h hcareful
  | fetch _ hrun =>
    obtain rfl : _ = _ := congrArg Prod.snd hrun
    exact (fetch_ends _ _).tidy h hcareful
  | moveStatement _ hw => exact h.moveStatement hw
  | assignStatement => exact ⟨h.dbs, h.stmts.reindex _, h.connected⟩
  | destroyStatement _ hrun =>
    obtain rfl : _ = _ := congrArg Prod.snd hrun
    exact h.destroyStatement

theorem fromErrorCode_noMemory : fromErrorCode code = .noMemory ↔ code = sqliteNomem := by
  constructor
  · unfold fromErrorCode
    split <;> simp [sqliteNomem]
  · rintro rfl
    rfl

theorem ownCode_step (hstep : Step s l s') (hcareful : Careful s l) : l.OwnCode := by
  cases hstep with
  | construct hnone hrun =>
    intro hvalid hcode
    obtain ⟨hhandle, hnomem⟩ := hcareful hvalid hcode
    rw [constructDb_valid hvalid, openDb_failed hcode] at hrun
    obtain rfl : _ = _ := congrArg Prod.fst hrun
    simp [hhandle, hnomem]
  | _ => exact trivial

/-- A step off the condition uses a closed handle or throws with another code. -/
theorem careful_step (hstep : Step s l s') (hlawful : Lawful s'.dbEvents) (hown : l.OwnCode) :
    Careful s l := by
  cases hstep with
  | construct hnone hrun =>
    intro hvalid hcode
    rw [constructDb_valid hvalid] at hrun
    obtain rfl : _ = _ := congrArg Prod.snd hrun
    have hhandle := Bool.eq_false_iff.mpr fun hhandle =>
      openDb_not_lawful hcode hhandle _ hlawful
    refine ⟨hhandle, ?_⟩
    rw [openDb_failed hcode] at hrun
    have hcodes := (congrArg Prod.fst hrun).trans (hown hvalid hcode)
    apply fromErrorCode_noMemory.mp
    simpa [hhandle, fromErrorCode_noMemory.mpr, eq_comm] using hcodes
  | execute _ hrun =>
    obtain rfl : _ = _ := congrArg Prod.snd hrun
    by_contra hcareful
    exact (execute_ends _ _ _).not_lawful hcareful hlawful
  | fetch _ hrun =>
    obtain rfl : _ = _ := congrArg Prod.snd hrun
    by_contra hcareful
    exact (fetch_ends _ _).not_lawful hcareful hlawful
  | _ => exact trivial

-- ---------------------------------------------------------------------------
-- Programs
-- ---------------------------------------------------------------------------

theorem Tidy.respects (h : Tidy s) (hown : ∀ l ∈ ls, l.OwnCode) : Respects ls s where
  dbs := h.dbs.lawful
  stmts := h.stmts.lawful
  closed _ hacquired hnone := h.dbs.toOwned.count_released hnone hacquired
  finalized _ hacquired hnone := h.stmts.toOwned.count_released hnone hacquired
  ownCode := hown

theorem run_tidy (hrun : Run (Guarded Step Careful) {} ls s) : Tidy s ∧ ∀ l ∈ ls, l.OwnCode := by
  apply hrun.history (I := fun ls s => Tidy s ∧ ∀ l ∈ ls, l.OwnCode)
  · exact ⟨tidy_empty, by simp⟩
  · rintro ls s l s' ⟨htidy, hown⟩ ⟨hstep, hcareful⟩
    refine ⟨tidy_step htidy hstep hcareful, fun l' hl' => ?_⟩
    rcases List.mem_append.mp hl' with hl' | hl'
    · exact hown l' hl'
    · rw [List.mem_singleton.mp hl']
      exact ownCode_step hstep hcareful

/-- The steps that meet the condition keep the law, and no other step does. -/
theorem handles_respected (hrun : Run (Guarded Step Careful) {} ls s) :
    Respects ls s ∧ ∀ l s', Step s l s' → (Respects (ls ++ [l]) s' ↔ Careful s l) := by
  obtain ⟨htidy, hown⟩ := run_tidy hrun
  refine ⟨htidy.respects hown, fun l s' hstep => ⟨fun hrespects => ?_, fun hcareful => ?_⟩⟩
  · exact careful_step hstep hrespects.dbs (hrespects.ownCode l (by simp))
  · obtain ⟨htidy', hown'⟩ := run_tidy (hrun.snoc ⟨hstep, hcareful⟩)
    exact htidy'.respects hown'

/-- A connection is moved and closed before its statement has been executed. -/
theorem handles_respected_moved : ∃ ls s, s.calls = [
      .openV2 "data.db" 2 (some 0), .prepareV3 0 "SELECT 1" 1 (some 0), .closeV2 (some 0),
      .statement .reset (some 0), .statement .step (some 0), .finalize 0] ∧
    Respects ls s := by
  have hrun : Run (Guarded Step Careful) {} [
      .construct (.path "data.db") [2] 0 { code := 0, handle := true } (.ok ()),
      .prepare 0 "SELECT 1" [1] 0 { code := 0, handle := true } (.ok ()),
      .moveDb 0 1, .destroyDb 0, .destroyDb 1,
      .execute 0 { code := 0 } [] { code := 100 } (.ok ()), .destroyStatement 0] _ :=
    .cons ⟨.construct rfl rfl, fun _ hcode => absurd rfl hcode⟩ <| .cons ⟨.prepare rfl rfl rfl, trivial⟩ <|
    .cons ⟨.moveDb rfl rfl, trivial⟩ <| .cons ⟨.destroyDb rfl rfl, trivial⟩ <|
    .cons ⟨.destroyDb rfl rfl, trivial⟩ <|
    .cons ⟨.execute rfl rfl, by simp [Careful, BindFails, StepFails, sqliteOk, sqliteRow]⟩ <|
    .cons ⟨.destroyStatement rfl rfl, trivial⟩ .nil
  exact ⟨_, _, rfl, (handles_respected hrun).1⟩

/-- `SQLITE_CANTOPEN`, with the handle that SQLite leaves even then. -/
theorem handles_respected_open : ¬ ∀ ls s, Run Step {} ls s → Respects ls s := by
  intro h
  have hrun : Run Step {} [.construct (.path "missing/data.db") [2] 0
      { code := 14, handle := true } (.error (.sqlite .ok))] _ := .one (.construct rfl rfl)
  have hclosed : ¬ Lawful ((openDb "missing/data.db" 2 0
      { code := 14, handle := true }).run {}).2.dbEvents :=
    openDb_not_lawful (by simp [sqliteOk]) rfl {}
  exact hclosed (h _ _ hrun).dbs

end Xutil.Db.Handles
