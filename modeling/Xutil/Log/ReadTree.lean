import Xutil.Log.CallTree

/-!
# Reading the trees of all threads

Every outlet has the records of a thread in the order of its calls, and their
texts can be read back. So the tree of each thread is there to be read, less the
scopes above the logger's level, however the threads have been interleaved.
-/

namespace Xutil.Log

open Brackets Calls Runs Scopes

variable {W H C ε σ : Type} {F : Files W H} {O : Outer C} {full : Full W H C}
  {s : Shared W H C} {ls : List (Event W)}

-- ---------------------------------------------------------------------------
-- Reading
-- ---------------------------------------------------------------------------

def Line.site (l : Line) : Site := ⟨l.level, l.filename, l.line, l.function⟩

def Line.token (l : Line) : Token Site Text := ⟨(split l.message).1, l.site, (split l.message).2⟩

/-- The scopes of a thread, from all that has been written. -/
def readTree (thread : Nat) (texts : List Text) : Option (Forest Site Text) := do
  let lines ← texts.mapM readLine
  parse ((lines.filter (·.thread = thread)).map Line.token)

-- ---------------------------------------------------------------------------
-- Lines and requests
-- ---------------------------------------------------------------------------

def Entry.Readable (e : Entry) : Prop := ∃ pos, e.pos = some pos ∧ pos.Readable

def Entry.line (e : Entry) : Option Line := e.pos.map fun pos =>
  ⟨putStamp e.time, e.level, e.thread, pos.filename, pos.line, functionLabel pos.functionName, e.message⟩

def Entry.request (e : Entry) : Option Request := e.pos.map fun pos => ⟨e.level, pos, e.message⟩

theorem mapM_readLine {es : List Entry} (h : ∀ e ∈ es, e.Readable) :
    (es.map Entry.text).mapM readLine = some (es.filterMap Entry.line) := by
  induction es with
  | nil => rfl
  | cons e es ih =>
    obtain ⟨⟨pos, hpos, hplace⟩, hes⟩ := List.forall_mem_cons.mp h
    have hread := readLine_putLine e.time e.level e.thread e.message hplace
    rw [← hpos] at hread
    have hline : e.line = some ⟨putStamp e.time, e.level, e.thread, pos.filename, pos.line,
      functionLabel pos.functionName, e.message⟩ := by rw [Entry.line, hpos]; rfl
    rw [List.map_cons, List.mapM_cons, Entry.text, hread, ih hes, List.filterMap_cons_some hline]
    rfl

theorem lines_tokens (thread : Nat) (es : List Entry) :
    ((es.filterMap Entry.line).filter (·.thread = thread)).map Line.token =
      ((ofThread thread es).filterMap Entry.request).map Request.token := by
  induction es with
  | nil => rfl
  | cons e es ih =>
    have hcons : ofThread thread (e :: es) = ofThread thread [e] ++ ofThread thread es :=
      ofThread_append thread [e] es
    rw [hcons, List.filterMap_append, List.map_append, ← ih]
    cases hpos : e.pos with
    | none => by_cases ht : e.thread = thread <;> simp [Entry.line, Entry.request, ofThread, hpos, ht]
    | some pos =>
      by_cases ht : e.thread = thread <;>
        simp [Entry.line, Entry.request, ofThread, hpos, ht, Line.token, Request.token, Line.site, site]

-- ---------------------------------------------------------------------------
-- What is asked and what is written
-- ---------------------------------------------------------------------------

def Event.called : Event W → Option Entry
  | .call e => some e
  | _ => none

/-- All calls of `log_`, whatever becomes of them. -/
def called (ls : List (Event W)) : List Entry := ls.filterMap Event.called

theorem accepted_eq_filter (level : Level) (ls : List (Event W)) :
    accepted level ls = (called ls).filter (·.record.Accepted level) := by
  induction ls with
  | nil => rfl
  | cons l ls ih =>
    cases l with
    | call e =>
      by_cases hacc : e.record.Accepted level <;>
        simp_all [accepted, called, Event.accepted, Event.called]
    | pass => exact ih
    | outside => exact ih

theorem of_mem_through (h : Run (Shared.Step F O) (.idle full) ls s) (he : e ∈ through o ls) :
    e ∈ called ls ∧ e.record.Accepted full.level := by
  have hmem : e ∈ ofThread e.thread (through o ls) := List.mem_filter.mpr ⟨he, by simp⟩
  have hacc := ((run_delivered h).through_inTurn o e.thread).subset hmem
  rw [accepted_eq_filter] at hacc
  obtain ⟨hcalled, hlevel⟩ := List.mem_filter.mp (List.mem_filter.mp hacc).1
  exact ⟨hcalled, of_decide_eq_true hlevel⟩

/-- Requests that pass both checks of `log_`. -/
def Request.passes (level : Level) (r : Request) : Bool :=
  r.level.loggable && decide (r.level.toNat ≤ level.toNat)

theorem filterMap_request_accepted (level : Level) (es : List Entry) :
    (es.filter (·.record.Accepted level)).filterMap Entry.request =
      (es.filterMap Entry.request).filter (Request.passes level) := by
  induction es with
  | nil => rfl
  | cons e es ih =>
    cases hpos : e.pos with
    | none => by_cases hacc : e.record.Accepted level <;> simp [Entry.request, hpos, hacc, ih]
    | some pos =>
      have hpasses : Request.passes level ⟨e.level, pos, e.message⟩ =
          decide (e.record.Accepted level) := by
        rw [Bool.eq_iff_iff, decide_eq_true_eq]
        simp [Request.passes, Level.loggable, Record.Accepted, Entry.record, and_assoc]
      by_cases hacc : e.record.Accepted level <;>
        simp [Entry.request, hpos, hacc, ih, hpasses]

theorem tokens_passes (level : Level) (rs : List Request) :
    (rs.filter (Request.passes level)).map Request.token =
      (tokens rs).filter fun t => decide (t.key.level.toNat ≤ level.toNat) := by
  induction rs with
  | nil => rfl
  | cons r rs ih =>
    by_cases hlog : r.level.loggable = true <;> by_cases hlevel : r.level.toNat ≤ level.toNat <;>
      simp_all [tokens, Request.passes, Request.token, site]

theorem filterMap_of_map_eq {f : α → Option β} {xs : List α} {ys : List β}
    (h : xs.map f = ys.map some) : xs.filterMap f = ys := by
  calc
    xs.filterMap f = (xs.map f).filterMap id := by rw [List.filterMap_map]; rfl
    _ = ys := by rw [h, List.filterMap_map]; simp

theorem readTree_texts {es : List Entry} (h : ∀ e ∈ es, e.Readable) (t : Nat) :
    readTree t (es.map Entry.text) =
      parse (((ofThread t es).filterMap Entry.request).map Request.token) := by
  rw [readTree, mapM_readLine h]
  exact congrArg parse (lines_tokens t es)

/-- A thread that has done what its program says. -/
structure Performs (invalid : ε) (t : Nat) (p : Program ε σ) (own : σ) (ls : List (Event W))
    (s : Shared W H C) : Prop where
  idle : s.stage t = none
  requests : (ofThread t (called ls)).map Entry.request =
    ((exec invalid p).run (.start own)).2.asked.map some

theorem tokens_through (h : Run (Shared.Step F O) (.idle full) ls s)
    (hperforms : Performs invalid t p own ls s) (o : Outlet) :
    ((ofThread t (through o ls)).filterMap Entry.request).map Request.token =
      ((callTree invalid p own []).scopes.select fun k =>
        decide (k.level.toNat ≤ full.level.toNat)).word := by
  obtain ⟨m, hrun, hran⟩ := exec_means invalid p (Thread.start own)
  obtain ⟨rs, hrs, hword⟩ := hran.asked
  have hasked : m.asked = rs := hrs
  have hprogram := hperforms.requests
  rw [hrun, hasked] at hprogram
  have hcomm : ofThread t ((called ls).filter (·.record.Accepted full.level)) =
      (ofThread t (called ls)).filter (·.record.Accepted full.level) := List.filter_comm ..
  rw [(run_delivered h).through_idle hperforms.idle o, accepted_eq_filter, hcomm,
    filterMap_request_accepted, filterMap_of_map_eq hprogram, tokens_passes, hword,
    Forest.word_select]
  rfl

/-- The scope inside is traced at a level that is not logged. -/
def nested : Program Unit Unit :=
  .tracer "a".toList .info entry
    (.tracer "b".toList .debug entry (.log .info entry ⟨"x".toList, rfl⟩ .done)
      (.setResult 0 .leaf ['7'] .done))
    .done

def entryOf (thread : Nat) (level : Level) (message : String) : Entry :=
  ⟨noon, level, thread, some entry, message.toList⟩

def delivery (named : Bool) (e : Entry) : List (Event Disk) :=
  [.call e, .pass .console e, .pass .look e, .pass (.file named) e, .pass .external e]

/-- Thread 2 writes a record in the middle of the scope. -/
def disturbed : List (Event Disk) :=
  .call (entryOf 1 .info ">>>a") :: .call (entryOf 2 .error "y") ::
    .pass .console (entryOf 2 .error "y") :: .pass .console (entryOf 1 .info ">>>a") ::
      .pass .look (entryOf 1 .info ">>>a") :: .pass (.file false) (entryOf 1 .info ">>>a") ::
        .pass .external (entryOf 1 .info ">>>a") ::
          .call (entryOf 1 .debug ">>>b") :: (delivery false (entryOf 1 .info "x") ++
            .call (entryOf 1 .debug "<<<") :: delivery false (entryOf 1 .info "<<<(7)"))

end Xutil.Log
