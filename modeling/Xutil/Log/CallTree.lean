import Xutil.Log.Tracer

/-!
# The log reads back as the call tree

Every tracer that has been constructed is destroyed once, after those inside of
it, so what a program asks the logger to write is bracketed. Its destructor does
not throw: the constructor would have.
-/

namespace Xutil.Log

open Brackets Calls Runs Scopes

variable {ε σ : Type} {invalid : ε}

-- ---------------------------------------------------------------------------
-- Tracers outlive what is inside
-- ---------------------------------------------------------------------------

/-- What does not change of the tracers that live. -/
def spine (frames : List Frame) : List (Position × Level) := frames.map fun f => (f.pos, f.level)

theorem spine_setFrame (tracer : Nat) (result : Text) (frames : List Frame) :
    spine (setFrame tracer result frames) = spine frames := by
  induction frames generalizing tracer with
  | nil => simp [setFrame]
  | cons frame frames ih =>
    cases tracer with
    | zero => rfl
    | succ tracer => exact congrArg ((frame.pos, frame.level) :: ·) (ih tracer)

theorem spine_andThen {c : CallTree ε σ} {next : σ → List Frame → CallTree ε σ}
    (hnext : ∀ own frames, spine (next own frames).frames = spine frames) :
    spine (c.andThen next).frames = spine c.frames := by
  unfold CallTree.andThen
  split
  · exact hnext ..
  · rfl

theorem spine_within (site : Site) (message : Text) (c : CallTree ε σ) :
    spine (c.within site message).frames = (spine c.frames).tail := by
  simp [CallTree.within, spine]

theorem spine_callTree (p : Program ε σ) (own : σ) (frames : List Frame) :
    spine (callTree invalid p own frames).frames = spine frames := by
  induction p generalizing own frames with
  | done => rfl
  | throw => rfl
  | act f next ih => exact ih ..
  | choose next ih => exact ih ..
  | log level pos message next ih =>
    unfold callTree
    split
    · exact ih ..
    · rfl
  | tracer message level pos body next ihBody ihNext =>
    unfold callTree
    split
    · rw [spine_andThen ihNext, spine_within, ihBody]
      rfl
    · rfl
  | trace tracer ts args next ih =>
    unfold callTree
    split
    · exact ih ..
    · split
      · exact ih ..
      · rfl
  | setResult tracer t result next ih => exact (ih ..).trans (spine_setFrame ..)
  | tryCatch body handler next ihBody ihHandler ihNext =>
    rw [callTree, spine_andThen ihNext, CallTree.orElse]
    split
    · exact ihBody ..
    · rw [spine_andThen (ihHandler _)]
      exact ihBody ..
  | guarded id procedure body next ihProcedure ihBody ihNext =>
    rw [callTree, spine_andThen ihNext]
    exact (ihProcedure ..).trans (ihBody ..)

-- ---------------------------------------------------------------------------
-- A run and its tree
-- ---------------------------------------------------------------------------

def Request.token (r : Request) : Token Site Text :=
  ⟨(split r.message).1, site r.level r.pos, (split r.message).2⟩

/-- The marks of what is not refused. -/
def tokens (rs : List Request) : List (Token Site Text) :=
  (rs.filter (·.level.loggable)).map Request.token

@[simp] theorem tokens_append (rs rs' : List Request) : tokens (rs ++ rs') = tokens rs ++ tokens rs' := by
  simp [tokens]

/-- What has been asked for is the word of the tree, and the handlers of
`finally_t` have been set and run in brackets too. -/
structure Ran (c : CallTree ε σ) (m m' : Thread σ) : Prop where
  own : m'.own = c.own
  frames : m'.frames = c.frames
  asked : ∃ rs, m'.asked = m.asked ++ rs ∧ tokens rs = c.scopes.word
  handlers : ∃ f : Forest Nat Unit, m'.handlers = m.handlers ++ f.word

def Means (a : Call (Stop ε) (Thread σ) Unit) (tree : σ → List Frame → CallTree ε σ) : Prop :=
  ∀ m, ∃ m', a.run m = (caught (tree m.own m.frames).outcome, m') ∧ Ran (tree m.own m.frames) m m'

variable {a b : Call (Stop ε) (Thread σ) Unit} {c d : CallTree ε σ} {m m' m₁ m₂ : Thread σ}
  {u : σ → List Frame → CallTree ε σ}

theorem Ran.ends (m : Thread σ) : Ran (.ends m.own m.frames : CallTree ε σ) m m :=
  ⟨rfl, rfl, ⟨[], by simp, rfl⟩, ⟨.nil, by simp [Forest.word]⟩⟩

theorem Ran.throws (e : ε) (m : Thread σ) : Ran (.throws e m.own m.frames) m m :=
  ⟨rfl, rfl, ⟨[], by simp, rfl⟩, ⟨.nil, by simp [Forest.word]⟩⟩

theorem Ran.trans (h : Ran c m m₁) (h' : Ran d m₁ m₂) :
    Ran { d with scopes := c.scopes ++ d.scopes } m m₂ := by
  obtain ⟨rs, hrs, hword⟩ := h.asked
  obtain ⟨rs', hrs', hword'⟩ := h'.asked
  obtain ⟨f, hf⟩ := h.handlers
  obtain ⟨f', hf'⟩ := h'.handlers
  refine ⟨h'.own, h'.frames, ⟨rs ++ rs', ?_, ?_⟩, ⟨f ++ f', ?_⟩⟩
  · rw [hrs', hrs, List.append_assoc]
  · rw [tokens_append, hword, hword', Forest.word_append]
  · rw [hf', hf, Forest.word_append, List.append_assoc]

/-- What comes after a part that has run. -/
theorem run_andThen (hrun : a.run m' = (caught c.outcome, m₁)) (hran : Ran c m m₁) (hb : Means b u) :
    ∃ m₂, (a >>= fun _ => b).run m' = (caught (c.andThen u).outcome, m₂) ∧
      Ran (c.andThen u) m m₂ := by
  cases hout : c.outcome with
  | error e =>
    rw [hout] at hrun
    refine ⟨m₁, ?_, ?_⟩ <;> simp only [CallTree.andThen, hout]
    · exact Call.run_bind_error hrun
    · exact hran
  | ok _ =>
    rw [hout] at hrun
    obtain ⟨m₂, hrun₂, hran₂⟩ := hb m₁
    rw [hran.own, hran.frames] at hrun₂ hran₂
    refine ⟨m₂, ?_, ?_⟩ <;> simp only [CallTree.andThen, hout]
    · rw [Call.run_bind_ok hrun]
      exact hrun₂
    · exact hran.trans hran₂

theorem run_orElse {handler : ε → Call (Stop ε) (Thread σ) Unit}
    {tree : ε → σ → List Frame → CallTree ε σ} (hrun : a.run m' = (caught c.outcome, m₁))
    (hran : Ran c m m₁) (hhandler : ∀ e, Means (handler e) (tree e)) :
    ∃ m₂, (catching a handler).run m' = (caught (c.orElse tree).outcome, m₂) ∧
      Ran (c.orElse tree) m m₂ := by
  cases hout : c.outcome with
  | ok _ =>
    rw [hout] at hrun
    refine ⟨m₁, ?_, ?_⟩ <;> simp only [CallTree.orElse, hout]
    · exact run_catching_ok hrun
    · exact hran
  | error e =>
    rw [hout] at hrun
    obtain ⟨m₂, hrun₂, hran₂⟩ := hhandler e m₁
    rw [hran.own, hran.frames] at hrun₂ hran₂
    refine ⟨m₂, ?_, ?_⟩ <;> simp only [CallTree.orElse, CallTree.andThen, hout]
    · rw [run_catching_thrown hrun]
      exact hrun₂
    · exact hran.trans hran₂

-- ---------------------------------------------------------------------------
-- The parts of a program
-- ---------------------------------------------------------------------------

theorem run_ask (h : r.level.loggable = true) (m : Thread σ) :
    (ask invalid r).run m = (.ok (), { m with asked := m.asked ++ [r] }) := by
  simp [ask, Call.run_bind, h]

theorem run_ask_refused (h : r.level.loggable = false) (m : Thread σ) :
    (ask invalid r).run m = (.error (.thrown invalid), { m with asked := m.asked ++ [r] }) := by
  simp [ask, Call.run_bind, h]

theorem ran_refused (h : r.level.loggable = false) (m : Thread σ) :
    Ran (.throws invalid m.own m.frames) m { m with asked := m.asked ++ [r] } :=
  ⟨rfl, rfl, ⟨[r], rfl, by simp [tokens, h, CallTree.throws, Forest.word]⟩,
    ⟨.nil, by simp [Forest.word]⟩⟩

/-- One more record, and then what `b` does. -/
theorem run_asked (invalid : ε) (h : r.level.loggable = true)
    (hnote : (split r.message).1 = .note) (hb : Means b u) (m : Thread σ) :
    ∃ m', (ask invalid r >>= fun _ => b).run m = (caught (u m.own m.frames).outcome, m') ∧
      Ran ((u m.own m.frames).note (site r.level r.pos) (split r.message).2) m m' := by
  obtain ⟨m', hrun, hran⟩ := hb { m with asked := m.asked ++ [r] }
  refine ⟨m', by rw [Call.run_bind_ok (run_ask h m)]; exact hrun, hran.own, hran.frames, ?_,
    hran.handlers⟩
  obtain ⟨rs, hrs, hword⟩ := hran.asked
  refine ⟨r :: rs, by simp [hrs], ?_⟩
  have htokens : tokens (r :: rs) = r.token :: tokens rs := by simp [tokens, h]
  rw [htokens, hword, Request.token, hnote]
  rfl

theorem split_plain (message : Plain) : split message.val = (Mark.note, message.val) := by
  refine Prod.ext message.property ?_
  have hplain := message.property
  unfold split at hplain ⊢
  split at hplain
  · cases hplain
  · cases hplain
  · rfl

theorem run_popFrame (invalid : ε) (h : m.frames = frame :: frames)
    (hlevel : frame.level.loggable = true) :
    (popFrame invalid).run m = (.ok (), { m with
      frames, asked := m.asked ++ [⟨frame.level, frame.pos, "<<<".toList ++ frame.result⟩] }) := by
  rw [popFrame, Call.run_bind_ok (Call.run_get m), h]
  rw [Call.run_bind_ok (Call.run_modify ..), run_ask hlevel]

theorem run_traceFrame (invalid : ε) (m : Thread σ) (tracer : Nat) (message : Text) :
    (traceFrame invalid tracer message).run m = match m.frames[tracer]? with
      | none => (.ok (), m)
      | some frame => (ask invalid ⟨frame.level, frame.pos, "---".toList ++ message⟩).run m := by
  rw [traceFrame, Call.run_bind_ok (Call.run_get m)]
  cases m.frames[tracer]? <;> rfl

/-- A tracer around a part that has run. -/
theorem run_within (hlevel : level.loggable = true)
    (hbody : a.run { m with asked := m.asked ++ [⟨level, pos, ">>>".toList ++ message⟩]
                            frames := ⟨pos, level, []⟩ :: m.frames } = (caught c.outcome, m₁))
    (hran : Ran c { m with asked := m.asked ++ [⟨level, pos, ">>>".toList ++ message⟩]
                           frames := ⟨pos, level, []⟩ :: m.frames } m₁)
    (hspine : spine c.frames = (pos, level) :: spine m.frames) :
    ∃ m₂, (onExit a (popFrame invalid)).run
        { m with asked := m.asked ++ [⟨level, pos, ">>>".toList ++ message⟩]
                 frames := ⟨pos, level, []⟩ :: m.frames } = (caught c.outcome, m₂) ∧
      Ran (c.within (site level pos) message) m m₂ := by
  obtain ⟨frame, frames, hframes⟩ : ∃ frame frames, c.frames = frame :: frames := by
    cases hc : c.frames with
    | nil => simp [hc, spine] at hspine
    | cons frame frames => exact ⟨frame, frames, rfl⟩
  rw [hframes] at hspine
  obtain ⟨hframe, -⟩ := List.cons.inj hspine
  obtain ⟨rfl, rfl⟩ := Prod.mk.inj hframe
  have hpop := run_popFrame invalid (hran.frames.trans hframes) hlevel
  refine ⟨_, run_onExit hbody hpop, hran.own, by simp [CallTree.within, hframes], ?_, hran.handlers⟩
  obtain ⟨rs, hrs, hword⟩ := hran.asked
  refine ⟨⟨frame.level, frame.pos, ">>>".toList ++ message⟩ :: rs ++
    [⟨frame.level, frame.pos, "<<<".toList ++ frame.result⟩], by simp [hrs], ?_⟩
  simp [CallTree.within, Forest.word, hframes, ← hword, tokens, hlevel, Request.token, split]

/-- A handler around a part that has run. -/
theorem run_guarded (hbody : a.run { m with handlers := m.handlers ++ [⟨.enter, n, ()⟩] } =
      (caught c.outcome, m₁))
    (hran : Ran c { m with handlers := m.handlers ++ [⟨.enter, n, ()⟩] } m₁) (hb : Means b u) :
    ∃ m₂, (onExit a (do noteHandler .leave n; swallow b)).run
        { m with handlers := m.handlers ++ [⟨.enter, n, ()⟩] } = (caught c.outcome, m₂) ∧
      Ran (c.inAnyCase u) m m₂ := by
  obtain ⟨m₂, hrun, hran₂⟩ := hb { m₁ with handlers := m₁.handlers ++ [⟨.leave, n, ()⟩] }
  refine ⟨m₂, run_onExit hbody (run_swallow hrun), ?_⟩
  rw [hran.own, hran.frames] at hran₂
  refine ⟨hran₂.own, hran₂.frames, ?_, ?_⟩
  · obtain ⟨rs, hrs, hword⟩ := hran.asked
    obtain ⟨rs', hrs', hword'⟩ := hran₂.asked
    refine ⟨rs ++ rs', by rw [hrs', hrs, List.append_assoc], ?_⟩
    rw [tokens_append, hword, hword', ← Forest.word_append]
    rfl
  · obtain ⟨f, hf⟩ := hran.handlers
    obtain ⟨f', hf'⟩ := hran₂.handlers
    refine ⟨.scope n () f () f', ?_⟩
    simp [hf', hf, Forest.word]

/-- The run of a program is what it means. In particular it never ends by an
exception of a destructor. -/
theorem exec_means (invalid : ε) (p : Program ε σ) : Means (exec invalid p) (callTree invalid p) := by
  induction p with
  | done => exact fun m => ⟨m, rfl, .ends m⟩
  | throw e => exact fun m => ⟨m, rfl, .throws e m⟩
  | act f next ih => 
    intro m
    obtain ⟨m', hrun, hran⟩ := ih { m with own := f m.own }
    exact ⟨m', hrun, hran.own, hran.frames, hran.asked, hran.handlers⟩
  | choose next ih => exact fun m => ih m.own m
  | log level pos message next ih =>
    intro m
    cases hlevel : level.loggable with
    | false =>
      simp only [callTree, hlevel, Bool.false_eq_true, if_false]
      exact ⟨_, Call.run_bind_error (run_ask_refused hlevel m), ran_refused hlevel m⟩
    | true =>
      simp only [callTree, hlevel, if_true]
      have hplain := split_plain message
      have hnote := run_asked invalid (r := ⟨level, pos, message⟩) hlevel
        (congrArg Prod.fst hplain) ih m
      rw [congrArg Prod.snd hplain] at hnote
      exact hnote
  | tracer message level pos body next ihBody ihNext =>
    intro m
    cases hlevel : level.loggable with
    | false =>
      simp only [callTree, hlevel, Bool.false_eq_true, if_false]
      exact ⟨_, Call.run_bind_error (run_ask_refused hlevel m), ran_refused hlevel m⟩
    | true =>
      simp only [callTree, hlevel, if_true]
      obtain ⟨m₁, hbody, hran⟩ := ihBody { m with
        asked := m.asked ++ [⟨level, pos, ">>>".toList ++ message⟩]
        frames := ⟨pos, level, []⟩ :: m.frames }
      obtain ⟨m₂, hwithin, hran₂⟩ := run_within hlevel hbody hran (spine_callTree ..)
      rw [exec, Call.run_bind_ok (run_ask hlevel m), pushFrame,
        Call.run_bind_ok (Call.run_modify ..)]
      exact run_andThen hwithin hran₂ ihNext
  | trace tracer ts args next ih =>
    intro m
    have htrace := run_traceFrame invalid m tracer (cat ts args).toList
    cases hframe : m.frames[tracer]? with
    | none =>
      rw [hframe] at htrace
      simp only [callTree, hframe]
      rw [exec, Call.run_bind_ok htrace]
      exact ih m
    | some frame =>
      rw [hframe] at htrace
      cases hlevel : frame.level.loggable with
      | false =>
        simp only [callTree, hframe, hlevel, Bool.false_eq_true, if_false]
        exact ⟨_, Call.run_bind_error (htrace.trans (run_ask_refused hlevel m)),
          ran_refused hlevel m⟩
      | true =>
        simp only [callTree, hframe, hlevel, if_true]
        rw [exec, Call.run_bind, htrace, ← Call.run_bind]
        exact run_asked invalid hlevel rfl ih m
  | setResult tracer t result next ih =>
    intro m
    obtain ⟨m', hrun, hran⟩ := ih { m with
      frames := setFrame tracer (enclose [t] result).toList m.frames }
    exact ⟨m', hrun, hran.own, hran.frames, hran.asked, hran.handlers⟩
  | tryCatch body handler next ihBody ihHandler ihNext =>
    intro m
    obtain ⟨m₁, hrun, hran⟩ := ihBody m
    obtain ⟨m₂, hcatching, hran₂⟩ := run_orElse hrun hran ihHandler
    exact run_andThen hcatching hran₂ ihNext
  | guarded id procedure body next ihProcedure ihBody ihNext =>
    intro m
    obtain ⟨m₁, hrun, hran⟩ := ihBody { m with
      handlers := m.handlers ++ [⟨.enter, id, ()⟩] }
    obtain ⟨m₂, hguarded, hran₂⟩ := run_guarded hrun hran ihProcedure
    rw [exec, noteHandler, Call.run_bind_ok (Call.run_modify ..)]
    exact run_andThen hguarded hran₂ ihNext

def Thread.start (own : σ) : Thread σ := ⟨own, [], [], []⟩

/-- However a program ends, each handler it has set with `finally_t`, on a
procedure that outlives it, has run once, the last one first. How it ends does
not depend on what they throw. -/
theorem handlers_run (invalid : ε) (p : Program ε σ) (own : σ) :
    ∃ m, (exec invalid p).run (.start own) = (caught (callTree invalid p own []).outcome, m) ∧
      (∃ f, parse m.handlers = some f) ∧
      (∀ n, m.handlers.countP (fun t => t.mark = .enter ∧ t.key = n) =
        m.handlers.countP (fun t => t.mark = .leave ∧ t.key = n)) ∧
      m.frames = [] := by
  obtain ⟨m, hrun, hran⟩ := exec_means invalid p (Thread.start own)
  obtain ⟨f, hf⟩ := hran.handlers
  have hword : m.handlers = f.word := hf
  have hspine : spine m.frames = [] := by rw [hran.frames]; exact spine_callTree ..
  refine ⟨m, hrun, ⟨f, hword ▸ parse_word f⟩, fun n => ?_, List.map_eq_nil_iff.mp hspine⟩
  rw [hword]
  exact f.countP_word n

end Xutil.Log
