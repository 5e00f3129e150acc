import Xutil.Db.Rows

/-!
# Reading all rows

The loop `while (s.fetch(x)) body(x);` after an `execute` takes the rows of one
evaluation in order, though `execute` has been at the first of them already. An
evaluation without rows is over then, and the loop is about a second one.
-/

namespace Xutil.Db

open Calls

variable {DB Cur α : Type}

section
variable (E : Program DB Cur) (assign : α → Columns → α) (body : α → DB → DB)

/-- One evaluation to its end. Each row is assigned to the targets, and `body`
does to the database what it likes before the next. -/
inductive Evaluates : Cur → α → DB → List α → Option Failure → DB → Prop
  | done : E.next cur db = (.done, db') → Evaluates cur x db [] none db'
  | failed : E.next cur db = (.failed e c, db') → Evaluates cur x db [] (some e) db'
  | row : E.next cur db = (.row row cur', db₁) → assign x (columns row) = y →
      Evaluates cur' y (body y db₁) ys ending db' → Evaluates cur x db (y :: ys) ending db'

/-- The loop, with the values that the body is given and how it ends. -/
inductive Loop : Session DB Cur → α → List α → Except Exception Unit → DB → Prop
  | stop : (fetch E (assign x)).run s = (.ok none, s') → Loop s x [] (.ok ()) s'.db
  | threw : (fetch E (assign x)).run s = (.error e, s') → Loop s x [] (.error e) s'.db
  | body : (fetch E (assign x)).run s = (.ok (some y), s') →
      Loop { s' with db := body y s'.db } y ys r db' → Loop s x (y :: ys) r db'

inductive Query (args : List Value) (s : Session DB Cur) (x : α) :
    List α → Except Exception Unit → DB → Prop
  | threw : (execute E args).run s = (.error e, s') → Query args s x [] (.error e) s'.db
  | loop : (execute E args).run s = (.ok (), s') → Loop E assign body s' x xs r db' →
      Query args s x xs r db'

end

def ended : Option Failure → Except Exception Unit
  | none => .ok ()
  | some e => .error (.sqlite (fromErrorCode e.code))

variable {E : Program DB Cur} {assign : α → Columns → α} {body : α → DB → DB}
  {s s' : Session DB Cur} {cur cur' : Cur} {db db' db₁ : DB} {x : α} {xs : List α}

-- ---------------------------------------------------------------------------
-- The first step of an evaluation
-- ---------------------------------------------------------------------------

theorem evaluates_done (h : E.next cur db = (.done, db₁)) :
    Evaluates E assign body cur x db xs ending db' ↔ xs = [] ∧ ending = none ∧ db' = db₁ := by
  constructor
  · intro heval
    cases heval with
    | done h' => cases h.symm.trans h'; exact ⟨rfl, rfl, rfl⟩
    | failed h' => cases h.symm.trans h'
    | row h' => cases h.symm.trans h'
  · rintro ⟨rfl, rfl, rfl⟩
    exact .done h

theorem evaluates_failed (h : E.next cur db = (.failed e c, db₁)) :
    Evaluates E assign body cur x db xs ending db' ↔ xs = [] ∧ ending = some e ∧ db' = db₁ := by
  constructor
  · intro heval
    cases heval with
    | done h' => cases h.symm.trans h'
    | failed h' => cases h.symm.trans h'; exact ⟨rfl, rfl, rfl⟩
    | row h' => cases h.symm.trans h'
  · rintro ⟨rfl, rfl, rfl⟩
    exact .failed h

theorem evaluates_row (h : E.next cur db = (.row row cur', db₁)) :
    Evaluates E assign body cur x db xs ending db' ↔ ∃ ys, xs = assign x (columns row) :: ys ∧
      Evaluates E assign body cur' (assign x (columns row)) (body (assign x (columns row)) db₁) ys
        ending db' := by
  constructor
  · intro heval
    cases heval with
    | done h' => cases h.symm.trans h'
    | failed h' => cases h.symm.trans h'
    | row h' hy hrest =>
      cases h.symm.trans h'
      subst hy
      exact ⟨_, rfl, hrest⟩
  · rintro ⟨ys, rfl, hrest⟩
    exact .row h rfl hrest

-- ---------------------------------------------------------------------------
-- The loop
-- ---------------------------------------------------------------------------

/-- Without a pending row `fetch` takes the evaluation one step further. -/
theorem fetch_cases {read : Columns → α} (hf : s.fetch = false)
    (h : (fetch E read).run s = (r, s')) :
    (∃ row cur', E.next (s.stmt.cursor E) s.db = (.row row cur', s'.db) ∧
        r = .ok (some (read (columns row))) ∧ s'.fetch = false ∧ s'.stmt.cursor E = cur') ∨
      (E.next (s.stmt.cursor E) s.db = (.done, s'.db) ∧ r = .ok none) ∨
      ∃ e c, E.next (s.stmt.cursor E) s.db = (.failed e c, s'.db) ∧
        r = .error (.sqlite (fromErrorCode e.code)) := by
  rw [fetch_step hf] at h
  rcases hstep : (stepRow E).run s with ⟨rs, t⟩
  rw [hstep] at h
  obtain ⟨row, cur', hn, rfl, ht, hst⟩ | ⟨hn, rfl, ht, -⟩ | ⟨e, c, v, hn, rfl, -⟩ :=
    stepRow_cases hstep
  · simp only [ht, if_true] at h
    cases h
    refine .inl ⟨row, cur', hn, ?_, rfl, ?_⟩ <;> rw [hst] <;> rfl
  · simp only [ht, Bool.false_eq_true, if_false] at h
    cases h
    exact .inr (.inl ⟨hn, rfl⟩)
  · cases h
    exact .inr (.inr ⟨e, c, hn, rfl⟩)

theorem loop_evaluates (h : Loop E assign body s x xs r db') (hf : s.fetch = false) :
    ∃ ending, r = ended ending ∧
      Evaluates E assign body (s.stmt.cursor E) x s.db xs ending db' := by
  induction h with
  | stop hfetch =>
    obtain ⟨_, _, _, hr, _⟩ | ⟨hn, _⟩ | ⟨_, _, _, hr⟩ := fetch_cases hf hfetch
    · cases hr
    · exact ⟨none, rfl, .done hn⟩
    · cases hr
  | threw hfetch =>
    obtain ⟨_, _, _, hr, _⟩ | ⟨_, hr⟩ | ⟨e, c, hn, hr⟩ := fetch_cases hf hfetch
    · cases hr
    · cases hr
    · cases hr
      exact ⟨some e, rfl, .failed hn⟩
  | body hfetch _ ih =>
    obtain ⟨row, cur', hn, hr, hf', rfl⟩ | ⟨_, hr⟩ | ⟨_, _, _, hr⟩ := fetch_cases hf hfetch
    · cases hr
      obtain ⟨ending, hended, hrest⟩ := ih hf'
      exact ⟨ending, hended, .row hn rfl hrest⟩
    · cases hr
    · cases hr

theorem evaluates_loop (h : Evaluates E assign body cur x db xs ending db')
    (hf : s.fetch = false) (hcur : s.stmt.cursor E = cur) (hdb : s.db = db) :
    Loop E assign body s x xs (ended ending) db' := by
  induction h generalizing s with
  | @done cur db db' x h =>
    rcases hfetch : (fetch E (assign x)).run s with ⟨r, s'⟩
    subst hcur hdb
    obtain ⟨_, _, hn, _⟩ | ⟨hn, rfl⟩ | ⟨_, _, hn, _⟩ := fetch_cases hf hfetch <;>
      cases hn.symm.trans h
    exact .stop hfetch
  | @failed cur db e c db' x h =>
    rcases hfetch : (fetch E (assign x)).run s with ⟨r, s'⟩
    subst hcur hdb
    obtain ⟨_, _, hn, _⟩ | ⟨hn, _⟩ | ⟨_, _, hn, rfl⟩ := fetch_cases hf hfetch <;>
      cases hn.symm.trans h
    exact .threw hfetch
  | @row cur db row cur' db₁ x y ys ending db' h hy _ ih =>
    rcases hfetch : (fetch E (assign x)).run s with ⟨r, s'⟩
    subst hcur hdb
    obtain ⟨_, _, hn, rfl, hf', hcur'⟩ | ⟨hn, _⟩ | ⟨_, _, hn, _⟩ := fetch_cases hf hfetch <;>
      cases hn.symm.trans h
    subst hy
    exact .body hfetch (ih hf' hcur' rfl)

theorem loop_iff (hf : s.fetch = false) : Loop E assign body s x xs r db' ↔
    ∃ ending, r = ended ending ∧
      Evaluates E assign body (s.stmt.cursor E) x s.db xs ending db' := by
  constructor
  · intro h
    exact loop_evaluates h hf
  · rintro ⟨ending, rfl, h⟩
    exact evaluates_loop h hf rfl rfl

theorem loop_pending (hf : s.fetch = true) : Loop E assign body s x xs r db' ↔
    ∃ ys, xs = assign x s.stmt.column :: ys ∧
      Loop E assign body { s with fetch := false, db := body (assign x s.stmt.column) s.db }
        (assign x s.stmt.column) ys r db' := by
  constructor
  · intro h
    cases h with
    | stop hfetch => cases (fetch_pending hf).symm.trans hfetch
    | threw hfetch => cases (fetch_pending hf).symm.trans hfetch
    | body hfetch hrest =>
      cases (fetch_pending hf).symm.trans hfetch
      exact ⟨_, rfl, hrest⟩
  · rintro ⟨ys, rfl, hrest⟩
    exact .body (fetch_pending hf) hrest

-- ---------------------------------------------------------------------------
-- The whole query
-- ---------------------------------------------------------------------------

theorem query_iff_loop (h : (execute E args).run s = (.ok (), s')) :
    Query E assign body args s x xs r db' ↔ Loop E assign body s' x xs r db' := by
  constructor
  · intro hquery
    cases hquery with
    | threw h' => cases h.symm.trans h'
    | loop h' hloop => cases h.symm.trans h'; exact hloop
  · exact .loop h

theorem query_threw (h : (execute E args).run s = (.error e, s')) :
    Query E assign body args s x xs r db' ↔ xs = [] ∧ r = .error e ∧ db' = s'.db := by
  constructor
  · intro hquery
    cases hquery with
    | threw h' => cases h.symm.trans h'; exact ⟨rfl, rfl, rfl⟩
    | loop h' => cases h.symm.trans h'
  · rintro ⟨rfl, rfl, rfl⟩
    exact .threw h

/-- `execute` and the loop give all rows of one evaluation to the body, in
order, and end as it does. If it has none and does not fail, they do so for the
evaluation that the first `fetch` then starts. -/
theorem query_reads (hreset : (sqlite3Reset E s.stmt s.db).1 = sqliteOk) (hbinds : E.Binds 1 args) :
    let reads := Evaluates E assign body (E.start (bindAll 1 args s.stmt.vars)) x
    Query E assign body args s x xs r db' ↔ ∃ ending, r = ended ending ∧
      ((xs ≠ [] ∨ ending ≠ none) ∧ reads (s.rewound E).db xs ending db' ∨
        ∃ db₁, reads (s.rewound E).db [] none db₁ ∧ reads db₁ xs ending db') := by
  intro reads
  rcases hexecute : (execute E args).run s with ⟨re, t⟩
  obtain ⟨hno, -⟩ | ⟨-, hno, -⟩ | ⟨-, -, hstep⟩ := execute_cases hexecute
  · exact absurd hreset hno
  · exact absurd hbinds hno
  obtain ⟨row, cur', hn, rfl, ht, hst⟩ | ⟨hn, rfl, ht, hst⟩ | ⟨e, c, v, hn, rfl, -⟩ :=
    stepRow_cases hstep
  · have hcol : t.stmt.column = columns row := by rw [hst]; rfl
    have hcur : t.stmt.cursor E = cur' := by rw [hst]; rfl
    rw [query_iff_loop hexecute, loop_pending ht, hcol]
    replace hn : E.next (E.start (bindAll 1 args s.stmt.vars)) (s.rewound E).db =
      (.row row cur', t.db) := hn
    simp only [reads, evaluates_row hn, loop_iff]
    constructor
    · rintro ⟨ys, rfl, ending, rfl, hrest⟩
      exact ⟨ending, rfl, .inl ⟨.inl (by simp), ys, rfl, hcur ▸ hrest⟩⟩
    · rintro ⟨ending, rfl, ⟨-, ys, rfl, hrest⟩ | ⟨_, ⟨_, hnil, -⟩, -⟩⟩
      · exact ⟨ys, rfl, ending, rfl, hcur.symm ▸ hrest⟩
      · cases hnil
  · have hcur : t.stmt.cursor E = E.start (bindAll 1 args s.stmt.vars) := by rw [hst]; rfl
    rw [query_iff_loop hexecute, loop_iff ht, hcur]
    replace hn : E.next (E.start (bindAll 1 args s.stmt.vars)) (s.rewound E).db =
      (.done, t.db) := hn
    simp only [reads, evaluates_done hn, true_and, exists_eq_left]
    constructor
    · rintro ⟨ending, rfl, hrest⟩
      exact ⟨ending, rfl, .inr hrest⟩
    · rintro ⟨ending, rfl, ⟨hne, rfl, rfl, -⟩ | hrest⟩
      · simp at hne
      · exact ⟨ending, rfl, hrest⟩
  · rw [query_threw hexecute]
    replace hn : E.next (E.start (bindAll 1 args s.stmt.vars)) (s.rewound E).db =
      (.failed e c, t.db) := hn
    simp only [reads, evaluates_failed hn]
    constructor
    · rintro ⟨rfl, rfl, rfl⟩
      exact ⟨some e, rfl, .inl ⟨.inr (by simp), rfl, rfl, rfl⟩⟩
    · rintro ⟨ending, rfl, ⟨-, rfl, rfl, rfl⟩ | ⟨_, ⟨-, hnone, -⟩, -⟩⟩
      · exact ⟨rfl, rfl, rfl⟩
      · cases hnone

/-- Two rows, and a statement that has been executed before. -/
theorem query_reads_two : Query (selectRows 2) (fun _ row => row 0) (fun _ db => db) []
    ⟨⟨{ vdbe := .halt none }, false⟩, ()⟩ .null [.integer 1, .integer 0] (.ok ()) () :=
  (query_reads rfl ⟨by decide, by simp⟩).mpr
    ⟨none, rfl, .inl ⟨.inl (by simp), .row rfl rfl (.row rfl rfl (.done rfl))⟩⟩

end Xutil.Db
