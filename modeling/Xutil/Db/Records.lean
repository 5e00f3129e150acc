import Xutil.Db.Filled
import Xutil.Db.Loop

/-!
# Records

One `execute` inserts a record, and the loop reads the table into targets of the
same types. What comes out is what went in. The two SQL texts are parameters:
all that is asked of them is that they append a row and yield the rows.
-/

namespace Xutil.Db

open Calls

variable {DB Cur : Type}

/-- Arguments of `execute` or targets of `fetch`, with their types. -/
abbrev Record := List ((T : Ty) × T.Val)

def arguments (record : Record) : List Value := record.map fun field => field.1.bind field.2

/-- `INSERT INTO t VALUES (?, ..., ?)`. The columns store any value as it is. -/
structure Inserts (E : Program DB Cur) (table : DB → List (List Value)) (n : Nat) : Prop where
  nVar : E.nVar = n
  next : ∀ vars db, ∃ db', E.next (E.start vars) db = (.done, db') ∧
    table db' = table db ++ [(List.range n).map fun i => vars (i + 1)]

/-- `SELECT * FROM t ORDER BY rowid` -/
def Selects (E : Program DB Cur) (table : DB → List (List Value)) : Prop :=
  ∀ vars seen db, ∃ db', table db' = table db ∧
    Evaluates E (fun _ row => row) (fun _ db => db) (E.start vars) seen db
      ((table db).map columns) none db'

/-- `for (auto const& r : records) s.execute(r...);` -/
def insertAll (E : Program DB Cur) : List Record → Call Exception (Session DB Cur) Unit
  | [] => pure ()
  | record :: records => do
    execute E (arguments record)
    insertAll E records

-- ---------------------------------------------------------------------------
-- Writing
-- ---------------------------------------------------------------------------

variable {E : Program DB Cur} {table : DB → List (List Value)}

theorem bindAll_range (args : List Value) (vars : Nat → Value) :
    ((List.range args.length).map fun i => bindAll 1 args vars (i + 1)) = args := by
  refine List.ext_getElem (by simp) fun i _ hi => ?_
  simp [bindAll_apply, hi]

/-- A statement that a reset finds nothing to report about. -/
def Quiet (st : Stmt Cur) : Prop := st.vdbe = .ready ∨ st.vdbe = .halt none

theorem Quiet.reset {s : Session DB Cur} (h : Quiet s.stmt) :
    (sqlite3Reset E s.stmt s.db).1 = sqliteOk ∧ (s.rewound E).db = s.db := by
  rcases h with h | h <;> simp [Session.rewound, sqlite3Reset, h, resultCode]

theorem execute_inserts (hins : Inserts E table n) {s : Session DB Cur} (hquiet : Quiet s.stmt)
    (hlength : args.length = n) (hadmits : ∀ v ∈ args, E.admits v = none) :
    ∃ s', (execute E args).run s = (.ok (), s') ∧ Quiet s'.stmt ∧
      table s'.db = table s.db ++ [args] := by
  have hbinds : E.Binds 1 args := ⟨by simp [hlength, hins.nVar, Nat.add_comm], hadmits⟩
  rcases hexecute : (execute E args).run s with ⟨r, t⟩
  obtain ⟨hno, -⟩ | ⟨-, hno, -⟩ | ⟨-, -, hstep⟩ := execute_cases hexecute
  · exact absurd hquiet.reset.1 hno
  · exact absurd hbinds hno
  obtain ⟨db', hdone, htable⟩ := hins.next (bindAll 1 args s.stmt.vars) (s.rewound E).db
  rw [hquiet.reset.2, ← hlength, bindAll_range] at htable
  obtain ⟨_, _, hn, -⟩ | ⟨hn, rfl, -, hst⟩ | ⟨_, _, _, hn, -⟩ := stepRow_cases hstep <;>
    cases hn.symm.trans hdone
  exact ⟨t, rfl, .inr (by rw [hst]), htable⟩

theorem insertAll_inserts (hins : Inserts E table n) {s : Session DB Cur} (hquiet : Quiet s.stmt)
    {records : List Record} (h : ∀ record ∈ records,
      record.length = n ∧ ∀ v ∈ arguments record, E.admits v = none) :
    ∃ s', (insertAll E records).run s = (.ok (), s') ∧
      table s'.db = table s.db ++ records.map arguments := by
  induction records generalizing s with
  | nil => exact ⟨s, rfl, by simp⟩
  | cons record records ih =>
    obtain ⟨⟨hlength, hadmits⟩, hrest⟩ := List.forall_mem_cons.mp h
    have hargs : (arguments record).length = n := by simpa [arguments] using hlength
    obtain ⟨t, hexecute, ht, htable⟩ := execute_inserts hins hquiet hargs hadmits
    obtain ⟨u, hrun, hu⟩ := ih ht hrest
    refine ⟨u, (Call.run_bind_ok hexecute).trans hrun, ?_⟩
    rw [hu, htable, List.append_assoc]
    rfl

-- ---------------------------------------------------------------------------
-- Reading
-- ---------------------------------------------------------------------------

/-- What the targets are after each row. -/
def assigned (assign : α → Columns → α) (x : α) : List Columns → List α
  | [] => []
  | row :: rows => assign x row :: assigned assign (assign x row) rows

/-- Any targets can be assigned the rows of an evaluation. -/
theorem Evaluates.assign {cur : Cur} {seen : Columns}
    (h : Evaluates E (fun _ row => row) (fun _ db => db) cur seen db rows ending db')
    (assign : α → Columns → α) (x : α) :
    Evaluates E assign (fun _ db => db) cur x db (assigned assign x rows) ending db' := by
  induction h generalizing x with
  | done h => exact .done h
  | failed h => exact .failed h
  | row h hy _ ih =>
    subst hy
    exact .row h rfl (ih _)

/-- The variable has the value of the field, as it is kept. -/
def Holds (field : (T : Ty) × T.Val) (x : Variable Ty.Val) : Prop :=
  ∃ v, x = ⟨field.1, some v⟩ ∧ field.1.Kept field.2 v

theorem holds_column (C : Conversion) {field : (T : Ty) × T.Val} (hshort : field.1.Short field.2)
    {x : Variable Ty.Val} (htype : x.type = field.1)
    (hvalue : x.value = some (Ty.column C x.type (field.1.bind field.2))) : Holds field x := by
  obtain ⟨T, value⟩ := x
  obtain ⟨_, v⟩ := field
  cases htype
  replace hvalue : value = some (T.column C (T.bind v)) := hvalue
  subst hvalue
  exact ⟨_, rfl, (bound_reads_back C T hshort).1⟩

theorem holds_filled (C : Conversion) (before : List Value) {record : Record}
    {xs : List (Variable Ty.Val)}
    (hfilled : FilledFrom (Ty.column C) (columns (before ++ arguments record)) before.length xs)
    (htypes : xs.map (·.type) = record.map (·.1))
    (hshort : ∀ field ∈ record, field.1.Short field.2) : List.Forall₂ Holds record xs := by
  induction record generalizing before xs with
  | nil =>
    rw [List.map_eq_nil_iff.mp htypes]
    exact .nil
  | cons field record ih =>
    obtain ⟨x, xs, rfl, hx, hxs⟩ := List.map_eq_cons_iff.mp htypes
    obtain ⟨hvalue, hrest⟩ := filledFrom_cons.mp hfilled
    obtain ⟨hfield, hfields⟩ := List.forall_mem_cons.mp hshort
    have hcolumn : columns (before ++ arguments (field :: record)) before.length =
        field.1.bind field.2 := by simp [columns, arguments]
    rw [hcolumn] at hvalue
    refine .cons (holds_column C hfield hx hvalue) 
      (ih (before ++ [field.1.bind field.2]) ?_ hxs hfields)
    simpa [arguments] using hrest

theorem assigned_holds (C : Conversion) {records : List Record} {targets : List (Target Ty.Val)}
    (hfillable : Fillable (targets.map Target.shape))
    (h : ∀ record ∈ records, (leaves targets).map (·.type) = record.map (·.1) ∧
      ∀ field ∈ record, field.1.Short field.2) :
    List.Forall₂ (fun record after => List.Forall₂ Holds record (leaves after)) records
      (assigned (fun targets row => column (Ty.column C) row 0 targets) targets
        ((records.map arguments).map columns)) := by
  induction records generalizing targets with
  | nil => exact .nil
  | cons record records ih =>
    obtain ⟨⟨htypes, hshort⟩, hrest⟩ := List.forall_mem_cons.mp h
    have hleaves :
        (leaves (column (Ty.column C) (columns (arguments record)) 0 targets)).map (·.type) =
          (leaves targets).map (·.type) := by
      rw [leaves_types, leaves_types, column_shape]
    refine .cons (holds_filled C [] (column_filled hfillable)
      (hleaves.trans htypes) hshort) (ih ?_ ?_)
    · rwa [column_shape]
    · rwa [hleaves]

-- ---------------------------------------------------------------------------
-- Both
-- ---------------------------------------------------------------------------

variable {Cur' : Type} {ins : Program DB Cur} {sel : Program DB Cur'} {x : α} {xs : List α}

theorem query_selects {assign : α → Columns → α} (hsel : Selects sel table) (db : DB)
    (hxs : xs = assigned assign x ((table db).map columns)) : ∃ db',
      Query sel assign (fun _ db => db) [] { prepared with db } x xs (.ok ()) db' := by
  obtain ⟨db₁, htable, hfirst⟩ := hsel (fun _ => .null) (fun _ => .null) db
  have hreads := hfirst.assign assign x
  have hbinds : sel.Binds 1 [] := ⟨by simp, by simp⟩
  rw [← hxs] at hreads
  by_cases hnil : xs = []
  · obtain ⟨db₂, -, hsecond⟩ := hsel (fun _ => .null) (fun _ => .null) db₁
    have hagain := hsecond.assign assign x
    rw [htable, ← hxs] at hagain
    exact ⟨db₂, (query_reads rfl hbinds).mpr ⟨none, rfl, .inr ⟨db₁, hnil ▸ hreads, hagain⟩⟩⟩
  · exact ⟨db₁, (query_reads rfl hbinds).mpr ⟨none, rfl, .inl ⟨.inl hnil, hreads⟩⟩⟩

/-- Records that go into an empty table one by one come out in their order, each
into targets that it fills, and each field as it is kept. -/
theorem records_read_back (C : Conversion) (hins : Inserts ins table n) (hsel : Selects sel table)
    (hempty : table db = []) {targets : List (Target Ty.Val)}
    (hfillable : Fillable (targets.map Target.shape)) {records : List Record}
    (h : ∀ record ∈ records, record.length = n ∧ (leaves targets).map (·.type) = record.map (·.1) ∧
      (∀ field ∈ record, field.1.Short field.2) ∧ ∀ v ∈ arguments record, ins.admits v = none) :
    ∃ s after db', (insertAll ins records).run { prepared with db } = (.ok (), s) ∧
      Query sel (fun targets row => column (Ty.column C) row 0 targets) (fun _ db => db) []
        { prepared with db := s.db } targets after (.ok ()) db' ∧
      List.Forall₂ (fun record targets => List.Forall₂ Holds record (leaves targets)) records
        after := by
  obtain ⟨s, hrun, htable⟩ := insertAll_inserts hins (s := { prepared with db }) (.inl rfl)
    fun record hrecord => ⟨(h record hrecord).1, (h record hrecord).2.2.2⟩
  rw [hempty, List.nil_append] at htable
  obtain ⟨db', hquery⟩ := query_selects (x := targets) hsel s.db rfl
  refine ⟨s, _, db', hrun, hquery, ?_⟩
  rw [htable]
  exact assigned_holds C hfillable fun record hrecord =>
    ⟨(h record hrecord).2.1, (h record hrecord).2.2.1⟩

def insertRow (n : Nat) : Program (List (List Value)) (List Value) where
  nVar := n
  admits _ := none
  start vars := (List.range n).map fun i => vars (i + 1)
  next row db := (.done, db ++ [row])
  halt _ db := (none, db)

/-- The cursor has the rows that are left, once the table has been read. -/
def selectAll : Program (List (List Value)) (Option (List (List Value))) where
  nVar := 0
  admits _ := none
  start _ := none
  next cur db :=
    match cur.getD db with
    | [] => (.done, db)
    | row :: rows => (.row row (some rows), db)
  halt _ db := (none, db)

theorem selectAll_selects : Selects selectAll id := by
  have hrows (rows : List (List Value)) (cur : Option (List (List Value))) (db : List (List Value))
      (hcur : cur.getD db = rows) (seen : Columns) :
      Evaluates selectAll (fun _ row => row) (fun _ db => db) cur seen db (rows.map columns) none
        db := by
    induction rows generalizing cur seen with
    | nil => exact .done (by simp [selectAll, hcur])
    | cons row rows ih =>
      exact .row (by simp [selectAll, hcur]) rfl (ih (some rows) rfl _)
  exact fun _ seen db => ⟨db, rfl, hrows db none db rfl seen⟩

def twoRecords : List Record :=
  [[⟨int32, (7 : BitVec 32)⟩, ⟨.optional .string, some [97, 0]⟩],
    [⟨int32, (-1 : BitVec 32)⟩, ⟨.optional .string, none⟩]]

/-- A tuple as the only argument of `fetch`. -/
def pairTarget : List (Target Ty.Val) := [.tuple [⟨int32, none⟩, ⟨.optional .string, none⟩]]

theorem records_read_back_two : ∃ s after db',
    (insertAll (insertRow 2) twoRecords).run { prepared with db := [] } = (.ok (), s) ∧
      Query selectAll (fun targets row => column (Ty.column noConversion) row 0 targets)
        (fun _ db => db) [] { prepared with db := s.db } pairTarget after (.ok ()) db' ∧
      List.Forall₂ (fun record targets => List.Forall₂ Holds record (leaves targets)) twoRecords
        after := by
  have hins : Inserts (insertRow 2) id 2 := ⟨rfl, fun _ _ => ⟨_, rfl, rfl⟩⟩
  have hfillable : Fillable (pairTarget.map Target.shape) :=
    fillableFrom_tuple.mpr ⟨by simp [Bare], .inr rfl⟩
  refine records_read_back noConversion hins selectAll_selects rfl hfillable
    (List.forall_mem_cons.mpr ⟨⟨rfl, rfl, ?_, fun _ _ => rfl⟩,
      List.forall_mem_singleton.mpr ⟨rfl, rfl, ?_, fun _ _ => rfl⟩⟩)
  · simp [Ty.Short, Base.Short, int32]
  · simp [Ty.Short, Base.Short, int32]

end Xutil.Db
