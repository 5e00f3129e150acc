import Xutil.Config.Effective
import Xutil.Log.Dump
import Xutil.Log.Model

/-!
# The sample program

`main` reads its command line, and the file that `-c` names if there is one, and
its result says how that went. Its usage promises arguments that are no options.
They are the value of the empty key, which is none, so there cannot be any.
-/

namespace Xutil.Sample

open Config
open Log (Level cat enclose)

/-- How the file system answers. `main` asks twice whether the file exists, and
the answers may differ. A call that throws has a text for it. -/
structure World where
  fileExists : Text → Except Text Bool
  fileExistsLater : Text → Except Text Bool
  file : Text → Option Text

inductive Thrown
  | config (e : Config.Exception)
  | filesystem (what : Text)
  deriving Repr, DecidableEq

/-- The usage is that of `get_usage` for a result. -/
inductive Output
  | usage (result : Int)
  | record (level : Level) (message : Text)
  deriving Repr, DecidableEq

-- ---------------------------------------------------------------------------
-- Versions
-- ---------------------------------------------------------------------------

def getVersion : BitVec 32 := 0x00010100

def getMajorVersion (version : BitVec 32) : BitVec 32 := (version >>> 24) &&& 0x000000ff

def getMinorVersion (version : BitVec 32) : BitVec 32 := (version >>> 16) &&& 0x000000ff

def getRevision (version : BitVec 32) : BitVec 32 := (version >>> 8) &&& 0x000000ff

def getExtraVersion (version : BitVec 32) : BitVec 32 := (version >>> 0) &&& 0x000000ff

-- ---------------------------------------------------------------------------
-- The program
-- ---------------------------------------------------------------------------

/-- The handler of `main` for a `std::exception`. `what` has the texts. -/
def unexpected (what : Thrown → Text) (e : Thrown) : Output :=
  .record .error (enclose [.leaf, .leaf] ("Unexpected exception occurred".toList, what e)).toList

def throws (thrown : ε → Thrown) : Except ε α → Except Thrown α
  | .ok a => .ok a
  | .error e => .error (thrown e)

def configPath (options : Options) : Except Thrown Text :=
  match options.lookup "c".toList with
  | none => .ok "xxx.conf".toList
  | some [] => .error (.config (.outOfRange none))
  | some (value :: _) => .ok value

def construct (w : World) (path : Text) (options : Options) (found : Bool) :
    Except Config.Exception Configurations :=
  if found then Configurations.ofFileOptions (w.file path) options
  else Configurations.ofOptions options

/-- What `main` does before it logs. -/
def configure (w : World) (options : Options) : Except Thrown (Text × Configurations) := do
  let path ← configPath options
  let found ← throws .filesystem (w.fileExists path)
  let configurations ← throws .config (construct w path options found)
  return (path, configurations)

def pathMessage (path : Text) (found : Bool) : Text :=
  (cat [.leaf, .leaf, .leaf, .leaf, .leaf] ("path:".toList, path, "(exists:".toList,
    if found then "true".toList else "false".toList, ")".toList)).toList

def versionMessage : Text :=
  let number (n : BitVec 32) : Text := n.toNat.repr.toList
  (cat [.leaf, .leaf, .leaf, .leaf, .leaf, .leaf, .leaf, .leaf]
    ("xxx v".toList, number (getMajorVersion getVersion), ".".toList,
      number (getMinorVersion getVersion), ".".toList, number (getRevision getVersion), ".".toList,
      number (getExtraVersion getVersion))).toList

/-- The result of the program and what it writes. Its tracer is gone before the
handler runs. -/
def main (what : Thrown → Text) (w : World) (args : List Text) : Int × List Output :=
  let (result, options) := getOptions args
  let usage := Output.usage result
  if result ≠ 0 then (result, [usage])
  else match configure w options with
    | .error e => (-1, [usage, unexpected what e])
    | .ok (path, _) => match w.fileExistsLater path with
      | .error text => (-1, [usage, .record .trace ">>>".toList, .record .trace "<<<".toList,
          unexpected what (.filesystem text)])
      | .ok found => (0, [usage, .record .trace ">>>".toList, .record .info (pathMessage path found),
          .record .info versionMessage, .record .trace "<<<".toList])

-- ---------------------------------------------------------------------------
-- What it needs
-- ---------------------------------------------------------------------------

def AsksUsage (f : Flag) : Prop := f.name = "h".toList ∨ f.name = "help".toList

/-- The value of the first `-c`. -/
def pathOf (fs : List Flag) : Text :=
  ((fs.find? (·.name = "c".toList)).map Flag.value).getD "xxx.conf".toList

/-- The file opens and has no line that is refused. -/
def Usable (w : World) (path : Text) : Prop :=
  ∃ text, w.file path = some text ∧ ∀ line ∈ lines text, WellFormed line

/-- The file may be missing. -/
def Found (w : World) (path : Text) : Prop :=
  ∃ found, w.fileExists path = .ok found ∧ (found = true → Usable w path)

/-- The arguments are options whose names are keys, none asks for the usage, and
the file can be used. -/
structure Serves (w : World) (args : List Text) (fs : List Flag) : Prop where
  flags : args = fs.map Flag.arg
  keys : ∀ f ∈ fs, IsKey f.name
  noUsage : ∀ f ∈ fs, ¬ AsksUsage f
  found : Found w (pathOf fs)
  later : ∃ found, w.fileExistsLater (pathOf fs) = .ok found

theorem configPath_parses (h : Parses args fs kvs) :
    configPath (Options.pushEach ∅ kvs) = .ok (pathOf fs) := by
  have hvalues : valuesOf args fs "c".toList =
      (fs.filter (·.name = "c".toList)).map Flag.value := if_neg (by simp)
  have hpath : pathOf fs = (valuesOf args fs "c".toList).head?.getD "xxx.conf".toList := by
    rw [hvalues, List.head?_map, List.head?_filter]
    rfl
  rw [configPath, h.lookup, hpath]
  cases valuesOf args fs "c".toList <;> rfl

theorem ofFileOptions_cases (w : World) (hvalid : ∀ key ∈ options, IsKey key) (path : Text) :
    Usable w path ∧ (∃ c, Configurations.ofFileOptions (w.file path) options = .ok c) ∨
      ¬ Usable w path ∧ ∃ e, Configurations.ofFileOptions (w.file path) options = .error e := by
  rw [Configurations.ofFileOptions_eq _ hvalid, Usable]
  cases w.file path with
  | none =>
    refine .inr ⟨by simp, .failure, ?_⟩
    unfold Configurations.load
    split <;> rename_i h <;> cases h
    rfl
  | some text =>
    obtain ⟨c, _, _, hall, hload, _⟩ | ⟨line, hline, hbad, hload⟩ :=
      Configurations.load_cases ⟨options, hvalid⟩ text
    · exact .inl ⟨⟨text, rfl, hall⟩, c, hload⟩
    · refine .inr ⟨?_, _, hload⟩
      rintro ⟨text', htext, hall⟩
      cases htext
      exact hbad (hall line hline)

theorem construct_cases (w : World) (path : Text) (options : Options) (found : Bool) :
    ((∀ key ∈ options, IsKey key) ∧ (found = true → Usable w path)) ∧
        (∃ c, construct w path options found = .ok c) ∨
      ¬ ((∀ key ∈ options, IsKey key) ∧ (found = true → Usable w path)) ∧
        ∃ e, construct w path options found = .error e := by
  obtain ⟨hvalid, hrun⟩ | ⟨hinvalid, hrun⟩ := Configurations.ofOptions_cases options
  · cases found with
    | false => exact .inl ⟨⟨hvalid, nofun⟩, _, hrun⟩
    | true =>
      obtain ⟨hfile, hok⟩ | ⟨hfile, herror⟩ := ofFileOptions_cases w hvalid path
      · exact .inl ⟨⟨hvalid, fun _ => hfile⟩, hok⟩
      · exact .inr ⟨fun h => hfile (h.2 rfl), herror⟩
  · refine .inr ⟨fun h => hinvalid h.1, invalidKeys, ?_⟩
    cases found with
    | false => exact hrun
    | true =>
      show Configurations.ofFileOptions (w.file path) options = _
      rw [Configurations.ofFileOptions, hrun]
      rfl

/-- Once there is a path, the options and the file decide. -/
theorem configure_cases (w : World) (hpath : configPath options = .ok path) :
    ((∀ key ∈ options, IsKey key) ∧ Found w path) ∧ (∃ c, configure w options = .ok (path, c)) ∨
      ¬ ((∀ key ∈ options, IsKey key) ∧ Found w path) ∧ ∃ e, configure w options = .error e := by
  have hconfigure : configure w options =
      (throws .filesystem (w.fileExists path)).bind fun found =>
        (throws .config (construct w path options found)).bind fun c => .ok (path, c) := by
    rw [configure, hpath]
    rfl
  rw [hconfigure, Found]
  cases w.fileExists path with
  | error text => exact .inr ⟨by simp, _, rfl⟩
  | ok found =>
    have hfound : (∃ b, (.ok found : Except Text Bool) = .ok b ∧ (b = true → Usable w path)) ↔
        (found = true → Usable w path) := by simp
    rw [hfound]
    show _ ∧ (∃ c, (throws .config (construct w path options found)).bind _ = _) ∨
      _ ∧ ∃ e, (throws .config (construct w path options found)).bind _ = _
    obtain ⟨hok, c, hrun⟩ | ⟨hno, e, hrun⟩ := construct_cases w path options found <;> rw [hrun]
    · exact .inl ⟨hok, c, rfl⟩
    · exact .inr ⟨hno, .config e, rfl⟩

theorem mem_flags (h : Parses args fs kvs) (f : Flag) : f.arg ∈ args ↔ f ∈ fs := by
  have hfilter : f.arg ∈ args.filter (¬ Plain ·) ↔ f.arg ∈ fs.map Flag.arg := by rw [h.flags]
  rw [List.mem_map_of_injective Flag.arg_injective, List.mem_filter] at hfilter
  simpa [f.not_plain] using hfilter

/-- The options of a command line that is not refused. -/
theorem serves_iff (h : Parses args fs kvs) :
    (∃ fs', Serves w args fs') ↔ (¬ ∃ f : Flag, f.arg ∈ args ∧ AsksUsage f) ∧
      ((∀ key ∈ Options.pushEach ∅ kvs, IsKey key) ∧ Found w (pathOf fs)) ∧
        ∃ found, w.fileExistsLater (pathOf fs) = .ok found := by
  simp only [keys_iff h, mem_flags h]
  constructor
  · rintro ⟨fs', hserves⟩
    have hflags : fs'.map Flag.arg = fs.map Flag.arg := by
      rw [← h.flags, hserves.flags]
      refine (List.filter_eq_self.mpr fun a ha => ?_).symm
      obtain ⟨f, -, rfl⟩ := List.mem_map.mp ha
      simpa using f.not_plain
    obtain rfl : fs' = fs := List.map_injective_iff.mpr Flag.arg_injective hflags
    exact ⟨by simpa using hserves.noUsage, ⟨⟨hserves.flags, hserves.keys⟩, hserves.found⟩,
      hserves.later⟩
  · rintro ⟨husage, ⟨⟨hargs, hkeys⟩, hfound⟩, hlater⟩
    exact ⟨fs, hargs, hkeys, by simpa using husage, hfound, hlater⟩

-- ---------------------------------------------------------------------------
-- The result
-- ---------------------------------------------------------------------------

variable {what : Thrown → Text} {w : World}

def served (path : Text) (found : Bool) : List Output :=
  [.usage 0, .record .trace ">>>".toList, .record .info (pathMessage path found),
    .record .info versionMessage, .record .trace "<<<".toList]

/-- The file system has failed between two lines of the log. -/
def failedLate (what : Thrown → Text) (text : Text) : List Output :=
  [.usage 0, .record .trace ">>>".toList, .record .trace "<<<".toList,
    unexpected what (.filesystem text)]

theorem main_usage (h : getOptions args = (result, m)) (hresult : result ≠ 0) :
    main what w args = (result, [.usage result]) := by
  simp only [main, h]
  exact if_pos hresult

theorem main_zero (h : getOptions args = (0, m)) (hpath : configPath m = .ok path) :
    (((∀ key ∈ m, IsKey key) ∧ Found w path) ∧
        ∃ found, w.fileExistsLater path = .ok found ∧ main what w args = (0, served path found)) ∨
      ¬ (((∀ key ∈ m, IsKey key) ∧ Found w path) ∧ ∃ found, w.fileExistsLater path = .ok found) ∧
        ∃ outputs e, main what w args = (-1, outputs) ∧ unexpected what e ∈ outputs := by
  simp only [main, h, ne_eq, not_true_eq_false, if_false]
  obtain ⟨hok, c, hrun⟩ | ⟨hno, e, hrun⟩ := configure_cases w hpath
  · rw [hrun]
    cases hlater : w.fileExistsLater path with
    | ok found => exact .inl ⟨hok, found, rfl, by simp only [hlater]; rfl⟩
    | error text =>
      exact .inr ⟨by simp, failedLate what text, .filesystem text, by simp only [hlater]; rfl,
        by simp [failedLate]⟩
  · rw [hrun]
    exact .inr ⟨fun hall => hno hall.1, _, e, rfl, by simp⟩

theorem unexpected_not_mem_served (e : Thrown) (path : Text) (found : Bool) :
    unexpected what e ∉ served path found := by
  simp [unexpected, served]

theorem Serves.accepted {args : List Text} (h : Serves w args fs) : ∀ a ∈ args, Accepted a := by
  rw [h.flags]
  intro a ha
  obtain ⟨f, -, hf⟩ := List.mem_map.mp ha
  exact .inr ⟨f, hf⟩

theorem asksUsage_iff (h : Parses args fs kvs) :
    (∃ f : Flag, f.arg ∈ args ∧ AsksUsage f) ↔
      "h".toList ∈ Options.pushEach ∅ kvs ∨ "help".toList ∈ Options.pushEach ∅ kvs := by
  simp only [mem_flags h, AsksUsage, h.mem_iff, valuesOf_name_ne_nil, String.toList_eq_nil_iff, ne_eq,
    String.reduceEq, not_false_eq_true, and_or_left, exists_or]

end Xutil.Sample
