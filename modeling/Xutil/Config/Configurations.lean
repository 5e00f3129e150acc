import Xutil.Config.Lines

/-!
# `configurations_t`

Its constructors let in only valid keys. What `load_file` accepts is what the
documentation describes, but for values with a carriage return: the `.` of the
expression of a line refuses it, while a blank line may have one.
-/

namespace Xutil.Config

def invalidKeys : Exception := .invalidArgument "validate_keys".toList

theorem validateKeys_cases (options : Options) :
    (∀ key ∈ options, IsKey key) ∧ validateKeys options = .ok () ∨
    (¬ ∀ key ∈ options, IsKey key) ∧ validateKeys options = .error invalidKeys := by
  simp only [validateKeys, ← isInvalidKey_iff, AList.mem_keys]
  split
  · rename_i h
    obtain ⟨key, hkey, hinvalid⟩ := List.any_eq_true.mp h
    refine .inr ⟨fun hall => ?_, rfl⟩
    cases hinvalid.symm.trans (hall key hkey)
  · rename_i h
    exact .inl ⟨by simpa using h, rfl⟩

theorem validateKeys_valid (h : validateKeys options = .ok ()) : ∀ key ∈ options, IsKey key := by
  obtain ⟨hvalid, -⟩ | ⟨-, herror⟩ := validateKeys_cases options
  · exact hvalid
  · cases herror.symm.trans h

theorem pushAll_valid (hvalid : ∀ key ∈ config, IsKey key) : ∀ key ∈ pushAll config es, IsKey key := by
  intro key hkey
  rcases mem_pushAll.mp hkey with hkey | ⟨e, -, rfl⟩
  · exact hvalid key hkey
  · exact e.isKey

theorem loadFile_valid (h : loadFile config file = .ok config') (hvalid : ∀ key ∈ config, IsKey key) :
    ∀ key ∈ config', IsKey key := by
  cases file with
  | none => cases h
  | some text =>
    obtain ⟨es, -, -, hload⟩ | ⟨_, -, -, hload⟩ := loadFile_cases config text <;>
      cases hload.symm.trans h
    exact pushAll_valid hvalid

-- ---------------------------------------------------------------------------
-- The class
-- ---------------------------------------------------------------------------

structure Configurations where
  config : Options
  valid : ∀ key ∈ config, IsKey key

namespace Configurations

def empty : Configurations := ⟨∅, by simp⟩

/-- `load_file` into the map of `c`. -/
def load (c : Configurations) (file : Option Text) : Except Exception Configurations :=
  match h : loadFile c.config file with
  | .ok config => .ok ⟨config, loadFile_valid h c.valid⟩
  | .error e => .error e

/-- `configurations_t(options)` -/
def ofOptions (options : Options) : Except Exception Configurations :=
  match h : validateKeys options with
  | .ok () => .ok ⟨options, validateKeys_valid h⟩
  | .error e => .error e

/-- `configurations_t(path)` -/
def ofFile (file : Option Text) : Except Exception Configurations := empty.load file

/-- `configurations_t(path, options)` -/
def ofFileOptions (file : Option Text) (options : Options) : Except Exception Configurations := do
  (← ofOptions options).load file

variable (c : Configurations)

def contains (key : Text) : Bool := (c.config.lookup key).isSome

/-- `config_.at(key)` -/
def get (key : Text) : Except Exception (List Text) :=
  match c.config.lookup key with
  | some values => .ok values
  | none => .error (.outOfRange none)

/-- `get_as<int>(key)`. The variable starts with any value, `junk`. -/
def getAsInt (junk : Int) (key : Text) : Except Exception Int :=
  match c.config.lookup key with
  | none => .error (.outOfRange (some key))
  | some [] => .error (.outOfRange none)
  | some (value :: _) =>
    let t := extractInt value
    if ! value.isEmpty && t.eof then .ok (t.value.getD junk) else .error .badCast

/-- `get_as<int>(key, alternative)` -/
def getAsIntOr (alternative : Int) (key : Text) : Int :=
  match c.config.lookup key with
  | some (value :: _) =>
    let t := extractInt value
    if ! value.isEmpty && t.eof then t.value.getD alternative else alternative
  | _ => alternative

theorem contains_iff : c.contains key = true ↔ key ∈ c.config :=
  AList.lookup_isSome

theorem get_eq (key : Text) :
    c.get key = if c.contains key then .ok ((c.config.lookup key).getD []) else
      .error (.outOfRange none) := by
  unfold get contains
  cases c.config.lookup key <;> rfl

-- ---------------------------------------------------------------------------
-- Constructors
-- ---------------------------------------------------------------------------

theorem ofOptions_cases (options : Options) :
    (∃ hvalid : ∀ key ∈ options, IsKey key, ofOptions options = .ok ⟨options, hvalid⟩) ∨
    (¬ ∀ key ∈ options, IsKey key) ∧ ofOptions options = .error invalidKeys := by
  obtain ⟨hvalid, hrun⟩ | ⟨hinvalid, hrun⟩ := validateKeys_cases options
  · left
    refine ⟨hvalid, ?_⟩
    unfold ofOptions
    split
    · rfl
    · rename_i h
      cases hrun.symm.trans h
  · right
    refine ⟨hinvalid, ?_⟩
    unfold ofOptions
    split <;> rename_i h <;> cases hrun.symm.trans h
    rfl

theorem load_cases (text : Text) :
    (∃ c' es, Reads (lines text) es ∧ (∀ line ∈ lines text, WellFormed line) ∧
      c.load (some text) = .ok c' ∧ c'.config = pushAll c.config es) ∨
    (∃ line ∈ lines text, ¬ WellFormed line ∧ c.load (some text) = .error (.runtimeError line)) := by
  obtain ⟨es, hreads, hall, hrun⟩ | ⟨line, hline, hbad, hrun⟩ := loadFile_cases c.config text
  · left
    refine ⟨⟨pushAll c.config es, pushAll_valid c.valid⟩, es, hreads, hall, ?_, rfl⟩
    unfold load
    split <;> rename_i h <;> cases hrun.symm.trans h
    rfl
  · right
    refine ⟨line, hline, hbad, ?_⟩
    unfold load
    split <;> rename_i h <;> cases hrun.symm.trans h
    rfl

/-- A text is accepted if and only if all its lines are well formed. -/
theorem load_ok_iff (text : Text) :
    (∃ c', c.load (some text) = .ok c') ↔ ∀ line ∈ lines text, WellFormed line := by
  obtain ⟨c', _, -, hall, hrun, -⟩ | ⟨line, hline, hbad, hrun⟩ := c.load_cases text
  · exact ⟨fun _ => hall, fun _ => ⟨c', hrun⟩⟩
  · refine ⟨?_, fun hall => absurd (hall line hline) hbad⟩
    rintro ⟨c', h⟩
    cases hrun.symm.trans h

theorem ofFileOptions_eq (file : Option Text) (hvalid : ∀ key ∈ options, IsKey key) :
    ofFileOptions file options = load ⟨options, hvalid⟩ file := by
  obtain ⟨_, hrun⟩ | ⟨hinvalid, -⟩ := ofOptions_cases options
  · rw [ofFileOptions, hrun]
    rfl
  · exact absurd hvalid hinvalid

-- ---------------------------------------------------------------------------
-- What a file means
-- ---------------------------------------------------------------------------

/-- A configuration file is accepted if and only if every line is ignored or is
an entry without a carriage return, in one way. Then each key has its values in
`o` and after them those of its entries in order; otherwise a line that is
neither is thrown. -/
theorem load_file_accepts {o : Options} (hvalid : ∀ key ∈ o, IsKey key) (text : Text) :
    ((∃ c, ofFileOptions (some text) o = .ok c) ↔
      ∀ line ∈ lines text, Ignored line ∨ ∃ e : Entry, '\r' ∉ e.value ∧ e.line = line) ∧
    Function.Injective Entry.line ∧
    (∀ c, ofFileOptions (some text) o = .ok c → ∃ es : List Entry,
      (lines text).filter (¬ Ignored ·) = es.map Entry.line ∧
      ∀ k, (c.contains k = true ↔ k ∈ o ∨ ∃ e ∈ es, e.key = k) ∧
        c.get k = if c.contains k then
            .ok ((o.lookup k).getD [] ++ (es.filter (·.key = k)).map Entry.value)
          else .error (.outOfRange none)) ∧
    ∀ ex, ofFileOptions (some text) o = .error ex →
      ∃ line ∈ lines text, ¬ WellFormed line ∧ ex = .runtimeError line := by
  rw [ofFileOptions_eq (some text) hvalid]
  refine ⟨load_ok_iff _ text, Entry.line_injective, ?_, ?_⟩
  · intro c hc
    obtain ⟨c', es, hreads, -, hrun, hconfig⟩ | ⟨_, -, -, hrun⟩ := load_cases ⟨o, hvalid⟩ text <;>
      cases hrun.symm.trans hc
    refine ⟨es, hreads.eq, fun k => ⟨?_, ?_⟩⟩
    · rw [contains_iff, hconfig, mem_pushAll]
    · rw [get_eq, hconfig, lookup_pushAll]
  · intro ex hex
    obtain ⟨_, _, -, -, hrun, -⟩ | ⟨line, hline, hbad, hrun⟩ := load_cases ⟨o, hvalid⟩ text <;>
      cases hrun.symm.trans hex
    exact ⟨line, hline, hbad, rfl⟩

/-- ` a = b#` -/
def spacedEntry : Entry where
  lead := " ".toList
  key := "a".toList
  mid := " ".toList
  gap := " ".toList
  value := "b#".toList
  isKey := ⟨'a', [], rfl, rfl, by simp⟩
  leadPads := by simp [isPad]
  midPads := by simp [isPad]
  gapPads := by simp [isPad]
  start := by simp [isPad]

theorem load_file_accepts_spaced : ∃ c,
    ofFileOptions (some "# c\n a = b#\n\t\r".toList) (AList.singleton "a".toList ["z".toList]) = .ok c ∧
    c.get "a".toList = .ok ["z".toList, "b#".toList] := by
  have hvalid : ∀ key ∈ AList.singleton (β := fun _ : Text => List Text) "a".toList ["z".toList],
      IsKey key := by
    intro key hkey
    rw [AList.mem_keys, AList.keys_singleton] at hkey
    obtain rfl := List.mem_singleton.mp hkey
    exact spacedEntry.isKey
  obtain ⟨hok, -, hmeans, -⟩ := load_file_accepts hvalid "# c\n a = b#\n\t\r".toList
  have hcomment : Ignored "# c".toList := .inr (.inl rfl)
  have hblank : Ignored "\t\r".toList := .inr (.inr (by simp))
  have hreturn : '\r' ∉ spacedEntry.value := by decide
  have hentry : ¬ Ignored spacedEntry.line := spacedEntry.not_ignored (by decide)
  have hlines : lines "# c\n a = b#\n\t\r".toList =
      ["# c".toList, spacedEntry.line, "\t\r".toList] := rfl
  rw [hlines] at hok hmeans
  have hall : ∀ line ∈ ["# c".toList, spacedEntry.line, "\t\r".toList], WellFormed line := by
    refine List.forall_mem_cons.mpr ⟨.inl hcomment, List.forall_mem_cons.mpr ⟨?_, ?_⟩⟩
    · exact .inr ⟨spacedEntry, hreturn, rfl⟩
    · exact List.forall_mem_singleton.mpr (.inl hblank)
  obtain ⟨c, hc⟩ := hok.mpr hall
  obtain ⟨es, hes, hk⟩ := hmeans c hc
  have hone : [spacedEntry].map Entry.line = es.map Entry.line := by
    rw [← hes]
    simp only [List.filter_cons, List.filter_nil, hcomment, hblank, hentry, not_true_eq_false,
      not_false_eq_true, decide_true, decide_false, Bool.false_eq_true, if_true, if_false,
      List.map_cons, List.map_nil]
  obtain rfl : [spacedEntry] = es := List.map_injective_iff.mpr Entry.line_injective hone
  have hcontains : c.contains "a".toList = true := by
    refine (hk _).1.mpr (.inl ?_)
    rw [AList.mem_keys, AList.keys_singleton]
    exact List.mem_singleton_self _
  refine ⟨c, hc, ?_⟩
  rw [(hk _).2, if_pos hcontains]
  rfl

end Configurations

end Xutil.Config
