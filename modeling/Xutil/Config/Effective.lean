import Xutil.Config.CommandLine
import Xutil.Config.GetOptions
import Xutil.Config.Getters

/-!
# The command line before the file

In a configuration of a command line and a file, the options of a name come
before the entries of the file. The getters take what comes first.
-/

namespace Xutil.Config

open Configurations

/-- What `get_as<T>` makes of a value. -/
def Kind.read : (T : Kind) → (junk : T.Value) → Text → Except Exception T.Value
  | .string, _, value => .ok value
  | .bool, _, value => .ok (truth [value])
  | .int, junk, value =>
    let t := extractInt value
    if ! value.isEmpty && t.eof then .ok (t.value.getD junk) else .error .badCast

/-- What it throws for a key without one. -/
def Kind.missing : Kind → Text → Exception
  | .string, _ => .outOfRange none
  | .bool, key => .outOfRange (some key)
  | .int, key => .outOfRange (some key)

/-- The value of the first option of a name, else of the first entry with that key. -/
def effective (fs : List Flag) (es : List Entry) (key : Text) : Option Text :=
  ((fs.find? (·.name = key)).map Flag.value).or ((es.find? (·.key = key)).map Entry.value)

-- ---------------------------------------------------------------------------
-- The options
-- ---------------------------------------------------------------------------

/-- The keys of a command line are keys of a configuration if it has nothing but
options that are called like one. -/
theorem keys_iff (h : Parses args fs kvs) :
    (∀ key ∈ Options.pushEach ∅ kvs, IsKey key) ↔
      args = fs.map Flag.arg ∧ ∀ f ∈ fs, IsKey f.name := by
  simp only [h.mem_iff]
  constructor
  · intro hkeys
    have hplain : args.filter (Plain ·) = [] := Decidable.byContradiction fun hne =>
      not_isKey_nil (hkeys [] hne)
    have hall : args.filter (¬ Plain ·) = args := List.filter_eq_self.mpr fun a ha => by
      simpa using List.filter_eq_nil_iff.mp hplain a ha
    exact ⟨hall.symm.trans h.flags, fun f hf =>
      hkeys f.name ((valuesOf_name_ne_nil f.isName.1).mpr ⟨f, hf, rfl⟩)⟩
  · rintro ⟨rfl, hkeys⟩ key hkey
    by_cases hempty : key = []
    · have hplain : (fs.map Flag.arg).filter (Plain ·) = [] := List.filter_eq_nil_iff.mpr fun a ha => by
        obtain ⟨f, -, rfl⟩ := List.mem_map.mp ha
        simpa using f.not_plain
      exact absurd ((if_pos hempty).trans hplain) hkey
    · obtain ⟨f, hf, rfl⟩ := (valuesOf_name_ne_nil hempty).mp hkey
      exact hkeys f hf

theorem valuesOf_flags (fs : List Flag) (key : Text) :
    valuesOf (fs.map Flag.arg) fs key = (fs.filter (·.name = key)).map Flag.value := by
  unfold valuesOf
  split
  · rename_i hkey
    subst hkey
    have hnone : fs.filter (·.name = []) = [] := List.filter_eq_nil_iff.mpr fun f _ => by
      simpa using f.isName.1
    rw [hnone, List.filter_eq_nil_iff.mpr fun a ha => ?_]
    · rfl
    · obtain ⟨f, -, rfl⟩ := List.mem_map.mp ha
      simpa using f.not_plain
  · rfl

-- ---------------------------------------------------------------------------
-- The configuration
-- ---------------------------------------------------------------------------

/-- The values of a key, which are at least one. -/
def settings (fs : List Flag) (es : List Entry) (key : Text) : List Text :=
  (fs.filter (·.name = key)).map Flag.value ++ (es.filter (·.key = key)).map Entry.value

theorem head?_settings (fs : List Flag) (es : List Entry) (key : Text) :
    (settings fs es key).head? = effective fs es key := by
  simp [settings, effective, List.head?_append, List.head?_filter]

theorem getAs_values {c : Configurations} (hlookup : c.config.lookup key =
    if values = [] then none else some values) (T : Kind) (junk : T.Value) :
    c.getAs T junk key = match values.head? with
      | some value => T.read junk value
      | none => .error (T.missing key) := by
  cases values with
  | nil =>
    rw [if_pos rfl] at hlookup
    cases T <;> simp [getAs, getAsString, getAsBool, getAsInt, Configurations.get, hlookup,
      Kind.missing, bind, Except.bind]
  | cons value values =>
    rw [if_neg (by simp)] at hlookup
    cases T <;> simp [getAs, getAsString, getAsBool, getAsInt, Configurations.get, front, truth,
      hlookup, Kind.read, bind, Except.bind]

theorem pushAll_lookup (h : Parses (fs.map Flag.arg) fs kvs) (es : List Entry) (key : Text) :
    (pushAll (Options.pushEach ∅ kvs) es).lookup key =
      if settings fs es key = [] then none else some (settings fs es key) := by
  have hvalues : ((pushAll (Options.pushEach ∅ kvs) es).lookup key).getD [] = settings fs es key := by
    rw [lookup_pushAll, h.lookup, valuesOf_flags, settings]
    split
    · rename_i hnil
      rw [hnil, Option.getD_none]
    · rw [Option.getD_some]
  have hmem : key ∈ pushAll (Options.pushEach ∅ kvs) es ↔ settings fs es key ≠ [] := by
    rw [mem_pushAll, h.mem_iff, valuesOf_flags, settings, Ne, Ne, List.append_eq_nil_iff, not_and_or,
      List.map_eq_nil_iff (l := es.filter _), List.filter_eq_nil_iff]
    simp
  split
  · rename_i hnil
    exact AList.lookup_eq_none.mpr fun hkey => hmem.mp hkey hnil
  · rename_i hne
    obtain ⟨values, hlookup⟩ := Option.isSome_iff_exists.mp (AList.lookup_isSome.mpr (hmem.mpr hne))
    rw [hlookup, ← hvalues, hlookup, Option.getD_some]

/-- What a getter gives is what it makes of the first option of that name on the
command line, or of the first entry of that key in the file if there is none. -/
theorem command_line_first (hargs : getOptions args = (0, m))
    (hload : ofFileOptions (some text) m = .ok c) :
    ∃ (fs : List Flag) (es : List Entry), args = fs.map Flag.arg ∧
      (lines text).filter (¬ Ignored ·) = es.map Entry.line ∧
      ∀ (T : Kind) (junk : T.Value) key, c.getAs T junk key = match effective fs es key with
        | some value => T.read junk value
        | none => .error (T.missing key) := by
  obtain ⟨-, fs, kvs, hparses, hrun⟩ | ⟨-, hrun⟩ := getOptions_cases args
  · obtain rfl : Options.pushEach ∅ kvs = m := congrArg Prod.snd (hrun.symm.trans hargs)
    obtain ⟨hvalid, -⟩ | ⟨-, hinvalid⟩ := ofOptions_cases (Options.pushEach ∅ kvs)
    · obtain ⟨rfl, -⟩ := (keys_iff hparses).mp hvalid
      rw [ofFileOptions_eq _ hvalid] at hload
      obtain ⟨c', es, hreads, -, hrun', hconfig⟩ | ⟨_, -, -, hrun'⟩ :=
        load_cases ⟨_, hvalid⟩ text <;> cases hrun'.symm.trans hload
      refine ⟨fs, es, rfl, hreads.eq, fun T junk key => ?_⟩
      rw [← head?_settings]
      exact getAs_values (hconfig ▸ pushAll_lookup hparses es key) T junk
    · rw [ofFileOptions, hinvalid] at hload
      cases hload
  · cases hrun.symm.trans hargs

/-- `-a=z` -/
def zFlag : Flag where
  long := false
  name := "a".toList
  rest := "=z".toList
  isName := ⟨by simp, List.forall_mem_singleton.mpr rfl⟩
  isRest := .inr ⟨'=', "z".toList, rfl, .inl rfl, by simp, by simp, by simp⟩

/-- ` a = b#` is in the file, too. -/
theorem command_line_first_spaced : ∃ c,
    ofFileOptions (some spacedEntry.line) (getOptions [zFlag.arg]).2 = .ok c ∧
      c.getAs .string [] "a".toList = .ok "z".toList := by
  have hargs : getOptions [zFlag.arg] = (0, (getOptions [zFlag.arg]).2) := rfl
  have hkeys : ∀ key ∈ (getOptions [zFlag.arg]).2, IsKey key := by
    intro key hkey
    obtain rfl : key = "a".toList := List.mem_singleton.mp hkey
    exact spacedEntry.isKey
  have hall : ∀ line ∈ lines spacedEntry.line, WellFormed line :=
    List.forall_mem_singleton.mpr (.inr ⟨spacedEntry, by decide, rfl⟩)
  obtain ⟨c, hload⟩ := (load_ok_iff ⟨_, hkeys⟩ spacedEntry.line).mpr hall
  rw [← ofFileOptions_eq (some spacedEntry.line) hkeys] at hload
  obtain ⟨fs, es, hfs, hes, hget⟩ := command_line_first hargs hload
  obtain rfl : [zFlag] = fs := List.map_injective_iff.mpr Flag.arg_injective hfs
  have hone : [spacedEntry].map Entry.line = es.map Entry.line := by
    rw [← hes]
    exact (List.filter_eq_self.mpr (List.forall_mem_singleton.mpr
      (by simpa using spacedEntry.not_ignored (by decide)))).symm
  obtain rfl : [spacedEntry] = es := List.map_injective_iff.mpr Entry.line_injective hone
  exact ⟨c, hload, hget .string [] "a".toList⟩

end Xutil.Config
