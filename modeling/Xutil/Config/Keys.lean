import Mathlib.Data.Finset.Dedup
import Mathlib.Data.Finset.Insert
import Xutil.Config.Configurations

/-!
# Keys

The expression for the keys of options and the one for the lines of a file let
in the same keys, so what has been loaded from a file can be given as options.
A constructor from an rvalue validates the map that it has taken over.
-/

namespace Xutil.Config

/-- The order of the entries makes no difference. -/
theorem validateKeys_perm {options options' : Options}
    (h : options.entries.Perm options'.entries) : validateKeys options = validateKeys options' := by
  have hkeys : options.keys.Perm options'.keys := h.map _
  rw [validateKeys, hkeys.any_eq, validateKeys]

-- ---------------------------------------------------------------------------
-- One line
-- ---------------------------------------------------------------------------

/-- The entry of a key and the text after its `=`. -/
def entryOf (hkey : IsKey key) (value : Text) : Entry where
  lead := []
  key := key
  mid := []
  gap := value.takeWhile isPad
  value := value.dropWhile isPad
  isKey := hkey
  leadPads := no_pads
  midPads := no_pads
  gapPads _ hc := List.mem_takeWhile_imp hc
  start c hc := by
    have hhead := List.head?_dropWhile_not isPad value
    rwa [hc] at hhead

theorem entryOf_line (hkey : IsKey key) (value : Text) :
    (entryOf hkey value).line = key ++ '=' :: value := by
  simp [entryOf, Entry.line, List.takeWhile_append_dropWhile]

theorem entryOf_dots (hkey : IsKey key) (hr : '\r' ∉ value) (hn : '\n' ∉ value) :
    (entryOf hkey value).Dots := by
  intro c hc
  have hmem : c ∈ value := List.dropWhile_subset _ hc
  have hcr : c ≠ '\r' := fun h => hr (h ▸ hmem)
  have hcn : c ≠ '\n' := fun h => hn (h ▸ hmem)
  simp [Regex.isDot_iff, hcr, hcn]

/-- With a line end or without one. -/
theorem getlines_ending {line ending : Text} (hline : '\n' ∉ line) (hne : line ≠ [])
    (hending : ending ∈ [[], ['\n']]) :
    Lines.getlines '\n' [] (line ++ ending) = [line] := by
  rcases List.mem_pair.mp hending with rfl | rfl
  · rw [List.append_nil, Lines.getlines_line '\n' hline (.inr hne)]
    rfl
  · rw [Lines.getlines_append_newline '\n' [] line [] hline]
    rfl

theorem loadFile_line (config : Options) (hkey : IsKey key) (hr : '\r' ∉ value) (hn : '\n' ∉ value)
    (hending : ending ∈ [[], ['\n']]) :
    loadFile config (some (key ++ '=' :: value ++ ending)) =
      .ok (config.pushBack key (value.dropWhile isPad)) := by
  have hvalue : '\n' ∉ (entryOf hkey value).value := fun h => hn (List.dropWhile_subset _ h)
  have hline : '\n' ∉ key ++ '=' :: value := by
    rw [← entryOf_line hkey]
    exact Entry.newline_not_mem_line hvalue
  have hlines : Lines.getlines '\n' [] (key ++ '=' :: value ++ ending) = [key ++ '=' :: value] :=
    getlines_ending hline (by simp) hending
  have hload : loadLine config (key ++ '=' :: value) =
      .ok (config.pushBack key (value.dropWhile isPad)) := by
    rw [← entryOf_line hkey]
    exact loadLine_entry (entryOf_dots hkey hr hn)
  rw [loadFile, hlines, List.foldlM_cons, hload]
  rfl

namespace Configurations

-- ---------------------------------------------------------------------------
-- `keys`
-- ---------------------------------------------------------------------------

def keys (c : Configurations) : Finset Text := c.config.keys.toFinset

theorem mem_keys {c : Configurations} : key ∈ c.keys ↔ key ∈ c.config := by
  rw [keys, List.mem_toFinset, AList.mem_keys]

theorem keys_valid (c : Configurations) : ∀ key ∈ c.keys, isInvalidKey key = false :=
  fun key hkey => isInvalidKey_iff.mpr (c.valid key (mem_keys.mp hkey))

theorem load_eq {c : Configurations} {options : Options}
    (h : loadFile c.config file = .ok options) :
    ∃ c', c.load file = .ok c' ∧ c'.config = options := by
  refine ⟨⟨options, loadFile_valid h c.valid⟩, ?_, rfl⟩
  unfold load
  split <;> rename_i hload <;> cases hload.symm.trans h
  rfl

/-- A key is valid if and only if a line with it is read as an entry of this key. -/
theorem isInvalidKey_iff_line (hr : '\r' ∉ value) (hn : '\n' ∉ value)
    (hending : ending ∈ [[], ['\n']]) : isInvalidKey key = false ↔
      ∃ c, ofFile (some (key ++ '=' :: value ++ ending)) = .ok c ∧ c.keys = {key} := by
  constructor
  · intro h
    obtain ⟨c, hload, hconfig⟩ := load_eq (c := empty)
      (loadFile_line ∅ (isInvalidKey_iff.mp h) hr hn hending)
    refine ⟨c, hload, ?_⟩
    rw [keys, hconfig, Options.pushBack, AList.keys_insert]
    rfl
  · rintro ⟨c, -, hkeys⟩
    exact c.keys_valid key (hkeys ▸ Finset.mem_singleton_self key)

theorem ofOptions_config (c : Configurations) : ofOptions c.config = .ok c := by
  obtain ⟨_, hrun⟩ | ⟨hinvalid, -⟩ := ofOptions_cases c.config
  · exact hrun
  · exact absurd c.valid hinvalid

/-- Each constructor lets in valid keys only, whatever the order of the options,
and a key is valid if and only if it can be read from a file. -/
theorem keys_agree :
    (∀ options c, ofOptions options = .ok c → ∀ key ∈ c.keys, isInvalidKey key = false) ∧
    (∀ file c, ofFile file = .ok c → ∀ key ∈ c.keys, isInvalidKey key = false) ∧
    (∀ file options c, ofFileOptions file options = .ok c →
      ∀ key ∈ c.keys, isInvalidKey key = false) ∧
    (∀ options options' : Options, options.entries.Perm options'.entries →
      validateKeys options = validateKeys options') ∧
    (∀ key value ending : Text, '\r' ∉ value → '\n' ∉ value → ending ∈ [[], ['\n']] →
      (isInvalidKey key = false ↔
        ∃ c, ofFile (some (key ++ '=' :: value ++ ending)) = .ok c ∧ c.keys = {key})) ∧
    ∀ file c, ofFile file = .ok c → ofOptions c.config = .ok c :=
  ⟨fun _ c _ => c.keys_valid, fun _ c _ => c.keys_valid, fun _ _ c _ => c.keys_valid,
    fun _ _ => validateKeys_perm, fun _ _ _ => isInvalidKey_iff_line,
    fun _ c _ => c.ofOptions_config⟩

end Configurations

end Xutil.Config
