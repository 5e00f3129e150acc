import Xutil.Config.Keys

/-!
# What files can hold

Every configuration but one with an empty list, or with a value that a line
cannot give, is in some file. Loading two texts one after the other, the first
as the options of the second, is loading them as one.
-/

namespace Xutil.Config

/-- A value that a line can give. -/
structure Storable (value : Text) : Prop where
  noNewline : '\n' ∉ value
  noReturn : '\r' ∉ value
  start : ∀ c ∈ value.head?, isPad c = false

def Stored (options : Options) : Prop :=
  ∀ key values, options.lookup key = some values →
    IsKey key ∧ values ≠ [] ∧ ∀ value ∈ values, Storable value

-- ---------------------------------------------------------------------------
-- Writing the values
-- ---------------------------------------------------------------------------

def settingLine (kv : Text × Text) : Text := kv.1 ++ '=' :: kv.2

/-- The values with their keys. -/
def Options.pairs (options : Options) : List (Text × Text) :=
  options.entries.flatMap fun e => e.2.map (e.1, ·)

/-- One value on each line. -/
def Options.save (options : Options) : Text := ['\n'].intercalate (options.pairs.map settingLine)

theorem loadLine_setting (hkey : IsKey key) (h : Storable value) :
    loadLine config (settingLine (key, value)) = .ok (config.pushBack key value) := by
  have hvalue : (entryOf hkey value).value = value := by
    cases value with
    | nil => rfl
    | cons c cs => exact List.dropWhile_cons_of_neg (by simp [h.start c rfl])
  have hload : loadLine config _ = _ := loadLine_entry (entryOf_dots hkey h.noReturn h.noNewline)
  rwa [entryOf_line, hvalue] at hload

theorem newline_not_mem_setting (hkey : IsKey key) (h : Storable value) :
    '\n' ∉ settingLine (key, value) := by
  intro hmem
  rcases List.mem_append.mp hmem with hmem | hmem
  · cases hkey.forall_isKeyTail _ hmem
  · rcases List.mem_cons.mp hmem with hmem | hmem
    · cases hmem
    · exact h.noNewline hmem

theorem foldlM_settings (config : Options) {kvs : List (Text × Text)}
    (h : ∀ kv ∈ kvs, IsKey kv.1 ∧ Storable kv.2) :
    (kvs.map settingLine).foldlM loadLine config = .ok (config.pushEach kvs) := by
  induction kvs generalizing config with
  | nil => rfl
  | cons kv kvs ih =>
    obtain ⟨⟨hkey, hvalue⟩, hrest⟩ := List.forall_mem_cons.mp h
    rw [List.map_cons, List.foldlM_cons, loadLine_setting hkey hvalue]
    exact ih _ hrest

theorem mem_pairs {options : Options} :
    kv ∈ options.pairs ↔ ∃ values, options.lookup kv.1 = some values ∧ kv.2 ∈ values := by
  obtain ⟨key, value⟩ := kv
  simp [Options.pairs, AList.mem_lookup_iff, ← Option.mem_def]

theorem filter_values (k key : Text) (values : List Text) :
    ((values.map (k, ·)).filter (·.1 = key)).map Prod.snd = if k = key then values else [] := by
  rw [List.filter_map, List.map_map]
  split
  · rename_i hk
    simp [Function.comp_def, hk]
  · rename_i hk
    simp [Function.comp_def, hk]

/-- Of all the pairs those of one key are its values. -/
theorem filter_pairs (options : Options) (key : Text) :
    (options.pairs.filter (·.1 = key)).map Prod.snd = (options.lookup key).getD [] := by
  obtain ⟨entries, hnodup⟩ := options
  show ((entries.flatMap fun e => e.2.map (e.1, ·)).filter (·.1 = key)).map Prod.snd =
    (entries.dlookup key).getD []
  induction entries with
  | nil => rfl
  | cons e entries ih =>
    obtain ⟨k, values⟩ := e
    obtain ⟨hfresh, hnodup⟩ := List.nodupKeys_cons.mp hnodup
    rw [List.flatMap_cons, List.filter_append, List.map_append, ih hnodup, filter_values]
    split
    · rename_i hk
      subst hk
      have hnone : List.dlookup k entries = none := List.dlookup_eq_none.mpr hfresh
      simp [hnone]
    · rename_i hk
      have hcons : List.dlookup key (⟨k, values⟩ :: entries) = List.dlookup key entries :=
        List.dlookup_cons_ne entries ⟨k, values⟩ (Ne.symm hk)
      rw [hcons, List.nil_append]

/-- A map is known by its values, if no key has none. -/
theorem lookup_of_values {options options' : Options} {key : Text}
    (hvalues : (options'.lookup key).getD [] = (options.lookup key).getD [])
    (hmem : key ∈ options' ↔ key ∈ options) : options'.lookup key = options.lookup key := by
  cases hlookup : options.lookup key with
  | none =>
    have hno : key ∉ options' := fun h => AList.lookup_eq_none.mp hlookup (hmem.mp h)
    exact AList.lookup_eq_none.mpr hno
  | some values =>
    have hyes : key ∈ options' := hmem.mpr (AList.lookup_isSome.mp (by simp [hlookup]))
    obtain ⟨values', hlookup'⟩ := Option.isSome_iff_exists.mp (AList.lookup_isSome.mpr hyes)
    rw [hlookup, hlookup'] at hvalues
    exact hlookup'.trans (congrArg some hvalues)

theorem loadFile_save (h : Stored options) : ∃ options' : Options,
    loadFile ∅ (some options.save) = .ok options' ∧
      ∀ key, options'.lookup key = options.lookup key := by
  have hpairs : ∀ kv ∈ options.pairs, IsKey kv.1 ∧ Storable kv.2 := by
    intro kv hkv
    obtain ⟨values, hlookup, hmem⟩ := mem_pairs.mp hkv
    obtain ⟨hkey, -, hall⟩ := h _ _ hlookup
    exact ⟨hkey, hall _ hmem⟩
  have hload : loadFile ∅ (some options.save) = .ok (Options.pushEach ∅ options.pairs) := by
    rw [loadFile_some, ← foldlM_settings ∅ hpairs]
    cases hempty : options.pairs with
    | nil => simp [Options.save, hempty]; rfl
    | cons kv kvs =>
      rw [lines, Options.save, List.splitOn_intercalate '\n' ?_ (by simp [hempty]), hempty]
      intro line hline
      obtain ⟨kv', hkv', rfl⟩ := List.mem_map.mp hline
      exact newline_not_mem_setting (hpairs kv' hkv').1 (hpairs kv' hkv').2
  refine ⟨_, hload, fun key => lookup_of_values ?_ ?_⟩
  · rw [lookup_pushEach, filter_pairs]
    rfl
  · rw [mem_pushEach, ← AList.lookup_isSome (s := options), Option.isSome_iff_exists]
    constructor
    · rintro (hno | ⟨kv, hkv, rfl⟩)
      · cases hno
      · obtain ⟨values, hlookup, -⟩ := mem_pairs.mp hkv
        exact ⟨values, hlookup⟩
    · rintro ⟨values, hlookup⟩
      obtain ⟨value, hmem⟩ := List.exists_mem_of_ne_nil _ (h _ _ hlookup).2.1
      exact .inr ⟨(key, value), mem_pairs.mpr ⟨values, hlookup, hmem⟩, rfl⟩

-- ---------------------------------------------------------------------------
-- Files
-- ---------------------------------------------------------------------------

theorem Entry.storable {e : Entry} (h : '\n' ∉ e.line) (hr : '\r' ∉ e.value) : Storable e.value where
  noNewline hmem := h (by simp [Entry.line, hmem])
  noReturn := hr
  start := e.start

namespace Configurations

theorem load_stored (h : load empty (some text) = .ok c) : Stored c.config := by
  obtain ⟨c', es, hreads, -, hrun, hconfig⟩ | ⟨_, _, _, hrun⟩ := load_cases empty text <;>
    cases hrun.symm.trans h
  have hstorable : ∀ e ∈ es, Storable e.value := by
    intro e he
    have hline : e.line ∈ (lines text).filter (¬ Ignored ·) :=
      hreads.eq ▸ List.mem_map_of_mem he
    exact Entry.storable (newline_not_mem_of_mem_lines (List.mem_filter.mp hline).1)
      (hreads.clean e he)
  intro key values hlookup
  have hconfig' : c.config = pushAll ∅ es := hconfig
  have hvalues := lookup_pushAll ∅ es key
  rw [← hconfig', hlookup, AList.lookup_empty, Option.getD_some, Option.getD_none,
    List.nil_append] at hvalues
  have hmem : key ∈ pushAll ∅ es := by
    rw [← hconfig', ← AList.lookup_isSome, hlookup]
    rfl
  obtain hno | ⟨e, he, rfl⟩ := mem_pushAll.mp hmem
  · cases hno
  · refine ⟨e.isKey, hvalues ▸ List.ne_nil_of_mem (a := e.value) ?_, fun value hvalue => ?_⟩
    · exact List.mem_map_of_mem (List.mem_filter.mpr ⟨he, by simp⟩)
    · rw [hvalues] at hvalue
      obtain ⟨e', he', rfl⟩ := List.mem_map.mp hvalue
      exact hstorable e' (List.mem_filter.mp he').1

/-- What a file can hold is a map from keys to lists of values that a line can
give, none of them empty. -/
theorem file_holds (options : Options) :
    (∃ text c, ofFile (some text) = .ok c ∧ ∀ key, c.config.lookup key = options.lookup key) ↔
      Stored options := by
  constructor
  · rintro ⟨text, c, hload, hsame⟩ key values hlookup
    exact load_stored hload key values ((hsame key).trans hlookup)
  · intro h
    obtain ⟨options', hload, hsame⟩ := loadFile_save h
    obtain ⟨c, hc, hconfig⟩ := load_eq (c := empty) hload
    exact ⟨options.save, c, hc, fun key => hconfig ▸ hsame key⟩

theorem lines_append (first second : Text) :
    lines (first ++ '\n' :: second) = lines first ++ lines second :=
  List.splitOn_append_cons_self first second

theorem load_error {c : Configurations} (h : loadFile c.config file = .error e) :
    c.load file = .error e := by
  unfold load
  split <;> rename_i hload <;> cases hload.symm.trans h
  rfl

theorem load_congr {c c' : Configurations} (h : loadFile c.config file = loadFile c'.config file') :
    c.load file = c'.load file' := by
  cases hload : loadFile c'.config file' with
  | ok options =>
    obtain ⟨⟨_, _⟩, hd, rfl⟩ := load_eq (h.trans hload)
    obtain ⟨⟨_, _⟩, hd', rfl⟩ := load_eq hload
    rw [hd, hd']
  | error e => rw [load_error (h.trans hload), load_error hload]

theorem loadFile_append (config : Options) (first second : Text) :
    loadFile config (some (first ++ '\n' :: second)) =
      (loadFile config (some first)).bind fun config => loadFile config (some second) := by
  simp only [loadFile_some, lines_append, List.foldlM_append]
  rfl

/-- A file is loaded like its parts, the first as the options of the second. -/
theorem files_compose (first second : Text) (options : Options) :
    ofFileOptions (some (first ++ '\n' :: second)) options =
      (ofFileOptions (some first) options).bind fun c => ofFileOptions (some second) c.config := by
  obtain ⟨hvalid, -⟩ | ⟨-, hrun⟩ := ofOptions_cases options
  · have hwhole := loadFile_append options first second
    rw [ofFileOptions_eq _ hvalid, ofFileOptions_eq _ hvalid]
    cases hfirst : loadFile options (some first) with
    | ok config =>
      obtain ⟨c, hc, rfl⟩ := load_eq (c := ⟨options, hvalid⟩) hfirst
      rw [hfirst] at hwhole
      rw [hc]
      exact (load_congr hwhole).trans (ofFileOptions_eq _ c.valid).symm
    | error e =>
      rw [hfirst] at hwhole
      rw [load_error (c := ⟨options, hvalid⟩) hfirst, load_error (c := ⟨options, hvalid⟩) hwhole]
      rfl
  · rw [ofFileOptions, ofFileOptions, hrun]
    rfl

end Configurations

end Xutil.Config
