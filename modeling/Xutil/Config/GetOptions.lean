import Xutil.Config.Arguments

/-!
# What `get_options` keeps

A command line is refused as a whole, or all its arguments are in the map, in
order. A value that an option can be given is not every text: an empty one, or
one of several lines, is refused, though the documentation allows it.
-/

namespace Xutil.Config

theorem getOptions_refused (h : args.foldlM addArg ∅ = .error e) : getOptions args = (-1, ∅) := by
  rw [getOptions, h]

theorem getOptions_ok (h : args.foldlM addArg ∅ = .ok m) :
    getOptions args = (if "h".toList ∈ m ∨ "help".toList ∈ m then 1 else 0, m) := by
  simp only [getOptions, h, Bool.or_eq_true, AList.lookup_isSome]

theorem getOptions_cases (args : List Text) :
    ((∀ a ∈ args, Accepted a) ∧ ∃ fs kvs, Parses args fs kvs ∧
      getOptions args =
        (if "h".toList ∈ Options.pushEach ∅ kvs ∨ "help".toList ∈ Options.pushEach ∅ kvs then 1
          else 0, Options.pushEach ∅ kvs)) ∨
    ((∃ a ∈ args, ¬ Accepted a) ∧ getOptions args = (-1, ∅)) := by
  obtain ⟨hall, fs, kvs, hparses, hrun⟩ | ⟨a, ha, hrefused, hrun⟩ := foldlM_addArg_cases ∅ args
  · exact .inl ⟨hall, fs, kvs, hparses, getOptions_ok hrun⟩
  · exact .inr ⟨⟨a, ha, hrefused⟩, getOptions_refused hrun⟩

-- ---------------------------------------------------------------------------
-- The map
-- ---------------------------------------------------------------------------

theorem Parses.mem_iff (h : Parses args fs kvs) :
    key ∈ Options.pushEach ∅ kvs ↔ valuesOf args fs key ≠ [] := by
  rw [mem_pushEach, ← h.values, ne_eq, List.map_eq_nil_iff, List.filter_eq_nil_iff]
  simp

theorem Parses.lookup (h : Parses args fs kvs) (key : Text) :
    (Options.pushEach ∅ kvs).lookup key =
      if valuesOf args fs key = [] then none else some (valuesOf args fs key) := by
  have hvalues := lookup_pushEach ∅ kvs key
  rw [h.values, AList.lookup_empty, Option.getD_none, List.nil_append] at hvalues
  cases hlookup : (Options.pushEach ∅ kvs).lookup key with
  | none =>
    have hmem : key ∉ Options.pushEach ∅ kvs := AList.lookup_eq_none.mp hlookup
    rw [h.mem_iff, not_not] at hmem
    rw [if_pos hmem]
  | some values =>
    have hmem : key ∈ Options.pushEach ∅ kvs := AList.lookup_isSome.mp (by simp [hlookup])
    rw [if_neg (h.mem_iff.mp hmem), ← hvalues, hlookup, Option.getD_some]

theorem Parses.total (h : Parses args fs kvs) : (Options.pushEach ∅ kvs).total = args.length := by
  rw [total_pushEach, h.length]
  exact Nat.zero_add _

theorem valuesOf_name_ne_nil (hkey : key ≠ []) :
    valuesOf args fs key ≠ [] ↔ ∃ f ∈ fs, f.name = key := by
  rw [valuesOf, if_neg hkey, ne_eq, List.map_eq_nil_iff, List.filter_eq_nil_iff]
  simp

/-- A command line is refused if and only if some argument is neither plain nor
an option, in one way. Otherwise each name has its values in order, the empty one
the plain arguments, and nothing else is in the map. -/
theorem get_options_keeps (args : List Text) :
    (getOptions args = (-1, ∅) ↔ ∃ a ∈ args, ¬ Plain a ∧ ∀ f : Flag, f.arg ≠ a) ∧
    Function.Injective Flag.arg ∧
    (getOptions args = (-1, ∅) ∨ ∃ fs : List Flag, args.filter (¬ Plain ·) = fs.map Flag.arg ∧
      (∀ key, (getOptions args).2.lookup key =
        if valuesOf args fs key = [] then none else some (valuesOf args fs key)) ∧
      (getOptions args).2.total = args.length ∧
      (getOptions args).1 =
        if ∃ f ∈ fs, f.name = "h".toList ∨ f.name = "help".toList then 1 else 0) := by
  have hrefused :
      (∃ a ∈ args, ¬ Accepted a) ↔ ∃ a ∈ args, ¬ Plain a ∧ ∀ f : Flag, f.arg ≠ a := by
    simp only [Accepted, not_or, not_exists, ne_eq]
  rw [← hrefused]
  obtain ⟨hall, fs, kvs, hparses, hrun⟩ | ⟨hbad, hrun⟩ := getOptions_cases args
  · rw [hrun]
    refine ⟨⟨fun h => ?_, fun ⟨a, ha, h⟩ => absurd (hall a ha) h⟩, Flag.arg_injective, .inr ?_⟩
    · have hresult := congrArg Prod.fst h
      simp only at hresult
      split at hresult <;> cases hresult
    · refine ⟨fs, hparses.flags, hparses.lookup, hparses.total, ?_⟩
      simp only [hparses.mem_iff, valuesOf_name_ne_nil, String.toList_eq_nil_iff,
        ne_eq, String.reduceEq, not_false_eq_true, and_or_left, exists_or]
  · exact ⟨⟨fun _ => hbad, fun _ => hrun⟩, Flag.arg_injective, .inl hrun⟩

-- ---------------------------------------------------------------------------
-- Options with values
-- ---------------------------------------------------------------------------

/-- An option with any value. -/
structure Setting where
  long : Bool
  name : Text
  separator : Char
  value : Text
  isName : IsName name
  isSeparator : IsSeparator separator
  noNul : '\x00' ∉ value

namespace Setting

def arg (s : Setting) : Text := dashed s.long s.name (s.separator :: s.value)

def flag (s : Setting) (h : IsValue s.value) : Flag where
  long := s.long
  name := s.name
  rest := s.separator :: s.value
  isName := s.isName
  isRest := .inr ⟨s.separator, s.value, rfl, s.isSeparator, h⟩

theorem isRest_value (s : Setting) : IsRest (s.separator :: s.value) := by
  intro c hc
  obtain rfl : s.separator = c := by simpa using hc
  exact s.isSeparator.isNameChar

theorem accepted_iff (s : Setting) : Accepted s.arg ↔ IsValue s.value := by
  constructor
  · rintro (hplain | ⟨f, hf⟩)
    · exact absurd hplain (not_plain_dashed s.isName)
    · obtain ⟨-, -, hrest⟩ := dashed_inj f.isName s.isName f.isRest_rest s.isRest_value hf
      rcases f.isRest with hnil | ⟨c, value, hcons, -, hvalue⟩
      · cases hnil.symm.trans hrest
      · obtain ⟨-, rfl⟩ := List.cons.inj (hcons.symm.trans hrest)
        exact hvalue
  · exact fun h => .inr ⟨s.flag h, rfl⟩

end Setting

/-- Each name has the values it was given, in order. -/
def RoundTrips (ss : List Setting) : Prop :=
  0 ≤ (getOptions (ss.map Setting.arg)).1 ∧
    ∀ s ∈ ss, (getOptions (ss.map Setting.arg)).2.lookup s.name =
      some ((ss.filter (·.name = s.name)).map Setting.value)

/-- The options read are the ones given. -/
theorem valuesOf_settings {ss : List Setting} {fs : List Flag}
    (hflags : Flags (ss.map Setting.arg) fs) (hvalues : ∀ s ∈ ss, IsValue s.value) (hkey : key ≠ []) :
    valuesOf (ss.map Setting.arg) fs key = (ss.filter (·.name = key)).map Setting.value := by
  rw [valuesOf, if_neg hkey]
  unfold Flags at hflags
  induction ss generalizing fs with
  | nil =>
    obtain rfl : fs = [] := List.map_eq_nil_iff.mp hflags.symm
    rfl
  | cons s ss ih =>
    obtain ⟨hs, hss⟩ := List.forall_mem_cons.mp hvalues
    have hplain : ¬ Plain s.arg := not_plain_dashed s.isName
    rw [List.map_cons, List.filter_cons_of_pos (by simpa using hplain)] at hflags
    obtain ⟨f, fs, rfl, hf, hrest⟩ := List.map_eq_cons_iff.mp hflags.symm
    obtain rfl : f = s.flag hs := Flag.arg_injective hf
    have hrest := ih hrest.symm hss
    by_cases hname : s.name = key
    · simp [Setting.flag, Flag.value, hname, hrest]
    · simp [Setting.flag, hname, hrest]

/-- Options with values round trip if and only if no value is empty or has a line
break. -/
theorem option_values (ss : List Setting) : RoundTrips ss ↔ ∀ s ∈ ss, IsValue s.value := by
  have haccepted : (∀ a ∈ ss.map Setting.arg, Accepted a) ↔ ∀ s ∈ ss, IsValue s.value := by
    simp only [List.forall_mem_map, Setting.accepted_iff]
  obtain ⟨hall, fs, kvs, hparses, hrun⟩ | ⟨hbad, hrun⟩ := getOptions_cases (ss.map Setting.arg)
  · have hvalues := haccepted.mp hall
    refine ⟨fun _ => hvalues, fun _ => ?_⟩
    unfold RoundTrips
    rw [hrun]
    refine ⟨by split <;> simp, fun s hs => ?_⟩
    have hmem : s.value ∈ (ss.filter (·.name = s.name)).map Setting.value :=
      List.mem_map_of_mem (List.mem_filter.mpr ⟨hs, by simp⟩)
    rw [hparses.lookup, valuesOf_settings hparses.flags hvalues s.isName.1,
      if_neg (List.ne_nil_of_mem hmem)]
  · rw [← haccepted]
    constructor
    · rintro ⟨hresult, -⟩
      rw [hrun] at hresult
      cases hresult
    · rintro hall
      obtain ⟨a, ha, hrefused⟩ := hbad
      exact absurd (hall a ha) hrefused

/-- `-o=` -/
def emptySetting : Setting where
  long := false
  name := "o".toList
  separator := '='
  value := []
  isName := ⟨by simp, List.forall_mem_singleton.mpr rfl⟩
  isSeparator := .inl rfl
  noNul := by simp

theorem option_values_empty : ¬ ∀ ss, RoundTrips ss := by
  intro h
  obtain ⟨hresult, -⟩ := h [emptySetting]
  have hrun : getOptions ([emptySetting].map Setting.arg) = (-1, ∅) := rfl
  rw [hrun] at hresult
  cases hresult

end Xutil.Config
