import Xutil.Config.Lines

/-!
# The arguments of a command line

An option is a name after one or two hyphens, and what is given to it. A value
is not empty and stays on one line. Everything else that starts with a hyphen is
refused, and with it the whole command line.
-/

namespace Xutil.Config

/-- An argument that is not meant as an option. -/
def Plain (a : Text) : Prop := a = ['-'] ∨ a.head? ≠ some '-'

instance : DecidablePred Plain := fun _ => inferInstanceAs (Decidable (_ ∨ _))

def IsName (name : Text) : Prop := name ≠ [] ∧ ∀ c ∈ name, isNameChar c = true

def IsSeparator (c : Char) : Prop := c = '=' ∨ c = ':'

def IsValue (value : Text) : Prop := value ≠ [] ∧ '\n' ∉ value ∧ '\r' ∉ value

/-- One hyphen or two, a name and the rest of the argument. -/
def dashed (long : Bool) (name rest : Text) : Text :=
  '-' :: ((if long then ['-'] else []) ++ (name ++ rest))

/-- An option that is accepted, taken apart. -/
structure Flag where
  long : Bool
  name : Text
  rest : Text
  isName : IsName name
  isRest : rest = [] ∨ ∃ c value, rest = c :: value ∧ IsSeparator c ∧ IsValue value

namespace Flag

def arg (f : Flag) : Text := dashed f.long f.name f.rest

/-- What follows the separator. -/
def value (f : Flag) : Text := f.rest.tail

end Flag

-- ---------------------------------------------------------------------------
-- There is one way to take an option apart
-- ---------------------------------------------------------------------------

theorem IsSeparator.isNameChar (h : IsSeparator c) : isNameChar c = false := by
  rcases h with rfl | rfl <;> rfl

theorem IsName.head (h : IsName name) :
    ∃ c cs, name = c :: cs ∧ isNameChar c = true ∧ c ≠ '-' := by
  obtain ⟨hne, hall⟩ := h
  cases name with
  | nil => exact absurd rfl hne
  | cons c cs =>
    have hc := hall c List.mem_cons_self
    refine ⟨c, cs, rfl, hc, ?_⟩
    rintro rfl
    cases hc

theorem isValue_iff : IsValue value ↔ value ≠ [] ∧ ∀ c ∈ value, Regex.isDot c = true := by
  simp only [IsValue, Regex.isDot_iff, forall₂_and, ne_eq, List.forall_mem_ne']

/-- What follows a name in an argument. -/
def IsRest (rest : Text) : Prop := ∀ c ∈ rest.head?, isNameChar c = false

theorem dashed_inj (hname : IsName name) (hname' : IsName name') (hrest : IsRest rest)
    (hrest' : IsRest rest') (h : dashed long name rest = dashed long' name' rest') :
    long = long' ∧ name = name' ∧ rest = rest' := by
  obtain ⟨c, cs, rfl, -, hc⟩ := hname.head
  obtain ⟨c', cs', rfl, -, hc'⟩ := hname'.head
  have hspan (h : c :: cs ++ rest = c' :: cs' ++ rest') : c :: cs = c' :: cs' ∧ rest = rest' :=
    span_unique hname.2 hrest hname'.2 hrest' h
  cases long <;> cases long' <;> simp only [dashed, List.cons.injEq, true_and] at h
  · exact ⟨rfl, hspan h⟩
  · exact absurd (List.cons.inj h).1 hc
  · exact absurd (List.cons.inj h).1.symm hc'
  · exact ⟨rfl, hspan (List.cons.inj h).2⟩

theorem Flag.isRest_rest (f : Flag) : IsRest f.rest := by
  intro c hc
  rcases f.isRest with hrest | ⟨a, value, hrest, ha, -⟩ <;> rw [hrest] at hc
  · cases hc
  · obtain rfl : a = c := by simpa using hc
    exact ha.isNameChar

theorem Flag.arg_injective : Function.Injective Flag.arg := by
  intro f f' h
  obtain ⟨hlong, hname, hrest⟩ := dashed_inj f.isName f'.isName f.isRest_rest f'.isRest_rest h
  cases f
  cases f'
  simp_all

-- ---------------------------------------------------------------------------
-- The expression of an option
-- ---------------------------------------------------------------------------

namespace Flag

def captures (f : Flag) : Regex.Captures Char :=
  if f.rest = [] then Function.update (fun _ => []) 1 f.name
  else Function.update (Function.update (fun _ => []) 1 f.name) 2 f.value

theorem captures_name (f : Flag) : f.captures 1 = f.name := by
  unfold captures
  split <;> simp

theorem captures_value (f : Flag) : f.captures 2 = f.value := by
  unfold captures
  split
  · rename_i h
    simp [value, h]
  · simp

end Flag

theorem first_dashes (long : Bool) (hname : IsName name) :
    Regex.First (.opt (.one (· == '-'))) c (if long then ['-'] else []) c (name ++ rest) := by
  obtain ⟨a, cs, rfl, -, ha⟩ := hname.head
  cases long
  · exact .opt_none fun k => by simp [Regex.run, ha]
  · refine .opt fun k _ => ?_
    simp [Regex.run]

theorem first_plus {p : Char → Bool} {w : Text} (hne : w ≠ []) (hall : ∀ a ∈ w, p a = true)
    (hstop : ∀ a ∈ rest.head?, p a = false) :
    Regex.First (.plus (.one p)) c w c rest := by
  cases w with
  | nil => exact absurd rfl hne
  | cons a w =>
    obtain ⟨ha, hall⟩ := List.forall_mem_cons.mp hall
    exact .cons ha (.star_one hall hstop)

theorem Flag.regexMatch_arg (f : Flag) : Regex.regexMatch optionRe f.arg = some f.captures := by
  apply Regex.First.regexMatch
  have hname : Regex.First (.group 1 (.plus (.one isNameChar))) (fun _ => []) f.name
      (Function.update (fun _ => []) 1 f.name) (f.rest ++ []) := by
    refine .group (first_plus f.isName.1 f.isName.2 ?_)
    rw [List.append_nil]
    exact f.isRest_rest
  refine .cons rfl (.seq ?_ (.seq hname ?_))
  · rw [List.append_nil]
    exact first_dashes f.long f.isName
  rcases f.isRest with hrest | ⟨c, value, hrest, hc, hvalue⟩
  · rw [Flag.captures, if_pos hrest, hrest]
    exact .opt_none fun k => rfl
  · have hsep : (c == '=' || c == ':') = true := by
      rcases hc with rfl | rfl <;> rfl
    obtain ⟨hne, hall⟩ := isValue_iff.mp hvalue
    rw [Flag.captures, if_neg (by simp [hrest]), Flag.value, hrest]
    exact .opt (.cons hsep (.group (first_plus hne hall (by simp))))

theorem flag_of_regexMatch (h : Regex.regexMatch optionRe a = some c) : ∃ f : Flag, f.arg = a := by
  have hm := Regex.regexMatch_matches h
  simp only [optionRe, Regex.plus, Regex.matches_seq, Regex.matches_group, Regex.matches_one,
    Regex.matches_star_one, Regex.matches_opt] at hm
  obtain ⟨_, _, _, rfl, ⟨a, ha, rfl, rfl⟩, dashes, _, _, rfl, hdashes, name, _, rest, rfl,
    ⟨_, ⟨_, _, cs, rfl, ⟨c, hc, rfl, rfl⟩, hcs, rfl⟩, rfl⟩, hrest⟩ := hm
  obtain rfl : a = '-' := by simpa using ha
  have hname : IsName ([c] ++ cs) := ⟨by simp, List.forall_mem_cons.mpr ⟨hc, hcs⟩⟩
  have hrest : rest = [] ∨ ∃ c value, rest = c :: value ∧ IsSeparator c ∧ IsValue value := by
    rcases hrest with ⟨rfl, -⟩ | ⟨_, _, _, rfl, ⟨b, hb, rfl, -⟩, _,
      ⟨_, _, value, rfl, ⟨v, hv, rfl, -⟩, hvalue, -⟩, -⟩
    · exact .inl rfl
    · refine .inr ⟨b, v :: value, rfl, by simpa [IsSeparator] using hb, ?_⟩
      exact isValue_iff.mpr ⟨by simp, List.forall_mem_cons.mpr ⟨hv, hvalue⟩⟩
  rcases hdashes with ⟨rfl, -⟩ | ⟨b, hb, rfl, -⟩
  · exact ⟨⟨false, [c] ++ cs, rest, hname, hrest⟩, rfl⟩
  · obtain rfl : b = '-' := by simpa using hb
    exact ⟨⟨true, [c] ++ cs, rest, hname, hrest⟩, rfl⟩

-- ---------------------------------------------------------------------------
-- One argument
-- ---------------------------------------------------------------------------

theorem not_plain_dashed (hname : IsName name) : ¬ Plain (dashed long name rest) := by
  obtain ⟨c, cs, rfl, -, -⟩ := hname.head
  simp [Plain, dashed]

theorem Flag.not_plain (f : Flag) : ¬ Plain f.arg := not_plain_dashed f.isName

/-- Plain, or an option that is accepted. -/
def Accepted (a : Text) : Prop := Plain a ∨ ∃ f : Flag, f.arg = a

theorem addArg_plain (options : Options) (h : Plain a) :
    addArg options a = .ok (options.pushBack [] a) :=
  if_pos h

theorem addArg_dashed (options : Options) (h : ¬ Plain a) :
    addArg options a = match Regex.regexMatch optionRe a with
      | some result => .ok (options.pushBack (result 1) (result 2))
      | none => .error (.invalidArgument a) :=
  if_neg h

theorem addArg_flag (options : Options) (f : Flag) :
    addArg options f.arg = .ok (options.pushBack f.name f.value) := by
  rw [addArg_dashed options f.not_plain, f.regexMatch_arg, ← f.captures_name, ← f.captures_value]

theorem addArg_refused (options : Options) (h : ¬ Accepted a) :
    addArg options a = .error (.invalidArgument a) := by
  obtain ⟨hplain, hflag⟩ := not_or.mp h
  rw [addArg_dashed options hplain]
  split
  · rename_i hmatch
    exact absurd (flag_of_regexMatch hmatch) hflag
  · rfl

-- ---------------------------------------------------------------------------
-- All the arguments
-- ---------------------------------------------------------------------------

/-- The options among the arguments, in order. -/
def Flags (args : List Text) (fs : List Flag) : Prop := args.filter (¬ Plain ·) = fs.map Flag.arg

/-- The values under `key`. -/
def valuesOf (args : List Text) (fs : List Flag) (key : Text) : List Text :=
  if key = [] then args.filter (Plain ·) else (fs.filter (·.name = key)).map Flag.value

theorem flags_plain (h : Flags args fs) (ha : Plain a) : Flags (a :: args) fs := by
  simpa [Flags, ha] using h

theorem flags_flag (h : Flags args fs) (f : Flag) : Flags (f.arg :: args) (f :: fs) := by
  simpa [Flags, f.not_plain] using h

theorem valuesOf_plain (ha : Plain a) :
    valuesOf (a :: args) fs key = (if key = [] then [a] else []) ++ valuesOf args fs key := by
  unfold valuesOf
  split <;> simp [ha]

theorem valuesOf_flag (f : Flag) :
    valuesOf (f.arg :: args) (f :: fs) key =
      (if f.name = key then [f.value] else []) ++ valuesOf args fs key := by
  unfold valuesOf
  split
  · rename_i hkey
    simp [f.not_plain, hkey, f.isName.1]
  · split <;> simp [*]

/-- What the arguments add. -/
structure Parses (args : List Text) (fs : List Flag) (kvs : List (Text × Text)) : Prop where
  flags : Flags args fs
  values : ∀ key, (kvs.filter (·.1 = key)).map Prod.snd = valuesOf args fs key
  length : kvs.length = args.length

theorem Parses.plain (h : Parses args fs kvs) (ha : Plain a) :
    Parses (a :: args) fs (([], a) :: kvs) where
  flags := flags_plain h.flags ha
  values key := by
    rw [valuesOf_plain ha, ← h.values]
    by_cases hkey : key = [] <;> simp [hkey, eq_comm]
  length := by simp [h.length]

theorem Parses.flag (h : Parses args fs kvs) (f : Flag) :
    Parses (f.arg :: args) (f :: fs) ((f.name, f.value) :: kvs) where
  flags := flags_flag h.flags f
  values key := by
    rw [valuesOf_flag, ← h.values]
    by_cases hkey : f.name = key <;> simp [hkey]
  length := by simp [h.length]

/-- The arguments are taken to the end, or up to one that is refused. -/
theorem foldlM_addArg_cases (options : Options) (args : List Text) :
    ((∀ a ∈ args, Accepted a) ∧ ∃ fs kvs, Parses args fs kvs ∧
      args.foldlM addArg options = .ok (options.pushEach kvs)) ∨
    (∃ a ∈ args, ¬ Accepted a ∧ args.foldlM addArg options = .error (.invalidArgument a)) := by
  induction args generalizing options with
  | nil => exact .inl ⟨by simp, [], [], ⟨rfl, by simp [valuesOf], rfl⟩, rfl⟩
  | cons a args ih =>
    rw [List.foldlM_cons]
    by_cases haccept : Accepted a
    · obtain ⟨key, value, hadd, hparses⟩ : ∃ key value,
          addArg options a = .ok (options.pushBack key value) ∧ ∀ fs kvs, Parses args fs kvs →
            ∃ fs', Parses (a :: args) fs' ((key, value) :: kvs) := by
        rcases haccept with hplain | ⟨f, rfl⟩
        · exact ⟨[], a, addArg_plain options hplain, fun fs kvs h => ⟨fs, h.plain hplain⟩⟩
        · exact ⟨f.name, f.value, addArg_flag options f, fun fs kvs h => ⟨f :: fs, h.flag f⟩⟩
      rw [hadd]
      obtain ⟨hall, fs, kvs, hrest, hrun⟩ | ⟨b, hb, hrefused, hrun⟩ :=
        ih (options.pushBack key value)
      · obtain ⟨fs', h⟩ := hparses fs kvs hrest
        exact .inl ⟨List.forall_mem_cons.mpr ⟨haccept, hall⟩, fs', _, h, hrun⟩
      · exact .inr ⟨b, List.mem_cons_of_mem a hb, hrefused, hrun⟩
    · rw [addArg_refused options haccept]
      exact .inr ⟨a, List.mem_cons_self, haccept, rfl⟩

end Xutil.Config
