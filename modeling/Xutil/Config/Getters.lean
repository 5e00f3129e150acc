import Xutil.Config.Numerals

/-!
# The getters with an alternative

`get_as` has a primary template, here at `int`, and specialisations for strings
and `bool`, each in three forms. The forms with an alternative are to give what
the first one gives, and the alternative where it throws.
-/

namespace Xutil.Config

namespace Configurations

variable (c : Configurations)

/-- `get_as<int>(key, int&&)` -/
def getAsIntOrMove (alternative : Int) (key : Text) : Int :=
  match c.config.lookup key with
  | some (value :: _) =>
    let t := extractInt value
    if ! value.isEmpty && t.eof then t.value.getD alternative else alternative
  | _ => alternative

/-- `at(0)` -/
def front (values : List Text) : Except Exception Text :=
  match values with
  | [] => .error (.outOfRange none)
  | value :: _ => .ok value

/-- `get_as<std::string>(key)` -/
def getAsString (key : Text) : Except Exception Text := do front (← c.get key)

/-- `get_as<std::string>(key, std::string const&)` -/
def getAsStringOr (alternative : Text) (key : Text) : Except Exception Text :=
  match c.config.lookup key with
  | some values => front values
  | none => .ok alternative

/-- `get_as<std::string>(key, std::string&&)` -/
def getAsStringOrMove (alternative : Text) (key : Text) : Except Exception Text :=
  match c.config.lookup key with
  | some values => front values
  | none => .ok alternative

/-- `! values.empty() && values.at(0) != "0" && values.at(0) != "false"` -/
def truth (values : List Text) : Bool :=
  match values with
  | [] => false
  | value :: _ => value != "0".toList && value != "false".toList

/-- `get_as<bool>(key)` -/
def getAsBool (key : Text) : Except Exception Bool :=
  match c.config.lookup key with
  | some values => .ok (truth values)
  | none => .error (.outOfRange (some key))

/-- `get_as<bool>(key, bool const&)` -/
def getAsBoolOr (alternative : Bool) (key : Text) : Bool :=
  match c.config.lookup key with
  | some values => truth values
  | none => alternative

/-- `get_as<bool>(key, bool&&)` -/
def getAsBoolOrMove (alternative : Bool) (key : Text) : Bool :=
  match c.config.lookup key with
  | some values => truth values
  | none => alternative

end Configurations

-- ---------------------------------------------------------------------------
-- The forms of one template
-- ---------------------------------------------------------------------------

inductive Kind
  | string
  | bool
  | int
  deriving Repr, DecidableEq

abbrev Kind.Value : Kind → Type
  | .string => Text
  | .bool => Bool
  | .int => Int

namespace Configurations

variable (c : Configurations)

/-- `get_as<T>(key)`. Only a number needs a variable, which starts as `junk`. -/
def getAs : (T : Kind) → (junk : T.Value) → Text → Except Exception T.Value
  | .string, _, key => c.getAsString key
  | .bool, _, key => c.getAsBool key
  | .int, junk, key => c.getAsInt junk key

/-- `get_as<T>(key, T const&)` -/
def getAsOr : (T : Kind) → (alternative : T.Value) → Text → Except Exception T.Value
  | .string, alternative, key => c.getAsStringOr alternative key
  | .bool, alternative, key => .ok (c.getAsBoolOr alternative key)
  | .int, alternative, key => .ok (c.getAsIntOr alternative key)

/-- `get_as<T>(key, T&&)` -/
def getAsOrMove : (T : Kind) → (alternative : T.Value) → Text → Except Exception T.Value
  | .string, alternative, key => c.getAsStringOrMove alternative key
  | .bool, alternative, key => .ok (c.getAsBoolOrMove alternative key)
  | .int, alternative, key => .ok (c.getAsIntOrMove alternative key)

theorem getAsOrMove_eq (T : Kind) (alternative : T.Value) (key : Text) :
    c.getAsOrMove T alternative key = c.getAsOr T alternative key := by
  cases T <;> rfl

/-- The value of `r`, or the alternative if it throws. -/
def orElse (r : Except Exception α) (alternative : α) : α :=
  match r with
  | .ok a => a
  | .error _ => alternative

/-- Both forms with an alternative return, and what the first form does, whatever
its variable starts with. -/
def Agrees (T : Kind) (key : Text) (alternative : T.Value) : Prop :=
  c.getAsOr T alternative key = c.getAsOrMove T alternative key ∧
    ∀ junk, c.getAsOr T alternative key = .ok (orElse (c.getAs T junk key) alternative)

/-- The key has a value if it is there, and a number is not only white space. -/
def Usable (c : Configurations) (key : Text) : Kind → Prop
  | .string => c.config.lookup key ≠ some []
  | .bool => True
  | .int => ∀ s rest, c.config.lookup key = some (s :: rest) →
    (∀ a ∈ s, isSpace a = true) → s = []

theorem agrees_string_iff (alternative : Text) :
    c.Agrees .string key alternative ↔ c.config.lookup key ≠ some [] := by
  unfold Agrees
  rw [getAsOrMove_eq, eq_self_iff_true, true_and]
  simp only [getAs, getAsOr, getAsString, getAsStringOr, get]
  cases c.config.lookup key with
  | none => simp [orElse, bind, Except.bind]
  | some values => cases values <;> simp [orElse, bind, Except.bind, front]

theorem agrees_bool (alternative : Bool) : c.Agrees .bool key alternative := by
  refine ⟨rfl, fun _ => ?_⟩
  simp only [getAs, getAsOr, getAsBool, getAsBoolOr]
  cases c.config.lookup key <;> rfl

theorem extractInt_value (h : ¬ ∀ a ∈ s, isSpace a = true) :
    ∃ n, (extractInt s).value = some n := by
  have hdrop : s.dropWhile isSpace ≠ [] := fun hnil => h (List.dropWhile_eq_nil_iff.mp hnil)
  have hempty : (s.dropWhile isSpace).isEmpty = false := by simpa using hdrop
  simp [extractInt, hempty, extractNumber]

theorem agrees_int_first (h : c.config.lookup key = some (s :: rest)) (alternative : Int) :
    c.Agrees .int key alternative ↔ ((∀ a ∈ s, isSpace a = true) → s = []) := by
  have hor : c.getAsIntOr alternative key =
      if s ≠ [] ∧ (extractInt s).eof = true then (extractInt s).value.getD alternative
      else alternative := by
    simp [getAsIntOr, h]
  simp only [Agrees, getAsOrMove_eq, getAs, getAsOr, getAsInt_first h, hor, true_and, Except.ok.injEq]
  by_cases hread : s ≠ [] ∧ (extractInt s).eof = true
  · simp only [if_pos hread, orElse]
    by_cases hspaces : ∀ a ∈ s, isSpace a = true
    · simp only [extractInt_spaces hspaces, Option.getD_none]
      constructor
      · intro heq
        have hnext : alternative = alternative + 1 := heq (alternative + 1)
        omega
      · exact fun hempty => absurd (hempty hspaces) hread.1
    · obtain ⟨n, hn⟩ := extractInt_value hspaces
      simp [hn, hspaces]
  · simp only [if_neg hread, orElse, implies_true, true_iff]
    intro hspaces
    by_contra hne
    exact hread ⟨hne, by rw [extractInt_spaces hspaces]⟩

theorem agrees_int_iff (alternative : Int) : c.Agrees .int key alternative ↔ c.Usable key .int := by
  unfold Usable
  cases hlookup : c.config.lookup key with
  | none => simp [Agrees, getAs, getAsOr, getAsOrMove_eq, getAsInt, getAsIntOr, hlookup, orElse]
  | some values =>
    cases values with
    | nil => simp [Agrees, getAs, getAsOr, getAsOrMove_eq, getAsInt, getAsIntOr, hlookup, orElse]
    | cons s rest =>
      rw [c.agrees_int_first hlookup]
      simp

/-- The getters agree if and only if the string of a key that is there has a
value, and the value read as a number has more than white space. -/
theorem defaulting_getters (T : Kind) (key : Text) (alternative : T.Value) :
    c.Agrees T key alternative ↔ c.Usable key T := by
  cases T with
  | string => exact c.agrees_string_iff alternative
  | bool => exact iff_of_true (c.agrees_bool alternative) trivial
  | int => exact c.agrees_int_iff alternative

/-- A key without values is let in, and its string is asked for with an
alternative. -/
theorem defaulting_getters_empty : ¬ ∀ (options : Options) (c : Configurations),
    ofOptions options = .ok c → ∀ (T : Kind) (key : Text) (alternative : T.Value),
      c.Agrees T key alternative := by
  intro h
  have hok : ofOptions (sole []).config = .ok (sole []) := rfl
  obtain ⟨-, hvalue⟩ := h _ _ hok .string ['n'] "z".toList
  have hthrows : (sole []).getAsOr .string "z".toList ['n'] = .error (.outOfRange none) := rfl
  cases hthrows.symm.trans (hvalue [])

end Configurations

end Xutil.Config
