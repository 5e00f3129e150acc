import Xutil.Config.Arguments
import Xutil.Config.Configurations

/-!
# Command lines as configurations

`get_options` gives plain arguments the empty key and lets the name of an option
start with a digit. Neither is a key of `configurations_t`.
-/

namespace Xutil.Config

open Configurations

/-- An option whose name starts with a letter. -/
def startsWithLetter : Text → Bool
  | '-' :: '-' :: c :: _ => c.isAlpha
  | '-' :: c :: _ => c.isAlpha
  | _ => false

-- ---------------------------------------------------------------------------
-- One argument
-- ---------------------------------------------------------------------------

theorem not_isKey_nil : ¬ IsKey [] := by
  rintro ⟨_, _, h, -⟩
  cases h

theorem isKey_name_iff (hname : ∀ a ∈ c :: cs, isNameChar a = true) :
    IsKey (c :: cs) ↔ c.isAlpha = true := by
  obtain ⟨hc, hcs⟩ := List.forall_mem_cons.mp hname
  have htail : ∀ a ∈ cs, isKeyTail a = true := fun a ha => by
    have hnum : a.isAlphanum = true := hcs a ha
    simp [isKeyTail, hnum]
  have hhead : isKeyHead c = true ↔ c.isAlpha = true := by
    have hunderscore : c ≠ '_' := by
      rintro rfl
      cases hc
    have hdot : c ≠ '.' := by
      rintro rfl
      cases hc
    simp [isKeyHead, hunderscore, hdot]
  rw [← hhead]
  constructor
  · rintro ⟨_, _, h, ha, -⟩
    cases h
    exact ha
  · exact fun h => ⟨c, cs, rfl, h, htail⟩

theorem startsWithLetter_dash (hc : isNameChar c = true) :
    startsWithLetter ('-' :: c :: rest) = c.isAlpha := by
  have hdash : c ≠ '-' := by
    rintro rfl
    cases hc
  unfold startsWithLetter
  split
  · rename_i h
    cases h
    exact absurd rfl hdash
  · rename_i h
    cases h
    rfl
  · rename_i h
    exact absurd rfl (h _ _)

theorem isKey_flag_iff (f : Flag) : IsKey f.name ↔ startsWithLetter f.arg = true := by
  obtain ⟨long, name, rest, hname, -⟩ := f
  obtain ⟨c, cs, rfl, hc, -⟩ := hname.head
  rw [isKey_name_iff hname.2]
  cases long
  · rw [← startsWithLetter_dash hc]
    rfl
  · rfl

theorem addArg_cases (options : Options) (a : Text) :
    (∃ key value, addArg options a = .ok (options.pushBack key value) ∧
      (IsKey key ↔ startsWithLetter a = true)) ∨
    addArg options a = .error (.invalidArgument a) := by
  by_cases haccept : Accepted a
  · left
    rcases haccept with hplain | ⟨f, rfl⟩
    · refine ⟨[], a, addArg_plain options hplain, ⟨fun h => absurd h not_isKey_nil, fun h => ?_⟩⟩
      rcases hplain with rfl | hhead
      · cases h
      · unfold startsWithLetter at h
        split at h <;> simp_all
    · exact ⟨f.name, f.value, addArg_flag options f, isKey_flag_iff f⟩
  · exact .inr (addArg_refused options haccept)

-- ---------------------------------------------------------------------------
-- All the arguments
-- ---------------------------------------------------------------------------

theorem pushBack_valid_iff {options : Options} :
    (∀ k ∈ options.pushBack key value, IsKey k) ↔ IsKey key ∧ ∀ k ∈ options, IsKey k := by
  simp [mem_pushBack]

theorem foldlM_addArg_valid {args : List Text} (h : args.foldlM addArg options = .ok m) :
    (∀ key ∈ m, IsKey key) ↔
      (∀ key ∈ options, IsKey key) ∧ ∀ a ∈ args, startsWithLetter a = true := by
  induction args generalizing options with
  | nil =>
    cases h
    simp
  | cons a args ih =>
    rw [List.foldlM_cons] at h
    obtain ⟨key, value, hadd, hkey⟩ | hadd := addArg_cases options a <;> rw [hadd] at h
    · rw [ih h, pushBack_valid_iff, hkey, List.forall_mem_cons]
      tauto
    · cases h

theorem getOptions_zero (h : getOptions args = (0, m)) : args.foldlM addArg ∅ = .ok m := by
  unfold getOptions at h
  split at h
  · rename_i hrun
    rw [hrun, (Prod.mk.inj h).2]
  · cases h

/-- Both constructors take the options, with every file that loads. -/
def Configures (m : Options) : Prop :=
  (∃ c, ofOptions m = .ok c) ∧
    ∀ text, (∃ c, ofFile (some text) = .ok c) → ∃ c, ofFileOptions (some text) m = .ok c

theorem configures_iff : Configures m ↔ ∀ key ∈ m, IsKey key := by
  constructor
  · rintro ⟨⟨c, hc⟩, -⟩
    obtain ⟨hvalid, -⟩ | ⟨-, hrun⟩ := ofOptions_cases m
    · exact hvalid
    · cases hrun.symm.trans hc
  · intro hvalid
    refine ⟨?_, fun text htext => ?_⟩
    · obtain ⟨_, hrun⟩ | ⟨hinvalid, -⟩ := ofOptions_cases m
      · exact ⟨_, hrun⟩
      · exact absurd hvalid hinvalid
    · rw [ofFileOptions_eq _ hvalid, load_ok_iff]
      exact (load_ok_iff _ text).mp htext

/-- The options of a command line are a configuration if and only if every
argument is an option whose name starts with a letter. -/
theorem get_options_configures (h : getOptions args = (0, m)) :
    Configures m ↔ ∀ a ∈ args, startsWithLetter a = true := by
  rw [configures_iff, foldlM_addArg_valid (getOptions_zero h)]
  simp

theorem get_options_configures_port :
    Configures (getOptions ["--port=80".toList, "-v".toList]).2 := by
  have hzero : getOptions ["--port=80".toList, "-v".toList] =
      (0, (getOptions ["--port=80".toList, "-v".toList]).2) := rfl
  exact (get_options_configures hzero).mpr (by decide)

/-- A plain argument. -/
theorem get_options_configures_plain :
    ¬ ∀ args m, getOptions args = (0, m) → Configures m := by
  intro h
  obtain ⟨⟨c, hc⟩, -⟩ := h ["file".toList] _ rfl
  have hrun : ofOptions (getOptions ["file".toList]).2 = .error invalidKeys := rfl
  cases hrun.symm.trans hc

end Xutil.Config
