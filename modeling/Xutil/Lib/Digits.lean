import Mathlib.Algebra.Group.Nat.Defs
import Mathlib.Data.List.Basic

/-!
# Numbers of a fixed width

`fixed w n` writes the last `w` digits of `n`, leading zeros included. Texts that
start with such numbers compare as the lists of the numbers do.
-/

namespace Digits

def fixed : Nat → Nat → List Char
  | 0, _ => []
  | w + 1, n => fixed w (n / 10) ++ [(n % 10).digitChar]

@[simp] theorem length_fixed (w n : Nat) : (fixed w n).length = w := by
  induction w generalizing n with
  | zero => rfl
  | succ w ih => simp [fixed, ih]

theorem fixed_zero (w : Nat) : fixed w 0 = List.replicate w '0' := by
  induction w with
  | zero => rfl
  | succ w ih => simp [fixed, ih, List.replicate_succ']

/-- A number that is not too long for its field. -/
theorem leftpad_eq_fixed (hw : 0 < w) (h : n < 10 ^ w) :
    List.leftpad w '0' (Nat.toDigits 10 n) = fixed w n := by
  induction w generalizing n with
  | zero => exact absurd hw (Nat.lt_irrefl 0)
  | succ w ih =>
    rw [Nat.pow_succ] at h
    by_cases hn : n < 10
    · rw [Nat.toDigits_of_lt_base hn, fixed, Nat.mod_eq_of_lt hn, Nat.div_eq_of_lt hn, fixed_zero]
      simp [List.leftpad]
    · have hpos : 0 < w := by
        rw [Nat.pos_iff_ne_zero]
        rintro rfl
        simp at h
        omega
      rw [Nat.toDigits_of_base_le (by decide) (by omega), fixed, ← ih hpos (by omega)]
      simp [List.leftpad, Nat.add_sub_add_right]

-- ---------------------------------------------------------------------------
-- Their order
-- ---------------------------------------------------------------------------

theorem digitChar_lt (h : m < n) (hn : n < 10) : m.digitChar < n.digitChar := by
  have hdigits : ∀ j < 10, ∀ i < j, i.digitChar < j.digitChar := by decide
  exact hdigits n hn m h

theorem append_lt [LT α] {xs ys : List α} (h : xs < ys) (hlength : xs.length = ys.length)
    (s t : List α) : xs ++ s < ys ++ t := by
  induction xs generalizing ys with
  | nil =>
    cases ys with
    | nil => exact absurd h (List.not_lt_nil _)
    | cons y ys => simp at hlength
  | cons x xs ih =>
    cases ys with
    | nil => simp at hlength
    | cons y ys =>
      rw [List.cons_append, List.cons_append, List.cons_lt_cons_iff]
      rcases List.cons_lt_cons_iff.mp h with hxy | ⟨hxy, hrest⟩
      · exact .inl hxy
      · exact .inr ⟨hxy, ih hrest (by simpa using hlength)⟩

theorem fixed_lt (h : m < n) (hn : n < 10 ^ w) : fixed w m < fixed w n := by
  induction w generalizing m n with
  | zero =>
    rw [Nat.pow_zero] at hn
    omega
  | succ w ih =>
    rw [Nat.pow_succ] at hn
    rw [fixed, fixed]
    by_cases hdiv : m / 10 < n / 10
    · exact append_lt (ih hdiv (by omega)) (by simp) _ _
    · have hsame : m / 10 = n / 10 := by omega
      rw [hsame]
      refine List.append_left_lt (List.cons_lt_cons_iff.mpr (.inl (digitChar_lt ?_ ?_))) <;> omega

/-- Numbers, each with its width and what is written after it. -/
def fields : List (Nat × List Char) → List Nat → List Char
  | (w, sep) :: shape, n :: ns => fixed w n ++ (sep ++ fields shape ns)
  | _, _ => []

def Fits (shape : List (Nat × List Char)) (ns : List Nat) : Prop :=
  List.Forall₂ (fun f n => n < 10 ^ f.1) shape ns

theorem fields_lt (hms : Fits shape ms) (hns : Fits shape ns) (h : ms < ns) (s t : List Char) :
    fields shape ms ++ s < fields shape ns ++ t := by
  induction hms generalizing ns with
  | nil =>
    cases hns
    exact absurd h (List.not_lt_nil _)
  | @cons f m shape ms _ _ ih =>
    obtain ⟨w, sep⟩ := f
    cases hns with
    | @cons _ n _ ns hn hns =>
      simp only [fields, List.append_assoc]
      rcases List.cons_lt_cons_iff.mp h with hmn | ⟨rfl, hrest⟩
      · exact append_lt (fixed_lt hmn hn) (by simp) _ _
      · exact List.append_left_lt (List.append_left_lt (ih hns hrest))

end Digits
