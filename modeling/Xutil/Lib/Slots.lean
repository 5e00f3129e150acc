import Mathlib.Data.List.ReduceOption

/-!
# Vectors with placeholders

An entry that is deleted becomes a placeholder, so that the positions of the
others stay. `slots` lists the entries that are left, each with its position.
-/

namespace Slots

variable {α : Type*}

def slotsFrom (n : Nat) : List (Option α) → List (Nat × α)
  | [] => []
  | none :: xs => slotsFrom (n + 1) xs
  | some a :: xs => (n, a) :: slotsFrom (n + 1) xs

def slots (xs : List (Option α)) : List (Nat × α) := slotsFrom 0 xs

theorem slotsFrom_append (xs ys : List (Option α)) (n : Nat) :
    slotsFrom n (xs ++ ys) = slotsFrom n xs ++ slotsFrom (n + xs.length) ys := by
  induction xs generalizing n with
  | nil => rfl
  | cons x xs ih =>
    have hlen : n + (xs.length + 1) = n + 1 + xs.length := by omega
    cases x <;> simp [slotsFrom, ih, hlen]

theorem bounds_of_mem_slotsFrom {xs : List (Option α)} (h : p ∈ slotsFrom n xs) :
    n ≤ p.1 ∧ p.1 < n + xs.length := by
  induction xs generalizing n with
  | nil => cases h
  | cons x xs ih =>
    have hrest : p ∈ slotsFrom (n + 1) xs → n ≤ p.1 ∧ p.1 < n + (x :: xs).length := fun hp => by
      have hbounds := ih hp
      simp only [List.length_cons]
      omega
    cases x with
    | none => exact hrest h
    | some b =>
      rcases List.mem_cons.mp h with rfl | h
      · simp
      · exact hrest h

theorem slotsFrom_set_none (xs : List (Option α)) (n i : Nat) :
    slotsFrom n (xs.set i none) = (slotsFrom n xs).filter (·.1 ≠ n + i) := by
  induction xs generalizing n i with
  | nil => rfl
  | cons x xs ih =>
    cases i with
    | zero =>
      have hall : ∀ p ∈ slotsFrom (n + 1) xs, p.1 ≠ n :=
        fun p hp => Nat.ne_of_gt (bounds_of_mem_slotsFrom hp).1
      have hkeep : (slotsFrom (n + 1) xs).filter (·.1 ≠ n) = slotsFrom (n + 1) xs :=
        List.filter_eq_self.mpr fun p hp => by simpa using hall p hp
      cases x with
      | none => exact hkeep.symm
      | some a => exact hkeep.symm.trans (by simp [slotsFrom])
    | succ i =>
      have hoff : n + 1 + i = n + (i + 1) := by omega
      cases x <;> simp [slotsFrom, ih, hoff]

theorem map_snd_slotsFrom (xs : List (Option α)) (n : Nat) :
    (slotsFrom n xs).map Prod.snd = xs.reduceOption := by
  induction xs generalizing n with
  | nil => rfl
  | cons x xs ih => cases x <;> simp [slotsFrom, ih]

@[simp] theorem slots_nil : slots ([] : List (Option α)) = [] := rfl

theorem slots_push (xs : List (Option α)) (a : α) :
    slots (xs ++ [some a]) = slots xs ++ [(xs.length, a)] := by
  simp [slots, slotsFrom_append, slotsFrom]

theorem slots_set_none (xs : List (Option α)) (i : Nat) :
    slots (xs.set i none) = (slots xs).filter (·.1 ≠ i) := by
  simpa [slots] using slotsFrom_set_none xs 0 i

theorem map_snd_slots (xs : List (Option α)) : (slots xs).map Prod.snd = xs.reduceOption :=
  map_snd_slotsFrom xs 0

theorem slots_take_succ {xs : List (Option α)} (h : xs[i]? = some o) :
    slots (xs.take (i + 1)) = slots (xs.take i) ++ (o.map (i, ·)).toList := by
  have hlen : (xs.take i).length = i :=
    List.length_take_of_le (Nat.le_of_lt (List.getElem?_eq_some_iff.mp h).1)
  rw [List.take_add_one, h, slots, slotsFrom_append, hlen]
  cases o <;> simp [slots, slotsFrom]

theorem slots_split {xs : List (Option α)} (h : xs[i]? = some (some a)) :
    ∃ after, slots xs = slots (xs.take i) ++ (i, a) :: after := by
  have hall := slotsFrom_append (xs.take (i + 1)) (xs.drop (i + 1)) 0
  rw [List.take_append_drop] at hall
  exact ⟨_, by rw [slots, hall, ← slots, slots_take_succ h]; simp; rfl⟩

theorem lt_of_mem_slots_take {xs : List (Option α)} (h : p ∈ slots (xs.take i)) : p.1 < i := by
  have hlt := (bounds_of_mem_slotsFrom h).2
  rw [Nat.zero_add] at hlt
  exact Nat.lt_of_lt_of_le hlt (List.length_take_le i xs)

end Slots
