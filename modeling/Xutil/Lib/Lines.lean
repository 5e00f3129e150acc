import Mathlib.Data.List.Basic

/-!
# Texts and their lines

Strings are lists of characters. `getlines` reads lines one character at a time, as `std::getline` does until it
fails. They are the pieces between the line ends, but for an empty one at the end
of the text.
-/

abbrev Text := List Char

namespace Lines

variable {α : Type*} [DecidableEq α] (newline : α)

/-- `line` has what has been read of a line, the last character first. -/
def getlines (line : List α) : List α → List (List α)
  | [] => if line.isEmpty then [] else [line.reverse]
  | c :: cs =>
    if c = newline then line.reverse :: getlines [] cs else getlines (c :: line) cs

/-- All the pieces but an empty one at the end. -/
def closed (pieces : List (List α)) : List (List α) :=
  if pieces.getLast? = some [] then pieces.dropLast else pieces

def lines (text : List α) : List (List α) := closed (text.splitOn newline)

theorem closed_cons {pieces : List (List α)} (h : pieces ≠ []) :
    closed (piece :: pieces) = piece :: closed pieces := by
  obtain ⟨p, ps, rfl⟩ := List.exists_cons_of_ne_nil h
  unfold closed
  rw [List.getLast?_cons_cons]
  split <;> rfl

theorem getlines_eq (line text : List α) :
    getlines newline line text = closed (text.splitOnPPrepend (· == newline) line) := by
  induction text generalizing line with
  | nil =>
    cases line with
    | nil => rfl
    | cons c line => simp [getlines, closed]
  | cons c text ih =>
    rw [List.splitOnPPrepend_cons_eq_if, getlines]
    simp only [beq_iff_eq]
    split
    · have hrest : getlines newline [] text = closed (text.splitOnP (· == newline)) := ih []
      rw [closed_cons (List.splitOnP_ne_nil _ _), hrest]
    · exact ih (c :: line)

theorem getlines_lines (text : List α) : getlines newline [] text = lines newline text :=
  getlines_eq newline [] text

theorem getlines_line {line text : List α} (h : newline ∉ text) (hne : line ≠ [] ∨ text ≠ []) :
    getlines newline line text = [line.reverse ++ text] := by
  induction text generalizing line with
  | nil =>
    have hline : line.isEmpty = false := by simpa using hne
    simp [getlines, hline]
  | cons c text ih =>
    obtain ⟨hc, htext⟩ := List.ne_and_not_mem_of_not_mem_cons h
    rw [getlines, if_neg (Ne.symm hc), ih htext (.inl (List.cons_ne_nil c line))]
    simp

/-- Each line with its line end. -/
def unlines (ls : List (List α)) : List α := ls.flatMap (· ++ [newline])

theorem getlines_append_newline (line text rest : List α) (h : newline ∉ text) :
    getlines newline line (text ++ newline :: rest) =
      (line.reverse ++ text) :: getlines newline [] rest := by
  induction text generalizing line with
  | nil => simp [getlines]
  | cons c text ih =>
    obtain ⟨hc, htext⟩ := List.ne_and_not_mem_of_not_mem_cons h
    rw [List.cons_append, getlines, if_neg (Ne.symm hc), ih _ htext]
    simp

theorem getlines_unlines {ls : List (List α)} (h : ∀ l ∈ ls, newline ∉ l) :
    getlines newline [] (unlines newline ls) = ls := by
  induction ls with
  | nil => rfl
  | cons l ls ih =>
    obtain ⟨hl, hls⟩ := List.forall_mem_cons.mp h
    have hcons : unlines newline (l :: ls) = l ++ newline :: unlines newline ls := by
      simp [unlines]
    rw [hcons, getlines_append_newline newline [] l _ hl, ih hls]
    rfl

end Lines
