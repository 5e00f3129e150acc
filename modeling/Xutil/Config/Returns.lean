import Xutil.Config.Configurations

/-!
# Carriage returns

A value may be any characters, says the documentation. A value with a carriage
return is refused, so a file with an entry is refused once its lines end in
CRLF.
-/

namespace Xutil.Config

open Configurations

/-- The file `text` is accepted and gives the value of `e` to its key. -/
def Gives (o : Options) (text : Text) (e : Entry) : Prop :=
  ∃ c, ofFileOptions (some text) o = .ok c ∧
    c.get e.key = .ok ((o.lookup e.key).getD [] ++ [e.value])

def Loads (o : Options) (text : Text) : Prop := ∃ c, ofFileOptions (some text) o = .ok c

/-- Every `'\n'` becomes `'\r'` and `'\n'`. -/
def crlf (text : Text) : Text := text.flatMap fun c => if c = '\n' then ['\r', '\n'] else [c]

-- ---------------------------------------------------------------------------
-- One entry
-- ---------------------------------------------------------------------------

theorem lines_singleton (h : '\n' ∉ line) : lines line = [line] :=
  List.splitOn_eq_singleton h

theorem lines_terminated (h : '\n' ∉ line) : lines (line ++ ['\n']) = [line, []] := by
  rw [lines, List.splitOn_append_cons_self_of_not_mem h]
  rfl

/-- `tail` is the end of the line, which the last line of a file may lack. -/
theorem gives_iff (hvalid : ∀ key ∈ o, IsKey key) {e : Entry} (h : '\n' ∉ e.value)
    (htail : tail ∈ [[], ['\n']]) : Gives o (e.line ++ tail) e ↔ '\r' ∉ e.value := by
  have hline := e.newline_not_mem_line h
  have hlines : lines (e.line ++ tail) = [e.line] ∨ lines (e.line ++ tail) = [e.line, []] := by
    rcases List.mem_pair.mp htail with rfl | rfl
    · exact .inl (by rw [List.append_nil, lines_singleton hline])
    · exact .inr (lines_terminated hline)
  have hempty : WellFormed [] := .inl (.inl rfl)
  have hall : (∀ line ∈ lines (e.line ++ tail), WellFormed line) ↔ '\r' ∉ e.value := by
    rw [← e.wellFormed_line_iff h]
    rcases hlines with hlines | hlines <;> simp [hlines, hempty]
  have hfilter : (lines (e.line ++ tail)).filter (¬ Ignored ·) = [e].map Entry.line := by
    have hnot := e.not_ignored h
    have hig : Ignored [] := .inl rfl
    rcases hlines with hlines | hlines <;> simp [hlines, hnot, hig]
  rw [← hall, Gives, ofFileOptions_eq _ hvalid]
  obtain ⟨c, es, hreads, hwell, hrun, hconfig⟩ | ⟨line, hmem, hbad, hrun⟩ :=
    load_cases ⟨o, hvalid⟩ (e.line ++ tail)
  · refine ⟨fun _ => hwell, fun _ => ⟨c, hrun, ?_⟩⟩
    obtain rfl : [e] = es := List.map_injective_iff.mpr Entry.line_injective (hfilter.symm.trans hreads.eq)
    have hcontains : c.contains e.key = true := by
      rw [contains_iff, hconfig, mem_pushAll]
      exact .inr ⟨e, by simp, rfl⟩
    rw [get_eq, if_pos hcontains, hconfig, lookup_pushAll]
    simp
  · refine ⟨?_, fun hwell => absurd (hwell line hmem) hbad⟩
    rintro ⟨c, hc, -⟩
    cases hrun.symm.trans hc

-- ---------------------------------------------------------------------------
-- CRLF
-- ---------------------------------------------------------------------------

/-- All but the last line, which no `'\n'` ends, get a carriage return. -/
def withReturns : List Text → List Text
  | [] => []
  | [line] => [line]
  | line :: rest :: ls => (line ++ ['\r']) :: withReturns (rest :: ls)

theorem lines_cons (c : Char) (text : Text) :
    lines (c :: text) = if c = '\n' then [] :: lines text else (lines text).modifyHead (c :: ·) := by
  rw [lines, List.splitOn_cons_eq_if_modifyHead]
  simp only [beq_iff_eq]
  rfl

theorem withReturns_modifyHead (c : Char) (ls : List Text) :
    withReturns (ls.modifyHead (c :: ·)) = (withReturns ls).modifyHead (c :: ·) := by
  match ls with
  | [] => rfl
  | [_] => rfl
  | _ :: _ :: _ => rfl

theorem lines_crlf (text : Text) : lines (crlf text) = withReturns (lines text) := by
  induction text with
  | nil => rfl
  | cons c text ih =>
    have hcrlf : crlf (c :: text) = (if c = '\n' then ['\r', '\n'] else [c]) ++ crlf text := rfl
    rw [hcrlf]
    split
    · subst c
      obtain ⟨line, ls, hls⟩ := List.exists_cons_of_ne_nil (List.splitOn_ne_nil '\n' text)
      have hlines : lines text = line :: ls := hls
      simp only [List.cons_append, List.nil_append, lines_cons, ih, hlines]
      rfl
    · rename_i hc
      simp only [List.cons_append, List.nil_append, lines_cons, hc, if_false, ih,
        withReturns_modifyHead]

theorem Ignored.return (h : Ignored line) : Ignored (line ++ ['\r']) := by
  rcases h with rfl | h | h
  · exact .inr (.inr (by simp))
  · refine .inr (.inl ?_)
    simp [List.head?_append, h]
  · refine .inr (.inr fun c hc => ?_)
    rcases List.mem_append.mp hc with hc | hc
    · exact h c hc
    · obtain rfl : c = '\r' := by simpa using hc
      decide

/-- The return becomes a part of the value. -/
def Entry.return (e : Entry) : Entry where
  __ := e
  value := e.value ++ ['\r']
  start := by
    intro c hc
    cases hvalue : e.value with
    | nil =>
      obtain rfl : '\r' = c := by simpa [hvalue] using hc
      rfl
    | cons a value =>
      obtain rfl : a = c := by simpa [hvalue] using hc
      exact e.start a (by simp [hvalue])

theorem wellFormed_return_iff (hline : '\n' ∉ line) (h : WellFormed line) :
    WellFormed (line ++ ['\r']) ↔ Ignored line := by
  refine ⟨fun hreturn => ?_, fun hignored => .inl hignored.return⟩
  rcases h with hignored | ⟨e, -, rfl⟩
  · exact hignored
  · have hvalue : '\n' ∉ e.return.value := by
      have hv : '\n' ∉ e.value := fun hmem => hline (by simp [Entry.line, hmem])
      simp [Entry.return, hv]
    have heq : e.line ++ ['\r'] = e.return.line := by simp [Entry.line, Entry.return]
    rw [heq, e.return.wellFormed_line_iff hvalue] at hreturn
    exact absurd (by simp [Entry.return]) hreturn

theorem wellFormed_withReturns_iff {ls : List Text} (hls : ∀ line ∈ ls, '\n' ∉ line)
    (hall : ∀ line ∈ ls, WellFormed line) :
    (∀ line ∈ withReturns ls, WellFormed line) ↔ ∀ line ∈ ls.dropLast, Ignored line := by
  fun_induction withReturns ls with
  | case1 => simp
  | case2 line => simpa using hall
  | case3 line rest ls ih =>
    obtain ⟨hline, htail⟩ := List.forall_mem_cons.mp hls
    obtain ⟨hwell, hrest⟩ := List.forall_mem_cons.mp hall
    rw [List.forall_mem_cons, wellFormed_return_iff hline hwell, ih htail hrest,
      List.dropLast_cons_cons, List.forall_mem_cons]

theorem loads_iff (hvalid : ∀ key ∈ o, IsKey key) :
    Loads o text ↔ ∀ line ∈ lines text, WellFormed line := by
  rw [Loads, ofFileOptions_eq _ hvalid]
  exact load_ok_iff _ text

theorem loads_crlf_iff (hvalid : ∀ key ∈ o, IsKey key) (h : Loads o text) :
    Loads o (crlf text) ↔ ∀ line ∈ (lines text).dropLast, Ignored line := by
  rw [loads_iff hvalid, lines_crlf]
  exact wellFormed_withReturns_iff (fun _ => newline_not_mem_of_mem_lines) ((loads_iff hvalid).mp h)

-- ---------------------------------------------------------------------------
-- Values of any characters
-- ---------------------------------------------------------------------------

/-- An entry is read as it is written if and only if its value has no carriage
return. A file that loads still does with CRLF line ends if and only if each line
that is ended is ignored. -/
theorem any_value (hvalid : ∀ key ∈ o, IsKey key) :
    (∀ e : Entry, '\n' ∉ e.value → ∀ tail ∈ [[], ['\n']],
      (Gives o (e.line ++ tail) e ↔ '\r' ∉ e.value)) ∧
    ∀ text, Loads o text → (Loads o (crlf text) ↔ ∀ line ∈ (lines text).dropLast, Ignored line) :=
  ⟨fun _ h _ htail => gives_iff hvalid h htail, fun _ h => loads_crlf_iff hvalid h⟩

theorem any_value_spaced :
    Gives ∅ " a = b#".toList spacedEntry ∧ Loads ∅ (crlf "#\n a = b#".toList) := by
  have hlines : ∀ line ∈ lines "#\n a = b#".toList, WellFormed line := by
    refine List.forall_mem_cons.mpr ⟨.inl (by decide), List.forall_mem_singleton.mpr ?_⟩
    exact .inr ⟨spacedEntry, by decide, rfl⟩
  obtain ⟨hgives, hloads⟩ := any_value (o := ∅) (by simp)
  have hline := (hgives spacedEntry (by decide) [] (by simp)).mpr (by decide)
  exact ⟨hline, (hloads _ ((loads_iff (by simp)).mpr hlines)).mpr (by decide)⟩

/-- `k=` and a carriage return -/
def returnEntry : Entry where
  lead := []
  key := ['k']
  mid := []
  gap := []
  value := ['\r']
  isKey := ⟨'k', [], rfl, rfl, List.forall_mem_nil _⟩
  leadPads := no_pads
  midPads := no_pads
  gapPads := no_pads
  start := by
    rintro _ ⟨rfl⟩
    rfl

/-- A value that is a carriage return, and an entry that gets one. -/
theorem any_value_return : (¬ ∀ e : Entry, '\n' ∉ e.value → Gives ∅ e.line e) ∧
    ¬ ∀ text, Loads ∅ text → Loads ∅ (crlf text) := by
  constructor
  · intro h
    obtain ⟨c, hc, -⟩ := h returnEntry (by decide)
    have hrun : ofFileOptions (some returnEntry.line) ∅ = .error (.runtimeError "k=\r".toList) := rfl
    cases hrun.symm.trans hc
  · intro h
    obtain ⟨c, hc⟩ := h "k=v\n".toList ⟨⟨_, _⟩, rfl⟩
    have hrun : ofFileOptions (some (crlf "k=v\n".toList)) ∅ = .error (.runtimeError "k=v\r".toList) :=
      rfl
    cases hrun.symm.trans hc

end Xutil.Config
