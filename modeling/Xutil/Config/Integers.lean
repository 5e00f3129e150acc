import Xutil.Config.Numerals

/-!
# Integers in a configuration file

Integers are written in decimal, one to a line. Reading them back goes through
the lines, the map and a stream.
-/

namespace Xutil.Config

open Configurations

def decimal (n : Int) : Text :=
  if n < 0 then '-' :: Nat.toDigits 10 n.natAbs else Nat.toDigits 10 n.natAbs

-- ---------------------------------------------------------------------------
-- The stream
-- ---------------------------------------------------------------------------

/-- `decimal n`, taken apart. -/
def numeral (n : Int) : Numeral where
  blanks := []
  sign := if n < 0 then ['-'] else []
  digits := Nat.toDigits 10 n.natAbs
  isBlanks := no_blanks
  isSign := by split <;> simp [IsSign]
  isDigits := ⟨Nat.toDigits_ne_nil, fun _ => Nat.isDigit_of_mem_toDigits (by decide) (by decide)⟩

theorem numeral_text (n : Int) : (numeral n).text = decimal n := by
  unfold decimal
  split
  · next hneg => simp [Numeral.text, numeral, hneg]
  · next hpos => simp [Numeral.text, numeral, hpos]

theorem numeral_value (n : Int) : (numeral n).value = n := by
  simp only [Numeral.value, numeral, signed, Nat.ofDigitChars_ten_toDigits]
  by_cases hneg : n < 0
  · have hn : -(n.natAbs : Int) = n := by omega
    simpa [hneg] using hn
  · have hn : (n.natAbs : Int) = n := by omega
    simpa [hneg] using hn

theorem extractInt_decimal (hmin : -2 ^ 31 ≤ n) (hmax : n < 2 ^ 31) :
    extractInt (decimal n) = ⟨some n, true⟩ := by
  have hclip : clip n = n := clip_of_inRange ⟨hmin, by omega⟩
  rw [← numeral_text, Numeral.extractInt_text, numeral_value, hclip]

theorem decimal_ne_nil (n : Int) : decimal n ≠ [] := by
  rw [← numeral_text]
  exact (numeral n).text_ne_nil

/-- A number starts with a sign or a digit, not with a pad. -/
theorem decimal_head (n : Int) : ∀ c ∈ (decimal n).head?, isPad c = false := by
  intro c hc
  rw [← numeral_text] at hc
  have hspace := (numeral n).number_head c hc
  simp only [isSpace, isBlank, Bool.or_eq_false_iff] at hspace
  obtain ⟨⟨⟨hpad, -⟩, -⟩, -⟩ := hspace
  exact hpad

theorem mem_decimal (h : c ∈ decimal n) : c = '-' ∨ c.isDigit = true := by
  unfold decimal at h
  split at h
  · rcases List.mem_cons.mp h with rfl | h
    · exact .inl rfl
    · exact .inr (Nat.isDigit_of_mem_toDigits (by decide) (by decide) h)
  · exact .inr (Nat.isDigit_of_mem_toDigits (by decide) (by decide) h)

-- ---------------------------------------------------------------------------
-- Files of integers
-- ---------------------------------------------------------------------------

/-- A key and a number, and the pads around them. -/
structure Assignment where
  lead : Text
  key : Text
  mid : Text
  gap : Text
  number : Int
  isKey : IsKey key
  leadPads : ∀ c ∈ lead, isPad c = true
  midPads : ∀ c ∈ mid, isPad c = true
  gapPads : ∀ c ∈ gap, isPad c = true
  min : -2 ^ 31 ≤ number
  max : number < 2 ^ 31

def Assignment.entry (a : Assignment) : Entry where
  __ := a
  value := decimal a.number
  start := decimal_head a.number

inductive Line
  | ignored (line : Text) (h : Ignored line) (newline : '\n' ∉ line)
  | assignment (a : Assignment)

def Line.text : Line → Text
  | .ignored line _ _ => line
  | .assignment a => a.entry.line

def Line.assignment? : Line → Option Assignment
  | .ignored .. => none
  | .assignment a => some a

def write (ls : List Line) : Text := ['\n'].intercalate (ls.map Line.text)

def assignments (ls : List Line) : List Assignment := ls.filterMap Line.assignment?

theorem Assignment.not_mem_value (a : Assignment) (hc : c ≠ '-') (hdigit : c.isDigit = false) :
    c ∉ a.entry.value := by
  intro h
  rcases mem_decimal h with rfl | h
  · exact hc rfl
  · cases h.symm.trans hdigit

theorem Line.newline_not_mem_text (l : Line) : '\n' ∉ l.text := by
  cases l with
  | ignored line h hnewline => exact hnewline
  | assignment a => exact a.entry.newline_not_mem_line (a.not_mem_value (by decide) rfl)

theorem Line.wellFormed_text (l : Line) : WellFormed l.text := by
  cases l with
  | ignored line h _ => exact .inl h
  | assignment a => exact .inr ⟨a.entry, a.not_mem_value (by decide) rfl, rfl⟩

theorem lines_write (ls : List Line) (hls : ls ≠ []) : lines (write ls) = ls.map Line.text := by
  refine List.splitOn_intercalate '\n' ?_ (by simpa using hls)
  intro line hline
  obtain ⟨l, -, rfl⟩ := List.mem_map.mp hline
  exact l.newline_not_mem_text

@[simp] theorem assignments_ignored : assignments (.ignored line h hn :: ls) = assignments ls := rfl

@[simp] theorem assignments_assignment : assignments (.assignment a :: ls) = a :: assignments ls := rfl

theorem filter_lines (ls : List Line) :
    (ls.map Line.text).filter (¬ Ignored ·) = (assignments ls).map (·.entry.line) := by
  induction ls with
  | nil => rfl
  | cons l ls ih =>
    cases l with
    | ignored line h _ => simpa [Line.text, h] using ih
    | assignment a =>
      have hnot := a.entry.not_ignored (a.not_mem_value (by decide) rfl)
      simpa [Line.text, hnot] using ih

/-- What is loaded is what has been written. -/
theorem load_write (ls : List Line) : ∃ c, ofFile (some (write ls)) = .ok c ∧
    c.config = pushAll ∅ ((assignments ls).map Assignment.entry) := by
  have hlines : (∀ line ∈ lines (write ls), WellFormed line) ∧
      (lines (write ls)).filter (¬ Ignored ·) = (assignments ls).map (·.entry.line) := by
    cases ls with
    | nil => exact ⟨List.forall_mem_singleton.mpr (.inl (.inl rfl)), rfl⟩
    | cons l ls =>
      rw [lines_write _ (List.cons_ne_nil l ls), filter_lines]
      exact ⟨List.forall_mem_map.mpr fun l _ => l.wellFormed_text, rfl⟩
  obtain ⟨c, es, hreads, -, hrun, hconfig⟩ | ⟨line, hline, hbad, -⟩ := load_cases empty (write ls)
  · refine ⟨c, hrun, hconfig.trans (congrArg _ ?_)⟩
    refine List.map_injective_iff.mpr Entry.line_injective (hreads.eq.symm.trans ?_)
    rw [hlines.2, List.map_map]
    rfl
  · exact absurd (hlines.1 line hline) hbad

/-- The number of the first assignment to a key. -/
def firstNumber (ls : List Line) (key : Text) : Option Int :=
  ((assignments ls).find? (·.key = key)).map Assignment.number

theorem lookup_first (ls : List Line) (hfirst : (assignments ls).find? (·.key = key) = some a) :
    ∃ rest, (pushAll ∅ ((assignments ls).map Assignment.entry)).lookup key =
      some (decimal a.number :: rest) := by
  rw [← List.head?_filter] at hfirst
  obtain ⟨as, has⟩ := List.head?_eq_some_iff.mp hfirst
  have hvalues := lookup_pushAll ∅ ((assignments ls).map Assignment.entry) key
  rw [List.filter_map, List.map_map] at hvalues
  have hfilter : (assignments ls).filter ((fun e : Entry => decide (e.key = key)) ∘ Assignment.entry) =
      a :: as := has
  rw [hfilter] at hvalues
  cases hlookup : (pushAll ∅ ((assignments ls).map Assignment.entry)).lookup key with
  | none =>
    rw [hlookup] at hvalues
    cases hvalues
  | some values =>
    rw [hlookup] at hvalues
    exact ⟨_, congrArg some hvalues⟩

theorem getAs_head {c : Configurations} (hvalues : c.config.lookup key = some (decimal n :: rest))
    (hmin : -2 ^ 31 ≤ n) (hmax : n < 2 ^ 31) :
    (∀ junk, c.getAsInt junk key = .ok n) ∧ ∀ alternative, c.getAsIntOr alternative key = n := by
  have hne : (decimal n).isEmpty = false := by simpa using decimal_ne_nil n
  constructor <;> intro other
  · simp [getAsInt, hvalues, hne, extractInt_decimal hmin hmax]
  · simp [getAsIntOr, hvalues, hne, extractInt_decimal hmin hmax]

/-- A comment and the limits, with the same key. -/
def limits : List Line :=
  [.ignored "# b".toList (by decide) (by decide), .assignment (limit (-2 ^ 31) (by decide) (by decide)),
    .assignment (limit (2 ^ 31 - 1) (by decide) (by decide))]
where
  limit (n : Int) (hmin : -2 ^ 31 ≤ n) (hmax : n < 2 ^ 31) : Assignment :=
    ⟨[], "a.b".toList, [' ', ' '], ['\t'], n, ⟨'a', ['.', 'b'], rfl, rfl, by simp [isKeyTail]⟩, no_pads,
      by simp [isPad], by simp [isPad], hmin, hmax⟩

end Xutil.Config
