import Xutil.Lib.Digits
import Xutil.Lib.Formats
import Xutil.Log.Model
import Xutil.Log.Signature

/-!
# The text of a record

`log_` writes the local time with its offset, a tag for the level, the thread,
the position in the source if there is one, and the message. The fields before
the message can be read back, and lines sort by time. Its stream takes the global
locale, which is the classic one here: another one may group the digits of a
number.
-/

namespace Xutil.Log

open Digits Format

/-- A `std::tm` with its time of day, and the part of the second. POSIX time has
no leap seconds. -/
structure Time where
  lt : Tm
  tmHour : Nat
  tmMin : Nat
  tmSec : Nat
  gmtoff : Int
  ms : Nat
  hour_lt : tmHour < 24
  min_lt : tmMin < 60
  sec_lt : tmSec < 60
  ms_lt : ms < 10 ^ 6
  deriving DecidableEq

/-- `std::source_location` -/
structure Position where
  fileName : Text
  functionName : Text
  line : Nat
  deriving Repr, DecidableEq

-- ---------------------------------------------------------------------------
-- Writing
-- ---------------------------------------------------------------------------

/-- `"%z"`: hours and minutes. -/
def putOffset (gmtoff : Int) : Text :=
  let minutes := gmtoff.natAbs / 60
  (if gmtoff < 0 then '-' else '+') ::
    List.leftpad 4 '0' (Nat.toDigits 10 (minutes / 60 * 100 + minutes % 60))

/-- `"%FT%T."` -/
def putTime (t : Time) : Text :=
  t.lt.year.repr.toList ++ '-' :: (twoDigits (t.lt.tmMon + 1)).toList ++
    '-' :: (twoDigits t.lt.tmMday).toList ++ 'T' :: (twoDigits t.tmHour).toList ++
    ':' :: (twoDigits t.tmMin).toList ++ ':' :: (twoDigits t.tmSec).toList ++ ['.']

def putStamp (t : Time) : Text :=
  putTime t ++ List.leftpad 6 '0' (Nat.toDigits 10 t.ms) ++ putOffset t.gmtoff

/-- The letters of the table `Lv`. -/
def Level.letter : Level → Char
  | .silent => 'S'
  | .fatal => 'F'
  | .error => 'E'
  | .warn => 'W'
  | .notice => 'N'
  | .info => 'I'
  | .debug => 'D'
  | .trace => 'T'
  | .verbose => 'V'
  | .all => 'A'

/-- The number of a thread, as the stream writes it with `std::hex`. -/
def putThread (thread : Nat) : Text :=
  List.leftpad 5 '_' ((Nat.toDigits 16 thread).map Char.toUpper)

/-- What is after the last separator of the path. -/
def Position.filename (pos : Position) : Text :=
  (pos.fileName.reverse.takeWhile (· ≠ '/')).reverse

def Position.place (pos : Position) : Text :=
  pos.filename ++ ':' :: List.leftpad 5 '_' (Nat.toDigits 10 pos.line)

def putPosition : Option Position → Text
  | none => []
  | some pos => '{' :: (pos.place ++ '}' :: ' ' :: (functionLabel pos.functionName ++ [' ']))

/-- `str`, in the classic locale. -/
def putLine (t : Time) (level : Level) (thread : Nat) (pos : Option Position) (message : Text) : Text :=
  putStamp t ++ '[' :: level.letter :: ']' :: (putThread thread ++ (putPosition pos ++ message))

-- ---------------------------------------------------------------------------
-- Reading
-- ---------------------------------------------------------------------------

/-- A line of a call that has given its position. -/
structure Line where
  stamp : Text
  level : Level
  thread : Nat
  filename : Text
  line : Nat
  function : Text
  message : Text
  deriving Repr, DecidableEq

def Level.ofLetter (c : Char) : Option Level :=
  [.silent, .fatal, .error, .warn, .notice, .info, .debug, .trace, .verbose, .all].find? (·.letter == c)

def hexValue (c : Char) : Nat := if c.isDigit then c.toNat - 48 else c.toNat - 55

def readHex (ds : Text) : Nat := ds.foldl (fun n c => n * 16 + hexValue c) 0

def unpad (text : Text) : Text := text.dropWhile (· == '_')

/-- The parts before the first character of each kind. -/
def lineFormat : Format (Text × Text × Text × Text × Text × Text × Text) :=
  pair '[' (word (· == '[')) <| pair ']' (word (· == ']')) <| pair '{' (word (· == '{')) <|
    pair '}' (word (· == '}')) <| pair ' ' (word (· == ' ')) <| pair ' ' (word (· == ' ')) <|
      word fun _ => false

def readLine (text : Text) : Option Line := do
  let ((stamp, tag, thread, place, _, function, message), _) ← lineFormat.read text
  let level ← tag.head?.bind Level.ofLetter
  let lineText := (place.reverse.takeWhile (· ≠ ':')).reverse
  let filename := (place.reverse.dropWhile (· ≠ ':')).tail.reverse
  return { stamp, level, thread := readHex (unpad thread), filename,
           line := Nat.ofDigitChars 10 (unpad lineText) 0, function, message }

-- ---------------------------------------------------------------------------
-- Numbers
-- ---------------------------------------------------------------------------

theorem hexValue_digitChar (h : n < 16) : hexValue n.digitChar.toUpper = n := by
  have hdigits : ∀ k < 16, hexValue k.digitChar.toUpper = k := by decide
  exact hdigits n h

theorem readHex_append (ds : Text) (c : Char) : readHex (ds ++ [c]) = readHex ds * 16 + hexValue c := by
  simp [readHex]

theorem readHex_toDigits (n : Nat) : readHex ((Nat.toDigits 16 n).map Char.toUpper) = n := by
  induction n using Nat.strongRecOn with
  | ind n ih =>
    rw [Nat.toDigits_eq_if (by decide)]
    split
    · simp [readHex, hexValue_digitChar ‹_›]
    · rw [List.map_append, List.map_singleton, readHex_append, ih (n / 16) (by omega),
        hexValue_digitChar (by omega)]
      omega

/-- No digit is one of the characters that pads or ends a number. -/
theorem upper_digit_ne (h : n < 16) : n.digitChar.toUpper ≠ '_' ∧ n.digitChar.toUpper ≠ '{' := by
  have hdigits : ∀ k < 16, k.digitChar.toUpper ≠ '_' ∧ k.digitChar.toUpper ≠ '{' := by decide
  exact hdigits n h

theorem of_mem_upperDigits (h : c ∈ (Nat.toDigits 16 n).map Char.toUpper) : c ≠ '_' ∧ c ≠ '{' := by
  induction n using Nat.strongRecOn with
  | ind n ih =>
    rw [Nat.toDigits_eq_if (by decide)] at h
    split at h
    · obtain rfl : c = n.digitChar.toUpper := by simpa using h
      exact upper_digit_ne ‹_›
    · rw [List.map_append, List.mem_append] at h
      rcases h with h | h
      · exact ih (n / 16) (by omega) h
      · obtain rfl : c = (n % 16).digitChar.toUpper := by simpa using h
        exact upper_digit_ne (by omega)

theorem unpad_leftpad (h : ∀ c ∈ ds, c ≠ '_') (w : Nat) : unpad (List.leftpad w '_' ds) = ds := by
  rw [unpad, List.leftpad, List.dropWhile_append_of_pos (by simp)]
  cases ds with
  | nil => rfl
  | cons c ds => simp [h c (by simp)]

theorem isDigit_of_mem_decimal (h : c ∈ Nat.toDigits 10 n) : c.isDigit = true :=
  Nat.isDigit_of_mem_toDigits (by decide) (by decide) h

theorem unpad_putThread (thread : Nat) : readHex (unpad (putThread thread)) = thread := by
  rw [putThread, unpad_leftpad fun c hc => (of_mem_upperDigits hc).1, readHex_toDigits]

theorem unpad_decimal (w n : Nat) :
    Nat.ofDigitChars 10 (unpad (List.leftpad w '_' (Nat.toDigits 10 n))) 0 = n := by
  rw [unpad_leftpad, Nat.ofDigitChars_ten_toDigits]
  rintro c hc rfl
  cases isDigit_of_mem_decimal hc

-- ---------------------------------------------------------------------------
-- What is written is read back
-- ---------------------------------------------------------------------------

theorem of_mem_decimal (h : c ∈ Nat.toDigits 10 n) : c ≠ '[' ∧ c ≠ '}' ∧ c ≠ ':' := by
  refine ⟨?_, ?_, ?_⟩ <;> rintro rfl <;> cases isDigit_of_mem_decimal h

theorem of_mem_leftpad {ds : Text} (h : c ∈ List.leftpad w p ds) : c = p ∨ c ∈ ds := by
  rw [List.leftpad, List.mem_append] at h
  exact h.imp_left List.eq_of_mem_replicate

theorem of_mem_twoDigits (hn : n < 100) (h : c ∈ (twoDigits n).toList) : c ≠ '[' := by
  rintro rfl
  simp only [twoDigits, String.toList_ofList, List.mem_cons, List.not_mem_nil, or_false] at h
  have hdigits : ∀ k < 10, '[' ≠ k.digitChar := by decide
  rcases h with h | h
  · exact hdigits _ (by omega) h
  · exact hdigits _ (by omega) h

theorem of_mem_putStamp {t : Time} (h : c ∈ putStamp t) : c ≠ '[' := by
  have hmon := t.lt.mon_lt
  have hmday := Nat.le_trans t.lt.mday_le (monthDays_le _ _)
  have hhour := t.hour_lt
  have hmin := t.min_lt
  have hsec := t.sec_lt
  rintro rfl
  simp only [putStamp, putTime, putOffset, Nat.toList_repr, List.mem_append, List.mem_cons,
    List.not_mem_nil, or_false, Char.reduceEq, false_or] at h
  rcases h with ((((((h | h) | h) | h) | h) | h) | h) | h | h
  · exact (of_mem_decimal h).1 rfl
  · exact of_mem_twoDigits (by omega) h rfl
  · exact of_mem_twoDigits (by omega) h rfl
  · exact of_mem_twoDigits (by omega) h rfl
  · exact of_mem_twoDigits (by omega) h rfl
  · exact of_mem_twoDigits (by omega) h rfl
  · exact (of_mem_leftpad h).elim (by decide) fun h => (of_mem_decimal h).1 rfl
  · split at h <;> cases h
  · exact (of_mem_leftpad h).elim (by decide) fun h => (of_mem_decimal h).1 rfl

theorem of_mem_putThread (h : c ∈ putThread thread) : c ≠ '{' := by
  rcases of_mem_leftpad h with rfl | h
  · decide
  · exact (of_mem_upperDigits h).2

theorem of_mem_place {pos : Position} (hfile : '}' ∉ pos.filename) (h : c ∈ pos.place) : c ≠ '}' := by
  rintro rfl
  rcases List.mem_append.mp h with h | h
  · exact hfile h
  · rcases List.mem_cons.mp h with h | h
    · cases h
    · exact (of_mem_leftpad h).elim (by decide) fun h => (of_mem_decimal h).2.1 rfl

theorem ofLetter_letter (level : Level) : Level.ofLetter level.letter = some level := by
  cases level <;> rfl

/-- The last colon of a place ends the file name, which may have others. -/
theorem split_place (pos : Position) :
    (pos.place.reverse.takeWhile (· ≠ ':')).reverse = List.leftpad 5 '_' (Nat.toDigits 10 pos.line) ∧
      (pos.place.reverse.dropWhile (· ≠ ':')).tail.reverse = pos.filename := by
  have hall : ∀ c ∈ (List.leftpad 5 '_' (Nat.toDigits 10 pos.line)).reverse,
      decide (c ≠ ':') = true := by
    intro c hc
    rcases of_mem_leftpad (List.mem_reverse.mp hc) with rfl | h
    · rfl
    · exact decide_eq_true (of_mem_decimal h).2.2
  have hplace : pos.place.reverse =
      (List.leftpad 5 '_' (Nat.toDigits 10 pos.line)).reverse ++ ':' :: pos.filename.reverse := by
    simp [Position.place]
  rw [hplace, List.takeWhile_append_of_pos hall, List.dropWhile_append_of_pos hall]
  simp

/-- No part has the character that ends it. -/
def Whole : Text × Text × Text × Text × Text × Text × Text → Prop
  | (stamp, tag, thread, place, gap, function, _) =>
    (∀ c ∈ stamp, (c == '[') = false) ∧ (∀ c ∈ tag, (c == ']') = false) ∧
      (∀ c ∈ thread, (c == '{') = false) ∧ (∀ c ∈ place, (c == '}') = false) ∧
        (∀ c ∈ gap, (c == ' ') = false) ∧ (∀ c ∈ function, (c == ' ') = false)

theorem reads_lineFormat : lineFormat.Reads (fun _ => false) Whole where
  read_print h hs := (reads_word.pair (reads_word.pair (reads_word.pair (reads_word.pair
    (reads_word.pair (reads_word.pair reads_word rfl) rfl) rfl) rfl) rfl) rfl).read_print
      ⟨h.1, h.2.1, h.2.2.1, h.2.2.2.1, h.2.2.2.2.1, h.2.2.2.2.2, by simp⟩ hs

theorem gives_lineFormat : lineFormat.Gives Whole := fun _ _ _ h =>
  have ⟨hstamp, htag, hthread, hplace, hgap, hfunction, _⟩ :=
    (gives_word.pair <| gives_word.pair <| gives_word.pair <| gives_word.pair <|
      gives_word.pair <| gives_word.pair gives_word) h
  ⟨hstamp, htag, hthread, hplace, hgap, hfunction⟩

theorem putLine_eq_print (t : Time) (level : Level) (thread : Nat) (pos : Position) (message : Text) :
    putLine t level thread (some pos) message = lineFormat.print (putStamp t, [level.letter],
      putThread thread, pos.place, [], functionLabel pos.functionName, message) := by
  simp [putLine, putPosition, lineFormat, Format.pair, word]

def Position.Readable (pos : Position) : Prop :=
  '}' ∉ pos.filename ∧ ' ' ∉ functionLabel pos.functionName

theorem readLine_putLine (t : Time) (level : Level) (thread : Nat) (message : Text)
    (h : Position.Readable pos) :
    readLine (putLine t level thread (some pos) message) =
      some ⟨putStamp t, level, thread, pos.filename, pos.line, functionLabel pos.functionName,
        message⟩ := by
  have hread := reads_lineFormat.read_print (a := (putStamp t, [level.letter], putThread thread,
    pos.place, [], functionLabel pos.functionName, message)) (s := []) ?_ ends_nil
  · rw [List.append_nil] at hread
    obtain ⟨hline, hfilename⟩ := split_place pos
    simp only [readLine, putLine_eq_print, hread, ofLetter_letter, unpad_putThread, hline, hfilename,
      unpad_decimal, Option.bind_eq_bind, Option.bind_some, List.head?_cons]
    rfl
  · refine ⟨?_, ?_, ?_, ?_, ?_, ?_⟩
    · exact fun c hc => beq_false_of_ne (of_mem_putStamp hc)
    · intro c hc
      obtain rfl := List.mem_singleton.mp hc
      cases level <;> rfl
    · exact fun c hc => beq_false_of_ne (of_mem_putThread hc)
    · exact fun c hc => beq_false_of_ne (of_mem_place h.1 hc)
    · simp
    · intro c hc
      exact beq_false_of_ne fun hblank => h.2 (hblank ▸ hc)

theorem readLine_ends (h : readLine text = some line) : '}' ∉ line.filename ∧ ' ' ∉ line.function := by
  simp only [readLine, Option.bind_eq_bind, Option.bind_eq_some_iff] at h
  obtain ⟨⟨⟨stamp, tag, thread, place, gap, function, message⟩, rest⟩, hread, level, -, h⟩ := h
  obtain ⟨-, -, -, hplace, -, hfunction⟩ := gives_lineFormat hread
  cases h
  refine ⟨fun hbrace => ?_, fun hblank => by simpa using hfunction _ hblank⟩
  -- The file name is a part of the place.
  have hmem : '}' ∈ place.reverse := (List.dropWhile_sublist _).subset
    (List.mem_of_mem_tail (List.mem_reverse.mp hbrace))
  simpa using hplace _ (List.mem_reverse.mp hmem)

/-- A line says when, at what level, in which thread and where it was written,
and what the message was. Only a file name with a `}` and a name of a function
with a blank are cut short. -/
theorem read_line (t : Time) (level : Level) (thread : Nat) (pos : Position) (message : Text) :
    readLine (putLine t level thread (some pos) message) =
        some ⟨putStamp t, level, thread, pos.filename, pos.line, functionLabel pos.functionName,
          message⟩ ↔
      '}' ∉ pos.filename ∧ ' ' ∉ functionLabel pos.functionName :=
  ⟨readLine_ends, readLine_putLine t level thread message⟩

def noon : Time := ⟨jan31, 12, 0, 30, 32400, 50, by decide, by decide, by decide, by decide⟩

def entry : Position := ⟨"src/main.cpp".toList, "int app::main(int, char**)".toList, 42⟩

example : putLine noon .info 0x7f3a (some entry) "ready".toList =
    "2024-01-31T12:00:30.000050+0900[I]_7F3A{main.cpp:___42} main ready".toList := by decide

end Xutil.Log
