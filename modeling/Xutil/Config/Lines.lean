import Mathlib.Data.List.TakeWhile
import Xutil.Config.Values

/-!
# Lines of a configuration file

The grammar of the documentation, and that `load_file` reads it. An `Entry` is a
line with a key and a value, taken apart; a value that starts with a pad would
not be one.
-/

namespace Xutil.Config

def IsKey (key : Text) : Prop :=
  ∃ c cs, key = c :: cs ∧ isKeyHead c = true ∧ ∀ a ∈ cs, isKeyTail a = true

structure Entry where
  lead : Text
  key : Text
  mid : Text
  gap : Text
  value : Text
  isKey : IsKey key
  leadPads : ∀ c ∈ lead, isPad c = true
  midPads : ∀ c ∈ mid, isPad c = true
  gapPads : ∀ c ∈ gap, isPad c = true
  start : ∀ c ∈ value.head?, isPad c = false

theorem no_pads : ∀ c ∈ ([] : Text), isPad c = true := List.forall_mem_nil _

def Entry.line (e : Entry) : Text := e.lead ++ (e.key ++ (e.mid ++ '=' :: (e.gap ++ e.value)))

def Ignored (line : Text) : Prop :=
  line = [] ∨ line.head? = some '#' ∨ ∀ c ∈ line, c ∈ [' ', '\t', '\x0b', '\r']

instance (line : Text) : Decidable (Ignored line) :=
  letI : Decidable (∀ c ∈ line, c ∈ [' ', '\t', '\x0b', '\r']) := List.decidableBAll _ line
  inferInstanceAs (Decidable (_ ∨ _ ∨ _))

-- ---------------------------------------------------------------------------
-- Characters
-- ---------------------------------------------------------------------------

theorem isPad_iff : isPad c = true ↔ c = ' ' ∨ c = '\t' ∨ c = '\x0b' := by
  simp [isPad, or_assoc]

theorem not_isKeyTail_of_isPad (h : isPad c = true) : isKeyTail c = false := by
  rcases isPad_iff.mp h with rfl | rfl | rfl <;> rfl

theorem not_isKeyHead_of_isPad (h : isPad c = true) : isKeyHead c = false := by
  rcases isPad_iff.mp h with rfl | rfl | rfl <;> rfl

theorem isKeyTail_of_isKeyHead (h : isKeyHead c = true) : isKeyTail c = true := by
  simp only [isKeyHead, Bool.or_eq_true, beq_iff_eq] at h
  rcases h with (rfl | rfl) | h
  · rfl
  · rfl
  · simp [isKeyTail, Char.isAlphanum, h]

-- ---------------------------------------------------------------------------
-- Keys
-- ---------------------------------------------------------------------------

theorem matches_keyRe : Regex.Matches keyRe c w c' ↔ IsKey w ∧ c' = c := by
  simp only [keyRe, Regex.matches_seq, Regex.matches_one, Regex.matches_star_one]
  constructor
  · rintro ⟨_, _, cs, rfl, ⟨a, ha, rfl, rfl⟩, hcs, rfl⟩
    exact ⟨⟨a, cs, rfl, ha, hcs⟩, rfl⟩
  · rintro ⟨⟨a, cs, rfl, ha, hcs⟩, rfl⟩
    exact ⟨[a], c', cs, rfl, ⟨a, ha, rfl, rfl⟩, hcs, rfl⟩

theorem isInvalidKey_iff : isInvalidKey key = false ↔ IsKey key := by
  rw [isInvalidKey, Bool.not_eq_false']
  constructor
  · intro h
    obtain ⟨c, hc⟩ := Option.isSome_iff_exists.mp h
    exact (matches_keyRe.mp (Regex.regexMatch_matches hc)).1
  · intro h
    exact (matches_keyRe.mpr ⟨h, rfl⟩).isSome_regexMatch

theorem IsKey.forall_isKeyTail (h : IsKey key) : ∀ c ∈ key, isKeyTail c = true := by
  obtain ⟨a, cs, rfl, ha, hcs⟩ := h
  exact List.forall_mem_cons.mpr ⟨isKeyTail_of_isKeyHead ha, hcs⟩

theorem IsKey.head_append (h : IsKey key) :
    ∀ c ∈ (key ++ rest).head?, isPad c = false ∧ c ≠ '#' := by
  obtain ⟨a, cs, rfl, ha, -⟩ := h
  intro c hc
  obtain rfl : a = c := by simpa using hc
  constructor
  · by_contra hpad
    simp [not_isKeyHead_of_isPad (by simpa using hpad)] at ha
  · rintro rfl
    cases ha

theorem head_mid (hmid : ∀ c ∈ mid, isPad c = true) :
    ∀ c ∈ (mid ++ '=' :: rest).head?, isKeyTail c = false := by
  intro c hc
  cases mid with
  | nil =>
    obtain rfl : '=' = c := by simpa using hc
    rfl
  | cons a mid =>
    obtain rfl : a = c := by simpa using hc
    exact not_isKeyTail_of_isPad (hmid a List.mem_cons_self)

-- ---------------------------------------------------------------------------
-- There is one way to take an entry apart
-- ---------------------------------------------------------------------------

theorem span_unique {p : Char → Bool} {x x' y y' : Text} (hx : ∀ a ∈ x, p a = true)
    (hy : ∀ a ∈ y.head?, p a = false) (hx' : ∀ a ∈ x', p a = true)
    (hy' : ∀ a ∈ y'.head?, p a = false) (h : x ++ y = x' ++ y') : x = x' ∧ y = y' := by
  induction x generalizing x' with
  | nil =>
    cases x' with
    | nil => exact ⟨rfl, h⟩
    | cons a x' =>
      obtain rfl : y = a :: (x' ++ y') := h
      cases (hx' a List.mem_cons_self).symm.trans (hy a rfl)
  | cons a x ih =>
    cases x' with
    | nil =>
      obtain rfl : a :: (x ++ y) = y' := h
      cases (hx a List.mem_cons_self).symm.trans (hy' a rfl)
    | cons b x' =>
      obtain ⟨rfl, hrest⟩ := List.cons.inj h
      obtain ⟨rfl, rfl⟩ := ih (List.forall_mem_cons.mp hx).2 (List.forall_mem_cons.mp hx').2 hrest
      exact ⟨rfl, rfl⟩

theorem Entry.line_injective : Function.Injective Entry.line := by
  intro e e' h
  obtain ⟨hlead, h⟩ := span_unique e.leadPads (fun c hc => (e.isKey.head_append c hc).1)
    e'.leadPads (fun c hc => (e'.isKey.head_append c hc).1) h
  obtain ⟨hkey, h⟩ := span_unique e.isKey.forall_isKeyTail (head_mid e.midPads)
    e'.isKey.forall_isKeyTail (head_mid e'.midPads) h
  obtain ⟨hmid, h⟩ := span_unique e.midPads (by simp [isPad]) e'.midPads (by simp [isPad]) h
  obtain ⟨hgap, hvalue⟩ := span_unique e.gapPads e.start e'.gapPads e'.start (List.cons.inj h).2
  cases e
  cases e'
  simp_all

-- ---------------------------------------------------------------------------
-- The expression of a line
-- ---------------------------------------------------------------------------

def Entry.Dots (e : Entry) : Prop := ∀ c ∈ e.value, Regex.isDot c = true

theorem first_keyRe (h : IsKey key) (hstop : ∀ c ∈ rest.head?, isKeyTail c = false) :
    Regex.First keyRe c key c rest := by
  obtain ⟨a, cs, rfl, ha, hcs⟩ := h
  exact .cons ha (.star_one hcs hstop)

def Entry.captures (e : Entry) : Regex.Captures Char :=
  Function.update (Function.update (fun _ => []) 1 e.key) 2 e.value

theorem Entry.regexMatch_line {e : Entry} (h : e.Dots) :
    Regex.regexMatch lineRe e.line = some e.captures := by
  apply Regex.First.regexMatch
  refine .seq (.star_one e.leadPads ?_) <| .seq (.group (first_keyRe e.isKey ?_)) <|
    .seq (.star_one e.midPads ?_) <| .cons rfl <| .seq (.star_one e.gapPads ?_) <|
    .group (.star_one h ?_)
  · rw [List.append_nil]
    exact fun c hc => (e.isKey.head_append c hc).1
  · rw [List.append_nil]
    exact head_mid e.midPads
  · simp [isPad]
  · rw [List.append_nil]
    exact e.start
  · simp

/-- Pads at the start of the second group are taken by what is before it. -/
theorem entry_of_regexMatch (h : Regex.regexMatch lineRe line = some c) :
    ∃ e : Entry, e.Dots ∧ e.line = line := by
  have hm := Regex.regexMatch_matches h
  simp only [lineRe, pads, Regex.matches_seq, Regex.matches_group, Regex.matches_one,
    Regex.matches_star_one, matches_keyRe] at hm
  obtain ⟨lead, _, _, rfl, ⟨hlead, -⟩, key, _, _, rfl, ⟨_, ⟨hkey, -⟩, -⟩, mid, _, _, rfl,
    ⟨hmid, -⟩, _, _, _, rfl, ⟨a, ha, rfl, -⟩, gap, _, value, rfl, ⟨hgap, -⟩, _, ⟨hdot, -⟩, -⟩ := hm
  obtain rfl : a = '=' := by simpa using ha
  refine ⟨⟨lead, key, mid, gap ++ value.takeWhile isPad, value.dropWhile isPad, hkey, hlead, hmid,
    ?_, ?_⟩, ?_, ?_⟩
  · intro c hc
    rcases List.mem_append.mp hc with hc | hc
    · exact hgap c hc
    · exact List.mem_takeWhile_imp hc
  · intro c hc
    have hhead := List.head?_dropWhile_not isPad value
    rwa [hc] at hhead
  · exact fun c hc => hdot c (List.dropWhile_subset _ hc)
  · simp [Entry.line, List.takeWhile_append_dropWhile]

-- ---------------------------------------------------------------------------
-- Reading a line
-- ---------------------------------------------------------------------------

def WellFormed (line : Text) : Prop := Ignored line ∨ ∃ e : Entry, '\r' ∉ e.value ∧ e.line = line

theorem Entry.dots_iff {e : Entry} (hline : '\n' ∉ e.line) : e.Dots ↔ '\r' ∉ e.value := by
  constructor
  · intro h hr
    cases h _ hr
  · intro h c hc
    have hn : c ≠ '\n' := by
      rintro rfl
      exact hline (by simp [Entry.line, hc])
    have hr : c ≠ '\r' := fun hr => h (hr ▸ hc)
    simp [Regex.isDot_iff, hn, hr]

theorem isSkipped_iff (hline : '\n' ∉ line) : isSkipped line = true ↔ Ignored line := by
  have hblank : line.all isBlank = true ↔ ∀ c ∈ line, c ∈ [' ', '\t', '\x0b', '\r'] := by
    rw [List.all_eq_true]
    refine forall₂_congr fun c hc => ?_
    have hn : c ≠ '\n' := fun hn => hline (hn ▸ hc)
    simp [isBlank, isPad, hn, or_assoc]
  simp [isSkipped, Ignored, hblank, or_assoc]

theorem Entry.not_isSkipped (e : Entry) : isSkipped e.line = false := by
  have hequals : '=' ∈ e.line := by simp [Entry.line]
  have hblank : e.line.all isBlank = false := List.all_eq_false.mpr ⟨'=', hequals, by decide⟩
  have hempty : e.line.isEmpty = false := by simpa using List.ne_nil_of_mem hequals
  have hcomment : e.line.head? ≠ some '#' := by
    intro hhead
    cases hlead : e.lead with
    | nil =>
      rw [Entry.line, hlead] at hhead
      exact (e.isKey.head_append _ hhead).2 rfl
    | cons a lead =>
      obtain rfl : a = '#' := by simpa [Entry.line, hlead] using hhead
      cases e.leadPads '#' (by simp [hlead])
  simp [isSkipped, hblank, hempty, hcomment]

theorem loadLine_entry {e : Entry} (h : e.Dots) :
    loadLine config e.line = .ok (config.pushBack e.key e.value) := by
  simp [loadLine, e.not_isSkipped, e.regexMatch_line h, Entry.captures]

/-- A line is passed over, or is an entry and is added, or is refused. -/
theorem loadLine_cases (config : Options) (hline : '\n' ∉ line) :
    (Ignored line ∧ loadLine config line = .ok config) ∨
    (∃ e : Entry, '\r' ∉ e.value ∧ e.line = line ∧ ¬ Ignored line ∧
      loadLine config line = .ok (config.pushBack e.key e.value)) ∨
    (¬ WellFormed line ∧ loadLine config line = .error (.runtimeError line)) := by
  by_cases hignored : Ignored line
  · exact .inl ⟨hignored, by simp [loadLine, (isSkipped_iff hline).mpr hignored]⟩
  have hskip : isSkipped line = false := by rwa [← Bool.not_eq_true, isSkipped_iff hline]
  right
  cases hmatch : Regex.regexMatch lineRe line with
  | none =>
    refine .inr ⟨?_, by simp [loadLine, hskip, hmatch]⟩
    rintro (h | ⟨e, hr, rfl⟩)
    · exact hignored h
    · cases hmatch.symm.trans (e.regexMatch_line ((e.dots_iff hline).mpr hr))
  | some c =>
    obtain ⟨e, hdots, rfl⟩ := entry_of_regexMatch hmatch
    exact .inl ⟨e, (e.dots_iff hline).mp hdots, rfl, hignored, loadLine_entry hdots⟩

theorem Entry.newline_not_mem_line {e : Entry} (h : '\n' ∉ e.value) : '\n' ∉ e.line := by
  have hkey : '\n' ∉ e.key := fun hmem => nomatch e.isKey.forall_isKeyTail _ hmem
  have hlead : '\n' ∉ e.lead := fun hmem => nomatch e.leadPads _ hmem
  have hmid : '\n' ∉ e.mid := fun hmem => nomatch e.midPads _ hmem
  have hgap : '\n' ∉ e.gap := fun hmem => nomatch e.gapPads _ hmem
  simp [Entry.line, h, hkey, hlead, hmid, hgap]

theorem Entry.not_ignored {e : Entry} (h : '\n' ∉ e.value) : ¬ Ignored e.line := by
  rw [← isSkipped_iff (e.newline_not_mem_line h), e.not_isSkipped]
  simp

theorem Entry.wellFormed_line_iff {e : Entry} (h : '\n' ∉ e.value) :
    WellFormed e.line ↔ '\r' ∉ e.value := by
  constructor
  · rintro (hignored | ⟨e', hr, hline⟩)
    · exact absurd hignored (e.not_ignored h)
    · rwa [← Entry.line_injective hline]
  · exact fun hr => .inr ⟨e, hr, rfl⟩

-- ---------------------------------------------------------------------------
-- Lines of a text
-- ---------------------------------------------------------------------------

def lines (text : Text) : List Text := text.splitOn '\n'

theorem newline_not_mem_of_mem_lines (h : line ∈ lines text) : '\n' ∉ line := by
  suffices hacc : ∀ acc : Text, '\n' ∉ acc → line ∈ text.splitOnPPrepend (· == '\n') acc →
      '\n' ∉ line from hacc [] (by simp) h
  clear h
  induction text with
  | nil =>
    intro acc hacc h
    obtain rfl : line = acc.reverse := by simpa using h
    simpa using hacc
  | cons c text ih =>
    intro acc hacc h
    rw [List.splitOnPPrepend_cons_eq_if] at h
    split at h
    · rcases List.mem_cons.mp h with rfl | h
      · simpa using hacc
      · exact ih [] (by simp) h
    · rename_i hc
      have hacc' : '\n' ∉ c :: acc := by
        rw [List.mem_cons, not_or]
        exact ⟨fun heq => hc (beq_iff_eq.mpr heq.symm), hacc⟩
      exact ih (c :: acc) hacc' h

theorem foldlM_closed (config : Options) (pieces : List Text) :
    (Lines.closed pieces).foldlM loadLine config = pieces.foldlM loadLine config := by
  unfold Lines.closed
  split
  · rename_i hlast
    have hpieces : pieces = pieces.dropLast ++ [[]] :=
      (List.dropLast_append_getLast? _ hlast).symm
    -- an empty line is skipped
    have hskip : ∀ config, loadLine config [] = .ok config := fun _ => rfl
    conv_rhs => rw [hpieces, List.foldlM_append]
    cases hload : pieces.dropLast.foldlM loadLine config with
    | error => rfl
    | ok config' => exact (hskip config').symm
  · rfl

/-- The empty line after the last `'\n'` makes no difference. -/
theorem loadFile_some (config : Options) (text : Text) :
    loadFile config (some text) = (lines text).foldlM loadLine config := by
  rw [loadFile, Lines.getlines_lines]
  exact foldlM_closed config (text.splitOn '\n')

-- ---------------------------------------------------------------------------
-- Reading all the lines
-- ---------------------------------------------------------------------------

def pushAll (config : Options) (es : List Entry) : Options :=
  es.foldl (fun config e => config.pushBack e.key e.value) config

/-- The entries of a text, in the order of its lines. -/
structure Reads (ls : List Text) (es : List Entry) : Prop where
  eq : ls.filter (¬ Ignored ·) = es.map Entry.line
  clean : ∀ e ∈ es, '\r' ∉ e.value

theorem pushAll_eq_pushEach (config : Options) (es : List Entry) :
    pushAll config es = config.pushEach (es.map fun e => (e.key, e.value)) := by
  rw [pushAll, Options.pushEach, List.foldl_map]

theorem mem_pushAll {config : Options} {es : List Entry} :
    k ∈ pushAll config es ↔ k ∈ config ∨ ∃ e ∈ es, e.key = k := by
  rw [pushAll_eq_pushEach, mem_pushEach]
  simp

theorem lookup_pushAll (config : Options) (es : List Entry) (k : Text) :
    ((pushAll config es).lookup k).getD [] =
      (config.lookup k).getD [] ++ (es.filter (·.key = k)).map Entry.value := by
  rw [pushAll_eq_pushEach, lookup_pushEach, List.filter_map, List.map_map]
  rfl

theorem Reads.ignored (h : Reads ls es) (hline : Ignored line) : Reads (line :: ls) es :=
  ⟨by simpa [hline] using h.eq, h.clean⟩

theorem Reads.entry {e : Entry} (h : Reads ls es) (hr : '\r' ∉ e.value) (hline : ¬ Ignored e.line) :
    Reads (e.line :: ls) (e :: es) :=
  ⟨by simpa [hline] using h.eq, List.forall_mem_cons.mpr ⟨hr, h.clean⟩⟩

/-- The lines are read to the end, or up to one that is not well formed. -/
theorem foldlM_loadLine_cases (config : Options) {ls : List Text} (hls : ∀ line ∈ ls, '\n' ∉ line) :
    (∃ es, Reads ls es ∧ (∀ line ∈ ls, WellFormed line) ∧
      ls.foldlM loadLine config = .ok (pushAll config es)) ∨
    (∃ line ∈ ls, ¬ WellFormed line ∧ ls.foldlM loadLine config = .error (.runtimeError line)) := by
  induction ls generalizing config with
  | nil => exact .inl ⟨[], ⟨rfl, by simp⟩, by simp, rfl⟩
  | cons line ls ih =>
    obtain ⟨hline, htail⟩ := List.forall_mem_cons.mp hls
    rw [List.foldlM_cons]
    obtain ⟨hignored, hload⟩ | ⟨e, hr, rfl, hnot, hload⟩ | ⟨hbad, hload⟩ :=
      loadLine_cases config hline <;> rw [hload]
    · obtain ⟨es, hreads, hall, hrest⟩ | ⟨bad, hbad, hmalformed, hrest⟩ := ih config htail
      · exact .inl ⟨es, hreads.ignored hignored, List.forall_mem_cons.mpr ⟨.inl hignored, hall⟩, hrest⟩
      · exact .inr ⟨bad, List.mem_cons_of_mem _ hbad, hmalformed, hrest⟩
    · obtain ⟨es, hreads, hall, hrest⟩ | ⟨bad, hbad, hmalformed, hrest⟩ :=
        ih (config.pushBack e.key e.value) htail
      · exact .inl ⟨e :: es, hreads.entry hr hnot,
          List.forall_mem_cons.mpr ⟨.inr ⟨e, hr, rfl⟩, hall⟩, hrest⟩
      · exact .inr ⟨bad, List.mem_cons_of_mem _ hbad, hmalformed, hrest⟩
    · exact .inr ⟨line, List.mem_cons_self, hbad, rfl⟩

theorem loadFile_cases (config : Options) (text : Text) :
    (∃ es, Reads (lines text) es ∧ (∀ line ∈ lines text, WellFormed line) ∧
      loadFile config (some text) = .ok (pushAll config es)) ∨
    (∃ line ∈ lines text, ¬ WellFormed line ∧
      loadFile config (some text) = .error (.runtimeError line)) := by
  rw [loadFile_some]
  exact foldlM_loadLine_cases config fun _ => newline_not_mem_of_mem_lines

end Xutil.Config
