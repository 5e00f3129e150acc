import Mathlib.Data.List.TakeWhile
import Xutil.Config.Configurations

/-!
# Numbers in a configuration

`get_as` takes the end of the stream for success. The stream also ends after a
sign without a digit, after nothing but white space, and after a number beyond
the limits.
-/

namespace Xutil.Config

def IsSign (sign : Text) : Prop := sign = [] ∨ sign = ['+'] ∨ sign = ['-']

/-- A number in decimal, taken apart. -/
structure Numeral where
  blanks : Text
  sign : Text
  digits : Text
  isBlanks : ∀ c ∈ blanks, isSpace c = true
  isSign : IsSign sign
  isDigits : digits ≠ [] ∧ ∀ c ∈ digits, c.isDigit = true

theorem no_blanks : ∀ c ∈ ([] : Text), isSpace c = true := List.forall_mem_nil _

def Numeral.text (m : Numeral) : Text := m.blanks ++ (m.sign ++ m.digits)

/-- The digits after a sign. -/
def signed (sign digits : Text) : Int :=
  let n : Int := (Nat.ofDigitChars 10 digits 0 : Nat)
  if sign = ['-'] then -n else n

def Numeral.value (m : Numeral) : Int := signed m.sign m.digits

/-- White space and at most a sign. -/
def NoDigits (s : Text) : Prop :=
  ∃ blanks sign, s = blanks ++ sign ∧ (∀ c ∈ blanks, isSpace c = true) ∧ IsSign sign

-- ---------------------------------------------------------------------------
-- Digits
-- ---------------------------------------------------------------------------

theorem ne_of_isDigit {c a : Char} (hc : c.isDigit = true) (ha : a.isDigit = false) : c ≠ a := by
  rintro rfl
  cases hc.symm.trans ha

theorem isSpace_of_isDigit {c : Char} (hc : c.isDigit = true) : isSpace c = false := by
  have hne (a : Char) (ha : a.isDigit = false) : c ≠ a := ne_of_isDigit hc ha
  simp [isSpace, isBlank, isPad, hne ' ' rfl, hne '\t' rfl, hne '\x0b' rfl, hne '\r' rfl,
    hne '\n' rfl, hne '\x0c' rfl]

theorem IsSign.isDigit (h : IsSign sign) : ∀ c ∈ sign, c.isDigit = false := by
  rcases h with rfl | rfl | rfl <;> simp

theorem NoDigits.isDigit (h : NoDigits s) : ∀ c ∈ s, c.isDigit = false := by
  obtain ⟨blanks, sign, rfl, hblanks, hsign⟩ := h
  intro c hc
  rcases List.mem_append.mp hc with hc | hc
  · by_contra hdigit
    cases (hblanks c hc).symm.trans (isSpace_of_isDigit (by simpa using hdigit))
  · exact hsign.isDigit c hc

namespace Numeral

theorem digits_head (m : Numeral) : ∃ d ds, m.digits = d :: ds ∧ d.isDigit = true := by
  obtain ⟨d, ds, hdigits⟩ := List.exists_cons_of_ne_nil m.isDigits.1
  refine ⟨d, ds, hdigits, m.isDigits.2 d ?_⟩
  rw [hdigits]
  exact List.mem_cons_self

theorem not_noDigits (m : Numeral) : ¬ NoDigits m.text := by
  intro h
  obtain ⟨d, ds, hdigits, hd⟩ := m.digits_head
  cases hd.symm.trans (h.isDigit d (by simp [text, hdigits]))

theorem text_ne_nil (m : Numeral) : m.text ≠ [] := by
  obtain ⟨d, ds, hdigits, -⟩ := m.digits_head
  simp [text, hdigits]

/-- A number starts with a sign or a digit. -/
theorem number_head (m : Numeral) : ∀ c ∈ (m.sign ++ m.digits).head?, isSpace c = false := by
  obtain ⟨d, ds, hdigits, hd⟩ := m.digits_head
  intro c hc
  rcases m.isSign with hsign | hsign | hsign <;> rw [hsign, hdigits] at hc <;>
    obtain rfl := Option.some.inj hc
  · exact isSpace_of_isDigit hd
  · rfl
  · rfl

theorem digits_no_sign (m : Numeral) : ∀ c ∈ m.digits.head?, c ≠ '+' ∧ c ≠ '-' := by
  obtain ⟨d, ds, hdigits, hd⟩ := m.digits_head
  intro c hc
  rw [hdigits] at hc
  obtain rfl := Option.some.inj hc
  exact ⟨ne_of_isDigit hd rfl, ne_of_isDigit hd rfl⟩

end Numeral

theorem sign_inj (hsign : IsSign sign) (hsign' : IsSign sign')
    (hrest : ∀ c ∈ rest.head?, c ≠ '+' ∧ c ≠ '-') (hrest' : ∀ c ∈ rest'.head?, c ≠ '+' ∧ c ≠ '-')
    (h : sign ++ rest = sign' ++ rest') : sign = sign' ∧ rest = rest' := by
  rcases hsign with rfl | rfl | rfl <;> rcases hsign' with rfl | rfl | rfl <;> grind

theorem Numeral.text_injective : Function.Injective Numeral.text := by
  intro m m' h
  obtain ⟨hblanks, h⟩ := span_unique m.isBlanks m.number_head m'.isBlanks m'.number_head h
  obtain ⟨hsign, hdigits⟩ := sign_inj m.isSign m'.isSign m.digits_no_sign m'.digits_no_sign h
  cases m
  cases m'
  simp_all

-- ---------------------------------------------------------------------------
-- The stream
-- ---------------------------------------------------------------------------

theorem extractNumber_sign (hsign : IsSign sign)
    (hrest : sign = [] → ∀ c ∈ rest.head?, c ≠ '+' ∧ c ≠ '-') :
    extractNumber (sign ++ rest) = ⟨some (clip (signed sign (rest.takeWhile (·.isDigit)))),
      (rest.dropWhile (·.isDigit)).isEmpty⟩ := by
  rcases hsign with rfl | rfl | rfl
  · have hplus : rest.head? ≠ some '+' := fun h => (hrest rfl '+' h).1 rfl
    have hminus : rest.head? ≠ some '-' := fun h => (hrest rfl '-' h).2 rfl
    simp [extractNumber, signed, hplus, hminus]
  · simp [extractNumber, signed]
  · simp [extractNumber, signed]

theorem extractInt_blanks (hblanks : ∀ c ∈ blanks, isSpace c = true) (hne : rest ≠ [])
    (hrest : ∀ c ∈ rest.head?, isSpace c = false) :
    extractInt (blanks ++ rest) = extractNumber rest := by
  have hdrop : (blanks ++ rest).dropWhile isSpace = rest := by
    rw [List.dropWhile_append_of_pos hblanks]
    cases rest with
    | nil => rfl
    | cons c rest => exact List.dropWhile_cons_of_neg (by simp [hrest c rfl])
  have hempty : rest.isEmpty = false := by simpa using hne
  simp [extractInt, hdrop, hempty]

theorem Numeral.extractInt_text (m : Numeral) :
    extractInt m.text = ⟨some (clip m.value), true⟩ := by
  obtain ⟨-, hdigits⟩ := m.isDigits
  have htake : m.digits.takeWhile (·.isDigit) = m.digits := List.takeWhile_eq_self_iff.mpr hdigits
  have hdrop : m.digits.dropWhile (·.isDigit) = [] := List.dropWhile_eq_nil_iff.mpr hdigits
  rw [Numeral.text, extractInt_blanks m.isBlanks (by simp [m.isDigits.1]) m.number_head,
    extractNumber_sign m.isSign fun _ => m.digits_no_sign, htake, hdrop]
  rfl

theorem extractInt_spaces (h : ∀ c ∈ s, isSpace c = true) : extractInt s = ⟨none, true⟩ := by
  have hdrop : s.dropWhile isSpace = [] := List.dropWhile_eq_nil_iff.mpr h
  simp [extractInt, hdrop]

theorem NoDigits.eof (h : NoDigits s) : (extractInt s).eof = true := by
  obtain ⟨blanks, sign, rfl, hblanks, hsign⟩ := h
  rcases hsign with rfl | hsign
  · rw [List.append_nil, extractInt_spaces hblanks]
  · have hne : sign ≠ [] := by rcases hsign with rfl | rfl <;> simp
    have hhead : ∀ c ∈ sign.head?, isSpace c = false := by
      rcases hsign with rfl | rfl <;> simp [isSpace, isBlank, isPad]
    rw [extractInt_blanks hblanks hne hhead]
    rcases hsign with rfl | rfl <;> rfl

theorem exists_sign (s : Text) :
    ∃ sign rest, s = sign ++ rest ∧ IsSign sign ∧
      (sign = [] → ∀ c ∈ rest.head?, c ≠ '+' ∧ c ≠ '-') := by
  by_cases hhead : ∀ c ∈ s.head?, c ≠ '+' ∧ c ≠ '-'
  · exact ⟨[], s, rfl, .inl rfl, fun _ => hhead⟩
  · cases s with
    | nil => simp at hhead
    | cons c s =>
      have hc : c = '+' ∨ c = '-' := by
        by_contra hne
        exact hhead fun a ha => by
          obtain rfl := Option.some.inj ha
          exact not_or.mp hne
      exact ⟨[c], s, rfl, .inr (hc.imp (congrArg ([·])) (congrArg ([·]))), fun h => nomatch h⟩

/-- A text has no digits, or is a number, or is not read to its end. -/
theorem extractInt_cases (s : Text) :
    NoDigits s ∨ (∃ m : Numeral, m.text = s) ∨ (extractInt s).eof = false := by
  have hblanks : ∀ c ∈ s.takeWhile isSpace, isSpace c = true := fun _ => List.mem_takeWhile_imp
  have hs : s.takeWhile isSpace ++ s.dropWhile isSpace = s := List.takeWhile_append_dropWhile
  have hhead : ∀ c ∈ (s.dropWhile isSpace).head?, isSpace c = false := by
    intro c hc
    have h := List.head?_dropWhile_not isSpace s
    rwa [hc] at h
  generalize s.takeWhile isSpace = blanks at hblanks hs
  generalize s.dropWhile isSpace = number at hs hhead
  obtain ⟨sign, rest, rfl, hsign, hrest⟩ := exists_sign number
  cases hdrop : rest.dropWhile (·.isDigit) with
  | nil =>
    rcases eq_or_ne rest [] with rfl | hne
    · exact .inl ⟨blanks, sign, by rw [← hs, List.append_nil], hblanks, hsign⟩
    · have hdigits : ∀ c ∈ rest, c.isDigit = true := List.dropWhile_eq_nil_iff.mp hdrop
      exact .inr (.inl ⟨⟨blanks, sign, rest, hblanks, hsign, hne, hdigits⟩, hs⟩)
  | cons c tail =>
    right; right
    have hne : sign ++ rest ≠ [] := by
      intro h
      rw [(List.append_eq_nil_iff.mp h).2] at hdrop
      cases hdrop
    rw [← hs, extractInt_blanks hblanks hne hhead, extractNumber_sign hsign hrest, hdrop]
    rfl

-- ---------------------------------------------------------------------------
-- `get_as<int>`
-- ---------------------------------------------------------------------------

def InRange (n : Int) : Prop := -2 ^ 31 ≤ n ∧ n ≤ 2 ^ 31 - 1

/-- `s` is a number, `n`, that an `int` can hold. -/
def Denotes (s : Text) (n : Int) : Prop := InRange n ∧ ∃ m : Numeral, m.text = s ∧ m.value = n

theorem clip_of_inRange (h : InRange n) : clip n = n := by
  obtain ⟨hmin, hmax⟩ := h
  unfold clip
  omega

theorem NoDigits.not_denotes (h : NoDigits s) : ¬ ∃ n, Denotes s n := by
  rintro ⟨_, -, m, rfl, -⟩
  exact m.not_noDigits h

theorem Numeral.denotes_iff (m : Numeral) : Denotes m.text n ↔ InRange m.value ∧ m.value = n := by
  constructor
  · rintro ⟨hrange, m', htext, rfl⟩
    obtain rfl : m' = m := Numeral.text_injective htext
    exact ⟨hrange, rfl⟩
  · rintro ⟨hrange, rfl⟩
    exact ⟨hrange, m, rfl, rfl⟩

namespace Configurations

variable {c : Configurations}

theorem getAsInt_first (h : c.config.lookup key = some (s :: rest)) (junk : Int) :
    c.getAsInt junk key =
      if s ≠ [] ∧ (extractInt s).eof = true then .ok ((extractInt s).value.getD junk)
      else .error .badCast := by
  simp [getAsInt, h]

/-- What `get_as<int>` is to return for the value `s`. -/
def ReadsInt (c : Configurations) (junk : Int) (key s : Text) : Prop :=
  (∀ n, c.getAsInt junk key = .ok n ↔ Denotes s n) ∧
    ((¬ ∃ n, Denotes s n) → c.getAsInt junk key = .error .badCast)

theorem readsInt_of_refused (hthrows : c.getAsInt junk key = .error .badCast)
    (hdenotes : ¬ ∃ n, Denotes s n) : c.ReadsInt junk key s := by
  refine ⟨fun n => ⟨fun h => ?_, fun h => absurd ⟨n, h⟩ hdenotes⟩, fun _ => hthrows⟩
  cases hthrows.symm.trans h

theorem not_readsInt (hreturns : c.getAsInt junk key = .ok n) (hdenotes : ¬ Denotes s n) :
    ¬ c.ReadsInt junk key s :=
  fun h => hdenotes ((h.1 n).mp hreturns)

/-- A number is read as it is, and all other texts are refused, but for a number
beyond the limits and for white space with at most a sign. -/
theorem get_as_int (h : c.config.lookup key = some (s :: rest)) (junk : Int) :
    c.ReadsInt junk key s ↔
      (NoDigits s → s = []) ∧ ∀ m : Numeral, m.text = s → InRange m.value := by
  have hread := getAsInt_first h junk
  obtain hnone | ⟨m, rfl⟩ | heof := extractInt_cases s
  · have hnumeral : ∀ m : Numeral, m.text = s → InRange m.value := by
      rintro m rfl
      exact absurd hnone m.not_noDigits
    rw [hnone.eof] at hread
    rcases eq_or_ne s [] with rfl | hne
    · rw [if_neg (by simp)] at hread
      have hreads := readsInt_of_refused hread hnone.not_denotes
      exact iff_of_true hreads ⟨fun _ => rfl, hnumeral⟩
    · rw [if_pos ⟨hne, rfl⟩] at hread
      have hnot := not_readsInt hread fun hn => hnone.not_denotes ⟨_, hn⟩
      exact ⟨fun h => absurd h hnot, fun ⟨hempty, _⟩ => absurd (hempty hnone) hne⟩
  · rw [m.extractInt_text, if_pos ⟨m.text_ne_nil, rfl⟩, Option.getD_some] at hread
    by_cases hrange : InRange m.value
    · rw [clip_of_inRange hrange] at hread
      constructor
      · refine fun _ => ⟨fun hnone => absurd hnone m.not_noDigits, fun m' htext => ?_⟩
        rwa [Numeral.text_injective htext]
      · have hdenotes : Denotes m.text m.value := m.denotes_iff.mpr ⟨hrange, rfl⟩
        refine fun _ => ⟨fun n => ?_, fun hnot => absurd ⟨_, hdenotes⟩ hnot⟩
        rw [hread, m.denotes_iff, Except.ok.injEq, and_iff_right hrange]
    · have hnot := not_readsInt hread fun hn => hrange (m.denotes_iff.mp hn).1
      exact ⟨fun h => absurd h hnot, fun ⟨_, hall⟩ => absurd (hall m rfl) hrange⟩
  · rw [heof, if_neg (by simp)] at hread
    have hnumeral (m : Numeral) : m.text ≠ s := by
      rintro rfl
      rw [m.extractInt_text] at heof
      cases heof
    constructor
    · refine fun _ => ⟨fun hnone => ?_, fun m hm => absurd hm (hnumeral m)⟩
      cases heof.symm.trans hnone.eof
    · exact fun _ => readsInt_of_refused hread fun ⟨_, _, m, hm, _⟩ => hnumeral m hm

/-- A configuration with one key, `n`. -/
def sole (values : List Text) : Configurations where
  config := AList.singleton ['n'] values
  valid := by
    intro key hkey
    rw [AList.mem_keys, AList.keys_singleton] at hkey
    obtain rfl := List.mem_singleton.mp hkey
    exact ⟨'n', [], rfl, rfl, by simp⟩

@[simp] theorem lookup_sole (values : List Text) : (sole values).config.lookup ['n'] = some values :=
  rfl

def twelve : Numeral where
  blanks := []
  sign := []
  digits := "12".toList
  isBlanks := no_blanks
  isSign := .inl rfl
  isDigits := ⟨by simp, by simp [Char.isDigit]⟩

theorem get_as_int_twelve : (sole ["12".toList]).ReadsInt 7 ['n'] "12".toList := by
  refine (get_as_int (lookup_sole ["12".toList]) 7).mpr ⟨fun h => ?_, fun m hm => ?_⟩
  · exact absurd h twelve.not_noDigits
  · obtain rfl : m = twelve := Numeral.text_injective hm
    exact ⟨by decide, by decide⟩

/-- A lone sign is read as zero. -/
theorem get_as_int_sign :
    ¬ ∀ (c : Configurations) junk key s rest, c.config.lookup key = some (s :: rest) →
      c.ReadsInt junk key s := by
  intro h
  have hreads := h (sole [['+']]) 7 ['n'] ['+'] [] (lookup_sole [['+']])
  have hnone : NoDigits ['+'] := ⟨[], ['+'], rfl, by simp, .inr (.inl rfl)⟩
  have hzero : (sole [['+']]).getAsInt 7 ['n'] = .ok 0 := rfl
  exact not_readsInt hzero (fun hn => hnone.not_denotes ⟨0, hn⟩) hreads

end Configurations

end Xutil.Config
