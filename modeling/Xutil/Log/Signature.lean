import Mathlib.Data.List.Basic
import Xutil.Lib.Lines
import Xutil.Lib.Regex

/-!
# The name of the function

`std::source_location` knows the calling function by its whole signature.
`log_` cuts the bare name out of it with an expression. Return types with a `*`
or an `&` are beyond that expression, and then the signature stays as it is.
-/

namespace Xutil.Log

/-- `[-A-Za-z_0-9<>{}:,.]` -/
def isWordChar (c : Char) : Bool := c.isAlphanum || "-_<>\x7b\x7d:,.".toList.contains c

/-- `[A-Za-z_<{]` -/
def isQualifierHead (c : Char) : Bool := c.isAlpha || "_<\x7b".toList.contains c

/-- `[-A-Za-z_0-9<>{}'}]` -/
def isQualifierChar (c : Char) : Bool := c.isAlphanum || "-_<>\x7b\x7d\x27".toList.contains c

/-- `[A-Za-z_]` -/
def isNameHead (c : Char) : Bool := c.isAlpha || c == '_'

/-- `[A-Za-z_0-9<>{} ]` -/
def isNameChar (c : Char) : Bool := c.isAlphanum || "_<>\x7b\x7d ".toList.contains c

def wordRe : Regex Char := .seq (.plus (.one isWordChar)) (.one (· == ' '))

def qualifierRe : Regex Char :=
  .seq (.opt (.one (· == '\x60'))) <| .seq (.one isQualifierHead) <|
    .seq (.star (.one isQualifierChar)) <| .seq (.one (· == ':')) (.one (· == ':'))

def nameRe : Regex Char :=
  .seq (.opt (.one (· == '~'))) <| .seq (.one isNameHead) (.star (.one isNameChar))

def paramsRe : Regex Char :=
  .seq (.opt (.one (· == ' '))) <| .seq (.one (· == '(')) (.star (.one Regex.isDot))

/-- `function_name_re`, whose first group is the name. -/
def functionNameRe : Regex Char :=
  .seq (.star wordRe) <| .seq (.star qualifierRe) <| .seq (.group 1 nameRe) paramsRe

/-- What `log_` writes for the name of the function. -/
def functionLabel (functionName : Text) : Text :=
  match Regex.regexMatch functionNameRe functionName with
  | some result => result 1
  | none => functionName

-- ---------------------------------------------------------------------------
-- Signatures
-- ---------------------------------------------------------------------------

structure Qualifier where
  quoted : Bool
  head : Char
  tail : Text
  head_ok : isQualifierHead head = true
  tail_ok : ∀ c ∈ tail, isQualifierChar c = true

def Qualifier.text (q : Qualifier) : Text :=
  (if q.quoted then ['\x60'] else []) ++ q.head :: (q.tail ++ [':', ':'])

/-- The words before a name, what qualifies it, the name and the parameters. -/
structure Signature where
  words : List Text
  qualifiers : List Qualifier
  destructor : Bool
  head : Char
  tail : Text
  params : Text
  words_ok : ∀ w ∈ words, w ≠ [] ∧ ∀ c ∈ w, isWordChar c = true
  head_ok : isNameHead head = true
  tail_ok : ∀ c ∈ tail, isNameChar c = true ∧ c ≠ ' '
  params_ok : ∀ c ∈ params, Regex.isDot c = true

namespace Signature

def name (s : Signature) : Text := (if s.destructor then ['~'] else []) ++ s.head :: s.tail

def qualified (s : Signature) : Text := (s.qualifiers.map Qualifier.text).flatten ++ s.name

def text (s : Signature) : Text :=
  (s.words.map (· ++ [' '])).flatten ++ (s.qualified ++ '(' :: s.params)

end Signature

-- ---------------------------------------------------------------------------
-- The expression on a signature
-- ---------------------------------------------------------------------------

theorem prefix_of_not_mem {w u x y : List α} (h : w ++ u = x ++ a :: y) (ha : a ∉ w) :
    ∃ v, x = w ++ v := by
  rcases List.append_eq_append_iff.mp h with ⟨v, rfl, _⟩ | ⟨v, rfl, hv⟩
  · exact ⟨v, rfl⟩
  · cases v with
    | nil => exact ⟨[], by simp⟩
    | cons b v =>
      obtain rfl : a = b := (List.cons.inj hv).1
      simp at ha

theorem first_wordRe (hne : w ≠ []) (hall : ∀ c ∈ w, isWordChar c = true) (rest : Text) :
    Regex.First wordRe c (w ++ [' ']) c rest := by
  have hplus : Regex.First (.plus (.one isWordChar)) c w c ([' '] ++ rest) := by
    cases w with
    | nil => exact absurd rfl hne
    | cons a w =>
      obtain ⟨ha, hall⟩ := List.forall_mem_cons.mp hall
      refine .cons ha (.star_one hall ?_)
      simp only [List.cons_append, List.head?_cons, Option.mem_some_iff, forall_eq']
      rfl
  refine .seq hplus fun k _ => ?_
  simp [Regex.run]

theorem Qualifier.first (q : Qualifier) (rest : Text) : Regex.First qualifierRe c q.text c rest := by
  have hhead : q.head ≠ '\x60' := by
    intro h
    have hok := q.head_ok
    rw [h] at hok
    cases hok
  have hcolons : Regex.First (.seq (.one (· == ':')) (.one (· == ':'))) c [':', ':'] c rest :=
    .cons rfl fun k _ => by simp [Regex.run]
  have hstop : ∀ a ∈ ([':', ':'] ++ rest).head?, isQualifierChar a = false := by
    simp only [List.cons_append, List.head?_cons, Option.mem_some_iff, forall_eq']
    rfl
  refine .seq ?_ (.cons q.head_ok (.seq (.star_one q.tail_ok hstop) hcolons))
  cases q.quoted with
  | false => exact .opt_none fun k => by simp [Regex.run, hhead]
  | true => exact .opt fun k _ => by simp [Regex.run]

-- ---------------------------------------------------------------------------
-- What the expression matches
-- ---------------------------------------------------------------------------

/-- What may stand before the parameters. -/
def isSignatureChar (c : Char) : Bool :=
  isWordChar c || isQualifierChar c || c == '\x60' || c == '~' || c == ' '

theorem isSignatureChar_of_word (h : isWordChar c = true) : isSignatureChar c = true := by
  simp [isSignatureChar, h]

theorem isSignatureChar_of_qualifier (h : isQualifierChar c = true) : isSignatureChar c = true := by
  simp [isSignatureChar, h]

theorem isQualifierChar_of_head (h : isQualifierHead c = true) : isQualifierChar c = true := by
  simp only [isQualifierHead, Bool.or_eq_true] at h
  rcases h with h | h
  · simp [isQualifierChar, Char.isAlphanum, h]
  · simp at h
    rcases h with rfl | rfl | rfl <;> rfl

theorem isQualifierChar_of_nameHead (h : isNameHead c = true) : isQualifierChar c = true := by
  simp only [isNameHead, Bool.or_eq_true, beq_iff_eq] at h
  rcases h with h | rfl
  · simp [isQualifierChar, Char.isAlphanum, h]
  · rfl

theorem isSignatureChar_of_name (h : isNameChar c = true) : isSignatureChar c = true := by
  simp only [isNameChar, Bool.or_eq_true] at h
  rcases h with h | h
  · simp [isSignatureChar, isWordChar, h]
  · simp at h
    rcases h with rfl | rfl | rfl | rfl | rfl | rfl <;> rfl

theorem matches_wordRe (h : Regex.Matches wordRe c w c') :
    ' ' ∈ w ∧ ∀ a ∈ w, isSignatureChar a = true := by
  simp only [wordRe, Regex.plus, Regex.matches_seq, Regex.matches_one, Regex.matches_star_one] at h
  obtain ⟨_, _, _, rfl, ⟨_, _, u, rfl, ⟨a, ha, rfl, -⟩, hu, -⟩, b, hb, rfl, -⟩ := h
  obtain rfl : b = ' ' := by simpa using hb
  refine ⟨by simp, fun x hx => ?_⟩
  simp only [List.mem_append, List.mem_singleton] at hx
  rcases hx with (rfl | hx) | rfl
  · exact isSignatureChar_of_word ha
  · exact isSignatureChar_of_word (hu x hx)
  · rfl

theorem matches_qualifierRe (h : Regex.Matches qualifierRe c w c') :
    ':' ∈ w ∧ ∀ a ∈ w, isSignatureChar a = true := by
  simp only [qualifierRe, Regex.matches_seq, Regex.matches_one, Regex.matches_star_one,
    Regex.matches_opt] at h
  obtain ⟨tick, _, _, rfl, htick, _, _, _, rfl, ⟨a, ha, rfl, -⟩, u, _, _, rfl, ⟨hu, -⟩, _, _, _, rfl,
    ⟨b, hb, rfl, -⟩, b', hb', rfl, -⟩ := h
  obtain rfl : b = ':' := by simpa using hb
  obtain rfl : b' = ':' := by simpa using hb'
  refine ⟨by simp, fun x hx => ?_⟩
  simp only [List.mem_append, List.mem_singleton] at hx
  rcases hx with hx | rfl | hx | rfl | rfl
  · rcases htick with ⟨rfl, -⟩ | ⟨t, ht, rfl, -⟩
    · simp at hx
    · obtain rfl : t = '\x60' := by simpa using ht
      obtain rfl : x = '\x60' := by simpa using hx
      rfl
  · exact isSignatureChar_of_qualifier (isQualifierChar_of_head ha)
  · exact isSignatureChar_of_qualifier (hu x hx)
  · rfl
  · rfl

theorem matches_nameRe (h : Regex.Matches nameRe c w c') : ∀ a ∈ w, isSignatureChar a = true := by
  simp only [nameRe, Regex.matches_seq, Regex.matches_one, Regex.matches_star_one,
    Regex.matches_opt] at h
  obtain ⟨tilde, _, _, rfl, htilde, _, _, u, rfl, ⟨a, ha, rfl, -⟩, hu, -⟩ := h
  intro x hx
  simp only [List.mem_append, List.mem_singleton] at hx
  rcases hx with hx | rfl | hx
  · rcases htilde with ⟨rfl, -⟩ | ⟨t, ht, rfl, -⟩
    · simp at hx
    · obtain rfl : t = '~' := by simpa using ht
      obtain rfl : x = '~' := by simpa using hx
      rfl
  · exact isSignatureChar_of_qualifier (isQualifierChar_of_nameHead ha)
  · exact isSignatureChar_of_name (hu x hx)

theorem matches_functionNameRe (h : Regex.Matches functionNameRe c w c') :
    ∃ x y, w = x ++ '(' :: y ∧ ∀ a ∈ x, isSignatureChar a = true := by
  simp only [functionNameRe, paramsRe, Regex.matches_seq, Regex.matches_one, Regex.matches_star_one,
    Regex.matches_opt, Regex.matches_group] at h
  obtain ⟨words, _, _, rfl, hwords, quals, _, _, rfl, hquals, name, _, _, rfl, ⟨_, hname, -⟩,
    blank, _, _, rfl, hblank, _, _, y, rfl, ⟨b, hb, rfl, -⟩, -⟩ := h
  obtain rfl : b = '(' := by simpa using hb
  refine ⟨words ++ (quals ++ (name ++ blank)), y, by simp, ?_⟩
  refine List.forall_mem_append.mpr ⟨hwords.forall_star fun h => (matches_wordRe h).2,
    List.forall_mem_append.mpr ⟨hquals.forall_star fun h => (matches_qualifierRe h).2,
      List.forall_mem_append.mpr ⟨matches_nameRe hname, ?_⟩⟩⟩
  rcases hblank with ⟨rfl, -⟩ | ⟨t, ht, rfl, -⟩
  · simp
  · obtain rfl : t = ' ' := by simpa using ht
    simp [isSignatureChar]

-- ---------------------------------------------------------------------------
-- The name is found
-- ---------------------------------------------------------------------------

theorem Signature.of_mem_name {s : Signature} (h : c ∈ s.name) : c ≠ ' ' ∧ c ≠ ':' := by
  simp only [Signature.name, List.mem_append, List.mem_cons] at h
  rcases h with h | rfl | h
  · split at h
    · obtain rfl : c = '~' := by simpa using h
      decide
    · simp at h
  · have hok := s.head_ok
    constructor <;> intro hc <;> rw [hc] at hok <;> cases hok
  · refine ⟨(s.tail_ok c h).2, ?_⟩
    rintro rfl
    exact nomatch (s.tail_ok ':' h).1

theorem Qualifier.blank_not_mem (q : Qualifier) : ' ' ∉ q.text := by
  simp only [Qualifier.text, List.mem_append, List.mem_cons]
  rintro (h | h | h | h)
  · split at h <;> simp at h
  · have hok := q.head_ok
    rw [← h] at hok
    cases hok
  · exact nomatch q.tail_ok ' ' h
  · simp at h

theorem Signature.blank_not_mem (s : Signature) : ' ' ∉ s.qualified := by
  simp only [Signature.qualified, List.mem_append, List.mem_flatten, List.mem_map]
  rintro (⟨_, ⟨q, -, rfl⟩, h⟩ | h)
  · exact q.blank_not_mem h
  · exact (s.of_mem_name h).1 rfl

theorem not_mem_of_isSignatureChar {w : Text} (h : ∀ a ∈ w, isSignatureChar a = true) : '(' ∉ w :=
  fun hmem => nomatch h '(' hmem

theorem Signature.words_end (s : Signature) (k : Regex.Match Char → Option (Regex.Captures Char)) :
    Regex.run wordRe k (c, s.qualified ++ '(' :: s.params) = none := by
  refine Regex.run_eq_none (fun w u c' ht hm => ?_) k
  obtain ⟨hblank, hall⟩ := matches_wordRe hm
  obtain ⟨v, hv⟩ := prefix_of_not_mem ht.symm (not_mem_of_isSignatureChar hall)
  exact s.blank_not_mem (hv ▸ List.mem_append_left v hblank)

theorem Signature.qualifiers_end (s : Signature)
    (k : Regex.Match Char → Option (Regex.Captures Char)) :
    Regex.run qualifierRe k (c, s.name ++ '(' :: s.params) = none := by
  refine Regex.run_eq_none (fun w u c' ht hm => ?_) k
  obtain ⟨hcolon, hall⟩ := matches_qualifierRe hm
  obtain ⟨v, hv⟩ := prefix_of_not_mem ht.symm (not_mem_of_isSignatureChar hall)
  exact (s.of_mem_name (hv ▸ List.mem_append_left v hcolon)).2 rfl

theorem Signature.first_nameRe (s : Signature) :
    Regex.First nameRe c s.name c ('(' :: s.params) := by
  have hhead : s.head ≠ '~' := by
    intro h
    have hok := s.head_ok
    rw [h] at hok
    cases hok
  have hstop : ∀ a ∈ ('(' :: s.params).head?, isNameChar a = false := by
    simp only [List.head?_cons, Option.mem_some_iff, forall_eq']
    rfl
  refine .seq ?_ (.cons s.head_ok (.star_one (fun c hc => (s.tail_ok c hc).1) hstop))
  cases s.destructor with
  | false => exact .opt_none fun k => by simp [Regex.run, hhead]
  | true => exact .opt fun k _ => by simp [Regex.run]

theorem Signature.first_words (s : Signature) : Regex.First (.star wordRe) c
    (s.words.map (· ++ [' '])).flatten c (s.qualified ++ '(' :: s.params) := by
  refine .star (by simp) ?_ s.words_end
  intro w hw u
  obtain ⟨w, hmem, rfl⟩ := List.mem_map.mp hw
  exact first_wordRe (s.words_ok w hmem).1 (s.words_ok w hmem).2 u

theorem Signature.first_qualifiers (s : Signature) : Regex.First (.star qualifierRe) c
    (s.qualifiers.map Qualifier.text).flatten c (s.name ++ '(' :: s.params) := by
  refine .star (by simp [Qualifier.text]) ?_ s.qualifiers_end
  intro w hw u
  obtain ⟨q, -, rfl⟩ := List.mem_map.mp hw
  exact q.first u

theorem Signature.regexMatch (s : Signature) :
    Regex.regexMatch functionNameRe s.text = some (Function.update (fun _ => []) 1 s.name) := by
  have hblank : Regex.First (.opt (.one (· == ' '))) (Function.update (fun _ => []) 1 s.name) []
      (Function.update (fun _ => []) 1 s.name) ('(' :: s.params) :=
    .opt_none fun k => rfl
  have hparams : Regex.First paramsRe (Function.update (fun _ => []) 1 s.name)
      ([] ++ '(' :: s.params) (Function.update (fun _ => []) 1 s.name) [] :=
    .seq (by simpa using hblank) (.cons rfl (.star_one s.params_ok (by simp)))
  have hname : Regex.First (.seq (.group 1 nameRe) paramsRe) (fun _ => [])
      (s.name ++ ([] ++ '(' :: s.params)) (Function.update (fun _ => []) 1 s.name) [] :=
    .seq (by simpa using s.first_nameRe.group) hparams
  have hqualified : Regex.First (.seq (.star qualifierRe) (.seq (.group 1 nameRe) paramsRe))
      (fun _ => []) (s.qualified ++ '(' :: s.params) (Function.update (fun _ => []) 1 s.name) [] := by
    rw [Signature.qualified, List.append_assoc]
    exact .seq (by simpa using s.first_qualifiers) hname
  have hwords : Regex.First functionNameRe (fun _ => []) s.text
      (Function.update (fun _ => []) 1 s.name) [] :=
    .seq (by simpa using s.first_words) hqualified
  exact hwords.regexMatch

/-- Of a signature the bare name is written, and all of a text that has some
other character before its first parenthesis. -/
theorem function_label (functionName : Text) :
    (∀ s : Signature, s.text = functionName → functionLabel functionName = s.name) ∧
      ((∃ c ∈ functionName.takeWhile (· ≠ '('), isSignatureChar c = false) →
        functionLabel functionName = functionName) := by
  constructor
  · rintro s rfl
    simp [functionLabel, s.regexMatch]
  · rintro ⟨c, hc, hbad⟩
    cases hmatch : Regex.regexMatch functionNameRe functionName with
    | none => simp [functionLabel, hmatch]
    | some result =>
      obtain ⟨x, y, rfl, hall⟩ := matches_functionNameRe (Regex.regexMatch_matches hmatch)
      rw [List.takeWhile_append_of_pos, List.takeWhile_cons_of_neg (by simp), List.append_nil] at hc
      · exact absurd (hall c hc) (by simp [hbad])
      · intro a ha
        simpa using fun h : a = '(' => not_mem_of_isSignatureChar hall (h ▸ ha)

example : functionLabel "void xxx::log::logger_t::log_(xxx::log::level_t)".toList = "log_".toList := by
  decide

example : functionLabel "char* name()".toList = "char* name()".toList := by decide

end Xutil.Log
