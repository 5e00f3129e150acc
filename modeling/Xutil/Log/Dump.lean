import Xutil.Lib.Formats

/-!
# `dump_`, `enclose` and `cat`

How the arguments of a trace become text. A value that is not a container is
known by what `<<` writes of it, and that is free text. `enclose` can be read
back when no such text is empty or has a delimiter in it.
-/

namespace Xutil.Log

open Format

/-- An overload of `dump_` sees itself and those before it, so not all of these
nestings compile: a `std::vector` holds no `std::map`. -/
inductive Ty
  | leaf
  | vector (t : Ty)
  | map (k v : Ty)
  | set (t : Ty)
  | unorderedMap (k v : Ty)
  | unorderedSet (t : Ty)
  deriving Repr, DecidableEq

/-- The elements of a container are in the order of its iteration. -/
def Ty.Val : Ty → Type
  | .leaf => List Char
  | .vector t | .set t | .unorderedSet t => List t.Val
  | .map k v | .unorderedMap k v => List (k.Val × v.Val)

def Args : List Ty → Type
  | [] => Unit
  | [t] => t.Val
  | t :: u :: ts => t.Val × Args (u :: ts)

-- ---------------------------------------------------------------------------
-- Writing
-- ---------------------------------------------------------------------------

/-- The loop over a container, with its flag. -/
def dumpEach (dump : α → List Char) : Bool → List α → List Char
  | _, [] => []
  | first, arg :: args => (if first then [] else [',']) ++ dump arg ++ dumpEach dump false args

def dump_ : (t : Ty) → t.Val → List Char
  | .leaf, head => head
  | .vector t, head => '[' :: (dumpEach (dump_ t) true head ++ [']'])
  | .map k v, head | .unorderedMap k v, head =>
    '{' :: (dumpEach (fun arg => dump_ k arg.1 ++ ':' :: dump_ v arg.2) true head ++ ['}'])
  | .set t, head | .unorderedSet t, head => '{' :: (dumpEach (dump_ t) true head ++ ['}'])

def dumpArgs : (ts : List Ty) → Args ts → List Char
  | [], _ => []
  | [t], head => dump_ t head
  | t :: u :: ts, (head, args) => dump_ t head ++ dumpArgs (u :: ts) args

def enclose_ : (ts : List Ty) → Args ts → List Char
  | [], _ => []
  | [t], head => dump_ t head
  | t :: u :: ts, (head, args) => dump_ t head ++ ',' :: enclose_ (u :: ts) args

def enclose (ts : List Ty) (args : Args ts) : String := .ofList ('(' :: (enclose_ ts args ++ [')']))

def cat (ts : List Ty) (args : Args ts) : String := .ofList (dumpArgs ts args)

-- ---------------------------------------------------------------------------
-- Reading
-- ---------------------------------------------------------------------------

def isDelimiter (c : Char) : Bool := c == ',' || c == ':' || c == ']' || c == '}' || c == ')'

def format : (t : Ty) → Format t.Val
  | .leaf => word isDelimiter
  | .vector t => list '[' ',' ']' (format t)
  | .map k v | .unorderedMap k v => list '{' ',' '}' (pair ':' (format k) (format v))
  | .set t | .unorderedSet t => list '{' ',' '}' (format t)

def argsFormat : (t : Ty) → (ts : List Ty) → Format (Args (t :: ts))
  | t, [] => format t
  | t, u :: ts => pair ',' (format t) (argsFormat u ts)

def readEnclosed : (ts : List Ty) → String → Option (Args ts)
  | [], str => if str = "()" then some () else none
  | t :: ts, str => do
    let (args, rest) ← (between '(' ')' (argsFormat t ts)).read str.toList
    if rest.isEmpty then return args else none

def Ty.Readable : (t : Ty) → t.Val → Prop
  | .leaf, (text : List Char) => text ≠ [] ∧ ∀ c ∈ text, isDelimiter c = false
  | .vector t, (head : List t.Val) | .set t, (head : List t.Val)
  | .unorderedSet t, (head : List t.Val) => ∀ arg ∈ head, t.Readable arg
  | .map k v, (head : List (k.Val × v.Val)) | .unorderedMap k v, (head : List (k.Val × v.Val)) =>
    ∀ arg ∈ head, k.Readable arg.1 ∧ v.Readable arg.2

instance Ty.decidableReadable : (t : Ty) → (v : t.Val) → Decidable (t.Readable v)
  | .leaf, (text : List Char) =>
    letI : Decidable (∀ c ∈ text, isDelimiter c = false) := List.decidableBAll _ text
    inferInstanceAs (Decidable (text ≠ [] ∧ ∀ c ∈ text, isDelimiter c = false))
  | .vector t, (head : List t.Val) | .set t, (head : List t.Val)
  | .unorderedSet t, (head : List t.Val) =>
    have := t.decidableReadable
    inferInstanceAs (Decidable (∀ arg ∈ head, t.Readable arg))
  | .map k v, (head : List (k.Val × v.Val)) | .unorderedMap k v, (head : List (k.Val × v.Val)) =>
    have := k.decidableReadable
    have := v.decidableReadable
    inferInstanceAs (Decidable (∀ arg ∈ head, k.Readable arg.1 ∧ v.Readable arg.2))

def ArgsReadable : (ts : List Ty) → Args ts → Prop
  | [], _ => True
  | [t], head => t.Readable head
  | t :: u :: ts, (head, args) => t.Readable head ∧ ArgsReadable (u :: ts) args

instance decidableArgsReadable : (ts : List Ty) → (args : Args ts) → Decidable (ArgsReadable ts args)
  | [], _ => .isTrue trivial
  | [t], head => t.decidableReadable head
  | t :: u :: ts, (head, args) =>
    have := t.decidableReadable head
    have := decidableArgsReadable (u :: ts) args
    inferInstanceAs (Decidable (t.Readable head ∧ ArgsReadable (u :: ts) args))

-- ---------------------------------------------------------------------------
-- What is written is read back
-- ---------------------------------------------------------------------------

theorem dumpEach_eq_items (dump : α → List Char) (first : Bool) (arg : α) (args : List α) :
    dumpEach dump first (arg :: args) =
      (if first then [] else [',']) ++ items ',' dump (arg :: args) := by
  induction args generalizing first arg with
  | nil => simp [dumpEach, items]
  | cons b args ih =>
    rw [dumpEach, ih]
    simp [items]

theorem dumpEach_true (dump : α → List Char) : dumpEach dump true = items ',' dump := by
  funext args
  cases args with
  | nil => rfl
  | cons arg args => simp [dumpEach_eq_items]

theorem dump_eq_print (t : Ty) : dump_ t = (format t).print := by
  induction t with
  | leaf => rfl
  | vector t ih | set t ih | unorderedSet t ih =>
    funext head
    simp only [dump_, format, Format.list, dumpEach_true, ih]
  | map k v ihk ihv | unorderedMap k v ihk ihv =>
    funext head
    simp only [dump_, format, Format.list, Format.pair, dumpEach_true, ihk, ihv]

theorem lawful_format (t : Ty) : (format t).Lawful isDelimiter t.Readable := by
  induction t with
  | leaf => exact lawful_word
  | vector t ih | set t ih | unorderedSet t ih =>
    exact Lawful.list ih rfl rfl rfl (show ',' ≠ _ by decide)
  | map k v ihk ihv | unorderedMap k v ihk ihv =>
    have hpair := Lawful.pair ihk ihv (show isDelimiter ':' = true from rfl)
    exact Lawful.list hpair rfl rfl rfl (show ',' ≠ '}' by decide)

theorem enclose_eq_print (t : Ty) (ts : List Ty) :
    enclose_ (t :: ts) = (argsFormat t ts).print := by
  induction ts generalizing t with
  | nil => exact dump_eq_print t
  | cons u ts ih =>
    funext ⟨head, args⟩
    simp [enclose_, argsFormat, Format.pair, dump_eq_print, ih]

theorem lawful_argsFormat (t : Ty) (ts : List Ty) :
    (argsFormat t ts).Lawful isDelimiter (ArgsReadable (t :: ts)) := by
  induction ts generalizing t with
  | nil => exact lawful_format t
  | cons u ts ih => exact (lawful_format t).pair (ih u) rfl

/-- Without such a text `enclose` is read back, whatever containers its
arguments nest. -/
theorem read_enclosed (h : ArgsReadable ts args) : readEnclosed ts (enclose ts args) = some args := by
  cases ts with
  | nil => rfl
  | cons t ts =>
    have hlawful := (lawful_argsFormat t ts).between (show isDelimiter '(' = false from rfl)
      (show isDelimiter ')' = true from rfl)
    have hread := hlawful.read_print h ends_nil
    rw [List.append_nil] at hread
    have hprint : (enclose (t :: ts) args).toList =
        (between '(' ')' (argsFormat t ts)).print args := by
      simp [enclose, enclose_eq_print, Format.between]
    simp [readEnclosed, hprint, hread]

def ports : Args [.map .leaf (.vector .leaf), .leaf] :=
  ([(['a'], [['1'], ['2']]), (['b'], [])], ['t', 'r', 'u', 'e'])

theorem read_enclosed_ports : enclose _ ports = "({a:[1,2],b:[]},true)" ∧
    readEnclosed _ (enclose _ ports) = some ports :=
  ⟨rfl, read_enclosed (by decide)⟩

/-- A vector of one empty text looks like an empty one. -/
example : enclose [.vector .leaf] [[]] = enclose [.vector .leaf] [] := by decide

end Xutil.Log
