import Mathlib.Data.List.Basic

/-!
# Text formats

A `Format` writes a value, and reads one back from the front of a text. A word
has no end of its own: it goes on up to the next character that stops it. So the
formats of pairs and lists put such a character behind each of their parts.
-/

structure Format (α : Type) where
  print : α → List Char
  read : List Char → Option (α × List Char)

namespace Format

variable {α β : Type}

/-- The text is over, or goes on with a character that stops a word. -/
def Ends (stop : Char → Bool) (s : List Char) : Prop := ∀ c ∈ s.head?, stop c = true

/-- Values that are `ok` are read back. -/
structure Reads (stop : Char → Bool) (f : Format α) (ok : α → Prop) : Prop where
  read_print : ok a → Ends stop s → f.read (f.print a ++ s) = some (a, s)

/-- None of them looks like the end of a list. -/
structure Lawful (stop : Char → Bool) (f : Format α) (ok : α → Prop) : Prop
    extends Reads stop f ok where
  starts : ok a → ∃ c s, f.print a = c :: s ∧ stop c = false

/-- Whatever is read is `ok`. -/
def Gives (f : Format α) (ok : α → Prop) : Prop := ∀ ⦃a s s'⦄, f.read s = some (a, s') → ok a

variable {stop stop' : Char → Bool} {f : Format α} {g : Format β} {ok : α → Prop} {ok' : β → Prop}

theorem ends_nil : Ends stop [] := by
  simp [Ends]

theorem ends_cons (h : stop c = true) : Ends stop (c :: s) := by
  simp [Ends, h]

def skip (c : Char) : List Char → Option (List Char)
  | [] => none
  | d :: s => if d = c then some s else none

@[simp] theorem skip_cons (c : Char) (s : List Char) : skip c (c :: s) = some s := if_pos rfl

-- ---------------------------------------------------------------------------
-- Words
-- ---------------------------------------------------------------------------

def word (stop : Char → Bool) : Format (List Char) where
  print w := w
  read s := some (s.takeWhile (! stop ·), s.dropWhile (! stop ·))

theorem takeWhile_stop (hw : ∀ c ∈ w, stop c = false) (hs : Ends stop s) :
    (w ++ s).takeWhile (! stop ·) = w := by
  rw [List.takeWhile_append_of_pos fun c hc => by simp [hw c hc]]
  cases s with
  | nil => simp
  | cons c s => simp [hs c rfl]

theorem dropWhile_stop (hw : ∀ c ∈ w, stop c = false) (hs : Ends stop s) :
    (w ++ s).dropWhile (! stop ·) = s := by
  rw [List.dropWhile_append_of_pos fun c hc => by simp [hw c hc]]
  cases s with
  | nil => rfl
  | cons c s => simp [hs c rfl]

theorem reads_word : (word stop).Reads stop fun w => ∀ c ∈ w, stop c = false where
  read_print hw hs := by
    simp only [word, takeWhile_stop hw hs, dropWhile_stop hw hs]

theorem gives_word : (word stop).Gives fun w => ∀ c ∈ w, stop c = false := by
  rintro w s s' h c hc
  obtain rfl : s.takeWhile (! stop ·) = w := (Prod.mk.inj (Option.some.inj h)).1
  simpa using List.all_eq_true.mp List.all_takeWhile c hc

theorem lawful_word : (word stop).Lawful stop fun w => w ≠ [] ∧ ∀ c ∈ w, stop c = false where
  read_print hw hs := reads_word.read_print hw.2 hs
  starts {w} hw := by
    cases w with
    | nil => exact absurd rfl hw.1
    | cons c s => exact ⟨c, s, rfl, hw.2 c (by simp)⟩

-- ---------------------------------------------------------------------------
-- Pairs and brackets
-- ---------------------------------------------------------------------------

def pair (sep : Char) (f : Format α) (g : Format β) : Format (α × β) where
  print x := f.print x.1 ++ sep :: g.print x.2
  read s := do
    let (a, s) ← f.read s
    let s ← skip sep s
    let (b, s) ← g.read s
    return ((a, b), s)

theorem Reads.pair (hf : f.Reads stop ok) (hg : g.Reads stop' ok') (hsep : stop sep = true) :
    (pair sep f g).Reads stop' fun x => ok x.1 ∧ ok' x.2 where
  read_print hx hs := by
    simp [Format.pair, hf.read_print hx.1 (ends_cons hsep), hg.read_print hx.2 hs]

theorem Gives.pair (hf : f.Gives ok) (hg : g.Gives ok') :
    (pair sep f g).Gives fun x => ok x.1 ∧ ok' x.2 := by
  rintro ⟨a, b⟩ s s' h
  simp only [Format.pair, Option.bind_eq_bind, Option.bind_eq_some_iff] at h
  obtain ⟨⟨a', s₁⟩, hread, s₂, -, ⟨b', s₃⟩, hread', h⟩ := h
  cases h
  exact ⟨hf hread, hg hread'⟩

theorem Lawful.pair (hf : f.Lawful stop ok) (hg : g.Lawful stop ok') (hsep : stop sep = true) :
    (pair sep f g).Lawful stop fun x => ok x.1 ∧ ok' x.2 where
  toReads := hf.toReads.pair hg.toReads hsep
  starts {x} hx := by
    obtain ⟨c, s, hc, hstop⟩ := hf.starts hx.1
    exact ⟨c, s ++ sep :: g.print x.2, by simp [Format.pair, hc], hstop⟩

def between (first last : Char) (f : Format α) : Format α where
  print a := first :: (f.print a ++ [last])
  read s := do
    let s ← skip first s
    let (a, s) ← f.read s
    let s ← skip last s
    return (a, s)

theorem Lawful.between (hf : f.Lawful stop ok) (hfirst : stop first = false)
    (hlast : stop last = true) : (between first last f).Lawful stop ok where
  read_print ha _ := by
    simp [Format.between, hf.read_print ha (ends_cons hlast)]
  starts _ := ⟨first, _, rfl, hfirst⟩

-- ---------------------------------------------------------------------------
-- Lists
-- ---------------------------------------------------------------------------

def items (sep : Char) (print : α → List Char) : List α → List Char
  | [] => []
  | [a] => print a
  | a :: b :: as => print a ++ sep :: items sep print (b :: as)

/-- Reads at most `n` items, the last of them before `last`. -/
def readItems (f : Format α) (sep last : Char) : Nat → List Char → Option (List α × List Char)
  | 0, _ => none
  | n + 1, s => do
    match ← f.read s with
    | (_, []) => none
    | (a, c :: s) =>
      if c = last then return ([a], s)
      else if c = sep then
        let (as, s) ← readItems f sep last n s
        return (a :: as, s)
      else none

def list (first sep last : Char) (f : Format α) : Format (List α) where
  print as := first :: (items sep f.print as ++ [last])
  read s := do
    let s ← skip first s
    match s with
    | [] => none
    | c :: t => if c = last then return ([], t) else readItems f sep last (c :: t).length (c :: t)

theorem length_le_items (sep : Char) (hf : f.Lawful stop ok) {as : List α} (has : ∀ a ∈ as, ok a) :
    as.length ≤ (items sep f.print as).length := by
  induction as with
  | nil => simp
  | cons a as ih =>
    obtain ⟨ha, has⟩ := List.forall_mem_cons.mp has
    obtain ⟨c, s, hc, -⟩ := hf.starts ha
    cases as with
    | nil => simp [items, hc]
    | cons b as =>
      have hlength := ih has
      simp only [items, List.length_append, List.length_cons] at hlength ⊢
      omega

theorem readItems_items (hf : f.Lawful stop ok) (hsep : stop sep = true) (hlast : stop last = true)
    (hne : sep ≠ last) {a : α} {as : List α} (has : ∀ b ∈ a :: as, ok b) (hn : as.length < n) :
    readItems f sep last n (items sep f.print (a :: as) ++ last :: s) = some (a :: as, s) := by
  induction as generalizing a n with
  | nil =>
    obtain ⟨n, rfl⟩ : ∃ m, n = m + 1 := ⟨n - 1, by omega⟩
    simp [readItems, items, hf.read_print (has a (by simp)) (ends_cons hlast)]
  | cons b as ih =>
    obtain ⟨n, rfl⟩ : ∃ m, n = m + 1 := ⟨n - 1, by omega⟩
    obtain ⟨ha, has⟩ := List.forall_mem_cons.mp has
    have hrest := ih has (Nat.lt_of_succ_lt_succ hn)
    simp [readItems, items, hf.read_print ha (ends_cons hsep), hne, hrest]

theorem Lawful.list (hf : f.Lawful stop ok) (hfirst : stop first = false) (hsep : stop sep = true)
    (hlast : stop last = true) (hne : sep ≠ last) :
    (list first sep last f).Lawful stop fun as => ∀ a ∈ as, ok a where
  read_print {as s} has _ := by
    cases as with
    | nil => simp [Format.list, items]
    | cons a as =>
      have hread := readItems_items hf hsep hlast hne (s := s) has
        (n := (items sep f.print (a :: as) ++ last :: s).length) (by
          have hlength := length_le_items sep hf has
          simp only [List.length_append, List.length_cons] at hlength ⊢
          omega)
      obtain ⟨c, t, hc, hstop⟩ := hf.starts (has a (by simp))
      obtain ⟨u, hu⟩ : ∃ u, items sep f.print (a :: as) = c :: u := by
        cases as with
        | nil => exact ⟨t, hc⟩
        | cons b as => exact ⟨t ++ sep :: items sep f.print (b :: as), by simp [items, hc]⟩
      have hclast : c ≠ last := by
        rintro rfl
        simp [hlast] at hstop
      rw [hu] at hread
      simpa [Format.list, hu, hclast] using hread
  starts _ := ⟨first, _, rfl, hfirst⟩

end Format
