import Mathlib.Algebra.GroupWithZero.Nat
import Xutil.Config.Model

/-!
# Values under their keys

What a map of options holds after any number of `push_back`.
-/

namespace Xutil.Config

/-- `options[key].push_back(value)` for each pair in turn. -/
def Options.pushEach (options : Options) (kvs : List (Text × Text)) : Options :=
  kvs.foldl (fun options kv => options.pushBack kv.1 kv.2) options

/-- The number of values under all the keys. -/
def Options.total (options : Options) : Nat := (options.entries.map (·.2.length)).sum

theorem lookup_pushBack (config : Options) (key value k : Text) :
    (config.pushBack key value).lookup k =
      if k = key then some ((config.lookup key).getD [] ++ [value]) else config.lookup k := by
  split
  · subst k
    exact AList.lookup_insert _
  · exact AList.lookup_insert_ne ‹_›

theorem mem_pushBack {config : Options} :
    k ∈ config.pushBack key value ↔ k = key ∨ k ∈ config :=
  AList.mem_insert _

theorem total_kerase (key : Text) (entries : List (Sigma fun _ : Text => List Text)) :
    ((entries.kerase key).map (·.2.length)).sum + ((entries.dlookup key).getD []).length =
      (entries.map (·.2.length)).sum := by
  induction entries with
  | nil => rfl
  | cons e entries ih =>
    obtain ⟨k, values⟩ := e
    by_cases hkey : key = k
    · subst hkey
      simp [Nat.add_comm]
    · have hlookup : List.dlookup key (⟨k, values⟩ :: entries) = List.dlookup key entries :=
        List.dlookup_cons_ne entries ⟨k, values⟩ hkey
      rw [List.kerase_cons_ne hkey, hlookup, List.map_cons, List.sum_cons, List.map_cons,
        List.sum_cons, ← ih, Nat.add_assoc]

theorem total_pushBack (config : Options) (key value : Text) :
    (config.pushBack key value).total = config.total + 1 := by
  have herase := total_kerase key config.entries
  simp only [Options.total, Options.pushBack, AList.entries_insert, List.map_cons, List.sum_cons,
    List.length_append, List.length_singleton, AList.lookup, ← herase]
  omega

-- ---------------------------------------------------------------------------
-- Many values
-- ---------------------------------------------------------------------------

theorem mem_pushEach {config : Options} {kvs : List (Text × Text)} :
    k ∈ config.pushEach kvs ↔ k ∈ config ∨ ∃ kv ∈ kvs, kv.1 = k := by
  induction kvs generalizing config with
  | nil => simp [Options.pushEach]
  | cons kv kvs ih =>
    have hrest : k ∈ config.pushEach (kv :: kvs) ↔ k ∈ config.pushBack kv.1 kv.2 ∨ _ := ih
    rw [hrest, mem_pushBack]
    simp [or_assoc, or_left_comm, eq_comm]

theorem lookup_pushEach (config : Options) (kvs : List (Text × Text)) (k : Text) :
    ((config.pushEach kvs).lookup k).getD [] =
      (config.lookup k).getD [] ++ (kvs.filter (·.1 = k)).map Prod.snd := by
  induction kvs generalizing config with
  | nil => simp [Options.pushEach]
  | cons kv kvs ih =>
    have hrest : ((config.pushEach (kv :: kvs)).lookup k).getD [] =
      ((config.pushBack kv.1 kv.2).lookup k).getD [] ++ _ := ih _
    rw [hrest, lookup_pushBack]
    by_cases hk : k = kv.1
    · subst hk
      simp
    · simp [hk, Ne.symm hk]

theorem total_pushEach (config : Options) (kvs : List (Text × Text)) :
    (config.pushEach kvs).total = config.total + kvs.length := by
  induction kvs generalizing config with
  | nil => rfl
  | cons kv kvs ih =>
    have hrest : (config.pushEach (kv :: kvs)).total = (config.pushBack kv.1 kv.2).total + _ := ih _
    rw [hrest, total_pushBack, List.length_cons, Nat.add_assoc, Nat.add_comm 1]

end Xutil.Config
