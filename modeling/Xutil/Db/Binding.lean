import Mathlib.Algebra.Group.Int.Defs
import Mathlib.Algebra.Group.Nat.Defs
import Xutil.Db.Sqlite

/-!
# Parameters and columns

`binds_t<T>` writes a value of type `T` as a parameter and reads one from a
column. Integers of up to four bytes go through an `int`, all others through 64
bits. `bind` gives the value that SQLite stores when it takes the parameter.
-/

namespace Xutil.Db

-- ---------------------------------------------------------------------------
-- SQLite
-- ---------------------------------------------------------------------------

/-- What SQLite makes of a column of another type than the one asked for. -/
structure Conversion where
  integer : Value → BitVec 64
  text : Value → List UInt8

def sqlite3BindInt (i : BitVec 32) : Value := .integer (i.signExtend 64)

def sqlite3BindInt64 (i : BitVec 64) : Value := .integer i

/-- A negative length asks for all up to the first NUL. -/
def sqlite3BindText (data : List UInt8) (n : BitVec 32) : Value :=
  .text (if n.toInt < 0 then data.takeWhile (· ≠ 0) else data.take n.toNat)

def sqlite3BindNull : Value := .null

section
variable (C : Conversion)

def sqlite3ColumnInt64 : Value → BitVec 64
  | .integer i => i
  | v => C.integer v

/-- The low 32 bits. -/
def sqlite3ColumnInt (v : Value) : BitVec 32 := (sqlite3ColumnInt64 C v).setWidth 32

/-- `sqlite3_column_text`, of the length that `sqlite3_column_bytes` gives. -/
def sqlite3ColumnText : Value → List UInt8
  | .text bytes => bytes
  | v => C.text v

end

-- ---------------------------------------------------------------------------
-- Types
-- ---------------------------------------------------------------------------

inductive Size
  | one
  | two
  | four
  | eight
  deriving Repr, DecidableEq

/-- `sizeof`, in bits. -/
def Size.bits : Size → Nat
  | .one => 8
  | .two => 16
  | .four => 32
  | .eight => 64

structure IntType where
  size : Size
  signed : Bool
  deriving Repr, DecidableEq

abbrev IntType.Val (T : IntType) : Type := BitVec T.size.bits

def IntType.toInt (T : IntType) (v : T.Val) : Int := if T.signed then v.toInt else v.toNat

/-- What an `enum` may have underneath. -/
inductive Integral
  | bool
  | integer (T : IntType)
  deriving Repr, DecidableEq

abbrev Integral.Val : Integral → Type
  | .bool => Bool
  | .integer T => T.Val

/-- A value of an `enum` is one of its underlying type. -/
inductive Base
  | integral (I : Integral)
  | enum (underlying : Integral)
  | string
  | timestamp
  deriving Repr, DecidableEq

/-- A timestamp is a number of nanoseconds since the epoch. -/
abbrev Base.Val : Base → Type
  | .integral I => I.Val
  | .enum I => I.Val
  | .string => List UInt8
  | .timestamp => BitVec 64

inductive Ty
  | plain (b : Base)
  | optional (b : Base)
  deriving Repr, DecidableEq

abbrev Ty.Val : Ty → Type
  | .plain b => b.Val
  | .optional b => Option b.Val

-- ---------------------------------------------------------------------------
-- `binds_t`
-- ---------------------------------------------------------------------------

/-- `static_cast` between integer types: `signed` is of the type of `v`. -/
def staticCast (signed : Bool) (v : BitVec n) (m : Nat) : BitVec m :=
  if signed then v.signExtend m else v.setWidth m

namespace IntType

def bind (T : IntType) (v : T.Val) : Value :=
  match T.size with
  | .eight => sqlite3BindInt64 (staticCast T.signed v 64)
  | _ => sqlite3BindInt (staticCast T.signed v 32)

def column (C : Conversion) (T : IntType) (stored : Value) : T.Val :=
  match T.size with
  | .eight => staticCast true (sqlite3ColumnInt64 C stored) T.size.bits
  | _ => staticCast true (sqlite3ColumnInt C stored) T.size.bits

end IntType

def Integral.bind : (I : Integral) → I.Val → Value
  | .bool, v => sqlite3BindInt (if v then 1 else 0)
  | .integer T, v => T.bind v

def Integral.column (C : Conversion) : (I : Integral) → Value → I.Val
  | .bool, stored => sqlite3ColumnInt C stored != 0
  | .integer T, stored => T.column C stored

/-- `system_clock::to_time_t` -/
def toTimeT (t : BitVec 64) : BitVec 64 := .ofInt 64 (t.toInt.tdiv (10 ^ 9))

/-- `system_clock::from_time_t` -/
def fromTimeT (data : BitVec 64) : BitVec 64 := .ofInt 64 (data.toInt * 10 ^ 9)

def Base.bind : (b : Base) → b.Val → Value
  | .integral I, v => I.bind v
  | .enum I, v => I.bind v
  | .string, v => sqlite3BindText v (.ofNat 32 v.length)
  | .timestamp, v => sqlite3BindInt64 (toTimeT v)

def Base.column (C : Conversion) : (b : Base) → Value → b.Val
  | .integral I, stored => I.column C stored
  | .enum I, stored => I.column C stored
  | .string, stored => sqlite3ColumnText C stored
  | .timestamp, stored => fromTimeT (sqlite3ColumnInt64 C stored)

def Ty.bind : (T : Ty) → T.Val → Value
  | .plain b, v => b.bind v
  | .optional b, some v => b.bind v
  | .optional _, none => sqlite3BindNull

def Ty.column (C : Conversion) : (T : Ty) → Value → T.Val
  | .plain b, stored => b.column C stored
  | .optional b, stored => if stored ≠ .null then some (b.column C stored) else none

-- ---------------------------------------------------------------------------
-- Integers
-- ---------------------------------------------------------------------------

theorem setWidth_signExtend (v : BitVec n) (h : n ≤ m) : (v.signExtend m).setWidth n = v := by
  ext i hi
  have hm : i < m := Nat.lt_of_lt_of_le hi h
  simp [BitVec.getElem_signExtend, hi, hm]

theorem staticCast_back (signed : Bool) (v : BitVec n) (h : n ≤ m) :
    staticCast true (staticCast signed v m) n = v := by
  have hback (w : BitVec m) : staticCast true w n = w.setWidth n :=
    BitVec.signExtend_eq_setWidth_of_le w h
  rw [hback, staticCast]
  split
  · exact setWidth_signExtend v h
  · rw [BitVec.setWidth_setWidth_of_le v h, BitVec.setWidth_eq]

theorem sqlite3ColumnInt_bindInt (C : Conversion) (i : BitVec 32) :
    sqlite3ColumnInt C (sqlite3BindInt i) = i :=
  setWidth_signExtend i (by decide)

theorem IntType.column_bind (C : Conversion) (T : IntType) (v : T.Val) :
    T.column C (T.bind v) = v := by
  obtain ⟨size, signed⟩ := T
  cases size <;> simp only [column, bind, sqlite3ColumnInt_bindInt]
  · exact staticCast_back signed v (Nat.le_of_ble_eq_true rfl)
  · exact staticCast_back signed v (Nat.le_of_ble_eq_true rfl)
  · exact staticCast_back signed v (Nat.le_of_ble_eq_true rfl)
  · exact staticCast_back signed v (Nat.le_of_ble_eq_true rfl)

theorem Integral.column_bind (C : Conversion) (I : Integral) (v : I.Val) :
    I.column C (I.bind v) = v := by
  cases I with
  | bool =>
    simp only [column, bind, sqlite3ColumnInt_bindInt]
    cases v <;> rfl
  | integer T => exact T.column_bind C v

theorem Integral.bind_ne_null (I : Integral) (v : I.Val) : I.bind v ≠ .null := by
  cases I with
  | bool => simp [bind, sqlite3BindInt]
  | integer T =>
    simp only [bind, IntType.bind]
    split <;> simp [sqlite3BindInt, sqlite3BindInt64]

-- ---------------------------------------------------------------------------
-- Strings and timestamps
-- ---------------------------------------------------------------------------

theorem sqlite3BindText_all (h : data.length < 2 ^ 31) :
    sqlite3BindText data (.ofNat 32 data.length) = .text data := by
  have hnat : (BitVec.ofNat 32 data.length).toNat = data.length := by
    rw [BitVec.toNat_ofNat]
    omega
  have hint : (BitVec.ofNat 32 data.length).toInt = data.length := by
    rw [BitVec.toInt_eq_toNat_of_lt (by omega), hnat]
  rw [sqlite3BindText, hint, hnat, if_neg (by omega), List.take_length]

/-- Division toward zero stays between zero and the dividend. -/
theorem tdiv_bounds (n : Int) :
    0 ≤ n.tdiv (10 ^ 9) ∧ n.tdiv (10 ^ 9) * 10 ^ 9 ≤ n ∨
      n.tdiv (10 ^ 9) ≤ 0 ∧ n ≤ n.tdiv (10 ^ 9) * 10 ^ 9 := by
  rcases Int.le_total 0 n with hn | hn
  · left
    rw [Int.tdiv_eq_ediv_of_nonneg hn]
    omega
  · right
    have hneg : n.tdiv (10 ^ 9) = -((-n).tdiv (10 ^ 9)) := by rw [Int.neg_tdiv, Int.neg_neg]
    rw [hneg, Int.tdiv_eq_ediv_of_nonneg (Int.neg_nonneg_of_nonpos hn)]
    omega

theorem toInt_toTimeT (t : BitVec 64) : (toTimeT t).toInt = t.toInt.tdiv (10 ^ 9) := by
  have hmin : -2 ^ 63 ≤ t.toInt := BitVec.le_toInt t
  have hmax : t.toInt < 2 ^ 63 := BitVec.toInt_lt
  have hbounds := tdiv_bounds t.toInt
  exact BitVec.toInt_ofInt_eq_self (by decide) (by omega) (by omega)

theorem toInt_fromTimeT (t : BitVec 64) :
    (fromTimeT (toTimeT t)).toInt = t.toInt.tdiv (10 ^ 9) * 10 ^ 9 := by
  have hmin : -2 ^ 63 ≤ t.toInt := BitVec.le_toInt t
  have hmax : t.toInt < 2 ^ 63 := BitVec.toInt_lt
  have hbounds := tdiv_bounds t.toInt
  rw [fromTimeT, toInt_toTimeT]
  exact BitVec.toInt_ofInt_eq_self (by decide) (by omega) (by omega)

-- ---------------------------------------------------------------------------
-- What is read back
-- ---------------------------------------------------------------------------

/-- `v'` is `v`, or a timestamp of whole seconds, rounded toward zero. -/
def Base.Kept : (b : Base) → (v v' : b.Val) → Prop
  | .integral _, v, v' => v' = v
  | .enum _, v, v' => v' = v
  | .string, v, v' => v' = v
  | .timestamp, v, v' => v'.toInt = v.toInt.tdiv (10 ^ 9) * 10 ^ 9

def Ty.Kept : (T : Ty) → (v v' : T.Val) → Prop
  | .plain b, v, v' => b.Kept v v'
  | .optional b, v, v' => Option.Rel b.Kept v v'

/-- A string is shorter than `2 ^ 31` bytes. -/
def Base.Short : (b : Base) → b.Val → Prop
  | .integral _, _ => True
  | .enum _, _ => True
  | .string, v => v.length < 2 ^ 31
  | .timestamp, _ => True

def Ty.Short : (T : Ty) → T.Val → Prop
  | .plain b, v => b.Short v
  | .optional b, v => ∀ a ∈ v, b.Short a

/-- An optional without a value. -/
def Ty.Empty : (T : Ty) → T.Val → Prop
  | .plain _, _ => False
  | .optional _, v => v = none

theorem Base.column_bind (C : Conversion) (b : Base) {v : b.Val} (h : b.Short v) :
    b.Kept v (b.column C (b.bind v)) := by
  cases b with
  | integral I => exact I.column_bind C v
  | enum I => exact I.column_bind C v
  | string =>
    have hstored : Base.string.bind v = .text v := sqlite3BindText_all h
    rw [hstored]
    exact rfl
  | timestamp => exact toInt_fromTimeT v

theorem Base.bind_ne_null (b : Base) (v : b.Val) : b.bind v ≠ .null := by
  cases b with
  | integral I => exact I.bind_ne_null v
  | enum I => exact I.bind_ne_null v
  | string => simp [bind, sqlite3BindText]
  | timestamp => simp [bind, sqlite3BindInt64]

/-- A parameter is read back as it was bound, and only an empty optional is
stored as `NULL`. -/
theorem bound_reads_back (C : Conversion) (T : Ty) {v : T.Val} (h : T.Short v) :
    T.Kept v (T.column C (T.bind v)) ∧ (T.bind v = .null ↔ T.Empty v) := by
  cases T with
  | plain b => exact ⟨b.column_bind C h, iff_of_false (b.bind_ne_null v) id⟩
  | optional b =>
    cases v with
    | none => exact ⟨.none, iff_of_true rfl rfl⟩
    | some a =>
      have hpresent : b.bind a ≠ .null := b.bind_ne_null a
      have hread : (Ty.optional b).column C (b.bind a) = some (b.column C (b.bind a)) :=
        if_pos hpresent
      refine ⟨?_, iff_of_false hpresent (by simp [Ty.Empty])⟩
      rw [Ty.bind, hread]
      exact .some (b.column_bind C (h a rfl))

/-- An optional string with a NUL. -/
theorem bound_reads_back_nul :
    (Ty.optional .string).Kept (some [97, 0, 98]) ((Ty.optional .string).column
      ⟨fun _ => 0, fun _ => []⟩ ((Ty.optional .string).bind (some [97, 0, 98]))) := by
  have hshort : (Ty.optional .string).Short (some [97, 0, 98]) := by
    rintro a ⟨⟩
    exact Nat.le_of_ble_eq_true rfl
  exact (bound_reads_back ⟨fun _ => 0, fun _ => []⟩ (.optional .string) hshort).1

end Xutil.Db
