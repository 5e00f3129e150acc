import Xutil.Db.Binding

/-!
# What the database sees

SQL compares the integers that are stored. They are those of the program unless a
`uint32_t` goes through an `int` as a negative number; the column casts it back.
-/

namespace Xutil.Db

/-- An integer type, or an `enum` over one. -/
structure Number where
  type : IntType
  isEnum : Bool
  deriving Repr, DecidableEq

namespace Number

variable (N : Number)

def bind (v : N.type.Val) : Value :=
  if N.isEnum then (Base.enum (.integer N.type)).bind v
  else (Base.integral (.integer N.type)).bind v

/-- `v` is within the 64 bits of an SQLite integer. -/
def Fits (v : N.type.Val) : Prop := N.type.toInt v < 2 ^ 63

/-- The numbers stored for `a` and `b` are `a` and `b`, in the same order. -/
def Seen (a b : N.type.Val) : Prop :=
  ∃ x y : BitVec 64, N.bind a = .integer x ∧ N.bind b = .integer y ∧
    x.toInt = N.type.toInt a ∧ y.toInt = N.type.toInt b ∧
    (N.type.toInt a < N.type.toInt b ↔ x.toInt < y.toInt)

/-- A `uint32_t` is below `2 ^ 31`. -/
def Positive (v : N.type.Val) : Prop := N.type = ⟨.four, false⟩ → N.type.toInt v < 2 ^ 31

end Number

/-- The 64 bits that SQLite is given. -/
def IntType.handed (T : IntType) (v : T.Val) : BitVec 64 :=
  match T.size with
  | .eight => staticCast T.signed v 64
  | _ => (staticCast T.signed v 32).signExtend 64

theorem IntType.bind_eq (T : IntType) (v : T.Val) : T.bind v = .integer (T.handed v) := by
  obtain ⟨size, signed⟩ := T
  cases size <;> rfl

theorem Number.bind_eq (N : Number) (v : N.type.Val) : N.bind v = .integer (N.type.handed v) := by
  rw [← IntType.bind_eq, bind]
  split <;> rfl

theorem toInt_widened (signed : Bool) (v : BitVec n) (h : n ≤ 32) :
    ((staticCast signed v 32).signExtend 64).toInt =
      if signed then v.toInt
      else if v.toNat < 2 ^ 31 then (v.toNat : Int) else (v.toNat : Int) - 2 ^ 32 := by
  rw [BitVec.toInt_signExtend_of_le (by decide), staticCast]
  cases signed with
  | true => simp [BitVec.toInt_signExtend_of_le h]
  | false =>
    have hv : v.toNat < 2 ^ 32 := Nat.lt_of_lt_of_le v.isLt (Nat.pow_le_pow_right (by decide) h)
    have hnat : (v.setWidth 32).toNat = v.toNat := by
      rw [BitVec.toNat_setWidth, Nat.mod_eq_of_lt hv]
    simp only [Bool.false_eq_true, if_false, BitVec.toInt_eq_toNat_cond, hnat]
    split <;> split <;> omega

theorem toInt_handed_unsigned (size : Size) (v : BitVec size.bits) (hfits : v.toNat < 2 ^ 63) :
    (IntType.handed ⟨size, false⟩ v).toInt =
      if size = .four ∧ 2 ^ 31 ≤ v.toNat then (v.toNat : Int) - 2 ^ 32 else (v.toNat : Int) := by
  have hlt := v.isLt
  cases size with
  | eight =>
    have hset : staticCast false v 64 = v := BitVec.setWidth_eq v
    have hsmall : 2 * v.toNat < 2 ^ 64 := by omega
    simp only [IntType.handed, hset, reduceCtorEq, false_and, if_false]
    exact BitVec.toInt_eq_toNat_of_lt hsmall
  | four =>
    simp only [IntType.handed, toInt_widened false v (Nat.le_refl 32), Bool.false_eq_true, if_false,
      true_and]
    split <;> split <;> omega
  | two =>
    have hsmall : v.toNat < 2 ^ 31 := Nat.lt_trans hlt (by decide)
    simp only [IntType.handed, toInt_widened false v (Nat.le_of_ble_eq_true rfl), if_pos hsmall]
    rfl
  | one =>
    have hsmall : v.toNat < 2 ^ 31 := Nat.lt_trans hlt (by decide)
    simp only [IntType.handed, toInt_widened false v (Nat.le_of_ble_eq_true rfl), if_pos hsmall]
    rfl

theorem toInt_handed_signed (size : Size) (v : BitVec size.bits) :
    (IntType.handed ⟨size, true⟩ v).toInt = v.toInt := by
  cases size with
  | eight =>
    have hext : staticCast true v 64 = v := BitVec.signExtend_eq v
    simp only [IntType.handed, hext]
    rfl
  | _ => exact toInt_widened true v (Nat.le_of_ble_eq_true rfl)

theorem Number.handed_iff (N : Number) {v : N.type.Val} (hfits : N.Fits v) :
    (N.type.handed v).toInt = N.type.toInt v ↔ N.Positive v := by
  obtain ⟨⟨size, signed⟩, isEnum⟩ := N
  cases signed with
  | true => exact iff_of_true (toInt_handed_signed size v) fun h => nomatch h
  | false =>
    have hnat : v.toNat < 2 ^ 63 := Int.ofNat_lt.mp hfits
    rw [toInt_handed_unsigned size v hnat]
    have htoInt : IntType.toInt ⟨size, false⟩ v = v.toNat := rfl
    simp only [Positive, htoInt, IntType.mk.injEq, and_true]
    split
    · rename_i h
      refine iff_of_false (by omega) fun hlow => ?_
      have hlow := hlow h.1
      omega
    · rename_i h
      refine iff_of_true rfl fun hfour => ?_
      have hlow := not_and.mp h hfour
      omega

/-- The database sees the numbers of the program if and only if no `uint32_t`
among them is beyond the `int` range. -/
theorem numbers_seen (N : Number) {a b : N.type.Val} (ha : N.Fits a) (hb : N.Fits b) :
    N.Seen a b ↔ N.Positive a ∧ N.Positive b := by
  rw [← N.handed_iff ha, ← N.handed_iff hb]
  constructor
  · rintro ⟨x, y, hx, hy, hxa, hyb, -⟩
    obtain rfl : N.type.handed a = x := Value.integer.inj ((N.bind_eq a).symm.trans hx)
    obtain rfl : N.type.handed b = y := Value.integer.inj ((N.bind_eq b).symm.trans hy)
    exact ⟨hxa, hyb⟩
  · rintro ⟨hxa, hyb⟩
    exact ⟨_, _, N.bind_eq a, N.bind_eq b, hxa, hyb, by rw [hxa, hyb]⟩

theorem numbers_seen_int : (Number.mk ⟨.four, true⟩ true).Seen (BitVec.ofInt 32 (-1)) 1#32 := by
  have hminus : (Number.mk ⟨.four, true⟩ true).Fits (BitVec.ofInt 32 (-1)) := by
    unfold Number.Fits
    decide
  have hone : (Number.mk ⟨.four, true⟩ true).Fits 1#32 := by
    unfold Number.Fits
    decide
  exact (numbers_seen _ hminus hone).mpr ⟨(nomatch ·), (nomatch ·)⟩

/-- The `uint32_t` `2 ^ 31` is stored below zero. -/
theorem numbers_seen_high :
    ¬ ∀ (N : Number) (a b : N.type.Val), N.Fits a → N.Fits b → N.Seen a b := by
  intro h
  have hhigh : (Number.mk ⟨.four, false⟩ false).Fits 0x80000000#32 := by
    unfold Number.Fits
    decide
  obtain ⟨x, -, hx, -, hsame, -, -⟩ := h ⟨⟨.four, false⟩, false⟩ _ _ hhigh hhigh
  have hstored : (Number.mk ⟨.four, false⟩ false).bind 0x80000000#32 =
      .integer 0xffffffff80000000#64 := rfl
  obtain rfl := Value.integer.inj (hstored.symm.trans hx)
  revert hsame
  decide

end Xutil.Db
