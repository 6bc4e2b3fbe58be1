/-
The bitwise operators of JavaScript, on numbers that are integers.

An operand is reduced to its low 32 bits.  The result of `&`, `|`, `^` and `<<` is those bits read
as a signed number, the result of `>>>` as an unsigned one.
-/
import Mathlib

namespace JsInt

/-- The bits an operator sees of an operand. -/
def bits (n : ℤ) : BitVec 32 := BitVec.ofInt 32 n

/-- `a & b` -/
def bitAnd (a b : ℤ) : ℤ := (bits a &&& bits b).toInt

/-- `a | b` -/
def bitOr (a b : ℤ) : ℤ := (bits a ||| bits b).toInt

/-- `a ^ b` -/
def bitXor (a b : ℤ) : ℤ := (bits a ^^^ bits b).toInt

/-- `a << n` -/
def shl (a : ℤ) (n : ℕ) : ℤ := (bits a <<< n).toInt

/-- `a >>> n` -/
def shr (a : ℤ) (n : ℕ) : ℤ := (bits a >>> n).toNat

@[simp] theorem bits_toInt (b : BitVec 32) : bits b.toInt = b := BitVec.ofInt_toInt

@[simp] theorem bits_toNat (b : BitVec 32) : bits b.toNat = b := by
  rw [bits, BitVec.ofInt_natCast, BitVec.ofNat_toNat, BitVec.setWidth_eq]

theorem bits_natCast (n : ℕ) : bits n = BitVec.ofNat 32 n := BitVec.ofInt_natCast ..

@[simp] theorem bits_bitAnd (a b : ℤ) : bits (bitAnd a b) = bits a &&& bits b := bits_toInt _

@[simp] theorem bits_bitOr (a b : ℤ) : bits (bitOr a b) = bits a ||| bits b := bits_toInt _

@[simp] theorem bits_bitXor (a b : ℤ) : bits (bitXor a b) = bits a ^^^ bits b := bits_toInt _

@[simp] theorem bits_shl (a : ℤ) (n : ℕ) : bits (shl a n) = bits a <<< n := bits_toInt _

@[simp] theorem bits_shr (a : ℤ) (n : ℕ) : bits (shr a n) = bits a >>> n := bits_toNat _

/-- A number below 2^31 is the number its bits stand for. -/
theorem toInt_of_lt {b : BitVec 32} (h : b.toNat < 2 ^ 31) : b.toInt = b.toNat :=
  BitVec.toInt_eq_toNat_of_lt (by omega)

/-- What a mask of low bits keeps is not negative. -/
theorem bitAnd_natCast {m : ℕ} (h : m < 2 ^ 31) (a : ℤ) : bitAnd a m = ((bits a).toNat &&& m : ℕ) := by
  have hm : (bits m).toNat = m := by
    rw [bits_natCast, BitVec.toNat_ofNat]
    exact Nat.mod_eq_of_lt (by omega)
  have hle : (bits a &&& bits m).toNat ≤ m := by
    rw [BitVec.toNat_and, hm]
    exact Nat.and_le_right
  rw [bitAnd, toInt_of_lt (hle.trans_lt h), BitVec.toNat_and, hm]

end JsInt
