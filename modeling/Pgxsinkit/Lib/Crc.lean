/-
Cyclic redundancy checks, the low bit first.

The remainder is shifted one bit at a time, and the polynomial subtracted when a one falls out.  The
shift is linear over exclusive or, so a table of what eight shifts make of a byte gives eight shifts
of any remainder, and tables for more shifts give more bytes at once.
-/
import Mathlib

namespace Crc

variable {w : ℕ} (poly : BitVec w)

/-! ### Shifts -/

def shift (r : BitVec w) : BitVec w := if r.getLsbD 0 then (r >>> 1) ^^^ poly else r >>> 1

def shifts : ℕ → BitVec w → BitVec w
  | 0, r => r
  | n + 1, r => shifts n (shift poly r)

theorem xor_cancel (a b p : BitVec w) : (a ^^^ p) ^^^ (b ^^^ p) = a ^^^ b := by
  rw [BitVec.xor_comm b p, BitVec.xor_assoc, ← BitVec.xor_assoc p p b, BitVec.xor_self,
    BitVec.zero_xor]

theorem shift_xor (a b : BitVec w) : shift poly (a ^^^ b) = shift poly a ^^^ shift poly b := by
  unfold shift
  rw [BitVec.getLsbD_xor, BitVec.ushiftRight_xor_distrib]
  cases a.getLsbD 0 <;> cases b.getLsbD 0
  · rfl
  · exact BitVec.xor_assoc _ _ _
  · show (a >>> 1 ^^^ b >>> 1) ^^^ poly = (a >>> 1 ^^^ poly) ^^^ b >>> 1
    rw [BitVec.xor_assoc, BitVec.xor_assoc, BitVec.xor_comm poly]
  · exact (xor_cancel _ _ _).symm

theorem shifts_xor (n : ℕ) (a b : BitVec w) :
    shifts poly n (a ^^^ b) = shifts poly n a ^^^ shifts poly n b := by
  induction n generalizing a b with
  | zero => rfl
  | succ n ih => rw [shifts, shift_xor, ih, shifts, shifts]

theorem shifts_add (m n : ℕ) (r : BitVec w) :
    shifts poly (m + n) r = shifts poly n (shifts poly m r) := by
  induction m generalizing r with
  | zero => rw [Nat.zero_add, shifts]
  | succ m ih => rw [Nat.succ_add, shifts, ih, shifts]

/-- A remainder whose low bits are clear only moves down. -/
theorem shifts_clear {n : ℕ} {r : BitVec w} (h : ∀ i < n, r.getLsbD i = false) :
    shifts poly n r = r >>> n := by
  induction n generalizing r with
  | zero => rw [shifts, BitVec.ushiftRight_zero]
  | succ n ih =>
    have hlow : shift poly r = r >>> 1 := by
      rw [shift, h 0 n.succ_pos]
      rfl
    rw [shifts, hlow, ih, ← BitVec.shiftRight_add, Nat.add_comm]
    intro i hi
    rw [BitVec.getLsbD_ushiftRight]
    exact h _ (by omega)

theorem shifts_shiftLeft {n : ℕ} {r : BitVec w} (h : r <<< n >>> n = r) :
    shifts poly n (r <<< n) = r := by
  refine (shifts_clear poly fun i hi => ?_).trans h
  rw [BitVec.getLsbD_shiftLeft, decide_eq_true hi, Bool.not_true, Bool.and_false, Bool.false_and]

/-! ### Tables -/

/-- The low bits and the rest. -/
theorem eq_low_xor (r mask : BitVec w) : r = (r &&& mask) ^^^ (r &&& ~~~mask) := by
  ext i hi
  rw [BitVec.getElem_xor, BitVec.getElem_and, BitVec.getElem_and, BitVec.getElem_not]
  cases r[i] <;> cases mask[i] <;> rfl

/-- The mask of the low bits. -/
def lowBits (n : ℕ) : BitVec w := BitVec.ofNat w (2 ^ n - 1)

theorem getLsbD_lowBits {n i : ℕ} (hn : i < w) :
    (lowBits n : BitVec w).getLsbD i = decide (i < n) := by
  rw [lowBits, BitVec.getLsbD_ofNat, decide_eq_true hn, Bool.true_and, Nat.testBit_two_pow_sub_one]

/-- Shifts of a remainder: those of its low bits, and the rest moved down. -/
theorem shifts_low (n : ℕ) (r : BitVec w) :
    shifts poly n r = shifts poly n (r &&& lowBits n) ^^^ (r >>> n) := by
  have hrest : shifts poly n (r &&& ~~~lowBits n) = r >>> n := by
    rw [shifts_clear]
    · ext i hi
      rw [BitVec.getElem_ushiftRight, BitVec.getElem_ushiftRight, BitVec.getLsbD_and]
      by_cases hin : n + i < w
      · rw [BitVec.getLsbD_not, getLsbD_lowBits hin]
        simp [hin]
      · rw [BitVec.getLsbD_of_ge r _ (by omega), Bool.false_and]
    · intro i hi
      rw [BitVec.getLsbD_and]
      by_cases hin : i < w
      · rw [BitVec.getLsbD_not, getLsbD_lowBits hin, decide_eq_true hi]
        simp
      · rw [BitVec.getLsbD_of_ge r _ (by omega), Bool.false_and]
  conv_lhs => rw [eq_low_xor r (lowBits n)]
  rw [shifts_xor, hrest]

/-- More shifts of a remainder, its low bits apart. -/
theorem shifts_split (m n : ℕ) (r : BitVec w) :
    shifts poly (m + n) r = shifts poly (m + n) (r &&& lowBits m) ^^^ shifts poly n (r >>> m) := by
  rw [shifts_add, shifts_low poly m r, shifts_xor, ← shifts_add]

/-! ### Bytes -/

def byte (b : UInt8) : BitVec w := b.toBitVec.setWidth w

/-- One byte more, bit by bit. -/
def update (r : BitVec w) (b : UInt8) : BitVec w := shifts poly 8 (r ^^^ byte b)

theorem update_eq (r : BitVec w) (b : UInt8) :
    update poly r b = shifts poly 8 r ^^^ shifts poly 8 (byte b) := shifts_xor ..

/-- A byte enters behind the shifts, or in its place before them. -/
theorem xor_byte {n : ℕ} (h : n + 8 ≤ w) (r : BitVec w) (b : UInt8) :
    shifts poly n r ^^^ byte b = shifts poly n (r ^^^ byte b <<< n) := by
  rw [shifts_xor, shifts_shiftLeft]
  have hlt : b.toNat < 2 ^ 8 := b.toNat_lt
  have hbyte : (byte b : BitVec w).toNat = b.toNat := by
    rw [byte, BitVec.toNat_setWidth]
    exact Nat.mod_eq_of_lt (hlt.trans_le (Nat.pow_le_pow_right (by omega) (by omega)))
  have hfits : b.toNat * 2 ^ n < 2 ^ w :=
    calc b.toNat * 2 ^ n < 2 ^ 8 * 2 ^ n := Nat.mul_lt_mul_of_pos_right hlt (by positivity)
      _ = 2 ^ (n + 8) := by rw [← Nat.pow_add, Nat.add_comm]
      _ ≤ 2 ^ w := Nat.pow_le_pow_right (by omega) h
  apply BitVec.eq_of_toNat_eq
  rw [BitVec.toNat_ushiftRight, BitVec.toNat_shiftLeft, hbyte, Nat.shiftLeft_eq,
    Nat.mod_eq_of_lt hfits, Nat.shiftRight_eq_div_pow, Nat.mul_div_cancel _ (by positivity)]

/-- The bytes of a word, the first in the low bits. -/
def word : List UInt8 → BitVec w
  | [] => 0
  | b :: bytes => byte b ^^^ word bytes <<< 8

theorem getLsbD_byte {b : UInt8} {i : ℕ} (h : 8 ≤ i) : (byte b : BitVec w).getLsbD i = false := by
  rw [byte, BitVec.getLsbD_setWidth, BitVec.getLsbD_of_ge b.toBitVec i h, Bool.and_false]

theorem xor_byte_ushiftRight (r : BitVec w) (b : UInt8) : (r ^^^ byte b) >>> 8 = r >>> 8 := by
  apply BitVec.eq_of_getLsbD_eq
  intro i hi
  rw [BitVec.getLsbD_ushiftRight, BitVec.getLsbD_ushiftRight, BitVec.getLsbD_xor,
    getLsbD_byte (Nat.le_add_right 8 i), Bool.xor_false]

/-- A byte enters above the bits that are set. -/
theorem or_byte {n : ℕ} {r : BitVec w} (h : ∀ i, n ≤ i → r.getLsbD i = false) (b : UInt8) :
    (r ||| byte b <<< n = r ^^^ byte b <<< n) ∧
      ∀ i, n + 8 ≤ i → (r ||| byte b <<< n).getLsbD i = false := by
  constructor
  · apply BitVec.eq_of_getLsbD_eq
    intro i hi
    rw [BitVec.getLsbD_or, BitVec.getLsbD_xor]
    by_cases hin : n ≤ i
    · rw [h i hin, Bool.false_or, Bool.false_xor]
    · rw [BitVec.getLsbD_shiftLeft, decide_eq_true (show i < n by omega)]
      simp
  · intro i hi
    rw [BitVec.getLsbD_or, h i (by omega), BitVec.getLsbD_shiftLeft, getLsbD_byte (by omega),
      Bool.and_false, Bool.or_false]

/-- The word of four bytes, as shifts and ors put it together. -/
theorem word_four (a b c d : UInt8) :
    (byte a ||| byte b <<< 8 ||| byte c <<< 16 ||| byte d <<< 24 : BitVec w) = word [a, b, c, d] := by
  obtain ⟨hb, hbits⟩ := or_byte (w := w) (r := byte a) (fun i hi => getLsbD_byte hi) b
  obtain ⟨hc, hbits⟩ := or_byte hbits c
  obtain ⟨hd, -⟩ := or_byte hbits d
  rw [hd, hc, hb]
  simp only [word, BitVec.shiftLeft_xor_distrib, ← BitVec.shiftLeft_add, BitVec.xor_assoc]
  simp

theorem foldl_update_shifts (n : ℕ) {bytes : List UInt8} (h : n + 8 * bytes.length ≤ w)
    (r : BitVec w) : bytes.foldl (update poly) (shifts poly n r) =
      shifts poly (n + 8 * bytes.length) (r ^^^ word bytes <<< n) := by
  induction bytes generalizing n r with
  | nil => simp [word]
  | cons b bytes ih =>
    rw [List.length_cons] at h
    rw [List.foldl_cons, update, xor_byte poly (by omega), ← shifts_add, ih (n + 8) (by omega),
      List.length_cons, word, BitVec.shiftLeft_xor_distrib, BitVec.xor_assoc,
      ← BitVec.shiftLeft_add, Nat.add_comm 8 n]
    congr 1
    omega

/-- The bytes that a remainder has room for, all at once. -/
theorem foldl_update_word {bytes : List UInt8} (h : 8 * bytes.length ≤ w) (r : BitVec w) :
    bytes.foldl (update poly) r = shifts poly (8 * bytes.length) (r ^^^ word bytes) := by
  have hstart := foldl_update_shifts poly 0 (by rwa [Nat.zero_add]) r
  rwa [shifts, Nat.zero_add, BitVec.shiftLeft_zero] at hstart

theorem foldl_update_zeros (n : ℕ) (r : BitVec w) :
    (List.replicate n 0).foldl (update poly) r = shifts poly (8 * n) r := by
  induction n generalizing r with
  | zero => rfl
  | succ n ih =>
    have hzero : update poly r 0 = shifts poly 8 r := by
      rw [update]
      congr 1
      rw [byte]
      simp
    rw [List.replicate_succ, List.foldl_cons, hzero, ih, ← shifts_add]
    congr 1
    omega

end Crc
