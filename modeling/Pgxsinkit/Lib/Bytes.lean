/-
Byte strings: little-endian numbers, slices and in-place writes.

A fixed layout is written into a zeroed buffer field by field, in any order, and read
back by offset.  `overwrite_append` turns the writes into the concatenation of the
fields, and `slice_append_drop` cuts a byte string back into its fields.
-/
import Mathlib

namespace Bytes

/-! ### Little-endian numbers -/

/-- The lowest `width` bytes of a number, lowest first. -/
def leBytes : Nat → Nat → List UInt8
  | 0, _ => []
  | width + 1, n => UInt8.ofNat n :: leBytes width (n / 256)

def leNat : List UInt8 → Nat
  | [] => 0
  | b :: bs => b.toNat + 256 * leNat bs

@[simp] theorem length_leBytes (width n : Nat) : (leBytes width n).length = width := by
  induction width generalizing n with
  | zero => rfl
  | succ width ih => rw [leBytes, List.length_cons, ih]

theorem leNat_lt (bytes : List UInt8) : leNat bytes < 256 ^ bytes.length := by
  induction bytes with
  | nil => simp [leNat]
  | cons b bs ih =>
    have hb : b.toNat < 256 := b.toNat_lt
    rw [leNat, List.length_cons, Nat.pow_succ]
    omega

theorem leNat_leBytes {width n : Nat} (h : n < 256 ^ width) : leNat (leBytes width n) = n := by
  induction width generalizing n with
  | zero =>
    rw [Nat.pow_zero] at h
    show 0 = n
    omega
  | succ width ih =>
    have hdiv : n / 256 < 256 ^ width := by
      rw [Nat.div_lt_iff_lt_mul (by omega), ← Nat.pow_succ]
      exact h
    have hmod : (UInt8.ofNat n).toNat = n % 256 := by simp
    rw [leBytes, leNat, ih hdiv, hmod]
    omega

theorem leBytes_leNat (bytes : List UInt8) : leBytes bytes.length (leNat bytes) = bytes := by
  induction bytes with
  | nil => rfl
  | cons b bs ih =>
    have hb : b.toNat < 256 := b.toNat_lt
    have hlow : UInt8.ofNat (b.toNat + 256 * leNat bs) = b := by
      apply UInt8.toNat.inj
      rw [UInt8.toNat_ofNat']
      show (b.toNat + 256 * leNat bs) % 256 = b.toNat
      omega
    have hhigh : (b.toNat + 256 * leNat bs) / 256 = leNat bs := by omega
    rw [List.length_cons, leNat, leBytes, hlow, hhigh, ih]

/-- The bytes of a number are the byte string that spells it. -/
theorem leBytes_eq_iff {width n : Nat} {bytes : List UInt8} (h : n < 256 ^ width) :
    leBytes width n = bytes ↔ bytes.length = width ∧ leNat bytes = n := by
  constructor
  · rintro rfl
    exact ⟨length_leBytes width n, leNat_leBytes h⟩
  · rintro ⟨rfl, rfl⟩
    exact leBytes_leNat bytes

/-! ### Slices -/

/-- `bytes.subarray(start, start + length)` -/
def slice (bytes : List UInt8) (start length : Nat) : List UInt8 := (bytes.drop start).take length

theorem length_slice {bytes : List UInt8} {start length : Nat}
    (h : start + length ≤ bytes.length) : (slice bytes start length).length = length := by
  rw [slice, List.length_take, List.length_drop]
  omega

theorem slice_append_drop (bytes : List UInt8) (start length : Nat) :
    slice bytes start length ++ bytes.drop (start + length) = bytes.drop start := by
  rw [slice, ← List.drop_drop, List.take_append_drop]

theorem slice_all (bytes : List UInt8) : slice bytes 0 bytes.length = bytes := by
  rw [slice, List.drop_zero, List.take_length]

/-- Two adjacent slices make one. -/
theorem slice_append_slice (bytes : List UInt8) (start m n : Nat) :
    slice bytes start m ++ slice bytes (start + m) n = slice bytes start (m + n) := by
  rw [slice, slice, slice, ← List.drop_drop, List.take_add]

theorem slice_append_left {l r : List UInt8} {start length : Nat}
    (h : start + length ≤ l.length) : slice (l ++ r) start length = slice l start length := by
  rw [slice, slice, List.drop_append_of_le_length (by omega),
    List.take_append_of_le_length (by rw [List.length_drop]; omega)]

theorem slice_append_right {l r : List UInt8} {start length : Nat} (h : l.length ≤ start) :
    slice (l ++ r) start length = slice r (start - l.length) length := by
  rw [slice, slice, List.drop_append, List.drop_eq_nil_of_le h, List.nil_append]

/-! ### Writing in place -/

/-- `bytes.set(value, offset)` for a value that fits. -/
def overwrite (bytes : List UInt8) (offset : Nat) (value : List UInt8) : List UInt8 :=
  bytes.take offset ++ value ++ bytes.drop (offset + value.length)

theorem length_overwrite {bytes value : List UInt8} {offset : Nat}
    (h : offset + value.length ≤ bytes.length) :
    (overwrite bytes offset value).length = bytes.length := by
  simp only [overwrite, List.length_append, List.length_take, List.length_drop]
  omega

/-- A buffer written at the end of its first part. -/
theorem overwrite_append {left mid right value : List UInt8} {offset : Nat}
    (hleft : left.length = offset) (hmid : mid.length = value.length) :
    overwrite (left ++ (mid ++ right)) offset value = left ++ (value ++ right) := by
  subst hleft
  rw [overwrite, List.take_left', ← hmid, ← List.length_append, ← List.append_assoc left,
    List.drop_left', List.append_assoc]
  all_goals rfl

theorem slice_overwrite_self {bytes value : List UInt8} {offset : Nat}
    (h : offset + value.length ≤ bytes.length) :
    slice (overwrite bytes offset value) offset value.length = value := by
  have hleft : (bytes.take offset).length = offset := by
    rw [List.length_take]
    omega
  rw [overwrite, List.append_assoc, slice_append_right (by omega), hleft, Nat.sub_self,
    slice_append_left (by omega), slice_all]

end Bytes
