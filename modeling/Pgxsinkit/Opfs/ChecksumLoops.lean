/-
CRC-32 (`core/checksum.ts`), with the numbers JavaScript computes.

The tables are filled as the module fills them, the loops go by index, and the remainder is a number
that the operators read as 32 bits and leave signed.  Bit by bit the checksum is that of `Crc`, with
the low bit first; eight bytes from eight tables are the same bytes one at a time, bitAnd a run of
zeroed bytes is only shifts.
-/
import Pgxsinkit.Lib.Crc
import Pgxsinkit.Lib.JsInt
import Pgxsinkit.Lib.Layout
import Pgxsinkit.Opfs.Checksum

namespace Opfs.Checksum

open JsInt Bytes

/-! ### The tables -/

/-- An entry of a table; what is read out of bounds is `undefined`, which an operator takes for 0. -/
def entry (table : List ℤ) (index : ℤ) : ℤ :=
  if 0 ≤ index then table.getD index.toNat 0 else 0

def tableBit (remainder : ℤ) : ℤ :=
  if bitAnd remainder 1 = 1 then bitXor 0xedb88320 (shr remainder 1) else shr remainder 1

def crc32Table : List ℤ :=
  (List.range 256).map fun (value : ℕ) => shr (Nat.repeat tableBit 8 (value : ℤ)) 0

def nextSlice (previous : List ℤ) : List ℤ :=
  (List.range 256).map fun (value : ℕ) =>
    let remainder := entry previous value
    shr (bitXor (entry crc32Table (bitAnd remainder 0xff)) (shr remainder 8)) 0

/-- `CRC32_SLICES[slice]` -/
def crc32Slices : ℕ → List ℤ
  | 0 => crc32Table
  | slice + 1 => nextSlice (crc32Slices slice)

/-! ### The loops -/

/-- `bytes[index]!` -/
def byteAt (bytes : List UInt8) (index : ℕ) : ℤ := (bytes.getD index 0).toNat

def eightBytes (remainder : ℤ) (bytes : List UInt8) (index : ℕ) : ℤ :=
  let word := bitXor remainder
    (bitOr (bitOr (bitOr (byteAt bytes index) (shl (byteAt bytes (index + 1)) 8))
      (shl (byteAt bytes (index + 2)) 16)) (shl (byteAt bytes (index + 3)) 24))
  bitXor (bitXor (bitXor (bitXor (bitXor (bitXor (bitXor
    (entry (crc32Slices 7) (bitAnd word 0xff))
    (entry (crc32Slices 6) (bitAnd (shr word 8) 0xff)))
    (entry (crc32Slices 5) (bitAnd (shr word 16) 0xff)))
    (entry (crc32Slices 4) (shr word 24)))
    (entry (crc32Slices 3) (byteAt bytes (index + 4))))
    (entry (crc32Slices 2) (byteAt bytes (index + 5))))
    (entry (crc32Slices 1) (byteAt bytes (index + 6))))
    (entry crc32Table (byteAt bytes (index + 7)))

def oneByte (remainder byte : ℤ) : ℤ :=
  bitXor (entry crc32Table (bitAnd (bitXor remainder byte) 0xff)) (shr remainder 8)

/-- `for (; index < end; index += 1)` -/
def byteLoop (remainder : ℤ) (bytes : List UInt8) (index stop : ℕ) : ℤ :=
  if index < stop then byteLoop (oneByte remainder (byteAt bytes index)) bytes (index + 1) stop
  else remainder
  termination_by stop - index

def updateCrc32 (remainder : ℤ) (bytes : List UInt8) (index stop : ℕ) : ℤ :=
  if index + 8 ≤ stop then updateCrc32 (eightBytes remainder bytes index) bytes (index + 8) stop
  else byteLoop remainder bytes index stop
  termination_by stop - index

def eightZeros (remainder : ℤ) : ℤ :=
  bitXor (bitXor (bitXor
    (entry (crc32Slices 7) (bitAnd remainder 0xff))
    (entry (crc32Slices 6) (bitAnd (shr remainder 8) 0xff)))
    (entry (crc32Slices 5) (bitAnd (shr remainder 16) 0xff)))
    (entry (crc32Slices 4) (shr remainder 24))

def oneZero (remainder : ℤ) : ℤ :=
  bitXor (entry crc32Table (bitAnd remainder 0xff)) (shr remainder 8)

def updateCrc32WithZeros (remainder : ℤ) : ℕ → ℤ
  | length + 8 => updateCrc32WithZeros (eightZeros remainder) length
  | length + 1 => updateCrc32WithZeros (oneZero remainder) length
  | 0 => remainder

def crc32 (bytes : List UInt8) : ℤ :=
  shr (bitXor (updateCrc32 0xffffffff bytes 0 bytes.length) 0xffffffff) 0

inductive RangeFailure
  | typeError (message : String)
  | rangeError (message : String)

def isSafeInteger (n : ℤ) : Bool := n.natAbs ≤ 2 ^ 53 - 1

def crc32WithZeroedRange (bytes : List UInt8) (offset length : ℤ) : Except RangeFailure ℤ :=
  if !isSafeInteger offset || !isSafeInteger length || offset < 0 || length < 0 then
    .error (.typeError "checksum range must use non-negative safe integers")
  else if offset + length > bytes.length then
    .error (.rangeError "checksum range exceeds the input")
  else
    let zeroEnd := offset + length
    let remainder := updateCrc32 0xffffffff bytes 0 offset.toNat
    let remainder := updateCrc32WithZeros remainder length.toNat
    let remainder := updateCrc32 remainder bytes zeroEnd.toNat bytes.length
    .ok (shr (bitXor remainder 0xffffffff) 0)

/-! ### The tables shift -/

def polynomial : BitVec 32 := 0xedb88320

/-- CRC-32 bit by bit. -/
def bitwise (bytes : List UInt8) : BitVec 32 :=
  bytes.foldl (Crc.update polynomial) 0xffffffff ^^^ 0xffffffff

theorem bits_tableBit (remainder : ℤ) :
    bits (tableBit remainder) = Crc.shift polynomial (bits remainder) := by
  have hlow : bitAnd remainder 1 = 1 ↔ (bits remainder).getLsbD 0 = true := by
    rw [show (1 : ℤ) = ((1 : ℕ) : ℤ) from rfl, bitAnd_natCast (by decide), Nat.cast_inj,
      Nat.and_one_is_mod, BitVec.getLsbD, Nat.testBit_zero, decide_eq_true_eq]
  unfold tableBit Crc.shift
  by_cases hbit : (bits remainder).getLsbD 0 = true
  · rw [if_pos (hlow.mpr hbit), if_pos hbit, bits_bitXor, bits_shr, BitVec.xor_comm]
    rfl
  · rw [if_neg (mt hlow.mp hbit), if_neg hbit, bits_shr]

theorem bits_repeat_tableBit (n : ℕ) (value : ℤ) :
    bits (Nat.repeat tableBit n value) = Crc.shifts polynomial n (bits value) := by
  induction n with
  | zero => rfl
  | succ n ih =>
    rw [Nat.repeat, bits_tableBit, ih, Crc.shifts_add polynomial n 1]
    rfl

/-- A table has the entry of each byte. -/
theorem entry_map (f : ℕ → ℤ) {value : ℕ} (h : value < 256) :
    entry ((List.range 256).map f) value = f value := by
  rw [entry, if_pos (Int.natCast_nonneg value), Int.toNat_natCast, List.getD_eq_getElem?_getD,
    List.getElem?_map, List.getElem?_range h, Option.map_some, Option.getD_some]

/-- What a mask leaves of a number is an index of the tables. -/
theorem bitAnd_mask (a : ℤ) : bitAnd a 0xff = ((bits a &&& 0xff).toNat : ℤ) := by
  rw [show (0xff : ℤ) = ((0xff : ℕ) : ℤ) from rfl, bitAnd_natCast (by decide), BitVec.toNat_and]
  rfl

theorem toNat_mask_lt (b : BitVec 32) : (b &&& 0xff).toNat < 256 := by
  rw [BitVec.toNat_and]
  exact Nat.and_le_right.trans_lt (by decide)

theorem bits_crc32Table {value : ℕ} (h : value < 256) :
    bits (entry crc32Table value) = Crc.shifts polynomial 8 (BitVec.ofNat 32 value) := by
  rw [crc32Table, entry_map _ h, bits_shr, bits_repeat_tableBit, BitVec.ushiftRight_zero,
    bits_natCast]

theorem lowBits_eight : (Crc.lowBits 8 : BitVec 32) = 0xff := rfl

/-- The table step: eight shifts of any remainder. -/
theorem bits_tableStep (remainder : ℤ) :
    bits (bitXor (entry crc32Table (bitAnd remainder 0xff)) (shr remainder 8)) =
      Crc.shifts polynomial 8 (bits remainder) := by
  rw [Crc.shifts_low, bits_bitXor, bits_shr, bitAnd_mask, bits_crc32Table (toNat_mask_lt _),
    BitVec.ofNat_toNat, BitVec.setWidth_eq, lowBits_eight]

/-- The entries of a slice are eight shifts further than those of the slice before. -/
theorem bits_crc32Slices (slice : ℕ) {value : ℕ} (h : value < 256) :
    bits (entry (crc32Slices slice) value) =
      Crc.shifts polynomial (8 * (slice + 1)) (BitVec.ofNat 32 value) := by
  induction slice with
  | zero => exact bits_crc32Table h
  | succ slice ih =>
    rw [crc32Slices, nextSlice, entry_map _ h]
    dsimp only
    rw [bits_shr, BitVec.ushiftRight_zero, bits_tableStep, ih, ← Crc.shifts_add]
    rfl

/-! ### The loops are the bytes one at a time -/

theorem toNat_byte_lt (b : UInt8) : b.toNat < 256 := b.toNat_lt

theorem ofNat_byte (b : UInt8) : BitVec.ofNat 32 b.toNat = Crc.byte b :=
  BitVec.ofNat_toNat 32 b.toBitVec

theorem bits_byteAt (bytes : List UInt8) (index : ℕ) :
    bits (byteAt bytes index) = Crc.byte (bytes.getD index 0) := by
  rw [byteAt, bits_natCast, ofNat_byte]

theorem bits_slice_byteAt (slice : ℕ) (bytes : List UInt8) (index : ℕ) :
    bits (entry (crc32Slices slice) (byteAt bytes index)) =
      Crc.shifts polynomial (8 * (slice + 1)) (Crc.byte (bytes.getD index 0)) := by
  rw [byteAt, bits_crc32Slices slice (toNat_byte_lt _), ofNat_byte]

theorem bits_slice_mask (slice : ℕ) (a : ℤ) :
    bits (entry (crc32Slices slice) (bitAnd a 0xff)) =
      Crc.shifts polynomial (8 * (slice + 1)) (bits a &&& Crc.lowBits 8) := by
  rw [bitAnd_mask, bits_crc32Slices slice (toNat_mask_lt _), BitVec.ofNat_toNat, BitVec.setWidth_eq,
    lowBits_eight]

/-- The high byte of a word needs no mask. -/
theorem bits_slice_high (slice : ℕ) (a : ℤ) :
    bits (entry (crc32Slices slice) (shr a 24)) =
      Crc.shifts polynomial (8 * (slice + 1)) (bits a >>> 24) := by
  have hlt : (bits a >>> 24).toNat < 256 := by
    have := (bits a).isLt
    rw [BitVec.toNat_ushiftRight, Nat.shiftRight_eq_div_pow]
    omega
  rw [shr, bits_crc32Slices slice hlt, BitVec.ofNat_toNat, BitVec.setWidth_eq]

/-- The four tables that a word goes through. -/
theorem shifts_word (word : BitVec 32) :
    Crc.shifts polynomial 64 word =
      Crc.shifts polynomial 64 (word &&& Crc.lowBits 8) ^^^
      Crc.shifts polynomial 56 (word >>> 8 &&& Crc.lowBits 8) ^^^
      Crc.shifts polynomial 48 (word >>> 16 &&& Crc.lowBits 8) ^^^
      Crc.shifts polynomial 40 (word >>> 24) := by
  have h1 := Crc.shifts_split polynomial 8 56 word
  have h2 := Crc.shifts_split polynomial 8 48 (word >>> 8)
  have h3 := Crc.shifts_split polynomial 8 40 (word >>> 16)
  rw [← BitVec.shiftRight_add] at h2 h3
  rw [h1, h2, h3, BitVec.xor_assoc, BitVec.xor_assoc]

/-- The four bytes that go through with the remainder, and the four that come after it. -/
theorem eight_tables (r : BitVec 32) (b0 b1 b2 b3 b4 b5 b6 b7 : UInt8) :
    let word := r ^^^ (Crc.byte b0 ||| Crc.byte b1 <<< 8 ||| Crc.byte b2 <<< 16 ||| Crc.byte b3 <<< 24)
    Crc.shifts polynomial 64 (word &&& Crc.lowBits 8) ^^^
      Crc.shifts polynomial 56 (word >>> 8 &&& Crc.lowBits 8) ^^^
      Crc.shifts polynomial 48 (word >>> 16 &&& Crc.lowBits 8) ^^^
      Crc.shifts polynomial 40 (word >>> 24) ^^^ Crc.shifts polynomial 32 (Crc.byte b4) ^^^
      Crc.shifts polynomial 24 (Crc.byte b5) ^^^ Crc.shifts polynomial 16 (Crc.byte b6) ^^^
      Crc.shifts polynomial 8 (Crc.byte b7) =
    [b0, b1, b2, b3, b4, b5, b6, b7].foldl (Crc.update polynomial) r := by
  dsimp only
  have hfour : [b0, b1, b2, b3].foldl (Crc.update polynomial) r =
      Crc.shifts polynomial 32 (r ^^^ Crc.word [b0, b1, b2, b3]) :=
    Crc.foldl_update_word polynomial (by simp) r
  have hlist : [b0, b1, b2, b3, b4, b5, b6, b7] = [b0, b1, b2, b3] ++ [b4, b5, b6, b7] := rfl
  rw [Crc.word_four, ← shifts_word, hlist, List.foldl_append, hfour]
  simp only [List.foldl_cons, List.foldl_nil, Crc.update_eq, Crc.shifts_xor, ← Crc.shifts_add]

theorem bits_eightBytes (remainder : ℤ) (bytes : List UInt8) (index : ℕ) :
    bits (eightBytes remainder bytes index) =
      ((List.range' index 8).map fun i => bytes.getD i 0).foldl (Crc.update polynomial)
        (bits remainder) := by
  have htables := eight_tables (bits remainder) (bytes.getD index 0) (bytes.getD (index + 1) 0)
    (bytes.getD (index + 2) 0) (bytes.getD (index + 3) 0) (bytes.getD (index + 4) 0)
    (bytes.getD (index + 5) 0) (bytes.getD (index + 6) 0) (bytes.getD (index + 7) 0)
  refine Eq.trans ?_ htables
  rw [eightBytes, show crc32Table = crc32Slices 0 from rfl]
  simp only [bits_bitXor, bits_slice_mask, bits_slice_high, bits_slice_byteAt, bits_shr, bits_bitOr,
    bits_shl, bits_byteAt]

theorem bits_oneByte (remainder : ℤ) (b : UInt8) :
    bits (oneByte remainder b.toNat) = Crc.update polynomial (bits remainder) b := by
  have hxor : bits (bitXor remainder b.toNat) = bits remainder ^^^ Crc.byte b := by
    rw [bits_bitXor, bits_natCast, ofNat_byte]
  rw [oneByte, bits_bitXor, bits_shr, ← Crc.xor_byte_ushiftRight _ b, ← hxor, ← bits_shr, ← bits_bitXor, bits_tableStep,
    hxor, Crc.update]

/-- The bytes of a range, read by index. -/
theorem slice_eq_map {bytes : List UInt8} {index n : ℕ} (h : index + n ≤ bytes.length) :
    slice bytes index n = (List.range' index n).map fun i => bytes.getD i 0 := by
  apply List.ext_getElem
  · rw [length_slice h, List.length_map, List.length_range']
  · intro i hi hi'
    rw [length_slice h] at hi
    rw [List.getElem_map, List.getElem_range', Nat.one_mul, List.getD_eq_getElem _ _ (by omega)]
    simp [slice]

theorem bits_byteLoop (bytes : List UInt8) {stop : ℕ} (hstop : stop ≤ bytes.length) (index : ℕ)
    (remainder : ℤ) : bits (byteLoop remainder bytes index stop) =
      (slice bytes index (stop - index)).foldl (Crc.update polynomial) (bits remainder) := by
  fun_induction byteLoop remainder bytes index stop with
  | case1 remainder index hlt ih =>
    have hcut := slice_append_slice bytes index 1 (stop - (index + 1))
    have hone : slice bytes index 1 = [bytes.getD index 0] := slice_eq_map (by omega)
    rw [show 1 + (stop - (index + 1)) = stop - index by omega, hone] at hcut
    rw [ih, byteAt, bits_oneByte, ← hcut, List.singleton_append, List.foldl_cons]
  | case2 remainder index hge =>
    rw [Nat.sub_eq_zero_of_le (not_lt.mp hge)]
    rfl

theorem bits_updateCrc32 (bytes : List UInt8) {stop : ℕ} (hstop : stop ≤ bytes.length) (index : ℕ)
    (remainder : ℤ) : bits (updateCrc32 remainder bytes index stop) =
      (slice bytes index (stop - index)).foldl (Crc.update polynomial) (bits remainder) := by
  fun_induction updateCrc32 remainder bytes index stop with
  | case1 remainder index hle ih =>
    have hcut := slice_append_slice bytes index 8 (stop - (index + 8))
    rw [show 8 + (stop - (index + 8)) = stop - index by omega] at hcut
    rw [ih, bits_eightBytes, ← hcut, List.foldl_append, slice_eq_map (n := 8) (by omega)]
  | case2 remainder index hlt => exact bits_byteLoop bytes hstop index remainder

theorem bits_updateCrc32WithZeros (remainder : ℤ) (length : ℕ) :
    bits (updateCrc32WithZeros remainder length) =
      Crc.shifts polynomial (8 * length) (bits remainder) := by
  fun_induction updateCrc32WithZeros remainder length with
  | case1 remainder length ih =>
    have height : bits (eightZeros remainder) = Crc.shifts polynomial 64 (bits remainder) := by
      rw [eightZeros, shifts_word]
      simp only [bits_bitXor, bits_slice_mask, bits_slice_high, bits_shr]
    rw [ih, height, ← Crc.shifts_add]
    congr 1
    omega
  | case2 remainder length hlt ih =>
    rw [ih, oneZero, bits_tableStep, ← Crc.shifts_add]
    congr 1
    omega
  | case3 remainder => rfl

theorem shr_xor_ones {remainder : ℤ} {r : BitVec 32} (h : bits remainder = r) :
    shr (bitXor remainder 0xffffffff) 0 = ((r ^^^ 0xffffffff).toNat : ℤ) := by
  rw [shr, bits_bitXor, h, BitVec.ushiftRight_zero]
  rfl

theorem crc32_eq (bytes : List UInt8) : crc32 bytes = (bitwise bytes).toNat := by
  refine shr_xor_ones ?_
  rw [bits_updateCrc32 bytes (Nat.le_refl _), Nat.sub_zero, slice_all]
  rfl

/-! ### The same in machine words -/

theorem toBitVec_crc32Bit (r : UInt32) :
    (Opfs.crc32Bit r).toBitVec = Crc.shift polynomial r.toBitVec := by
  have hlow : r &&& 1 = 1 ↔ r.toBitVec.getLsbD 0 = true := by
    rw [← UInt32.toNat_inj, UInt32.toNat_and, BitVec.getLsbD, Nat.testBit_zero, decide_eq_true_eq]
    exact (Nat.and_one_is_mod r.toNat).symm ▸ Iff.rfl
  unfold Opfs.crc32Bit Crc.shift
  by_cases hbit : r.toBitVec.getLsbD 0 = true
  · rw [if_pos (hlow.mpr hbit), if_pos hbit, UInt32.toBitVec_xor, BitVec.xor_comm]
    rfl
  · rw [if_neg (mt hlow.mp hbit), if_neg hbit]
    rfl

theorem toBitVec_crc32Table (value : UInt32) :
    (Opfs.crc32Table value).toBitVec = Crc.shifts polynomial 8 value.toBitVec := by
  have hrepeat : ∀ n, (Nat.repeat Opfs.crc32Bit n value).toBitVec =
      Crc.shifts polynomial n value.toBitVec := by
    intro n
    induction n with
    | zero => rfl
    | succ n ih =>
      rw [Nat.repeat, toBitVec_crc32Bit, ih, Crc.shifts_add polynomial n 1]
      rfl
  exact hrepeat 8

theorem toBitVec_tableStep (r : UInt32) :
    (Opfs.crc32Table (r &&& 0xff) ^^^ (r >>> 8)).toBitVec =
      Crc.shifts polynomial 8 r.toBitVec := by
  rw [Crc.shifts_low, UInt32.toBitVec_xor, toBitVec_crc32Table]
  rfl

theorem toBitVec_crc32Slice (slice : ℕ) (value : UInt32) :
    (Opfs.crc32Slice slice value).toBitVec =
      Crc.shifts polynomial (8 * (slice + 1)) value.toBitVec := by
  induction slice with
  | zero => exact toBitVec_crc32Table value
  | succ slice ih =>
    rw [Opfs.crc32Slice, toBitVec_tableStep, ih, ← Crc.shifts_add]
    rfl

theorem toBitVec_updateCrc32 (bytes : List UInt8) (r : UInt32) :
    (Opfs.updateCrc32 r bytes).toBitVec =
      bytes.foldl (Crc.update polynomial) r.toBitVec := by
  fun_induction Opfs.updateCrc32 r bytes with
  | case1 r b0 b1 b2 b3 b4 b5 b6 b7 rest word ih =>
    have htables := eight_tables r.toBitVec b0 b1 b2 b3 b4 b5 b6 b7
    have hlist : b0 :: b1 :: b2 :: b3 :: b4 :: b5 :: b6 :: b7 :: rest =
        [b0, b1, b2, b3, b4, b5, b6, b7] ++ rest := rfl
    rw [ih, hlist, List.foldl_append, ← htables]
    simp only [UInt32.toBitVec_xor, toBitVec_crc32Slice, toBitVec_crc32Table]
    rfl
  | case2 r b rest hshort ih =>
    have hshift : r >>> 8 = (r ^^^ b.toUInt32) >>> 8 :=
      UInt32.toBitVec_inj.mp (Crc.xor_byte_ushiftRight r.toBitVec b).symm
    rw [ih, hshift, toBitVec_tableStep]
    rfl
  | case3 r => rfl

/-- What the codecs check is this checksum. -/
theorem crc32_toNat (bytes : List UInt8) : crc32 bytes = (Opfs.crc32 bytes).toNat := by
  rw [crc32_eq, bitwise]
  show _ = (((Opfs.updateCrc32 0xffffffff bytes).toBitVec ^^^ 0xffffffff).toNat : ℤ)
  rw [toBitVec_updateCrc32]
  rfl

/-- The two checksums are those of the bits: of the bytes, and of the bytes with the range zeroed.
An array has fewer than 2^53 bytes. -/
theorem crc32_bitwise (bytes : List UInt8) (hsafe : bytes.length ≤ 2 ^ 53 - 1) (offset length : ℕ)
    (h : offset + length ≤ bytes.length) :
    crc32 bytes = (bitwise bytes).toNat ∧
      crc32WithZeroedRange bytes offset length =
        .ok ((bitwise (overwrite bytes offset (zeros length))).toNat : ℤ) := by
  refine ⟨crc32_eq bytes, ?_⟩
  have hargs : (!isSafeInteger offset || !isSafeInteger length || decide ((offset : ℤ) < 0) ||
      decide ((length : ℤ) < 0)) = false := by
    simp only [isSafeInteger, Int.natAbs_natCast]
    simp
    omega
  have hrange : ¬ (offset : ℤ) + length > bytes.length := by omega
  rw [crc32WithZeroedRange, if_neg (by rw [hargs]; exact Bool.false_ne_true), if_neg hrange]
  dsimp only
  congr 1
  refine shr_xor_ones ?_
  have hzeros : overwrite bytes offset (zeros length) =
      slice bytes 0 offset ++ (List.replicate length 0 ++ bytes.drop (offset + length)) := by
    rw [overwrite, length_zeros, List.append_assoc]
    rfl
  have hend : slice bytes (offset + length) (bytes.length - (offset + length)) =
      bytes.drop (offset + length) := by
    rw [slice, List.take_of_length_le (by rw [List.length_drop])]
  rw [bits_updateCrc32 bytes (Nat.le_refl _), bits_updateCrc32WithZeros,
    bits_updateCrc32 bytes (by omega), Nat.sub_zero, hzeros, List.foldl_append, List.foldl_append,
    Crc.foldl_update_zeros, ← hend]
  rfl

/-- Thirteen bytes, of which nine are read as zeros. -/
theorem crc32_bitwise_nine :
    crc32 [1, 2, 3, 4, 5, 6, 7, 8, 9, 10, 11, 12, 13] =
        (bitwise [1, 2, 3, 4, 5, 6, 7, 8, 9, 10, 11, 12, 13]).toNat ∧
      crc32WithZeroedRange [1, 2, 3, 4, 5, 6, 7, 8, 9, 10, 11, 12, 13] (2 : ℕ) (9 : ℕ) =
        .ok ((bitwise [1, 2, 0, 0, 0, 0, 0, 0, 0, 0, 0, 12, 13]).toNat : ℤ) :=
  crc32_bitwise [1, 2, 3, 4, 5, 6, 7, 8, 9, 10, 11, 12, 13] (by simp) 2 9 (by simp)

end Opfs.Checksum
