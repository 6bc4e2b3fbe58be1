/-
CRC-32 (`core/checksum.ts`), eight bytes at a time.

The lookup tables are the functions that fill them.  Nothing proved here depends on
which code this is: the theorems use only that the checksum is a function of the bytes
outside the zeroed range.
-/
import Pgxsinkit.Lib.Bytes

namespace Opfs

open Bytes

def crc32Bit (remainder : UInt32) : UInt32 :=
  if remainder &&& 1 = 1 then (0xedb88320 : UInt32) ^^^ (remainder >>> 1) else remainder >>> 1

/-- `CRC32_TABLE[value]` -/
def crc32Table (value : UInt32) : UInt32 := Nat.repeat crc32Bit 8 value

/-- `CRC32_SLICES[slice][value]` -/
def crc32Slice : Nat → UInt32 → UInt32
  | 0, value => crc32Table value
  | slice + 1, value =>
    let remainder := crc32Slice slice value
    crc32Table (remainder &&& 0xff) ^^^ (remainder >>> 8)

def updateCrc32 (remainder : UInt32) : List UInt8 → UInt32
  | b0 :: b1 :: b2 :: b3 :: b4 :: b5 :: b6 :: b7 :: rest =>
    let word := remainder ^^^
      (b0.toUInt32 ||| (b1.toUInt32 <<< 8) ||| (b2.toUInt32 <<< 16) ||| (b3.toUInt32 <<< 24))
    updateCrc32
      (crc32Slice 7 (word &&& 0xff) ^^^ crc32Slice 6 ((word >>> 8) &&& 0xff) ^^^
        crc32Slice 5 ((word >>> 16) &&& 0xff) ^^^ crc32Slice 4 (word >>> 24) ^^^
        crc32Slice 3 b4.toUInt32 ^^^ crc32Slice 2 b5.toUInt32 ^^^
        crc32Slice 1 b6.toUInt32 ^^^ crc32Table b7.toUInt32) rest
  | b :: rest =>
    updateCrc32 (crc32Table ((remainder ^^^ b.toUInt32) &&& 0xff) ^^^ (remainder >>> 8)) rest
  | [] => remainder

def updateCrc32WithZeros (remainder : UInt32) : Nat → UInt32
  | length + 8 =>
    updateCrc32WithZeros
      (crc32Slice 7 (remainder &&& 0xff) ^^^ crc32Slice 6 ((remainder >>> 8) &&& 0xff) ^^^
        crc32Slice 5 ((remainder >>> 16) &&& 0xff) ^^^ crc32Slice 4 (remainder >>> 24)) length
  | length + 1 =>
    updateCrc32WithZeros (crc32Table (remainder &&& 0xff) ^^^ (remainder >>> 8)) length
  | 0 => remainder

def crc32 (bytes : List UInt8) : UInt32 := updateCrc32 0xffffffff bytes ^^^ 0xffffffff

/-- The checksum with the given range read as zeros; the range is within the bytes. -/
def crc32WithZeroedRange (bytes : List UInt8) (offset length : Nat) : UInt32 :=
  let remainder := updateCrc32 0xffffffff (slice bytes 0 offset)
  let remainder := updateCrc32WithZeros remainder length
  updateCrc32 remainder (bytes.drop (offset + length)) ^^^ 0xffffffff

/-- The bytes in the zeroed range do not matter. -/
theorem crc32WithZeroedRange_append {left mid mid' right : List UInt8} {offset length : Nat}
    (hleft : left.length = offset) (hmid : mid.length = length) (hmid' : mid'.length = length) :
    crc32WithZeroedRange (left ++ (mid ++ right)) offset length =
      crc32WithZeroedRange (left ++ (mid' ++ right)) offset length := by
  have hdrop : ∀ field : List UInt8, field.length = length →
      (left ++ (field ++ right)).drop (offset + length) = right := by
    intro field hfield
    rw [← List.append_assoc]
    exact List.drop_left' (by rw [List.length_append, hleft, hfield])
  simp only [crc32WithZeroedRange, hdrop mid hmid, hdrop mid' hmid',
    slice_append_left (show 0 + offset ≤ left.length by omega)]

end Opfs
