/-
The fixed headers are exact: each encoder writes the row of its fields with the checksum
in place, and each decoder accepts exactly these rows.
-/
import Pgxsinkit.Opfs.Headers
import Pgxsinkit.Opfs.TxnCodecSpec

namespace Opfs

open Bytes Checked

/-! ### Sealed rows -/

/-- Two rows of fields with the checksum between them. -/
def sealed (before after : List (List UInt8)) : List UInt8 :=
  before.flatten ++ (leBytes 4 (crc32WithZeroedRange
    (before.flatten ++ (zeros 4 ++ after.flatten)) before.flatten.length 4).toNat ++ after.flatten)

theorem setChecksum_eq_sealed {before after : List (List UInt8)} {offset : Nat}
    (h : before.flatten.length = offset) :
    setChecksum (before.flatten ++ (zeros 4 ++ after.flatten)) offset = sealed before after := by
  subst h
  rw [setChecksum, setUint, overwrite_append rfl (by rw [length_zeros, length_leBytes]), sealed]

/-- A byte string is sealed iff the fields stand at their offsets and the stored checksum is
the checksum. -/
theorem eq_sealed_iff {bytes : List UInt8} {before after : List (List UInt8)} {offset : Nat}
    (h : before.flatten.length = offset) :
    bytes = sealed before after ↔
      bytes.length = offset + 4 + after.flatten.length ∧
        slices bytes (before.map List.length) 0 = before ∧
        getUint bytes offset 4 = (crc32WithZeroedRange bytes offset 4).toNat ∧
        slices bytes (after.map List.length) (offset + 4) = after := by
  subst h
  have hcrc : ∀ field : List UInt8, field.length = 4 →
      crc32WithZeroedRange (before.flatten ++ (zeros 4 ++ after.flatten))
          before.flatten.length 4 =
        crc32WithZeroedRange (before.flatten ++ (field ++ after.flatten))
          before.flatten.length 4 := by
    intro field hfield
    exact crc32WithZeroedRange_append rfl (length_zeros 4) hfield
  constructor
  · intro hbytes
    obtain ⟨hlen, hbefore, hfield, hafter⟩ := eq_row_iff.mp hbytes
    rw [length_leBytes] at hlen hfield hafter
    refine ⟨hlen, hbefore, ?_, hafter⟩
    rw [getUint, hfield, leNat_leBytes (UInt32.toNat_lt _), hcrc _ (length_leBytes 4 _),
      ← sealed, ← hbytes]
  · rintro ⟨hlen, hbefore, hstored, hafter⟩
    have hwidth : (slice bytes before.flatten.length 4).length = 4 := length_slice (by omega)
    have hrow : bytes = before.flatten ++ (slice bytes before.flatten.length 4 ++ after.flatten) :=
      eq_row_iff.mpr ⟨by omega, hbefore, by rw [hwidth], by rw [hwidth, hafter]⟩
    have hfield : leBytes 4 (crc32WithZeroedRange bytes before.flatten.length 4).toNat =
        slice bytes before.flatten.length 4 :=
      (leBytes_eq_iff (UInt32.toNat_lt _)).mpr ⟨hwidth, hstored⟩
    rw [sealed, hcrc _ hwidth, ← hrow, hfield]
    exact hrow

/-! ### Fields -/

@[simp] theorem length_arenaMagic : arenaMagic.length = 8 := by decide
@[simp] theorem length_metadataMagic : metadataMagic.length = 8 := by decide
@[simp] theorem length_frameMagic : frameMagic.length = 8 := by decide
@[simp] theorem length_activationMagic : activationMagic.length = 8 := by decide

theorem getUint_lt {bytes : List UInt8} {offset width : Nat} (h : offset + width ≤ bytes.length) :
    getUint bytes offset width < 256 ^ width := by
  have hlt := leNat_lt (slice bytes offset width)
  rwa [length_slice h] at hlt

/-- A field spells the number that is read from it. -/
theorem slice_eq_leBytes {bytes : List UInt8} {offset width n : Nat}
    (h : offset + width ≤ bytes.length) (hn : n < 256 ^ width) :
    slice bytes offset width = leBytes width n ↔ getUint bytes offset width = n := by
  rw [@eq_comm _ (slice bytes offset width), leBytes_eq_iff hn, length_slice h]
  exact and_iff_right rfl

theorem requireZero_eq_ok {bytes : List UInt8} {start stop : Nat} {label : String} {u : Unit}
    (h : stop ≤ bytes.length) (hle : start ≤ stop) :
    requireZero bytes start stop label = .ok u ↔
      slice bytes start (stop - start) = zeros (stop - start) := by
  rw [requireZero, throwIf_eq_ok, not_not, slice_eq_zeros (by omega)]

theorem requireMagic_eq_ok {bytes magic : List UInt8} {label : String} {u : Unit} :
    requireMagic bytes magic label = .ok u ↔ slice bytes 0 magic.length = magic := by
  rw [requireMagic, throwIf_eq_ok, not_not]

theorem requireChecksum_eq_ok {bytes : List UInt8} {offset : Nat} {label : String} {u : Unit} :
    requireChecksum bytes offset label = .ok u ↔
      getUint bytes offset 4 = (crc32WithZeroedRange bytes offset 4).toNat := by
  rw [requireChecksum, throwIf_eq_ok, not_not]

theorem requireCurrentIdentity_eq_ok {version profile : Nat} {u : Unit} :
    requireCurrentIdentity version profile = .ok u ↔
      version = formatVersion ∧ profile = limitsProfileVersion := by
  rw [requireCurrentIdentity, throwIf_eq_ok, not_or, not_not, not_not]

/-! ### Transaction frames -/

def framePrefix (frame : TxnFrame) : List (List UInt8) :=
  [frameMagic, leBytes 4 formatVersion, leBytes 4 limitsProfileVersion,
    leBytes 8 frame.generation, leBytes 8 frame.sequence,
    leBytes 4 (recordBytes frame.record).length, zeros 4]

/-- The bytes of a frame. -/
def frameImage (frame : TxnFrame) : List UInt8 :=
  sealed (framePrefix frame) [zeros 4, recordBytes frame.record]

theorem length_framePrefix (frame : TxnFrame) :
    (framePrefix frame).flatten.length = frameChecksumOffset := by
  simp [framePrefix, frameMagic, frameChecksumOffset]

theorem length_frameImage (frame : TxnFrame) :
    (frameImage frame).length = txnFrameHeaderBytes + (recordBytes frame.record).length := by
  have hlen := length_framePrefix frame
  rw [frameImage, sealed, List.length_append, List.length_append, hlen, length_leBytes]
  simp [frameChecksumOffset, txnFrameHeaderBytes]
  omega

structure FrameEncodable (frame : TxnFrame) : Prop where
  generation : frame.generation ≤ maxU64
  sequence : frame.sequence ≤ maxU64
  record : RecordEncodable frame.record
  length : (recordBytes frame.record).length ≤ maxFramePayloadBytes

theorem encodeTxnFrame_eq {frame : TxnFrame} (h : FrameEncodable frame) :
    encodeTxnFrame frame = .ok (frameImage frame) := by
  have hlen := h.length
  have hblank : zeros (txnFrameHeaderBytes + (recordBytes frame.record).length) =
      zeros 8 ++ (zeros 4 ++ (zeros 4 ++ (zeros 8 ++ (zeros 8 ++ (zeros 4 ++ (zeros 4 ++ (zeros 4 ++
        (zeros 4 ++ zeros (recordBytes frame.record).length)))))))) := by
    simp only [← zeros_add, txnFrameHeaderBytes]
    congr 1
    omega
  have hrow : overwrite (setUint (setUint (setUint (setUint (setUint (overwrite
      (zeros (txnFrameHeaderBytes + (recordBytes frame.record).length)) 0 frameMagic)
      8 4 formatVersion) 12 4 limitsProfileVersion) 16 8 frame.generation) 24 8 frame.sequence)
      32 4 (recordBytes frame.record).length) txnFrameHeaderBytes (recordBytes frame.record) =
      (framePrefix frame).flatten ++ (zeros 4 ++ [zeros 4, recordBytes frame.record].flatten) := by
    rw [hblank]
    simp (disch := simp) only [setUint, txnFrameHeaderBytes, overwrite_head, overwrite_tail,
      overwrite_all, length_zeros, length_leBytes, length_frameMagic, Nat.reduceSub]
    simp only [framePrefix, List.flatten_cons, List.flatten_nil, List.append_nil,
      List.append_assoc]
  have hencode := @setChecksum_eq_sealed _ [zeros 4, recordBytes frame.record] _
    (length_framePrefix frame)
  rw [← hrow] at hencode
  rw [encodeTxnFrame, encodeTxnRecord_eq h.record, Checked.ok_bind, throwIf, if_neg (by omega),
    Checked.ok_bind, checkedU64_nat.mpr ⟨rfl, h.generation⟩, Checked.ok_bind,
    checkedU64_nat.mpr ⟨rfl, h.sequence⟩, Checked.ok_bind]
  exact congrArg Except.ok hencode

/-- The fields of a frame image, one by one. -/
theorem eq_frameImage_iff {bytes : List UInt8} {frame : TxnFrame} :
    bytes = frameImage frame ↔
      bytes.length = txnFrameHeaderBytes + (recordBytes frame.record).length ∧
        (slice bytes 0 8 = frameMagic ∧ slice bytes 8 4 = leBytes 4 formatVersion ∧
          slice bytes 12 4 = leBytes 4 limitsProfileVersion ∧
          slice bytes 16 8 = leBytes 8 frame.generation ∧
          slice bytes 24 8 = leBytes 8 frame.sequence ∧
          slice bytes 32 4 = leBytes 4 (recordBytes frame.record).length ∧
          slice bytes 36 4 = zeros 4) ∧
        getUint bytes 40 4 = (crc32WithZeroedRange bytes 40 4).toNat ∧
        slice bytes 44 4 = zeros 4 ∧
        slice bytes 48 (recordBytes frame.record).length = recordBytes frame.record := by
  have hafter : [zeros 4, recordBytes frame.record].flatten.length =
      4 + (recordBytes frame.record).length := by
    simp
  rw [frameImage, eq_sealed_iff (length_framePrefix frame), hafter]
  simp only [framePrefix, frameChecksumOffset, txnFrameHeaderBytes, List.map_cons, List.map_nil,
    slices, List.cons.injEq, and_true, length_frameMagic, length_leBytes, length_zeros,
    Nat.reduceAdd, ← Nat.add_assoc]

theorem inspectTxnFrameHeader_eq_ok {bytes : List UInt8} (h : txnFrameHeaderBytes ≤ bytes.length)
    {header : TxnFrameHeader} :
    inspectTxnFrameHeader (slice bytes 0 txnFrameHeaderBytes) = .ok header ↔
      slice bytes 0 8 = frameMagic ∧ slice bytes 36 4 = zeros 4 ∧ slice bytes 44 4 = zeros 4 ∧
        getUint bytes 32 4 ≤ maxFramePayloadBytes ∧
        (getUint bytes 8 4 = formatVersion ∧ getUint bytes 12 4 = limitsProfileVersion) ∧
        header = ⟨getUint bytes 16 8, getUint bytes 24 8, getUint bytes 32 4,
          txnFrameHeaderBytes + getUint bytes 32 4⟩ := by
  have hlen : (slice bytes 0 txnFrameHeaderBytes).length = txnFrameHeaderBytes :=
    length_slice (by omega)
  have hslice : ∀ {start width}, start + width ≤ 48 →
      slice (slice bytes 0 txnFrameHeaderBytes) start width = slice bytes start width := by
    intro start width hle
    exact slice_slice hle
  simp only [inspectTxnFrameHeader, bind_eq_ok, throwIf_eq_ok, requireMagic_eq_ok, pure_eq_ok,
    exists_const, not_not, not_or, not_lt, gt_iff_lt, length_frameMagic, hlen, true_and,
    requireZero_eq_ok (hlen ▸ (by decide : 40 ≤ txnFrameHeaderBytes)) (by decide : 36 ≤ 40),
    requireZero_eq_ok (hlen ▸ (by decide : 48 ≤ txnFrameHeaderBytes)) (by decide : 44 ≤ 48),
    getUint, Nat.reduceSub, hslice (by decide : 0 + 8 ≤ 48), hslice (by decide : 36 + 4 ≤ 48),
    hslice (by decide : 44 + 4 ≤ 48), hslice (by decide : 32 + 4 ≤ 48),
    hslice (by decide : 8 + 4 ≤ 48), hslice (by decide : 12 + 4 ≤ 48),
    hslice (by decide : 16 + 8 ≤ 48), hslice (by decide : 24 + 8 ≤ 48), @eq_comm _ header]

theorem decodeTxnFrame_eq_ok {bytes : List UInt8} {frame : TxnFrame} :
    decodeTxnFrame bytes = .ok frame ↔
      (FrameEncodable frame ∧ ∀ name ∈ recordNames frame.record, NoMark name) ∧
        bytes = frameImage frame := by
  simp only [decodeTxnFrame, bind_eq_ok, throwIf_eq_ok, not_lt, not_not, pure_eq_ok, exists_const,
    requireChecksum_eq_ok, decodeTxnRecord_eq_ok]
  constructor
  · rintro ⟨hmin, header, hheader, hlen, hstored, record, ⟨⟨henc, hmark⟩, hpayload⟩, rfl⟩
    obtain ⟨hmagic, hzero, hzero', hmax, ⟨hversion, hprofile⟩, rfl⟩ :=
      (inspectTxnFrameHeader_eq_ok hmin).mp hheader
    have hsize : (recordBytes record).length = getUint bytes 32 4 := by
      rw [← hpayload, List.length_drop, hlen]
      exact Nat.add_sub_cancel_left _ _
    simp only [txnFrameHeaderBytes] at hmin hlen
    have hgen : getUint bytes 16 8 ≤ maxU64 :=
      Nat.le_of_lt_succ (@getUint_lt bytes 16 8 (by omega))
    have hseq : getUint bytes 24 8 ≤ maxU64 :=
      Nat.le_of_lt_succ (@getUint_lt bytes 24 8 (by omega))
    refine ⟨⟨⟨hgen, hseq, henc, by rw [hsize]; exact hmax⟩, hmark⟩, eq_frameImage_iff.mpr ?_⟩
    simp only [slice_eq_leBytes (show 8 + 4 ≤ bytes.length by omega)
        (show formatVersion < 256 ^ 4 by decide),
      slice_eq_leBytes (show 12 + 4 ≤ bytes.length by omega)
        (show limitsProfileVersion < 256 ^ 4 by decide)]
    refine ⟨?_, ⟨hmagic, hversion, hprofile, ?_, ?_, ?_, hzero⟩, hstored, hzero', ?_⟩
    · rw [hsize]
      exact hlen
    · exact (slice_eq_leBytes (by omega) (getUint_lt (by omega))).mpr rfl
    · exact (slice_eq_leBytes (by omega) (getUint_lt (by omega))).mpr rfl
    · exact (slice_eq_leBytes (by omega) (hsize ▸ getUint_lt (by omega))).mpr hsize.symm
    · rw [slice, ← hpayload]
      exact List.take_length
  · rintro ⟨⟨henc, hmark⟩, hbytes⟩
    obtain ⟨hlen, ⟨hmagic, hversion, hprofile, hgen, hseq, hsize, hzero⟩, hstored, hzero',
      hpayload⟩ := eq_frameImage_iff.mp hbytes
    have hmax := henc.length
    have hgenmax := henc.generation
    have hseqmax := henc.sequence
    simp only [txnFrameHeaderBytes] at hlen
    unfold maxFramePayloadBytes at hmax
    unfold maxU64 at hgenmax hseqmax
    rw [slice_eq_leBytes (by omega) (by decide)] at hversion hprofile
    rw [slice_eq_leBytes (by omega) (by omega)] at hgen hseq hsize
    have hdrop : bytes.drop txnFrameHeaderBytes = recordBytes frame.record := by
      rw [← hpayload, slice, List.take_of_length_le]
      · rfl
      · rw [List.length_drop]
        omega
    refine ⟨by simp only [txnFrameHeaderBytes]; omega, _, (inspectTxnFrameHeader_eq_ok
      (by simp only [txnFrameHeaderBytes]; omega)).mpr ⟨hmagic, hzero, hzero', ?_,
      ⟨hversion, hprofile⟩, rfl⟩, ?_, hstored, frame.record, ⟨⟨henc.record, hmark⟩, hdrop⟩, ?_⟩
    · rw [hsize]
      exact henc.length
    · rw [hsize]
      exact hlen
    · rw [hgen, hseq]

end Opfs
