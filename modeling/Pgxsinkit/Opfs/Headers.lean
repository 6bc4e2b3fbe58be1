/-
Fixed headers on disk (`core/codec.ts`): the arena header, transaction frames and
activation slots.

Each encoder fills a zeroed buffer by offset and seals it with the checksum of the buffer
whose checksum field reads as zeros; each decoder checks the fixed fields by offset.
-/
import Pgxsinkit.Opfs.Checksum
import Pgxsinkit.Opfs.TxnCodec

namespace Opfs

open Bytes Checked

def arenaMagic : List UInt8 := [0x50, 0x47, 0x58, 0x52, 0x50, 0x41, 0x30, 0x31]
def metadataMagic : List UInt8 := [0x50, 0x47, 0x58, 0x52, 0x50, 0x4d, 0x30, 0x31]
def frameMagic : List UInt8 := [0x50, 0x47, 0x58, 0x52, 0x50, 0x46, 0x30, 0x31]
def activationMagic : List UInt8 := [0x50, 0x47, 0x58, 0x52, 0x50, 0x4b, 0x30, 0x31]

def arenaHeaderChecksumOffset : Nat := 24
def metadataHeaderBytes : Nat := 80
def txnFrameHeaderBytes : Nat := 48
def activationSlotBytes : Nat := 128

def metadataHeaderChecksumOffset : Nat := 64
def frameChecksumOffset : Nat := 40
def activationChecksumOffset : Nat := 52

/-! ### Fields by offset -/

/-- `view.getUint32(offset, true)` and its like for other widths. -/
def getUint (bytes : List UInt8) (offset width : Nat) : Nat := leNat (slice bytes offset width)

/-- `view.setUint32(offset, value, true)` and its like for other widths. -/
def setUint (bytes : List UInt8) (offset width value : Nat) : List UInt8 :=
  overwrite bytes offset (leBytes width value)

/-- The stored checksum field is the checksum of the rest. -/
def setChecksum (bytes : List UInt8) (offset : Nat) : List UInt8 :=
  setUint bytes offset 4 (crc32WithZeroedRange bytes offset 4).toNat

def requireMagic (bytes magic : List UInt8) (label : String) : Except StoreError Unit :=
  throwIf (slice bytes 0 magic.length ≠ magic) (.corruptStore s!"{label} magic is invalid")

def requireZero (bytes : List UInt8) (start stop : Nat) (label : String) :
    Except StoreError Unit :=
  throwIf (¬ ∀ b ∈ slice bytes start (stop - start), b = 0)
    (.corruptStore s!"{label} padding is not canonical")

def requireChecksum (bytes : List UInt8) (offset : Nat) (label : String) :
    Except StoreError Unit :=
  throwIf (getUint bytes offset 4 ≠ (crc32WithZeroedRange bytes offset 4).toNat)
    (.corruptStore s!"{label} checksum is invalid")

def requireCurrentIdentity (version profile : Nat) : Except StoreError Unit :=
  throwIf (version ≠ formatVersion ∨ profile ≠ limitsProfileVersion)
    (.storeRecreationRequired
      s!"store format {version}/limits profile {profile} is unsupported; delete the store and create it fresh")

/-! ### The arena header -/

structure ArenaHeader where
  extentSize : Nat
  limitsProfileVersion : Nat
  formatVersion : Nat
  deriving DecidableEq

def encodeArenaHeader (extentSize : Nat) : Except StoreError (List UInt8) := do
  let extentSize ← validateExtentSize extentSize
  let bytes := zeros arenaHeaderBytes
  let bytes := overwrite bytes 0 arenaMagic
  let bytes := setUint bytes 8 4 formatVersion
  let bytes := setUint bytes 12 4 limitsProfileVersion
  let bytes := setUint bytes 16 4 extentSize
  return setChecksum bytes arenaHeaderChecksumOffset

/-- `try { validateExtentSize(extentSize) } catch`, with the message of the rethrown error. -/
def checkExtentSize (extentSize : Nat) (message : String) : Except StoreError Unit :=
  match validateExtentSize extentSize with
  | .error _ => .error (.corruptStore message)
  | .ok _ => .ok ()

def decodeArenaHeader (bytes : List UInt8) (configuredExtentSize : Option Nat) :
    Except StoreError ArenaHeader := do
  forEach validateExtentSize configuredExtentSize.toList
  throwIf (bytes.length ≠ arenaHeaderBytes)
    (.corruptStore "arena header has the wrong length")
  requireMagic bytes arenaMagic "arena header"
  requireZero bytes 20 24 "arena header"
  requireZero bytes 28 bytes.length "arena header"
  requireChecksum bytes arenaHeaderChecksumOffset "arena header"
  let formatVersion := getUint bytes 8 4
  let limitsProfileVersion := getUint bytes 12 4
  requireCurrentIdentity formatVersion limitsProfileVersion
  let extentSize := getUint bytes 16 4
  checkExtentSize extentSize "arena header extent size is invalid"
  forEach (fun configured => throwIf (configured ≠ extentSize)
    (.extentSizeMismatch configured extentSize)) configuredExtentSize.toList
  return ⟨extentSize, limitsProfileVersion, formatVersion⟩

/-! ### Transaction frames -/

structure TxnFrame where
  generation : Nat
  sequence : Nat
  record : TxnRecord
  deriving DecidableEq

structure TxnFrameHeader where
  generation : Nat
  sequence : Nat
  payloadLength : Nat
  frameBytes : Nat
  deriving DecidableEq

def txnFrameBytes (record : TxnRecord) : Except StoreError Nat := do
  let payloadBytes ← estimateTxnPayloadBytes record
  throwIf (payloadBytes > maxFramePayloadBytes)
    (.storeLimit s!"transaction payload exceeds {maxFramePayloadBytes} bytes")
  return txnFrameHeaderBytes + payloadBytes

def inspectTxnFrameHeader (header : List UInt8) : Except StoreError TxnFrameHeader := do
  throwIf (header.length ≠ txnFrameHeaderBytes)
    (.corruptStore "transaction frame header has the wrong length")
  requireMagic header frameMagic "transaction frame"
  requireZero header 36 40 "transaction frame"
  requireZero header 44 48 "transaction frame"
  let payloadLength := getUint header 32 4
  throwIf (payloadLength > maxFramePayloadBytes)
    (.corruptStore "transaction payload declaration exceeds the frame limit")
  throwIf (getUint header 8 4 ≠ formatVersion ∨ getUint header 12 4 ≠ limitsProfileVersion)
    (.corruptStore "transaction frame format is invalid")
  return ⟨getUint header 16 8, getUint header 24 8, payloadLength,
    txnFrameHeaderBytes + payloadLength⟩

def encodeTxnFrame (frame : TxnFrame) : Except StoreError (List UInt8) := do
  let payload ← encodeTxnRecord frame.record
  throwIf (payload.length > maxFramePayloadBytes)
    (.storeLimit s!"transaction payload exceeds {maxFramePayloadBytes} bytes")
  let bytes := zeros (txnFrameHeaderBytes + payload.length)
  let bytes := overwrite bytes 0 frameMagic
  let bytes := setUint bytes 8 4 formatVersion
  let bytes := setUint bytes 12 4 limitsProfileVersion
  let generation ← checkedU64 frame.generation "frame generation"
  let bytes := setUint bytes 16 8 generation
  let sequence ← checkedU64 frame.sequence "frame sequence"
  let bytes := setUint bytes 24 8 sequence
  let bytes := setUint bytes 32 4 payload.length
  let bytes := overwrite bytes txnFrameHeaderBytes payload
  return setChecksum bytes frameChecksumOffset

def decodeTxnFrame (bytes : List UInt8) : Except StoreError TxnFrame := do
  throwIf (bytes.length < txnFrameHeaderBytes) (.corruptStore "transaction frame is truncated")
  let inspected ← inspectTxnFrameHeader (slice bytes 0 txnFrameHeaderBytes)
  throwIf (bytes.length ≠ inspected.frameBytes)
    (.corruptStore "transaction frame length is inconsistent")
  requireChecksum bytes frameChecksumOffset "transaction frame"
  let record ← decodeTxnRecord (bytes.drop txnFrameHeaderBytes)
  return ⟨inspected.generation, inspected.sequence, record⟩

/-! ### Activation slots -/

def metadataFileCode : MetadataFile → Nat
  | .a => 0
  | .b => 1

def decodeMetadataFile (value : Nat) : Except StoreError MetadataFile :=
  if value = 0 then .ok .a
  else if value = 1 then .ok .b
  else .error (.corruptStore "metadata file selector is invalid")

structure ActivationRecord where
  sequence : Nat
  metadataFile : MetadataFile
  generation : Nat
  baseEnd : Nat
  baseDigest : Nat
  deriving DecidableEq

def encodeActivationSlot (record : ActivationRecord) : Except StoreError (List UInt8) := do
  throwIf (record.sequence = 0 ∨ record.generation = 0 ∨ record.baseEnd < metadataHeaderBytes)
    (.storeLimit "activation identity values are outside the encodable domain")
  let bytes := zeros activationSlotBytes
  let bytes := overwrite bytes 0 activationMagic
  let bytes := setUint bytes 8 4 formatVersion
  let bytes := setUint bytes 12 4 limitsProfileVersion
  let sequence ← checkedU64 record.sequence "activation sequence"
  let bytes := setUint bytes 16 8 sequence
  let bytes := setUint bytes 24 1 (metadataFileCode record.metadataFile)
  let generation ← checkedU64 record.generation "activation generation"
  let bytes := setUint bytes 32 8 generation
  let baseEnd ← checkedU64 record.baseEnd "activation base end"
  let bytes := setUint bytes 40 8 baseEnd
  throwIf (record.baseDigest > maxU32)
    (.storeLimit "activation base digest is outside the unsigned 32-bit range")
  let bytes := setUint bytes 48 4 record.baseDigest
  return setChecksum bytes activationChecksumOffset

def decodeActivationSlot (bytes : List UInt8) : Except StoreError ActivationRecord := do
  throwIf (bytes.length ≠ activationSlotBytes)
    (.corruptStore "activation slot has the wrong length")
  requireMagic bytes activationMagic "activation slot"
  requireZero bytes 25 32 "activation slot"
  requireZero bytes 56 bytes.length "activation slot"
  requireChecksum bytes activationChecksumOffset "activation slot"
  requireCurrentIdentity (getUint bytes 8 4) (getUint bytes 12 4)
  let sequence := getUint bytes 16 8
  let generation := getUint bytes 32 8
  let baseEnd := getUint bytes 40 8
  throwIf (sequence = 0 ∨ generation = 0 ∨ baseEnd < metadataHeaderBytes)
    (.corruptStore "activation slot contains invalid identity values")
  let metadataFile ← decodeMetadataFile (getUint bytes 24 1)
  return ⟨sequence, metadataFile, generation, baseEnd, getUint bytes 48 4⟩

/-- `if (cause instanceof CorruptStoreError) return null; throw cause;` -/
def nullIfCorrupt {α : Type} : Except StoreError α → Except StoreError (Option α)
  | .ok value => .ok (some value)
  | .error (.corruptStore _) => .ok none
  | .error cause => .error cause

def tryDecodeActivationSlot (bytes : List UInt8) : Except StoreError (Option ActivationRecord) :=
  nullIfCorrupt (decodeActivationSlot bytes)

structure ActivationPairSelection where
  selected : ActivationRecord
  other : Option ActivationRecord
  deriving DecidableEq

/-- The choice between two valid slots. -/
def selectNewer (left right : ActivationRecord) : Except StoreError ActivationPairSelection := do
  let older := if left.sequence < right.sequence then left else right
  let newer := if left.sequence < right.sequence then right else left
  throwIf (newer.sequence ≠ older.sequence + 1 ∨ newer.metadataFile = older.metadataFile)
    (.corruptStore "activation slots do not form one exact alternating progression")
  return ⟨newer, some older⟩

def selectActivationPair (leftBytes rightBytes : List UInt8) :
    Except StoreError ActivationPairSelection := do
  let left ← tryDecodeActivationSlot leftBytes
  let right ← tryDecodeActivationSlot rightBytes
  match left, right with
  | none, none => .error (.corruptStore "both activation slots are invalid")
  | none, some right => return ⟨right, none⟩
  | some left, none => return ⟨left, none⟩
  | some left, some right => selectNewer left right

end Opfs
