/-
Transaction records on disk (`core/codec.ts`).

A record is a code and its fields.  The encoder sizes its buffer from
`estimateTxnPayloadBytes`, which lives in another file and counts by hand what the
writers write.
-/
import Pgxsinkit.Lib.Layout
import Pgxsinkit.Opfs.ApplySpec
import Pgxsinkit.Opfs.Binary

namespace Opfs

open Bytes Checked Unicode

/-! ### Writing a record -/

section writers

open BinaryWriter

def writeExtentRuns (runs : List ExtentRun) : BinaryWriter → Except StoreError BinaryWriter :=
  u32 runs.length >=> writeAll (fun run => u64 run.start >=> u32 run.count) runs

/-- The fields that the three creating records begin with. -/
def writeDirectoryEntry (entry : CreateDirectoryChoice) :
    BinaryWriter → Except StoreError BinaryWriter :=
  u64 entry.parentId >=> string entry.name >=> u64 entry.inodeId >=> u32 entry.mode >=>
    u64 entry.atimeMs >=> u64 entry.mtimeMs >=> u64 entry.ctimeMs

def writeRemove (record : RemoveRecord) : BinaryWriter → Except StoreError BinaryWriter :=
  u64 record.parentId >=> string record.name >=> u64 record.parentMtimeMs >=>
    u64 record.parentCtimeMs

/-- `RECORD_CODES` -/
def recordCode : TxnRecord → Nat
  | .createDirectories .. => 1
  | .createFile .. => 2
  | .removeFile .. => 3
  | .changeMode .. => 4
  | .changeTimes .. => 5
  | .resizeFile .. => 6
  | .removeDirectory .. => 7
  | .rename .. => 8
  | .reserveQuarantine .. => 9
  | .createSymlink .. => 10

def operationCode : ResizeOperation → Nat
  | .truncate => 0
  | .write => 1

def writeTxnFields : TxnRecord → BinaryWriter → Except StoreError BinaryWriter
  | .createDirectories entries => u32 entries.length >=> writeAll writeDirectoryEntry entries
  | .createFile record =>
    writeDirectoryEntry record.header >=> u64 record.size >=> writeExtentRuns record.extents
  | .removeFile record | .removeDirectory record => writeRemove record
  | .changeMode inodeId mode ctimeMs => u64 inodeId >=> u32 mode >=> u64 ctimeMs
  | .changeTimes inodeId atimeMs mtimeMs ctimeMs =>
    u64 inodeId >=> u64 atimeMs >=> u64 mtimeMs >=> u64 ctimeMs
  | .resizeFile record =>
    u8 (operationCode record.operation) >=> u64 record.inodeId >=> u64 record.size >=>
      writeExtentRuns record.allocated >=> u64 record.mtimeMs >=> u64 record.ctimeMs
  | .rename record =>
    u64 record.sourceParentId >=> string record.sourceName >=> u64 record.destinationParentId >=>
      string record.destinationName >=> u64 record.timestampMs
  | .createSymlink record => writeDirectoryEntry record.header >=> symlinkTarget record.target
  | .reserveQuarantine extents => writeExtentRuns extents

def encodeTxnRecord (record : TxnRecord) : Except StoreError (List UInt8) := do
  let bytes ← estimateTxnPayloadBytes record
  BinaryWriter.create bytes 0 >>= (u8 (recordCode record) >=> writeTxnFields record) >>= finish

end writers

/-! ### Reading a record -/

section readers

open BinaryReader

def readBoundedCount (maximum : Nat) (label : String) : BinaryReader Nat := do
  let count ← u32
  Reader.rejectIf (count > maximum) (.corruptStore s!"{label} count exceeds {maximum}")
  return count

def readExtentRun (acc : List ExtentRun × Nat) : BinaryReader (List ExtentRun × Nat) := do
  let start ← u64
  let count ← u32
  Reader.rejectIf (count = 0 ∨ acc.2 + count > maxExtentsPerInode)
    (.corruptStore "extent run count is invalid")
  return (acc.1 ++ [⟨start, count⟩], acc.2 + count)

def readExtentRuns : BinaryReader (List ExtentRun) := do
  let runCount ← readBoundedCount maxExtentsPerInode "extent run"
  let (runs, _) ← Reader.fold readExtentRun runCount ([], 0)
  return runs

def readDirectoryEntry : BinaryReader CreateDirectoryChoice := do
  let parentId ← u64
  let name ← string
  let inodeId ← u64
  let mode ← u32
  let atimeMs ← u64
  let mtimeMs ← u64
  let ctimeMs ← u64
  return ⟨parentId, name, inodeId, mode, atimeMs, mtimeMs, ctimeMs⟩

def readCreateDirectories : BinaryReader TxnRecord := do
  let count ← readBoundedCount maxInodes "created directory"
  Reader.rejectIf (count = 0) (.corruptStore "directory transaction must not be empty")
  let entries ← Reader.fold (fun entries => do
    let entry ← readDirectoryEntry
    return entries ++ [entry]) count []
  return .createDirectories entries

def readCreateFile : BinaryReader TxnRecord := do
  let header ← readDirectoryEntry
  let size ← u64
  let extents ← readExtentRuns
  return .createFile ⟨header.parentId, header.name, header.inodeId, header.mode, header.atimeMs,
    header.mtimeMs, header.ctimeMs, size, extents⟩

def readRemove : BinaryReader RemoveRecord := do
  let parentId ← u64
  let name ← string
  let parentMtimeMs ← u64
  let parentCtimeMs ← u64
  return ⟨parentId, name, parentMtimeMs, parentCtimeMs⟩

def readChangeMode : BinaryReader TxnRecord := do
  let inodeId ← u64
  let mode ← u32
  let ctimeMs ← u64
  return .changeMode inodeId mode ctimeMs

def readChangeTimes : BinaryReader TxnRecord := do
  let inodeId ← u64
  let atimeMs ← u64
  let mtimeMs ← u64
  let ctimeMs ← u64
  return .changeTimes inodeId atimeMs mtimeMs ctimeMs

def readResizeFile : BinaryReader TxnRecord := do
  let operation ← u8
  Reader.rejectIf (operation ≠ 0 ∧ operation ≠ 1) (.corruptStore "resize operation is invalid")
  let inodeId ← u64
  let size ← u64
  let allocated ← readExtentRuns
  let mtimeMs ← u64
  let ctimeMs ← u64
  return .resizeFile ⟨if operation = 0 then .truncate else .write, inodeId, size, allocated,
    mtimeMs, ctimeMs⟩

def readRename : BinaryReader TxnRecord := do
  let sourceParentId ← u64
  let sourceName ← string
  let destinationParentId ← u64
  let destinationName ← string
  let timestampMs ← u64
  return .rename ⟨sourceParentId, sourceName, destinationParentId, destinationName, timestampMs⟩

def readCreateSymlink : BinaryReader TxnRecord := do
  let header ← readDirectoryEntry
  let target ← symlinkTarget
  return .createSymlink ⟨header.parentId, header.name, header.inodeId, header.mode,
    header.atimeMs, header.mtimeMs, header.ctimeMs, target⟩

def readTxnFields : Nat → BinaryReader TxnRecord
  | 1 => readCreateDirectories
  | 2 => readCreateFile
  | 3 => TxnRecord.removeFile <$> readRemove
  | 4 => readChangeMode
  | 5 => readChangeTimes
  | 6 => readResizeFile
  | 7 => TxnRecord.removeDirectory <$> readRemove
  | 8 => readRename
  | 9 => TxnRecord.reserveQuarantine <$> readExtentRuns
  | 10 => readCreateSymlink
  | _ => throw (.corruptStore "transaction record type is invalid")

def readTxnRecord : BinaryReader TxnRecord := do
  let type ← u8
  readTxnFields type

def decodeTxnRecord (bytes : List UInt8) : Except StoreError TxnRecord :=
  readAll readTxnRecord bytes

end readers

end Opfs
