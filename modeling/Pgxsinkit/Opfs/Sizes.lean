/-
Encoded sizes and the running size of the metadata base (`core/state-machine.ts`).

Every planner preflights its record: the frame payload must fit a frame, and the
base the next repack would write must fit the writer's limit.  The base size is
never recomputed by the live store; `projectedBaseDelta` predicts what a record
changes.  The pure functions (`bodyBytes`, `runsOf`, …) are what the checked ones
return on well-formed names.
-/
import Pgxsinkit.Opfs.State
import Mathlib

namespace Opfs

open Checked

def baseStateFixedBytes : Nat := 20
def directoryInodeFixedBytes : Nat := 41
def fileInodeFixedBytes : Nat := 49
/-- The common inode header plus the target's `u16` length prefix; the target bytes are added on. -/
def symlinkInodeFixedBytes : Nat := 39
def childFixedBytes : Nat := 10
/-- The mode a symbolic link carries: `S_IFLNK | 0777`, the only mode POSIX gives a link. -/
def symlinkMode : Nat := 0o120777

/-! ### Lookups -/

def directoryById (state : VfsState) (inodeId : Nat) :
    Except StoreError (Inode × OrdMap JsString Nat) :=
  match state.inodes.get? inodeId with
  | none => .error (.fsError .ENOENT "directory does not exist")
  | some inode =>
    match inode.body with
    | .directory children => .ok (inode, children)
    | _ => .error (.fsError .ENOTDIR "path component is not a directory")

def inodeById (state : VfsState) (inodeId : Nat) : Except StoreError Inode :=
  orThrow (state.inodes.get? inodeId) (.fsError .ENOENT "inode does not exist")

def fileById (state : VfsState) (inodeId : Nat) :
    Except StoreError (Inode × Nat × List Nat) := do
  let inode ← inodeById state inodeId
  match inode.body with
  | .file size extents => return (inode, size, extents)
  | _ => throw (.fsError .EISDIR "inode is not a file")

@[simp] theorem directoryById_eq_ok {state : VfsState} {id : Nat} {inode : Inode}
    {children : OrdMap JsString Nat} :
    directoryById state id = .ok (inode, children) ↔
      state.inodes.get? id = some inode ∧ inode.body = .directory children := by
  unfold directoryById
  cases h : state.inodes.get? id with
  | none => simp
  | some i =>
    cases hb : i.body <;> simp [hb]
    · rintro rfl
      rw [hb, InodeBody.directory.injEq]
    all_goals
      rintro rfl
      rw [hb]
      exact InodeBody.noConfusion

@[simp] theorem inodeById_eq_ok {state : VfsState} {id : Nat} {inode : Inode} :
    inodeById state id = .ok inode ↔ state.inodes.get? id = some inode := by
  simp [inodeById]

@[simp] theorem fileById_eq_ok {state : VfsState} {id : Nat} {inode : Inode} {size : Nat}
    {extents : List Nat} :
    fileById state id = .ok (inode, size, extents) ↔
      state.inodes.get? id = some inode ∧ inode.body = .file size extents := by
  simp only [fileById, bind_eq_ok, inodeById_eq_ok]
  constructor
  · rintro ⟨i, hi, h⟩
    cases hb : i.body <;> rw [hb] at h
    · exact absurd h throw_ne_ok
    · simp only [pure_eq_ok, Prod.mk.injEq] at h
      obtain ⟨rfl, rfl, rfl⟩ := h
      exact ⟨hi, hb⟩
    · exact absurd h throw_ne_ok
  · rintro ⟨hi, hb⟩
    exact ⟨inode, hi, by simp [hb]⟩

/-! ### Sizes -/

def childBaseBytes (name : JsString) : Except StoreError Nat := do
  let bytes ← encodedUtf8Length name
  return childFixedBytes + bytes

def inodeBaseBytes (inode : Inode) : Except StoreError Nat :=
  match inode.body with
  | .file _ extents => .ok (fileInodeFixedBytes + extents.length * 8)
  | .symlink target => do
    let bytes ← encodedUtf8Length target
    return symlinkInodeFixedBytes + bytes
  | .directory children =>
    foldChecked (fun bytes name => do
      let child ← childBaseBytes name
      return bytes + child) directoryInodeFixedBytes children.keys

def extentRunsPayloadBytes (runs : List ExtentRun) : Nat := 4 + runs.length * 12

def estimateTxnPayloadBytes : TxnRecord → Except StoreError Nat
  | .createDirectories entries =>
    foldChecked (fun bytes (entry : CreateDirectoryChoice) => do
      let name ← encodedUtf8Length entry.name
      return bytes + 8 + 2 + name + 8 + 4 + 24) 5 entries
  | .createFile record => do
    let name ← encodedUtf8Length record.name
    return 1 + 8 + 2 + name + 8 + 4 + 24 + 8 + extentRunsPayloadBytes record.extents
  | .removeFile record | .removeDirectory record => do
    let name ← encodedUtf8Length record.name
    return 1 + 8 + 2 + name + 16
  | .changeMode .. => return 1 + 8 + 4 + 8
  | .changeTimes .. => return 1 + 8 + 24
  | .resizeFile record => return 1 + 1 + 8 + 8 + extentRunsPayloadBytes record.allocated + 16
  | .rename record => do
    let source ← encodedUtf8Length record.sourceName
    let destination ← encodedUtf8Length record.destinationName
    return 1 + 8 + 2 + source + 8 + 2 + destination + 8
  | .createSymlink record => do
    let name ← encodedUtf8Length record.name
    let target ← encodedUtf8Length record.target
    return 1 + 8 + 2 + name + 8 + 4 + 24 + 2 + target
  | .reserveQuarantine extents => return 1 + extentRunsPayloadBytes extents

/-! ### Extent runs -/

def extentCountForSize (size : Int) (extentSize : Nat) : Except StoreError Nat := do
  let size ← checkedU64 size "file size"
  if size = 0 then return 0
  else do
    let count := (size + extentSize - 1) / extentSize
    throwIf (count > maxExtentsPerInode)
      (.storeLimit s!"file would exceed {maxExtentsPerInode} extents")
    return count

/-- One step of `toExtentRuns`: lengthen the last run, or start a new one. -/
def appendExtent (runs : List ExtentRun) (extentId : Nat) : List ExtentRun :=
  match runs.getLast? with
  | some last =>
    if last.start + last.count = extentId ∧ last.count < maxU32 then
      runs.dropLast ++ [{ last with count := last.count + 1 }]
    else runs ++ [⟨extentId, 1⟩]
  | none => runs ++ [⟨extentId, 1⟩]

def toExtentRuns (extents : List Nat) : Except StoreError (List ExtentRun) :=
  foldChecked (fun runs (extentId : Nat) => do
    let _ ← checkedU64 extentId "extent ID"
    return appendExtent runs extentId) [] extents

/-- The loop over one run of `expandExtentRuns`. -/
def expandRun (start : Nat) (extents : List Nat) (count : Nat) :
    Except StoreError (List Nat) :=
  foldChecked (fun extents (offset : Nat) => do
    let extentId ← checkedAdd start offset "extent ID"
    return extents ++ [extentId]) extents (List.range count)

def expandExtentRuns (runs : List ExtentRun) (maximum : Nat) :
    Except StoreError (List Nat) :=
  foldChecked (fun extents (run : ExtentRun) => do
    let _ ← checkedU64 run.start "extent run start"
    throwIf (run.count > maxSafeInteger ∨ run.count = 0)
      (.fsError .EINVAL "extent run count must be a positive safe integer")
    throwIf (extents.length + run.count > maximum)
      (.storeLimit s!"extent list exceeds {maximum} entries")
    expandRun run.start extents run.count) [] runs

def selectedExtentsAlreadyAvailable (state : VfsState) (runs : List ExtentRun) :
    Except StoreError Nat := do
  let extents ← expandExtentRuns runs maxExtentsPerInode
  return extents.countP (· < state.allocator.totalExtents)

/-! ### The projected base -/

/-- What a rename changes at its destination. -/
def destinationBaseDelta (destinationName : JsString) :
    Option Inode → Except StoreError Int
  | none => do
    let bytes ← childBaseBytes destinationName
    return bytes
  | some destination => do
    let bytes ← inodeBaseBytes destination
    return -bytes + destination.body.extents.length * 16

/-- How the record changes the size of the base that the next repack writes. -/
def projectedBaseDelta (state : VfsState) : TxnRecord → Except StoreError Int
  | .createDirectories entries =>
    foldChecked (fun bytes (entry : CreateDirectoryChoice) => do
      let child ← childBaseBytes entry.name
      return bytes + directoryInodeFixedBytes + child) 0 entries
  | .createFile record => do
    let extents ← expandExtentRuns record.extents maxExtentsPerInode
    let reused ← selectedExtentsAlreadyAvailable state record.extents
    let child ← childBaseBytes record.name
    return fileInodeFixedBytes + extents.length * 8 + child - reused * 8
  | .removeFile record => do
    let (_, children) ← directoryById state record.parentId
    let inode ← orThrow
      (((children.get? record.name).bind state.inodes.get?).filter fun i => !i.body.isDirectory)
      (.fsError .ENOENT "file does not exist")
    let quarantined := inode.body.extents.length * 16
    let bytes ← inodeBaseBytes inode
    let child ← childBaseBytes record.name
    return -bytes - child + quarantined
  | .changeMode .. | .changeTimes .. => return 0
  | .resizeFile record => do
    let (_, _, extents) ← fileById state record.inodeId
    let required ← extentCountForSize record.size state.extentSize
    let allocatedCount := required - extents.length
    let releasedCount := extents.length - required
    let reused ← selectedExtentsAlreadyAvailable state record.allocated
    return ((allocatedCount : Int) - releasedCount) * 8 - reused * 8 + releasedCount * 16
  | .removeDirectory record => do
    let (_, children) ← directoryById state record.parentId
    let inode ← orThrow
      (((children.get? record.name).bind state.inodes.get?).filter fun i => i.body.isDirectory)
      (.fsError .ENOENT "directory does not exist")
    let bytes ← inodeBaseBytes inode
    let child ← childBaseBytes record.name
    return -bytes - child
  | .rename record => do
    let (_, sourceChildren) ← directoryById state record.sourceParentId
    let (_, destinationChildren) ← directoryById state record.destinationParentId
    let sourceBytes ← childBaseBytes record.sourceName
    let destinationDelta ← destinationBaseDelta record.destinationName
      ((destinationChildren.get? record.destinationName).bind state.inodes.get?)
    let _ ← orThrow (sourceChildren.get? record.sourceName)
      (.fsError .ENOENT "rename source does not exist")
    return -sourceBytes + destinationDelta
  | .createSymlink record => do
    let target ← encodedUtf8Length record.target
    let child ← childBaseBytes record.name
    return symlinkInodeFixedBytes + target + child
  | .reserveQuarantine extents => do
    let expanded ← expandExtentRuns extents maxExtentsPerInode
    let reused ← selectedExtentsAlreadyAvailable state extents
    return (expanded.length : Int) * 16 - reused * 8

structure PreflightLimits where
  maxFramePayloadBytes : Nat
  maxBasePayloadBytes : Nat

def defaultPreflightLimits : PreflightLimits :=
  ⟨maxFramePayloadBytes, maxMetadataBaseWriterBytes⟩

/-- The base size after the record.  A projected size that is no safe integer is out of
the limits as well, so the one range test covers both tests of the source. -/
def preflightTxn (state : VfsState) (record : TxnRecord)
    (limits : PreflightLimits) : Except StoreError Nat := do
  let payloadBytes ← estimateTxnPayloadBytes record
  throwIf (payloadBytes > limits.maxFramePayloadBytes)
    (.storeLimit s!"transaction payload would exceed {limits.maxFramePayloadBytes} bytes")
  let delta ← projectedBaseDelta state record
  let projected : Int := state.basePayloadBytes + delta
  throwIf (projected < 0 ∨ projected > limits.maxBasePayloadBytes)
    (.storeLimit s!"metadata base would exceed {limits.maxBasePayloadBytes} bytes")
  return projected.toNat

end Opfs
