/-
The reducer (`core/state-machine.ts`): the one implementation that both the live
commit and the replay of a log run.

The source changes the state in place, so a throw leaves behind whatever the
statements before it did.  `EStateM.Result` keeps exactly that: `.error e s` is a
throw that left the state `s`.  An object changed through a reference is the map
entry it was looked up under.
-/
import Pgxsinkit.Opfs.Plan

namespace Opfs

open Checked

/-- What a call that mutates the state ends with. -/
abbrev ApplyResult := EStateM.Result StoreError VfsState Unit

/-- Run the checks of a reducer, then its mutations; a failing check leaves the state alone. -/
def checkedThen {α : Type} (state : VfsState) (check : Except StoreError α)
    (mutate : α → VfsState) : ApplyResult :=
  match check with
  | .error e => .error e state
  | .ok a => .ok () (mutate a)

@[simp] theorem checkedThen_eq_ok {α : Type} {state state' : VfsState}
    {check : Except StoreError α} {mutate : α → VfsState} :
    checkedThen state check mutate = .ok () state' ↔ ∃ a, check = .ok a ∧ mutate a = state' := by
  cases check <;> simp [checkedThen]

theorem checkedThen_error_state {α : Type} {state state' : VfsState} {e : StoreError}
    {check : Except StoreError α} {mutate : α → VfsState}
    (h : checkedThen state check mutate = .error e state') : state' = state := by
  cases check with
  | error _ => simp only [checkedThen, EStateM.Result.error.injEq] at h; exact h.2.symm
  | ok _ => simp [checkedThen] at h

/-! ### Mutations -/

/-- Mutate the inode object found under `key`. -/
def modifyInode (state : VfsState) (key : Nat) (f : Inode → Inode) : VfsState :=
  match state.inodes.get? key with
  | some inode => { state with inodes := state.inodes.set key (f inode) }
  | none => state

def Inode.mapChildren (f : OrdMap JsString Nat → OrdMap JsString Nat) (inode : Inode) : Inode :=
  match inode.body with
  | .directory children => { inode with body := .directory (f children) }
  | _ => inode

/-- The four statements every creating record ends with. -/
def linkNewInode (state : VfsState) (parentId : Nat) (parent : Inode) (name : JsString)
    (inode : Inode) (nextInodeId : Nat) : VfsState :=
  let state := modifyInode state parentId (Inode.mapChildren (·.set name inode.id))
  { state with
    inodes := state.inodes.set inode.id inode
    parentByInode := state.parentByInode.set inode.id ⟨parent.id, name⟩
    nextInodeId }

/-- Remove an entry and its inode; the parent takes the record's timestamps. -/
def unlinkInode (state : VfsState) (parentId : Nat) (name : JsString) (inodeId : Nat)
    (mtimeMs ctimeMs : Nat) : VfsState :=
  let state := modifyInode state parentId fun parent =>
    { parent.mapChildren (·.delete name) with mtimeMs, ctimeMs }
  { state with
    inodes := state.inodes.delete inodeId
    parentByInode := state.parentByInode.delete inodeId }

/-- Take an available extent, or grow the arena by the next fresh one. -/
def takeExtent (allocator : AllocatorState) (extentId : Nat) : AllocatorState :=
  if extentId < allocator.totalExtents then
    { allocator with available := allocator.available.delete extentId }
  else { allocator with totalExtents := allocator.totalExtents + 1 }

def ownExtent (inodeId : Nat) (allocator : AllocatorState) (extentId : Nat) : AllocatorState :=
  { takeExtent allocator extentId with ownedBy := allocator.ownedBy.set extentId inodeId }

def reserveExtent (allocator : AllocatorState) (extentId : Nat) : AllocatorState :=
  { takeExtent allocator extentId with quarantine := allocator.quarantine.set extentId none }

def releaseExtent (allocator : AllocatorState) (extentId : Nat) : AllocatorState :=
  { allocator with
    ownedBy := allocator.ownedBy.delete extentId
    quarantine := allocator.quarantine.set extentId none }

/-! ### Checks -/

/-- The copy of a directory that earlier entries of the record may already have changed. -/
def stagedDirectory (state : VfsState) (staged : OrdMap Nat (OrdMap JsString Nat))
    (inodeId : Nat) : Except StoreError (OrdMap JsString Nat) :=
  match staged.get? inodeId with
  | some children => .ok children
  | none => do
    let (_, children) ← directoryById state inodeId
    return children

def validateCreateLoop (state : VfsState) (staged : OrdMap Nat (OrdMap JsString Nat))
    (expectedInodeId : Nat) : List CreateDirectoryChoice → Except StoreError Unit
  | [] => .ok ()
  | entry :: rest => do
    let _ ← validatePathComponent entry.name
    let _ ← validateMode entry.mode
    let _ ← validateTimestamp entry.atimeMs
    let _ ← validateTimestamp entry.mtimeMs
    let _ ← validateTimestamp entry.ctimeMs
    throwIf (entry.inodeId ≠ expectedInodeId ∨ entry.inodeId > maxU64)
      (.fsError .EINVAL "createDirectories record has a non-canonical inode sequence")
    let children ← stagedDirectory state staged entry.parentId
    throwIf (children.has entry.name = true) (.fsError .EEXIST "directory entry already exists")
    let expected ← advanceNextInodeId expectedInodeId
    validateCreateLoop state
      ((staged.set entry.parentId (children.set entry.name entry.inodeId)).set entry.inodeId
        .empty) expected rest

def validateCreateDirectories (state : VfsState) (entries : List CreateDirectoryChoice) :
    Except StoreError Unit := do
  throwIf (entries.length = 0) (.fsError .EINVAL "createDirectories record is empty")
  validateCreateLoop state .empty state.nextInodeId entries
  throwIf (state.inodes.size + entries.length > maxInodes)
    (.storeLimit s!"inode count would exceed {maxInodes}")

/-- One choice of `validateExtentAssignment`: an available extent, or the next fresh one. -/
def scanChoice (state : VfsState) (nextFresh extentId : Nat) : Except StoreError Nat :=
  if extentId < state.allocator.totalExtents then do
    throwIf (state.allocator.available.has extentId = false)
      (.fsError .EINVAL "extent choice is not safely available")
    return nextFresh
  else do
    throwIf (extentId ≠ nextFresh)
      (.fsError .EINVAL "fresh extent choices must grow the arena contiguously")
    return nextFresh + 1

/-- The scan of `validateExtentAssignment`: the next fresh extent after the choices. -/
def scanAssignment (state : VfsState) (extents : List Nat) : Except StoreError Nat :=
  foldChecked (scanChoice state) state.allocator.totalExtents extents

def validateExtentAssignment (state : VfsState) (runs : List ExtentRun) (expectedCount : Nat) :
    Except StoreError (List Nat) := do
  let extents ← expandExtentRuns runs maxExtentsPerInode
  throwIf (extents.length ≠ expectedCount)
    (.fsError .EINVAL "extent choices do not cover the file size exactly")
  throwIf (¬ extents.Nodup) (.fsError .EINVAL "extent choices contain a duplicate")
  let nextFresh ← scanAssignment state extents
  throwIf (nextFresh > maxTotalExtents)
    (.storeLimit s!"total extent count would exceed {maxTotalExtents}")
  return extents

/-- Every extent about to be released must be owned by the inode that releases it. -/
def checkOwnership (state : VfsState) (inodeId : Nat) (extents : List Nat) (message : String) :
    Except StoreError Unit :=
  forEach (fun (extentId : Nat) =>
    throwIf (state.allocator.ownedBy.get? extentId ≠ some inodeId ∨
        state.allocator.quarantine.has extentId = true)
      (.storeLimit message)) extents

/-! ### One reducer per record kind -/

/-- The loop of `createDirectories`; its calls do not throw once the record is validated. -/
def applyCreateLoop (state : VfsState) : List CreateDirectoryChoice → ApplyResult
  | [] => .ok () state
  | entry :: rest =>
    match directoryById state entry.parentId with
    | .error e => .error e state
    | .ok (parent, _) =>
      let created : Inode :=
        ⟨entry.inodeId, entry.mode, entry.atimeMs, entry.mtimeMs, entry.ctimeMs, .directory .empty⟩
      match advanceNextInodeId created.id with
      | .error e =>
        .error e (linkNewInode state entry.parentId parent entry.name created state.nextInodeId)
      | .ok next =>
        applyCreateLoop (linkNewInode state entry.parentId parent entry.name created next) rest

def applyCreateDirectories (state : VfsState) (entries : List CreateDirectoryChoice) :
    ApplyResult :=
  match validateCreateDirectories state entries with
  | .error e => .error e state
  | .ok _ => applyCreateLoop state entries

def applyCreateFile (state : VfsState) (record : CreateFileRecord) : ApplyResult :=
  checkedThen state
    (do
      let _ ← validatePathComponent record.name
      let (parent, children) ← directoryById state record.parentId
      throwIf (children.has record.name = true)
        (.fsError .EEXIST "directory entry already exists")
      throwIf (record.inodeId ≠ state.nextInodeId ∨ state.inodes.has record.inodeId = true)
        (.fsError .EINVAL "createFile record has a non-canonical inode ID")
      let nextInodeId ← advanceNextInodeId record.inodeId
      let _ ← validateMode record.mode
      let _ ← validateTimestamp record.atimeMs
      let _ ← validateTimestamp record.mtimeMs
      let _ ← validateTimestamp record.ctimeMs
      let size ← checkedU64 record.size "file size"
      let count ← extentCountForSize size state.extentSize
      let extents ← validateExtentAssignment state record.extents count
      throwIf (state.inodes.size ≥ maxInodes)
        (.storeLimit s!"inode count would exceed {maxInodes}")
      return (parent, nextInodeId, size, extents))
    fun (parent, nextInodeId, size, extents) =>
      let inode : Inode :=
        ⟨record.inodeId, record.mode, record.atimeMs, record.mtimeMs, record.ctimeMs,
          .file size extents⟩
      let state :=
        { state with allocator := extents.foldl (ownExtent inode.id) state.allocator }
      linkNewInode state record.parentId parent record.name inode nextInodeId

def applyRemoveFile (state : VfsState) (record : RemoveRecord) : ApplyResult :=
  checkedThen state
    (do
      let _ ← validatePathComponent record.name
      let _ ← validateTimestamp record.parentMtimeMs
      let _ ← validateTimestamp record.parentCtimeMs
      let (_, children) ← directoryById state record.parentId
      let inode ← orThrow ((children.get? record.name).bind state.inodes.get?)
        (.fsError .ENOENT "file does not exist")
      throwIf (inode.body.isDirectory = true) (.fsError .EISDIR "path is a directory")
      checkOwnership state inode.id inode.body.extents "file extent ownership is inconsistent"
      return inode)
    fun inode =>
      let state := unlinkInode state record.parentId record.name inode.id
        record.parentMtimeMs record.parentCtimeMs
      { state with allocator := inode.body.extents.foldl releaseExtent state.allocator }

def applyCreateSymlink (state : VfsState) (record : CreateSymlinkRecord) : ApplyResult :=
  checkedThen state
    (do
      let _ ← validatePathComponent record.name
      let (parent, children) ← directoryById state record.parentId
      throwIf (children.has record.name = true)
        (.fsError .EEXIST "directory entry already exists")
      throwIf (record.inodeId ≠ state.nextInodeId ∨ state.inodes.has record.inodeId = true)
        (.fsError .EINVAL "createSymlink record has a non-canonical inode ID")
      let nextInodeId ← advanceNextInodeId record.inodeId
      let _ ← validateMode record.mode
      let _ ← validateTimestamp record.atimeMs
      let _ ← validateTimestamp record.mtimeMs
      let _ ← validateTimestamp record.ctimeMs
      let _ ← validateSymlinkTarget record.target
      throwIf (state.inodes.size ≥ maxInodes)
        (.storeLimit s!"inode count would exceed {maxInodes}")
      return (parent, nextInodeId))
    fun (parent, nextInodeId) =>
      let inode : Inode :=
        ⟨record.inodeId, record.mode, record.atimeMs, record.mtimeMs, record.ctimeMs,
          .symlink record.target⟩
      linkNewInode state record.parentId parent record.name inode nextInodeId

def applyChangeMode (state : VfsState) (inodeId mode ctimeMs : Nat) : ApplyResult :=
  checkedThen state
    (do
      let _ ← inodeById state inodeId
      let mode ← validateMode mode
      let ctimeMs ← validateTimestamp ctimeMs
      return (mode, ctimeMs))
    fun (mode, ctimeMs) => modifyInode state inodeId fun inode => { inode with mode, ctimeMs }

def applyChangeTimes (state : VfsState) (inodeId atimeMs mtimeMs ctimeMs : Nat) : ApplyResult :=
  checkedThen state
    (do
      let _ ← inodeById state inodeId
      let atimeMs ← validateTimestamp atimeMs
      let mtimeMs ← validateTimestamp mtimeMs
      let ctimeMs ← validateTimestamp ctimeMs
      return (atimeMs, mtimeMs, ctimeMs))
    fun (atimeMs, mtimeMs, ctimeMs) =>
      modifyInode state inodeId fun inode => { inode with atimeMs, mtimeMs, ctimeMs }

def applyResizeFile (state : VfsState) (record : ResizeFileRecord) : ApplyResult :=
  checkedThen state
    (do
      let (inode, _, extents) ← fileById state record.inodeId
      let size ← checkedU64 record.size "file size"
      let required ← extentCountForSize size state.extentSize
      let allocated ← validateExtentAssignment state record.allocated (required - extents.length)
      checkOwnership state inode.id (extents.drop required)
        "file extent ownership is inconsistent"
      let mtimeMs ← validateTimestamp record.mtimeMs
      let ctimeMs ← validateTimestamp record.ctimeMs
      return (inode, size, extents.take required, allocated, extents.drop required,
        mtimeMs, ctimeMs))
    fun (inode, size, retained, allocated, released, mtimeMs, ctimeMs) =>
      let allocator := allocated.foldl (ownExtent inode.id) state.allocator
      let allocator := released.foldl releaseExtent allocator
      modifyInode { state with allocator } record.inodeId fun inode =>
        { inode with body := .file size (retained ++ allocated), mtimeMs, ctimeMs }

def applyRemoveDirectory (state : VfsState) (record : RemoveRecord) : ApplyResult :=
  checkedThen state
    (do
      let _ ← validatePathComponent record.name
      let (_, children) ← directoryById state record.parentId
      let inode ← orThrow ((children.get? record.name).bind state.inodes.get?)
        (.fsError .ENOENT "directory does not exist")
      throwIf (inode.body.isDirectory = false) (.fsError .ENOTDIR "path is not a directory")
      throwIf (inode.body.children.size ≠ 0) (.fsError .ENOTEMPTY "directory is not empty")
      let mtimeMs ← validateTimestamp record.parentMtimeMs
      let ctimeMs ← validateTimestamp record.parentCtimeMs
      return (inode, mtimeMs, ctimeMs))
    fun (inode, mtimeMs, ctimeMs) =>
      unlinkInode state record.parentId record.name inode.id mtimeMs ctimeMs

/-- Remove the file or empty directory that a rename replaces. -/
def removeReplaced (state : VfsState) (record : RenameRecord) (destination : Option Inode) :
    VfsState :=
  match destination with
  | none => state
  | some destination =>
    let state := modifyInode state record.destinationParentId
      (Inode.mapChildren (·.delete record.destinationName))
    { state with
      inodes := state.inodes.delete destination.id
      parentByInode := state.parentByInode.delete destination.id
      allocator := destination.body.extents.foldl releaseExtent state.allocator }

/-- The timestamps of a rename. -/
def stampRename (state : VfsState) (record : RenameRecord) (sourceId timestampMs : Nat) :
    VfsState :=
  let state := modifyInode state sourceId fun inode => { inode with ctimeMs := timestampMs }
  let state := modifyInode state record.sourceParentId fun inode =>
    { inode with mtimeMs := timestampMs, ctimeMs := timestampMs }
  modifyInode state record.destinationParentId fun inode =>
    { inode with mtimeMs := timestampMs, ctimeMs := timestampMs }

/-- The mutations of `applyRename`, in the source's order. -/
def moveEntry (state : VfsState) (record : RenameRecord) (source : Inode)
    (destination : Option Inode) (destinationParent : Inode) (timestampMs : Nat) : VfsState :=
  let state := modifyInode state record.sourceParentId
    (Inode.mapChildren (·.delete record.sourceName))
  let state := removeReplaced state record destination
  let state := modifyInode state record.destinationParentId
    (Inode.mapChildren (·.set record.destinationName source.id))
  stampRename
    { state with
      parentByInode := state.parentByInode.set source.id
        ⟨destinationParent.id, record.destinationName⟩ } record source.id timestampMs

/-- The extents of the replaced file must be owned by it. -/
def checkReplacement (state : VfsState) (destination : Option Inode) : Except StoreError Unit :=
  match destination with
  | none => .ok ()
  | some destination =>
    checkOwnership state destination.id destination.body.extents
      "replacement extent ownership is inconsistent"

def applyRename (state : VfsState) (record : RenameRecord) : ApplyResult :=
  checkedThen state
    (do
      let _ ← validatePathComponent record.sourceName
      let _ ← validatePathComponent record.destinationName
      throwIf (record.sourceParentId = record.destinationParentId ∧
          record.sourceName = record.destinationName)
        (.fsError .EINVAL "rename source and destination are identical")
      let timestampMs ← validateTimestamp record.timestampMs
      let (_, sourceChildren) ← directoryById state record.sourceParentId
      let (destinationParent, destinationChildren) ←
        directoryById state record.destinationParentId
      let sourceId ← orThrow (sourceChildren.get? record.sourceName)
        (.fsError .ENOENT "rename source does not exist")
      let source ← inodeById state sourceId
      let destination ← destinationInode state (destinationChildren.get? record.destinationName)
      validateRenameTypes source destination
      checkNotInside state source destinationParent
      validateRenamedSubtreeBounds state source destinationParent record.destinationName
      checkReplacement state destination
      return (source, destination, destinationParent, timestampMs))
    fun (source, destination, destinationParent, timestampMs) =>
      moveEntry state record source destination destinationParent timestampMs

def applyReserveQuarantine (state : VfsState) (extents : List ExtentRun) : ApplyResult :=
  checkedThen state
    (do
      let declaredCount := (extents.map ExtentRun.count).sum
      throwIf (declaredCount = 0 ∨ declaredCount > maxExtentsPerInode)
        (.storeLimit "orphan reservation extent count is outside limits")
      validateExtentAssignment state extents declaredCount)
    fun extents =>
      { state with allocator := extents.foldl reserveExtent state.allocator }

def applyRecord (state : VfsState) : TxnRecord → ApplyResult
  | .createDirectories entries => applyCreateDirectories state entries
  | .createFile record => applyCreateFile state record
  | .removeFile record => applyRemoveFile state record
  | .changeMode inodeId mode ctimeMs => applyChangeMode state inodeId mode ctimeMs
  | .changeTimes inodeId atimeMs mtimeMs ctimeMs =>
    applyChangeTimes state inodeId atimeMs mtimeMs ctimeMs
  | .resizeFile record => applyResizeFile state record
  | .removeDirectory record => applyRemoveDirectory state record
  | .rename record => applyRename state record
  | .createSymlink record => applyCreateSymlink state record
  | .reserveQuarantine extents => applyReserveQuarantine state extents

/-- A projected size bound to the live state and the record it was preflighted for.  A
session's state objects have pairwise different generations, so the generation stands
for the identity of the object. -/
structure PreparedTxnProjection where
  projectedBasePayloadBytes : Nat
  stateGeneration : Nat
  record : TxnRecord

def prepareTxnProjection (state : VfsState) (record : TxnRecord) :
    Except StoreError PreparedTxnProjection := do
  let projected ← preflightTxn state record defaultPreflightLimits
  return ⟨projected, state.generation, record⟩

/-- `prepared?.projectedBasePayloadBytes ?? preflightTxn(state, record)`, after the check
that a prepared projection belongs to this transition. -/
def projectedBytesFor (state : VfsState) (record : TxnRecord)
    (prepared : Option PreparedTxnProjection) : Except StoreError Nat :=
  match prepared with
  | none => preflightTxn state record defaultPreflightLimits
  | some prepared => do
    throwIf (prepared.stateGeneration ≠ state.generation ∨ prepared.record ≠ record)
      (.storeLimit "prepared transaction projection does not match the live transition")
    return prepared.projectedBasePayloadBytes

def applyTxn (state : VfsState) (record : TxnRecord)
    (prepared : Option PreparedTxnProjection) : ApplyResult :=
  match projectedBytesFor state record prepared with
  | .error e => .error e state
  | .ok basePayloadBytes =>
    match applyRecord state record with
    | .error e state => .error e state
    | .ok _ state => .ok () { state with basePayloadBytes }

end Opfs
