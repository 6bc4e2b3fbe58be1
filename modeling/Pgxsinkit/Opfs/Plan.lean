/-
Path resolution and the planners (`core/state-machine.ts`).

A planner reads the state, checks its arguments and returns one record with every
choice made: inode ids, timestamps, extents.  It changes nothing.  A directory in
hand is its inode with its entries.  Recursions that follow the inode graph carry
a fuel that a tree never exhausts; running out stands for the unbounded recursion
the source would run into on a cyclic graph.
-/
import Pgxsinkit.Opfs.Sizes

namespace Opfs

open Checked

abbrev DirectoryInode := Inode × OrdMap JsString Nat

def createInitialState (extentSize : Nat) : Except StoreError VfsState := do
  let _ ← validateExtentSize extentSize
  let root : Inode := ⟨1, 0o40777, 0, 0, 0, .directory .empty⟩
  return {
    generation := 1
    nextInodeId := 2
    rootInodeId := root.id
    extentSize
    activeMetadataFile := .a
    retainedGenerations := ⟨some 1, none⟩
    basePayloadBytes := baseStateFixedBytes + directoryInodeFixedBytes
    inodes := OrdMap.empty.set root.id root
    parentByInode := .empty
    allocator := ⟨0, .empty, .empty, .empty⟩ }

def validateMode (mode : Int) : Except StoreError Nat := do
  throwIf (mode < 0 ∨ mode > maxU32) (.fsError .EINVAL "mode must be an unsigned 32-bit integer")
  return mode.toNat

def validateTimestamp (timestamp : Int) : Except StoreError Nat := checkedU64 timestamp "timestamp"

def advanceNextInodeId (inodeId : Nat) : Except StoreError Nat := do
  throwIf (inodeId = maxU64)
    (.storeLimit "next inode ID is exhausted; the store must be recreated")
  checkedAdd inodeId 1 "next inode ID"

theorem validateMode_eq_ok {mode : Int} {v : Nat} :
    validateMode mode = .ok v ↔ mode = v ∧ v ≤ maxU32 := by
  simp only [validateMode, bind_eq_ok, throwIf_eq_ok, pure_eq_ok, exists_const]
  omega

@[simp] theorem validateMode_nat {mode v : Nat} :
    validateMode mode = .ok v ↔ mode = v ∧ v ≤ maxU32 := by
  rw [validateMode_eq_ok]
  omega

theorem validateTimestamp_eq_ok {timestamp : Int} {v : Nat} :
    validateTimestamp timestamp = .ok v ↔ timestamp = v ∧ v ≤ maxU64 := checkedU64_eq_ok

@[simp] theorem validateTimestamp_nat {timestamp v : Nat} :
    validateTimestamp timestamp = .ok v ↔ timestamp = v ∧ v ≤ maxU64 := by
  rw [validateTimestamp, checkedU64_nat]

theorem advanceNextInodeId_eq_ok {inodeId next : Nat} :
    advanceNextInodeId inodeId = .ok next ↔ next = inodeId + 1 ∧ next ≤ maxU64 := by
  simp only [advanceNextInodeId, checkedAdd, bind_eq_ok, throwIf_eq_ok, checkedU64_eq_ok,
    exists_const]
  omega

/-! ### Paths through the tree -/

/-- `/${resolved.join("/")}` -/
def absolutePath (resolved : List JsString) : JsString :=
  if resolved = [] then [slash] else spell resolved

def joinPath (base : JsString) (rest : List JsString) : JsString :=
  if rest = [] then base
  else if base = [slash] then spell rest
  else base ++ spell rest

/-- The loop of `parentAndName`: every component must name a directory. -/
def descend (state : VfsState) (parent : DirectoryInode) :
    List JsString → Except StoreError DirectoryInode
  | [] => .ok parent
  | component :: rest => do
    let childId ← orThrow (parent.2.get? component)
      (.fsError .ENOENT "parent directory does not exist")
    let child ← directoryById state childId
    descend state child rest

def parentAndName (state : VfsState) (path : JsString) :
    Except StoreError (DirectoryInode × JsString) := do
  let components ← parsePath path
  let name ← orThrow components.getLast?
    (.fsError .EINVAL "operation is not permitted on root")
  let root ← directoryById state state.rootInodeId
  let parent ← descend state root components.dropLast
  return (parent, name)

/-- The loop of `getInodeAtPath`. -/
def walkTo (state : VfsState) (inode : Inode) : List JsString → Except StoreError Inode
  | [] => .ok inode
  | component :: rest =>
    match inode.body with
    | .directory children => do
      let childId ← orThrow (children.get? component)
        (.fsError .ENOENT "path does not exist")
      let child ← orThrow (state.inodes.get? childId)
        (.storeLimit "directory entry references a missing inode")
      walkTo state child rest
    | _ => .error (.fsError .ENOTDIR "path component is not a directory")

def getInodeAtPath (state : VfsState) (path : JsString) : Except StoreError Inode := do
  let components ← parsePath path
  let root ← orThrow (state.inodes.get? state.rootInodeId) (.storeLimit "root inode is missing")
  walkTo state root components

/-- How one pass of `resolveLinks` over the pending components ends. -/
inductive ResolveScan
  | done (resolved rest : List JsString)
  | link (target : JsString) (rest : List JsString)

def resolveScan (state : VfsState) (follow : Bool) (current : Inode) (resolved : List JsString) :
    List JsString → Except StoreError ResolveScan
  | [] => .ok (.done resolved [])
  | name :: rest =>
    match current.body with
    | .directory children =>
      match children.get? name with
      | none => .ok (.done resolved (name :: rest))
      | some childId => do
        let child ← orThrow (state.inodes.get? childId)
          (.storeLimit "directory entry references a missing inode")
        match child.body with
        | .symlink target =>
          if follow = true ∨ rest ≠ [] then return .link target rest
          else resolveScan state follow child (resolved ++ [name]) rest
        | _ => resolveScan state follow child (resolved ++ [name]) rest
    | _ => .ok (.done resolved (name :: rest))

/-- The passes of `resolveLinks`; `budget` is how many more links may be traversed. -/
def resolveHops (state : VfsState) (follow : Bool) (root : Inode) (budget : Nat)
    (pending : List JsString) : Except StoreError JsString := do
  match ← resolveScan state follow root [] pending with
  | .done resolved rest => return joinPath (absolutePath resolved) rest
  | .link target rest =>
    match budget with
    | 0 => throw (.fsError .ELOOP
        s!"path traverses more than {maxSymlinkHops} symbolic links")
    | budget' + 1 =>
      let pending' ← parsePath (joinPath target rest)
      resolveHops state follow root budget' pending'

def resolveLinks (state : VfsState) (path : JsString) (follow : Bool) :
    Except StoreError JsString := do
  let root ← orThrow (state.inodes.get? state.rootInodeId) (.storeLimit "root inode is missing")
  let pending ← parsePath path
  resolveHops state follow root maxSymlinkHops pending

/-! ### Extent choice -/

def chooseExtents (state : VfsState) (count : Nat) : Except StoreError (List Nat) := do
  throwIf (count > maxExtentsPerInode)
    (.storeLimit s!"allocation exceeds {maxExtentsPerInode} extents")
  let availableCount := min count state.allocator.available.size
  let chosen := state.allocator.available.peekLast availableCount
  let freshCount := count - availableCount
  throwIf (state.allocator.totalExtents + freshCount > maxTotalExtents)
    (.storeLimit s!"total extent count would exceed {maxTotalExtents}")
  return chosen ++ List.range' state.allocator.totalExtents freshCount

def checkedPlan (state : VfsState) (record : TxnRecord) : Except StoreError TxnRecord := do
  let _ ← preflightTxn state record defaultPreflightLimits
  return record

/-! ### The planners -/

structure MkdirOptions where
  recursive : Bool
  mode : Option Int
  nowMs : Int

def mkdirLoop (state : VfsState) (recursive : Bool) (mode nowMs : Nat) (parentId : Nat)
    (children : OrdMap JsString Nat) (nextInodeId : Nat)
    (entries : List CreateDirectoryChoice) :
    List JsString → Except StoreError (List CreateDirectoryChoice)
  | [] => .ok entries
  | name :: rest =>
    match children.get? name with
    | some existingId => do
      let existing ← orThrow ((state.inodes.get? existingId).filter fun i => i.body.isDirectory)
        (.fsError .ENOTDIR "path component is not a directory")
      throwIf (rest = []) (.fsError .EEXIST "path already exists")
      mkdirLoop state recursive mode nowMs existing.id existing.body.children nextInodeId
        entries rest
    | none => do
      throwIf (recursive = false ∧ rest ≠ [])
        (.fsError .ENOENT "parent directory does not exist")
      throwIf (state.inodes.size + entries.length ≥ maxInodes)
        (.storeLimit s!"inode count would exceed {maxInodes}")
      let _ ← checkedU64 nextInodeId "next inode ID"
      let followingInodeId ← advanceNextInodeId nextInodeId
      mkdirLoop state recursive mode nowMs nextInodeId .empty followingInodeId
        (entries ++ [⟨parentId, name, nextInodeId, mode, nowMs, nowMs, nowMs⟩]) rest

def planMkdir (state : VfsState) (path : JsString) (options : MkdirOptions) :
    Except StoreError TxnRecord := do
  let components ← parsePath path
  throwIf (components.length = 0) (.fsError .EEXIST "root directory already exists")
  let mode ← validateMode (options.mode.getD 0o40777)
  let nowMs ← validateTimestamp options.nowMs
  let (root, children) ← directoryById state state.rootInodeId
  let entries ← mkdirLoop state options.recursive mode nowMs root.id children
    state.nextInodeId [] components
  throwIf (entries.length = 0) (.fsError .EEXIST "path already exists")
  checkedPlan state (.createDirectories entries)

structure CreateFileOptions where
  mode : Option Int
  nowMs : Int
  size : Option Int

def planCreateFile (state : VfsState) (path : JsString) (options : CreateFileOptions) :
    Except StoreError TxnRecord := do
  let ((parent, children), name) ← parentAndName state path
  throwIf (children.has name = true) (.fsError .EEXIST "path already exists")
  throwIf (state.inodes.size ≥ maxInodes) (.storeLimit s!"inode count would exceed {maxInodes}")
  let inodeId ← checkedU64 state.nextInodeId "next inode ID"
  let _ ← advanceNextInodeId inodeId
  let mode ← validateMode (options.mode.getD 0o100666)
  let nowMs ← validateTimestamp options.nowMs
  let size ← checkedU64 (options.size.getD 0) "file size"
  let count ← extentCountForSize size state.extentSize
  let chosen ← chooseExtents state count
  let extents ← toExtentRuns chosen
  checkedPlan state
    (.createFile ⟨parent.id, name, inodeId, mode, nowMs, nowMs, nowMs, size, extents⟩)

structure SymlinkOptions where
  mode : Option Int
  nowMs : Int

/-- A symbolic link. Nothing about the TARGET is consulted — the link entry is the whole record. -/
def planSymlink (state : VfsState) (path target : JsString) (options : SymlinkOptions) :
    Except StoreError TxnRecord := do
  let ((parent, children), name) ← parentAndName state path
  throwIf (children.has name = true) (.fsError .EEXIST "path already exists")
  throwIf (state.inodes.size ≥ maxInodes) (.storeLimit s!"inode count would exceed {maxInodes}")
  let _ ← validateSymlinkTarget target
  let inodeId ← checkedU64 state.nextInodeId "next inode ID"
  let _ ← advanceNextInodeId inodeId
  let nowMs ← validateTimestamp options.nowMs
  let mode ← validateMode (options.mode.getD symlinkMode)
  checkedPlan state
    (.createSymlink ⟨parent.id, name, inodeId, mode, nowMs, nowMs, nowMs, target⟩)

/-- Removes a FILE or a SYMBOLIC LINK. A link is unlinked as itself; its target is never touched. -/
def planUnlink (state : VfsState) (path : JsString) (nowMs : Int) :
    Except StoreError TxnRecord := do
  let ((parent, children), name) ← parentAndName state path
  let inode ← orThrow ((children.get? name).bind state.inodes.get?)
    (.fsError .ENOENT "path does not exist")
  throwIf (inode.body.isDirectory = true) (.fsError .EISDIR "path is a directory")
  let timestamp ← validateTimestamp nowMs
  checkedPlan state (.removeFile ⟨parent.id, name, timestamp, timestamp⟩)

def planChmod (state : VfsState) (path : JsString) (mode nowMs : Int) :
    Except StoreError TxnRecord := do
  let inode ← getInodeAtPath state path
  let mode ← validateMode mode
  let ctimeMs ← validateTimestamp nowMs
  checkedPlan state (.changeMode inode.id mode ctimeMs)

def planUtimes (state : VfsState) (path : JsString) (atimeMs mtimeMs ctimeMs : Int) :
    Except StoreError TxnRecord := do
  let inode ← getInodeAtPath state path
  let atimeMs ← validateTimestamp atimeMs
  let mtimeMs ← validateTimestamp mtimeMs
  let ctimeMs ← validateTimestamp ctimeMs
  checkedPlan state (.changeTimes inode.id atimeMs mtimeMs ctimeMs)

/-- Inode-first planner for descriptor operations that already resolved the file. -/
def planResizeFileForInode (state : VfsState) (inode : Inode) (extents : List Nat)
    (size nowMs : Int) (operation : ResizeOperation) : Except StoreError TxnRecord := do
  throwIf (state.inodes.get? inode.id ≠ some inode)
    (.storeLimit "resize planner requires the current file inode")
  let checkedSize ← checkedU64 size "file size"
  let required ← extentCountForSize checkedSize state.extentSize
  let additional := required - extents.length
  let timestamp ← validateTimestamp nowMs
  let chosen ← chooseExtents state additional
  let allocated ← toExtentRuns chosen
  checkedPlan state
    (.resizeFile ⟨operation, inode.id, checkedSize, allocated, timestamp, timestamp⟩)

def planResizeFile (state : VfsState) (path : JsString) (size nowMs : Int)
    (operation : ResizeOperation) : Except StoreError TxnRecord := do
  let inode ← getInodeAtPath state path
  match inode.body with
  | .file _ extents => planResizeFileForInode state inode extents size nowMs operation
  | _ => throw (.fsError .EISDIR "path is a directory")

def planRmdir (state : VfsState) (path : JsString) (nowMs : Int) :
    Except StoreError TxnRecord := do
  let ((parent, children), name) ← parentAndName state path
  let inode ← orThrow ((children.get? name).bind state.inodes.get?)
    (.fsError .ENOENT "directory does not exist")
  throwIf (inode.body.isDirectory = false) (.fsError .ENOTDIR "path is not a directory")
  throwIf (inode.body.children.size ≠ 0) (.fsError .ENOTEMPTY "directory is not empty")
  let timestamp ← validateTimestamp nowMs
  checkedPlan state (.removeDirectory ⟨parent.id, name, timestamp, timestamp⟩)

/-! ### Rename -/

def directoryContains (state : VfsState) (candidateId : Nat) :
    Nat → Inode → Except StoreError Bool
  | 0, _ => .error (.error "Maximum call stack size exceeded")
  | fuel + 1, directory =>
    if directory.id = candidateId then .ok true
    else
      anyChecked (fun (entry : JsString × Nat) => do
        let child ← inodeById state entry.2
        if child.body.isDirectory = true then directoryContains state candidateId fuel child
        else return false) directory.body.children.entries

structure PathMetrics where
  depth : Nat
  bytes : Nat
  deriving DecidableEq

def childPathMetrics (parent : PathMetrics) (name : JsString) : Except StoreError PathMetrics := do
  let bytes ← encodedUtf8Length name
  return ⟨parent.depth + 1, parent.bytes + (if parent.depth = 0 then 0 else 1) + bytes⟩

/-- The loop of `findPathMetrics`; every round visits a new inode of the parent index. -/
def climb (state : VfsState) (visited : List Nat) (currentId : Nat)
    (depth componentBytes : Nat) : Nat → Except StoreError (Nat × Nat)
  | 0 => .error (.storeLimit "inode parent index contains a cycle")
  | fuel + 1 =>
    if currentId = state.rootInodeId then .ok (depth, componentBytes)
    else do
      throwIf (currentId ∈ visited) (.storeLimit "inode parent index contains a cycle")
      let entry ← orThrow (state.parentByInode.get? currentId)
        (.storeLimit "inode parent index does not reach root")
      let bytes ← encodedUtf8Length entry.name
      climb state (currentId :: visited) entry.parentId (depth + 1) (componentBytes + bytes) fuel

def findPathMetrics (state : VfsState) (targetId : Nat) : Except StoreError PathMetrics := do
  let (depth, componentBytes) ←
    climb state [] targetId 0 0 (state.parentByInode.size + 1)
  return ⟨depth, 1 + componentBytes + (depth - 1)⟩

/-- The recursion of `validateRenamedSubtreeBounds`; the depth bound ends it before the fuel. -/
def visitRenamed (state : VfsState) : Nat → Inode → PathMetrics → Except StoreError Unit
  | 0, _, _ => .error (.fsError .EINVAL s!"rename would exceed {maxPathDepth} path components")
  | fuel + 1, inode, metrics => do
    throwIf (metrics.depth > maxPathDepth)
      (.fsError .EINVAL s!"rename would exceed {maxPathDepth} path components")
    throwIf (metrics.bytes > maxPathBytes)
      (.fsError .EINVAL s!"rename would exceed {maxPathBytes} UTF-8 path bytes")
    forEach (fun (entry : JsString × Nat) => do
      let child ← inodeById state entry.2
      let childMetrics ← childPathMetrics metrics entry.1
      visitRenamed state fuel child childMetrics) inode.body.children.entries

def validateRenamedSubtreeBounds (state : VfsState) (source destinationParent : Inode)
    (destinationName : JsString) : Except StoreError Unit := do
  let destinationMetrics ← findPathMetrics state destinationParent.id
  let metrics ← childPathMetrics destinationMetrics destinationName
  visitRenamed state (maxPathDepth + 1) source metrics

def validateRenameTypes (source : Inode) (destination : Option Inode) : Except StoreError Unit :=
  match destination with
  | none => .ok ()
  | some destination => do
    throwIf (source.body.isDirectory = false ∧ destination.body.isDirectory = true)
      (.fsError .EISDIR "cannot replace a directory with a file")
    throwIf (source.body.isDirectory = true ∧ destination.body.isDirectory = false)
      (.fsError .ENOTDIR "cannot replace a file with a directory")
    throwIf (destination.body.isDirectory = true ∧ destination.body.children.size ≠ 0)
      (.fsError .ENOTEMPTY "destination directory is not empty")

/-- `destinationId === undefined ? undefined : inodeById(state, destinationId)` -/
def destinationInode (state : VfsState) (destinationId : Option Nat) :
    Except StoreError (Option Inode) :=
  match destinationId with
  | none => .ok none
  | some id => do
    let inode ← inodeById state id
    return some inode

/-- A subtree of an acyclic graph is no deeper than the graph has inodes. -/
def containsFuel (state : VfsState) : Nat := state.inodes.size + 1

/-- A directory must not move below itself. -/
def checkNotInside (state : VfsState) (source destinationParent : Inode) :
    Except StoreError Unit :=
  if source.body.isDirectory = true then do
    let contained ← directoryContains state destinationParent.id (containsFuel state) source
    throwIf (contained = true) (.fsError .EINVAL "cannot move a directory into itself")
  else .ok ()

def planRename (state : VfsState) (oldPath newPath : JsString) (nowMs : Int) :
    Except StoreError TxnRecord := do
  throwIf (oldPath = newPath) (.fsError .EINVAL "source and destination are identical")
  let ((sourceParent, sourceChildren), sourceName) ← parentAndName state oldPath
  let ((destinationParent, destinationChildren), destinationName) ← parentAndName state newPath
  let sourceId ← orThrow (sourceChildren.get? sourceName)
    (.fsError .ENOENT "rename source does not exist")
  let source ← inodeById state sourceId
  let destination ← destinationInode state (destinationChildren.get? destinationName)
  validateRenameTypes source destination
  checkNotInside state source destinationParent
  validateRenamedSubtreeBounds state source destinationParent destinationName
  let timestampMs ← validateTimestamp nowMs
  checkedPlan state
    (.rename ⟨sourceParent.id, sourceName, destinationParent.id, destinationName, timestampMs⟩)

def planReserveQuarantine (state : VfsState) (count : Int) : Except StoreError TxnRecord := do
  throwIf (count ≤ 0 ∨ count > maxExtentsPerInode)
    (.storeLimit s!"orphan reservation must contain 1 to {maxExtentsPerInode} extents")
  let chosen ← chooseExtents state count.toNat
  let extents ← toExtentRuns chosen
  checkedPlan state (.reserveQuarantine extents)

end Opfs
