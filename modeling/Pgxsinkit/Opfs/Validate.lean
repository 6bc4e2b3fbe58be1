/-
The state validator (`core/state-machine.ts`).

`validateState` walks the tree once from the root and accumulates what it has
reached, classified and counted; the recursion stops at the depth limit, so the
fuel of `visit` is the depth limit and is never the reason it stops.
-/
import Pgxsinkit.Opfs.Apply

namespace Opfs

open Checked

/-- What the walk of `validateState` has seen; the source's counter of classified extents
is the length of the list of them. -/
structure VisitAcc where
  reached : List Nat
  classified : List Nat
  calculatedBasePayloadBytes : Nat

def classify (state : VfsState) (label : String) (classified : List Nat) (extentId : Nat) :
    Except StoreError (List Nat) := do
  throwIf (extentId ≥ state.allocator.totalExtents ∨ extentId ∈ classified)
    (.storeLimit s!"{label} extent is out of range or multiply classified")
  return classified ++ [extentId]

/-- The checks `visit` makes on an inode of any kind. -/
def visitHeader (state : VfsState) (inodeKey : Nat) (inode : Inode) (acc : VisitAcc) :
    Except StoreError VisitAcc := do
  let _ ← checkedU64 inodeKey "inode map key"
  let _ ← checkedU64 inode.id "inode ID"
  throwIf (inodeKey ≠ inode.id) (.storeLimit "inode map key does not match the inode ID")
  throwIf (inode.id ≥ state.nextInodeId)
    (.storeLimit "inode ID is not below the unused next inode ID")
  throwIf (inode.id ∈ acc.reached) (.storeLimit "inode has more than one directory owner")
  let _ ← validateMode inode.mode
  let _ ← validateTimestamp inode.atimeMs
  let _ ← validateTimestamp inode.mtimeMs
  let _ ← validateTimestamp inode.ctimeMs
  return { acc with reached := acc.reached ++ [inode.id] }

def visitSymlink (target : JsString) (acc : VisitAcc) : Except StoreError VisitAcc :=
  match validateSymlinkTarget target with
  | .error cause => .error (.storeLimit s!"symlink target is invalid: {cause.describe}")
  | .ok targetBytes => .ok { acc with
      calculatedBasePayloadBytes :=
        acc.calculatedBasePayloadBytes + (symlinkInodeFixedBytes + targetBytes) }

def visitFile (state : VfsState) (inodeId size : Nat) (extents : List Nat) (acc : VisitAcc) :
    Except StoreError VisitAcc := do
  let count ← extentCountForSize size state.extentSize
  throwIf (extents.length ≠ count)
    (.storeLimit "file extent count does not cover its size exactly")
  let classified ← foldChecked (fun classified (extentId : Nat) => do
    let classified ← classify state "owned" classified extentId
    throwIf (state.allocator.ownedBy.get? extentId ≠ some inodeId)
      (.storeLimit "owned extent does not map back to its inode")
    return classified) acc.classified extents
  return { acc with
    classified
    calculatedBasePayloadBytes :=
      acc.calculatedBasePayloadBytes + (fileInodeFixedBytes + extents.length * 8) }

/-- The checks on one directory entry, up to the visit of the child: the child and its metrics. -/
def visitEntry (state : VfsState) (inodeId : Nat) (metrics : PathMetrics) (name : JsString)
    (childId : Nat) (acc : VisitAcc) : Except StoreError (Inode × PathMetrics × VisitAcc) := do
  let nameBytes ← validatePathComponent name
  throwIf (state.parentByInode.get? childId ≠ some ⟨inodeId, name⟩)
    (.storeLimit "inode parent index does not match its directory entry")
  let childMetrics : PathMetrics :=
    ⟨metrics.depth + 1, metrics.bytes + (if metrics.depth = 0 then 0 else 1) + nameBytes⟩
  throwIf (childMetrics.depth > maxPathDepth)
    (.storeLimit s!"inode path exceeds {maxPathDepth} components")
  throwIf (childMetrics.bytes > maxPathBytes)
    (.storeLimit s!"inode path exceeds {maxPathBytes} UTF-8 bytes")
  let child ← orThrow (state.inodes.get? childId)
    (.storeLimit "directory entry references a missing inode")
  return (child, childMetrics, { acc with
    calculatedBasePayloadBytes :=
      acc.calculatedBasePayloadBytes + (childFixedBytes + nameBytes) })

def visit (state : VfsState) : Nat → Nat → Inode → PathMetrics → VisitAcc →
    Except StoreError VisitAcc
  | 0, _, _, _, _ => .error (.storeLimit s!"inode path exceeds {maxPathDepth} components")
  | fuel + 1, inodeKey, inode, metrics, acc => do
    let acc ← visitHeader state inodeKey inode acc
    match inode.body with
    | .directory children =>
      foldChecked (fun acc (entry : JsString × Nat) => do
        let (child, childMetrics, acc) ←
          visitEntry state inode.id metrics entry.1 entry.2 acc
        visit state fuel entry.2 child childMetrics acc)
        { acc with
          calculatedBasePayloadBytes :=
            acc.calculatedBasePayloadBytes + directoryInodeFixedBytes } children.entries
    | .symlink target => visitSymlink target acc
    | .file size extents => visitFile state inode.id size extents acc

/-- The checks of `validateState` before the walk: the root inode. -/
def validateHead (state : VfsState) : Except StoreError Inode := do
  let _ ← validateExtentSize state.extentSize
  let _ ← checkedU64 state.generation "generation"
  throwIf (state.generation = 0) (.storeLimit "generation must be positive")
  let _ ← checkedU64 state.nextInodeId "next inode ID"
  let root ← orThrow
    ((state.inodes.get? state.rootInodeId).filter fun i => i.body.isDirectory)
    (.storeLimit "root inode is missing or is not a directory")
  throwIf (state.parentByInode.has state.rootInodeId = true)
    (.storeLimit "root inode must not have a parent entry")
  throwIf (state.inodes.size > maxInodes) (.storeLimit s!"inode count exceeds {maxInodes}")
  let _ ← checkedU64 state.allocator.totalExtents "total extent count"
  throwIf (state.allocator.totalExtents > maxTotalExtents)
    (.storeLimit s!"total extent count exceeds {maxTotalExtents}")
  return root

/-- The inactive metadata file holds the immediate predecessor, or nothing. -/
def validateInactive (state : VfsState) : Except StoreError Unit :=
  match state.retainedGenerations.get (otherMetadataFile state.activeMetadataFile) with
  | none => .ok ()
  | some inactiveGeneration => do
    let _ ← checkedU64 inactiveGeneration "inactive retained generation"
    throwIf (inactiveGeneration = 0 ∨ inactiveGeneration + 1 ≠ state.generation)
      (.storeLimit "inactive retained generation is not the immediate predecessor")

/-- The extents no file owns, after those the walk has classified. -/
def validatePartition (state : VfsState) (classified : List Nat) : Except StoreError Unit := do
  let classified ← foldChecked (classify state "available") classified
    state.allocator.available.items
  let classified ← foldChecked (fun classified (entry : Nat × Option Nat) => do
    let classified ← classify state "quarantined" classified entry.1
    throwIf (entry.2 ≠ none ∧ entry.2 ≠ some state.generation)
      (.storeLimit "quarantine generation is inconsistent with retained metadata")
    return classified) classified state.allocator.quarantine.entries
  throwIf (classified.length ≠ state.allocator.totalExtents)
    (.storeLimit "allocator partition does not cover every extent")

/-- The checks of `validateState` after the walk. -/
def validateTail (state : VfsState) (acc : VisitAcc) : Except StoreError Unit := do
  throwIf (acc.reached.length ≠ state.inodes.size)
    (.storeLimit "inode graph contains unreachable inodes")
  throwIf (state.parentByInode.size + 1 ≠ state.inodes.size)
    (.storeLimit "inode parent index does not cover every non-root inode")
  throwIf (acc.classified.length ≠ state.allocator.ownedBy.size)
    (.storeLimit "allocator contains an owner not referenced by a file")
  throwIf (state.basePayloadBytes ≠ acc.calculatedBasePayloadBytes +
      (state.allocator.available.size * 8 + state.allocator.quarantine.size * 16))
    (.storeLimit "tracked metadata-base size does not match canonical state size")
  throwIf (state.basePayloadBytes > maxMetadataBaseWriterBytes)
    (.storeLimit s!"metadata base exceeds {maxMetadataBaseWriterBytes} bytes")
  throwIf (state.retainedGenerations.get state.activeMetadataFile ≠ some state.generation)
    (.storeLimit "active metadata identity does not match the state generation")
  validateInactive state
  validatePartition state acc.classified

def validateState (state : VfsState) : Except StoreError Unit := do
  let root ← validateHead state
  let acc ← visit state (maxPathDepth + 1) state.rootInodeId root ⟨0, 1⟩
    ⟨[], [], baseStateFixedBytes⟩
  validateTail state acc

end Opfs
