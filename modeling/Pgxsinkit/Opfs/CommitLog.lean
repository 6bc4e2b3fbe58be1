/-
Committing to the active metadata log (`core/repacked-vfs.ts`).

A record is written as a frame at the end of the log and applied to the live state.  A write that lengthens a
file is held back instead: the next one of the same file replaces it, with the extents of both, and its frame
is written before anything else is.  A write to the file may stop after any number of bytes (`stops`), which
leaves the store failed; the repacks that the commits schedule are not part of the log of one base.
-/
import Pgxsinkit.Lib.DurableFile
import Pgxsinkit.Opfs.MetadataRun
import Pgxsinkit.Opfs.ReplayLog

namespace Opfs

open Bytes Checked DurableFile

abbrev LogFile := File UInt8

structure PendingResizeCommit where
  record : ResizeFileRecord
  frameBytes : Nat
  sequence : Nat

/-- What a `RepackedVfs` holds of the log it writes to. -/
structure LogStore where
  state : VfsState
  activeLogEnd : Nat
  nextSequence : Nat
  activeLogBytes : Nat
  activeLogFrames : Nat
  pendingResizeCommit : Option PendingResizeCommit
  metadataDirtySinceFlush : Bool
  failed : Bool
  /-- The active metadata file. -/
  file : LogFile

/-- What a call that changes the store ends with. -/
abbrev StoreResult := EStateM.Result StoreError LogStore Unit

def andThen (result : StoreResult) (next : LogStore → StoreResult) : StoreResult :=
  match result with
  | .ok _ store => next store
  | .error e store => .error e store

/-- One step of `mergeExtentRuns`: lengthen the last run, or add one. -/
def mergeRun (merged : List ExtentRun) (run : ExtentRun) : List ExtentRun :=
  match merged.getLast? with
  | some last =>
    if last.start + last.count = run.start ∧ last.count + run.count ≤ 0xffffffff then
      merged.dropLast ++ [{ last with count := last.count + run.count }]
    else merged ++ [run]
  | none => merged ++ [run]

def mergeExtentRuns (left right : List ExtentRun) : List ExtentRun := right.foldl mergeRun left

/-- `writeExact`: the handle takes the bytes in one or more calls, and stops after `stops` of them. -/
def writeExact (file : LogFile) (offset : Nat) (bytes : List UInt8) (label : String) (stops : Option Nat) :
    EStateM.Result StoreError LogFile Unit :=
  match checkedRange offset bytes.length label with
  | .error e => .error e file
  | .ok start =>
    match stops with
    | none => .ok () (file.add (.write start bytes))
    | some 0 => .error (.error s!"{label} made no valid write progress") file
    | some n => .error (.error s!"{label} made no valid write progress") (file.add (.write start (bytes.take n)))

namespace LogStore

variable (store : LogStore)

def assertOpen : Except StoreError Unit := throwIf (store.failed = true) .storeFailed

/-- The record of a write that lengthens a file. -/
def isDeferrableResize : TxnRecord → Option ResizeFileRecord
  | .resizeFile record =>
    match record.operation, (store.state.inodes.get? record.inodeId).map Inode.body with
    | .write, some (.file size _) => if size < record.size then some record else none
    | _, _ => none
  | _ => none

/-- The commit that is held back, when the record replaces it. -/
def replacedPending (record : TxnRecord) : Option (PendingResizeCommit × ResizeFileRecord) :=
  match store.isDeferrableResize record, store.pendingResizeCommit with
  | some resize, some pending => if pending.record.inodeId = resize.inodeId then some (pending, resize) else none
  | _, _ => none

structure PreparedCommit where
  frame : Option (List UInt8)
  frameBytes : Nat
  projection : PreparedTxnProjection
  materializedRecord : TxnRecord
  deferResize : Bool
  replacesPendingResize : Bool

def materializedRecord (record : TxnRecord) : TxnRecord :=
  match store.replacedPending record with
  | some (pending, resize) =>
    .resizeFile { resize with allocated := mergeExtentRuns pending.record.allocated resize.allocated }
  | none => record

/-- The frame, unless the record is to be held back. -/
def preflightFrame (record : TxnRecord) (sequence : Nat) : Except StoreError (Option (List UInt8)) :=
  if (store.isDeferrableResize record).isSome then .ok none
  else do
    let frame ← encodeTxnFrame ⟨store.state.generation, sequence, store.materializedRecord record⟩
    return some frame

def preflightCommit (record : TxnRecord) : Except StoreError PreparedCommit := do
  store.assertOpen
  let projection ← prepareTxnProjection store.state record
  let replaced := store.replacedPending record
  let materialized := store.materializedRecord record
  let sequence := (replaced.map fun p => p.1.sequence).getD store.nextSequence
  let frameBytes ← txnFrameBytes materialized
  let frame ← store.preflightFrame record sequence
  let projectedLogBytes := store.activeLogBytes - (replaced.map fun p => p.1.frameBytes).getD 0 + frameBytes
  throwIf (replaced = none ∧ store.activeLogFrames ≥ maxActiveLogFrames ∨ projectedLogBytes > maxActiveLogBytes)
    (.storeLimit "active metadata log reached its hard limit")
  return ⟨frame, frameBytes, projection, materialized, (store.isDeferrableResize record).isSome, replaced.isSome⟩

def poison : LogStore := { store with failed := true }

/-- `try { applyTxn(state, record, projection) } catch (cause) { poison; throw cause; }` -/
def applyOrPoison (record : TxnRecord) (projection : PreparedTxnProjection) : StoreResult :=
  match applyTxn store.state record (some projection) with
  | .ok _ state => .ok () { store with state }
  | .error e state => .error e { store with state, failed := true }

def appendFrame (frame : List UInt8) (stops : Option Nat) : StoreResult :=
  match writeExact store.file store.activeLogEnd frame "metadata.log.append" stops with
  | .ok _ file => .ok () { store with
      file, metadataDirtySinceFlush := true, activeLogEnd := store.activeLogEnd + frame.length }
  | .error _ file => .error .storeFailed { store with file, failed := true }

def materializePendingResize (stops : Option Nat) : StoreResult :=
  match store.pendingResizeCommit with
  | none => .ok () store
  | some pending =>
    match encodeTxnFrame ⟨store.state.generation, pending.sequence, .resizeFile pending.record⟩ with
    | .error e => .error e store.poison
    | .ok frame =>
      if frame.length ≠ pending.frameBytes then
        .error (.error "pending resize frame length changed after preflight") store.poison
      else andThen (store.appendFrame frame stops) fun store => .ok () { store with pendingResizeCommit := none }

/-- The branch of `#commit` for a record that replaces the one held back. -/
def replacePendingResize (record : TxnRecord) (prepared : PreparedCommit) : StoreResult :=
  match store.pendingResizeCommit, prepared.materializedRecord with
  | some pending, .resizeFile merged =>
    andThen (store.applyOrPoison record prepared.projection) fun store =>
      .ok () { store with
        activeLogBytes := store.activeLogBytes + prepared.frameBytes - pending.frameBytes
        pendingResizeCommit := some ⟨merged, prepared.frameBytes, pending.sequence⟩ }
  | _, _ => .error (.error "pending resize preflight no longer matches live state") store.poison

/-- The branch for a record that is held back. -/
def deferCommit (record : TxnRecord) (resize : ResizeFileRecord) (prepared : PreparedCommit) : StoreResult :=
  andThen (store.applyOrPoison record prepared.projection) fun store =>
    .ok () { store with
      pendingResizeCommit := some ⟨resize, prepared.frameBytes, store.nextSequence⟩
      activeLogBytes := store.activeLogBytes + prepared.frameBytes
      activeLogFrames := store.activeLogFrames + 1
      nextSequence := store.nextSequence + 1 }

/-- The branch for a record whose frame is written at once. -/
def appendCommit (record : TxnRecord) (prepared : PreparedCommit) (stops : Option Nat) : StoreResult :=
  match prepared.frame with
  | none => .error (.error "immediate commit has no encoded transaction frame") store.poison
  | some frame =>
    andThen (store.appendFrame frame stops) fun store =>
      andThen (store.applyOrPoison record prepared.projection) fun store =>
        .ok () { store with
          activeLogBytes := store.activeLogBytes + prepared.frameBytes
          activeLogFrames := store.activeLogFrames + 1
          nextSequence := store.nextSequence + 1 }

/-- `#commit`: `pendingStops` is for the frame of the record held back, `frameStops` for the record's own. -/
def commit (record : TxnRecord) (pendingStops frameStops : Option Nat) : StoreResult :=
  match store.preflightCommit record with
  | .error e => .error e store
  | .ok prepared =>
    if prepared.replacesPendingResize then store.replacePendingResize record prepared
    else andThen (store.materializePendingResize pendingStops) fun store =>
      match prepared.deferResize, prepared.materializedRecord with
      | true, .resizeFile resize => store.deferCommit record resize prepared
      | _, _ => store.appendCommit record prepared frameStops

/-- `strictSync`, with what the flushes of the two files do. -/
def strictSync (arenaThrows : Bool) (pendingStops : Option Nat) (metadataThrows : Bool) : StoreResult :=
  match store.assertOpen with
  | .error e => .error e store
  | .ok _ =>
    if arenaThrows then .error (.error "sync.arena.flush") store.poison
    else andThen (store.materializePendingResize pendingStops) fun store =>
      if store.metadataDirtySinceFlush then
        if metadataThrows then .error (.error "sync.metadata.flush") store.poison
        else .ok () { store with file := store.file.flush 0, metadataDirtySinceFlush := false }
      else .ok () store

end LogStore

/-! ### Opening the store again -/

/-- The base that is active: its bytes at the beginning of the file, and the state they are decoded to. -/
structure ActiveBase where
  bytes : List UInt8
  state : VfsState
  valid : validateState state = .ok ()
  length_le : bytes.length ≤ metadataHeaderBytes + maxMetadataBaseReaderBytes

/-- The file of the log once the bytes behind its last frame are discarded. -/
def discardSuffix (image : List UInt8) (validEnd : Nat) : LogFile :=
  let file : LogFile := ⟨image, []⟩
  if validEnd < image.length then file.add (.truncate validEnd) else file

/-- `recoverActivated`, from the replay of the log on. -/
def recoverLog (base : ActiveBase) (image : List UInt8) : Except StoreError LogStore := do
  let (state, log) ← replayLog image base.state base.bytes.length
  return {
    state
    activeLogEnd := log.validEnd
    nextSequence := log.nextSequence
    activeLogBytes := log.validEnd - base.bytes.length
    activeLogFrames := log.nextSequence - 1
    pendingResizeCommit := none
    metadataDirtySinceFlush := log.validEnd < image.length
    failed := false
    file := discardSuffix image log.validEnd }

end Opfs
