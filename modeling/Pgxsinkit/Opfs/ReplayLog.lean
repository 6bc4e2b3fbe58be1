/-
The replay of the active metadata log (`core/metadata-store.ts`), and reads through a handle
(`core/port.ts`).

A read sees the bytes of the file.  The state is changed in place, so a round that breaks off goes on with
whatever its record left behind.
-/
import Pgxsinkit.Opfs.HeadersSpec
import Pgxsinkit.Opfs.Txn

namespace Opfs

open Bytes Checked

/-! ### Reading from a file -/

def checkedRange (offset length : Nat) (label : String) : Except StoreError Nat := do
  let _ ← checkedU64 offset s!"{label} offset"
  throwIf (length > maxSafeInteger) (.storeLimit s!"{label} length is invalid")
  let last ← checkedAdd offset length s!"{label} end"
  let _ ← checkedSafeNumber last s!"{label} end"
  checkedSafeNumber offset s!"{label} offset"

def readExact (file : List UInt8) (offset length maximumLength : Nat) (label : String) :
    Except StoreError (List UInt8) := do
  throwIf (maximumLength > maxSafeInteger ∨ length > maximumLength)
    (.storeLimit s!"{label} length exceeds the bounded read limit")
  let start ← checkedRange offset length label
  throwIf (0 < length ∧ file.length < start + length)
    (.corruptStore s!"{label} ended before the declared byte length")
  return slice file start length

/-! ### The loop -/

def requiredArenaEnd (state : VfsState) : Except StoreError Nat := do
  let bytes ← checkedMultiply state.allocator.totalExtents state.extentSize "required arena bytes"
  checkedAdd arenaHeaderBytes bytes "required arena end"

/-- `cause instanceof CorruptStoreError || cause instanceof FsError || cause instanceof StoreLimitError` -/
def StoreError.endsReplay : StoreError → Bool
  | .corruptStore _ | .fsError .. | .storeLimit _ => true
  | _ => false

/-- What the loop carries; the frame count is one less than the sequence. -/
structure LogCursor where
  state : VfsState
  cursor : Nat
  sequence : Nat

/-- `try { … } catch (cause) { if (…) break; throw cause; }` around the work on one frame. -/
def applyFrame (log : LogCursor) (frameBytes : List UInt8) : Except StoreError (Bool × VfsState) :=
  match decodeTxnFrame frameBytes with
  | .error cause => if cause.endsReplay then .ok (false, log.state) else .error cause
  | .ok frame =>
    if frame.generation ≠ log.state.generation ∨ frame.sequence ≠ log.sequence then .ok (false, log.state)
    else
      match applyTxn log.state frame.record none with
      | .ok _ state => .ok (true, state)
      | .error cause state => if cause.endsReplay then .ok (false, state) else .error cause

/-- The round once the header of the frame is read. -/
def replayInspected (file : List UInt8) (baseEnd : Nat) (log : LogCursor) (inspected : TxnFrameHeader) :
    Except StoreError (Bool × LogCursor) :=
  if inspected.frameBytes > file.length - log.cursor ∨
      log.cursor - baseEnd + inspected.frameBytes > maxActiveLogBytes then .ok (false, log)
  else do
    let frameBytes ← readExact file log.cursor inspected.frameBytes
      (txnFrameHeaderBytes + inspected.payloadLength) "metadata.log.read-frame"
    let (applied, state) ← applyFrame log frameBytes
    return (applied, if applied then ⟨state, log.cursor + inspected.frameBytes, log.sequence + 1⟩
      else { log with state })

/-- One round of the loop, and whether another may follow. -/
def replayFrame (file : List UInt8) (baseEnd : Nat) (log : LogCursor) : Except StoreError (Bool × LogCursor) :=
  if file.length - log.cursor < txnFrameHeaderBytes ∨
      log.cursor - baseEnd + txnFrameHeaderBytes > maxActiveLogBytes then .ok (false, log)
  else do
    let headerBytes ← readExact file log.cursor txnFrameHeaderBytes txnFrameHeaderBytes "metadata.log.read-header"
    match nullIfCorrupt (inspectTxnFrameHeader headerBytes) with
    | .error cause => .error cause
    | .ok none => .ok (false, log)
    | .ok (some inspected) => replayInspected file baseEnd log inspected

/-- The loop, with the frames that it may still take. -/
def replayFrames (file : List UInt8) (baseEnd : Nat) : Nat → LogCursor → Except StoreError LogCursor
  | 0, log => .ok log
  | left + 1, log =>
    if log.cursor < file.length then do
      let (more, log) ← replayFrame file baseEnd log
      if more then replayFrames file baseEnd left log else return log
    else .ok log

structure ReplayedLog where
  validEnd : Nat
  nextSequence : Nat
  requiredArenaEnd : Nat
  deriving DecidableEq

/-- The state after the replay, and what `replayLog` returns. -/
def replayLog (file : List UInt8) (state : VfsState) (baseEnd : Nat) : Except StoreError (VfsState × ReplayedLog) := do
  let cursor ← checkedSafeNumber baseEnd "active log start"
  let log ← replayFrames file baseEnd maxActiveLogFrames ⟨state, cursor, 1⟩
  validateState log.state
  let required ← requiredArenaEnd log.state
  return (log.state, ⟨log.cursor, log.sequence, required⟩)

end Opfs
