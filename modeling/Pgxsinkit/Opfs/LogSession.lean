/-
One session on the active metadata log.

`Logged` is the invariant of a store that is open: its file holds the base and the frames of every record but
the one held back, the running numbers count that one too, and the live state is what all of them lead to.
Whatever a commit does and wherever a write stops, the file stays one that a crash leaves readable (`Tracked`).
-/
import Pgxsinkit.Lib.DurableLog
import Pgxsinkit.Opfs.MergedResize
import Pgxsinkit.Opfs.ReplaySpec

namespace Opfs

open Bytes Checked DurableFile DurableLog FramedLog

/-- The states that a reader may come to. -/
def Known (seen : List VfsState) (state : VfsState) : Prop := WellFormed state ∧ state ∈ seen

theorem Known.mono {seen seen' : List VfsState} {state : VfsState} (hseen : seen ⊆ seen') (h : Known seen state) :
    Known seen' state :=
  ⟨h.1, hseen h.2⟩

theorem Planned.fits {state : VfsState} (h : Sound state) {record : TxnRecord} (hp : Planned state record)
    (hmark : ∀ name ∈ recordNames record, NoMark name) {place : Place} (hnumber : place.number ≤ maxActiveLogFrames)
    {bytes : Nat} (hbytes : txnFrameBytes record = .ok bytes) (hroom : place.offset + bytes ≤ maxActiveLogBytes)
    {generation : Nat} (hgeneration : generation ≤ maxU64) :
    FitsLog generation place record ∧ bytes = (frameImage ⟨generation, place.number, record⟩).length := by
  have hcap : maxActiveLogFrames ≤ maxU64 := by decide
  have hencodable := hp.frameEncodable h hgeneration (hnumber.trans hcap)
  rw [txnFrameBytes_eq hencodable, Except.ok.injEq] at hbytes
  exact ⟨⟨hencodable, hmark, hnumber, hbytes ▸ hroom⟩, hbytes.symm⟩

section base

variable (base : ActiveBase) (seen : List VfsState)

/-- The frames of the first records of the log. -/
abbrev logFrames (records : List TxnRecord) : List UInt8 := frames (logFormat base.state.generation) 1 records

/-- The place behind them. -/
abbrev logPlace (records : List TxnRecord) : Place := logStart.after (logFormat base.state.generation) records

/-- The frame of the record that comes next. -/
abbrev nextFrame (records : List TxnRecord) (record : TxnRecord) : List UInt8 :=
  frameImage ⟨base.state.generation, (logPlace base records).number, record⟩

/-- A crash leaves the file readable, at a state that is known. -/
structure Tracks (file : LogFile) (kept : List TxnRecord) (mid : VfsState) (garbage : List UInt8) (added : List TxnRecord)
    (final : VfsState) : Prop where
  session : Session (logFormat base.state.generation) acceptTxn 0 base.bytes logStart base.state file (Known seen)
    kept mid garbage added final
  length_le : base.bytes.length + (logFrames base kept ++ garbage).length ≤ maxSafeInteger

def Tracked (file : LogFile) : Prop := ∃ kept mid garbage added final, Tracks base seen file kept mid garbage added final

/-- The record that is held back. -/
def LogStore.heldBack (store : LogStore) : List TxnRecord :=
  (store.pendingResizeCommit.map fun pending => TxnRecord.resizeFile pending.record).toList

/-- The store over a file that holds the records. -/
structure Live (store : LogStore) (records : List TxnRecord) (final : VfsState) : Prop where
  content : store.file.content 0 = base.bytes ++ logFrames base records
  logEnd : store.activeLogEnd = base.bytes.length + (logFrames base records).length
  held : Reads (logFormat base.state.generation) acceptTxn (logPlace base records) final
    (frames (logFormat base.state.generation) (logPlace base records).number store.heldBack) store.heldBack store.state []
  pending : ∀ pending, store.pendingResizeCommit = some pending → Lengthens final pending.record ∧
    pending.sequence = (logPlace base records).number ∧
    pending.frameBytes = (nextFrame base records (.resizeFile pending.record)).length
  bytes : store.activeLogBytes = (logFrames base (records ++ store.heldBack)).length
  count : store.activeLogFrames = (records ++ store.heldBack).length
  next : store.nextSequence = 1 + (records ++ store.heldBack).length
  generation : store.state.generation = base.state.generation
  known : Known seen store.state
  clean : store.metadataDirtySinceFlush = false → store.file.effects = []

def Logged (store : LogStore) : Prop := ∃ kept mid garbage added final,
  Tracks base seen store.file kept mid garbage added final ∧ Live base seen store (kept ++ added) final

end base

variable {base : ActiveBase} {seen seen' : List VfsState} {store store' : LogStore} {file : LogFile}
  {kept added records : List TxnRecord} {mid final target : VfsState} {garbage : List UInt8} {record : TxnRecord}

theorem Tracks.mono (hseen : seen ⊆ seen') (h : Tracks base seen file kept mid garbage added final) :
    Tracks base seen' file kept mid garbage added final :=
  ⟨h.session.mono fun _ => Known.mono hseen, h.length_le⟩

theorem Tracked.mono (hseen : seen ⊆ seen') (h : Tracked base seen file) : Tracked base seen' file := by
  obtain ⟨kept, mid, garbage, added, final, h⟩ := h
  exact ⟨kept, mid, garbage, added, final, h.mono hseen⟩

theorem Live.mono (hseen : seen ⊆ seen') (h : Live base seen store records final) : Live base seen' store records final :=
  { h with known := h.known.mono hseen }

theorem Logged.mono (hseen : seen ⊆ seen') (h : Logged base seen store) : Logged base seen' store := by
  obtain ⟨kept, mid, garbage, added, final, htracks, hlive⟩ := h
  exact ⟨kept, mid, garbage, added, final, htracks.mono hseen, hlive.mono hseen⟩

theorem Logged.tracked (h : Logged base seen store) : Tracked base seen store.file := by
  obtain ⟨kept, mid, garbage, added, final, htracks, -⟩ := h
  exact ⟨kept, mid, garbage, added, final, htracks⟩

theorem number_logPlace (records : List TxnRecord) : (logPlace base records).number = 1 + records.length :=
  number_after _ _

theorem offset_logPlace (records : List TxnRecord) :
    (logPlace base records).offset = (logFrames base records).length := by
  rw [offset_after]
  exact Nat.zero_add _

theorem logFrames_concat (records : List TxnRecord) (record : TxnRecord) : logFrames base (records ++ [record]) =
    logFrames base records ++ nextFrame base records record := by
  rw [logFrames, frames_append, frames, frames, List.append_nil, nextFrame, number_logPlace]
  rfl

/-- The records of a log stay within its cap. -/
theorem reads_offset_le {generation : Nat} {place : Place} {state : VfsState} {bytes rest : List UInt8}
    (h : Reads (logFormat generation) acceptTxn place state bytes records final rest)
    (hplace : place.offset ≤ maxActiveLogBytes ∧ place.number ≤ maxActiveLogFrames + 1) :
    (place.after (logFormat generation) records).offset ≤ maxActiveLogBytes ∧
      (place.after (logFormat generation) records).number ≤ maxActiveLogFrames + 1 := by
  induction h with
  | nil place state rest => exact hplace
  | cons hfits happly _ ih =>
    have hbytes := FitsLog.bytes hfits
    have hnumber := FitsLog.number hfits
    exact ih ⟨hbytes, Nat.succ_le_succ hnumber⟩

/-! ### Appending a frame -/

theorem appendFrame_cases {frame : List UInt8} (hroom : store.activeLogEnd + frame.length ≤ maxSafeInteger)
    (stops : Option Nat) :
    (stops = none ∧ store.appendFrame frame stops = .ok () { store with
      file := store.file.add (.write store.activeLogEnd frame), metadataDirtySinceFlush := true,
      activeLogEnd := store.activeLogEnd + frame.length }) ∨
    (stops ≠ none ∧ ∃ file, store.appendFrame frame stops = .error .storeFailed { store with file, failed := true } ∧
      (file = store.file ∨ ∃ n, file = store.file.add (.write store.activeLogEnd (frame.take n)))) := by
  unfold LogStore.appendFrame writeExact
  rw [checkedRange_eq _ hroom]
  rcases stops with _ | _ | n
  · exact .inl ⟨rfl, rfl⟩
  · exact .inr ⟨nofun, store.file, rfl, .inl rfl⟩
  · exact .inr ⟨nofun, _, rfl, .inr ⟨n + 1, rfl⟩⟩

/-- What an append does to the log: the frame stands behind it, or the store has failed and a crash still leaves a
known state. -/
theorem appendFrame_tracks (h : Tracks base seen store.file kept mid garbage added final)
    (hcontent : store.file.content 0 = base.bytes ++ logFrames base (kept ++ added))
    (hlogEnd : store.activeLogEnd = base.bytes.length + (logFrames base (kept ++ added)).length)
    (hfits : FitsLog base.state.generation (logPlace base (kept ++ added)) record)
    (haccept : acceptTxn final record = some target) (htarget : Known seen target) (stops : Option Nat) :
    (∃ file, store.appendFrame (nextFrame base (kept ++ added) record) stops = .ok () { store with
        file, metadataDirtySinceFlush := true,
        activeLogEnd := base.bytes.length + (logFrames base (kept ++ added ++ [record])).length } ∧
      Tracks base seen file kept mid garbage (added ++ [record]) target ∧
      file.content 0 = base.bytes ++ logFrames base (kept ++ added ++ [record])) ∨
    (stops ≠ none ∧ ∃ file, store.appendFrame (nextFrame base (kept ++ added) record) stops =
      .error .storeFailed { store with file, failed := true } ∧ Tracked base seen file) := by
  have hend : store.activeLogEnd = (store.file.content 0).length := by rw [hlogEnd, hcontent, List.length_append]
  have hbase := base.length_le
  have hoffset : (logPlace base (kept ++ added)).offset + (nextFrame base (kept ++ added) record).length ≤
      maxActiveLogBytes := hfits.bytes
  rw [offset_logPlace] at hoffset
  have hcap : metadataHeaderBytes + maxMetadataBaseReaderBytes + maxActiveLogBytes ≤ maxSafeInteger := by decide
  have hroom : store.activeLogEnd + (nextFrame base (kept ++ added) record).length ≤ maxSafeInteger := by
    rw [hlogEnd]
    omega
  rcases appendFrame_cases hroom stops with ⟨-, happend⟩ | ⟨hstops, file, happend, hfile⟩
  · refine .inl ⟨store.file.add (.write store.activeLogEnd (nextFrame base (kept ++ added) record)), ?_,
      ⟨?_, h.length_le⟩, ?_⟩
    · rw [happend, hlogEnd, logFrames_concat, List.length_append, Nat.add_assoc]
    · rw [hend]
      exact h.session.write_whole hcontent hfits haccept htarget
    · rw [content_add, hend]
      show writeAt _ _ _ _ = _
      rw [writeAt_end, hcontent, logFrames_concat, List.append_assoc]
  · refine .inr ⟨hstops, file, happend, ?_⟩
    rcases hfile with rfl | ⟨n, rfl⟩
    · exact ⟨kept, mid, garbage, added, final, h⟩
    · rw [hend]
      exact ⟨kept, mid, garbage, added ++ [record], target, h.session.write hcontent hfits haccept htarget n,
        h.length_le⟩

end Opfs
