/-
What the replay of a log takes.

`replayFrames_eq`: over any bytes, the loop takes the longest log that the bytes begin with, in the sense of
`FramedLog`, and never throws.  A frame of the log carries the generation of the base and the next sequence
number, is read back as it was written, and stays within the caps on frames and bytes.
-/
import Pgxsinkit.Lib.FramedLog
import Pgxsinkit.Opfs.ReplayErrors
import Pgxsinkit.Opfs.FrameRoundTrip
import Pgxsinkit.Opfs.MetadataRun

namespace Opfs

open Bytes Checked FramedLog

/-- The record can stand in a log of the generation, with its frame at the place. -/
structure FitsLog (generation : Nat) (place : Place) (record : TxnRecord) : Prop where
  encodable : FrameEncodable ⟨generation, place.number, record⟩
  noMark : ∀ name ∈ recordNames record, NoMark name
  number : place.number ≤ maxActiveLogFrames
  bytes : place.offset + (frameImage ⟨generation, place.number, record⟩).length ≤ maxActiveLogBytes

theorem length_frame_ge (frame : TxnFrame) : txnFrameHeaderBytes ≤ (frameImage frame).length := by
  rw [length_frameImage]
  exact Nat.le_add_right _ _

theorem frameImage_ne_nil (frame : TxnFrame) : frameImage frame ≠ [] := by
  intro h
  have hlength := length_frame_ge frame
  rw [h] at hlength
  exact absurd hlength (by decide)

/-- The header of a frame that begins some bytes. -/
theorem inspect_frameImage {frame : TxnFrame} (h : FrameEncodable frame) (rest : List UInt8) :
    inspectTxnFrameHeader (slice (frameImage frame ++ rest) 0 txnFrameHeaderBytes) =
      .ok ⟨frame.generation, frame.sequence, (recordBytes frame.record).length, (frameImage frame).length⟩ := by
  have hmin := length_frame_ge frame
  obtain ⟨hlen, ⟨hmagic, hversion, hprofile, hgen, hseq, hsize, hzero⟩, -, hzero', -⟩ := eq_frameImage_iff.mp
    (Eq.refl (frameImage frame))
  have hmax := h.length
  have hgenmax := h.generation
  have hseqmax := h.sequence
  unfold maxFramePayloadBytes at hmax
  unfold maxU64 at hgenmax hseqmax
  simp only [txnFrameHeaderBytes] at hmin
  rw [slice_eq_leBytes (by omega) (by decide)] at hversion hprofile
  rw [slice_eq_leBytes (by omega) (by omega)] at hgen hseq hsize
  rw [slice_append_left (by rw [Nat.zero_add]; exact length_frame_ge frame)]
  refine (inspectTxnFrameHeader_eq_ok (length_frame_ge frame)).mpr ⟨hmagic, hzero, hzero', ?_, ⟨hversion, hprofile⟩, ?_⟩
  · rw [hsize]
    exact h.length
  · rw [hgen, hseq, hsize, hlen]

/-- The log of one generation. -/
def logFormat (generation : Nat) : Format UInt8 TxnRecord where
  frame sequence record := frameImage ⟨generation, sequence, record⟩
  Fits := FitsLog generation
  frame_inj := by
    intro place record record' rest rest' h h' heq
    -- the headers name one length, so the frames are the same bytes
    have hheader := inspect_frameImage h.encodable rest
    rw [heq, inspect_frameImage h'.encodable rest', Except.ok.injEq, TxnFrameHeader.mk.injEq] at hheader
    have himage := List.append_inj_left heq hheader.2.2.2.symm
    have hread := (decode_frameImage_iff h.encodable).mpr h.noMark
    rw [himage, (decode_frameImage_iff h'.encodable).mpr h'.noMark, Except.ok.injEq, TxnFrame.mk.injEq] at hread
    exact hread.2.2.symm

/-- The state after a record, when it is accepted. -/
def acceptTxn (state : VfsState) (record : TxnRecord) : Option VfsState :=
  match applyTxn state record none with
  | .ok _ state' => some state'
  | .error .. => none

theorem acceptTxn_eq_some {state state' : VfsState} {record : TxnRecord} :
    acceptTxn state record = some state' ↔ applyTxn state record none = .ok () state' := by
  unfold acceptTxn
  cases applyTxn state record none <;> simp

/-! ### One round -/

theorem checkedRange_eq {offset length : Nat} (label : String) (hsafe : offset + length ≤ maxSafeInteger) :
    checkedRange offset length label = .ok offset := by
  have hu64 : maxSafeInteger ≤ maxU64 := by decide
  simp only [checkedRange, bind_eq_ok, checkedU64_nat, throwIf_eq_ok, checkedAdd_nat, checkedSafeNumber_eq_ok]
  exact ⟨offset, ⟨rfl, by omega⟩, (), by omega, _, ⟨rfl, by omega⟩, _, ⟨rfl, by omega⟩, trivial, by omega⟩

theorem readExact_eq {file : List UInt8} {offset length maximumLength : Nat} {label : String}
    (hfile : file.length ≤ maxSafeInteger) (hle : offset + length ≤ file.length) (hmax : length ≤ maximumLength)
    (hsafe : maximumLength ≤ maxSafeInteger) :
    readExact file offset length maximumLength label = .ok (slice file offset length) := by
  simp only [readExact, bind_eq_ok, throwIf_eq_ok, checkedRange_eq label (hle.trans hfile), pure_eq_ok]
  exact ⟨(), by omega, offset, rfl, (), by omega, rfl⟩

theorem inspect_error {header : List UInt8} {e : StoreError} (h : inspectTxnFrameHeader header = .error e) :
    ∃ message, e = .corruptStore message := by
  have hcorrupt : ThrowsOnly (fun e => ∃ message, e = StoreError.corruptStore message) (inspectTxnFrameHeader header) := by
    simp [inspectTxnFrameHeader, requireMagic, requireZero]
  exact hcorrupt e h

/-- What the work on one frame does: the frame of the next record is applied, anything else ends the replay. -/
theorem applyFrame_cases {log : LogCursor} (h : Sound log.state) (frameBytes : List UInt8) :
    (∃ record state', (FrameEncodable ⟨log.state.generation, log.sequence, record⟩ ∧
        ∀ name ∈ recordNames record, NoMark name) ∧
      frameBytes = frameImage ⟨log.state.generation, log.sequence, record⟩ ∧
      acceptTxn log.state record = some state' ∧ applyFrame log frameBytes = .ok (true, state')) ∨
    (applyFrame log frameBytes = .ok (false, log.state) ∧
      ∀ record, decodeTxnFrame frameBytes = .ok ⟨log.state.generation, log.sequence, record⟩ →
        acceptTxn log.state record = none) := by
  unfold applyFrame
  cases hdecode : decodeTxnFrame frameBytes with
  | error cause =>
    have hcaught : cause.endsReplay = true := caught_decodeTxnFrame frameBytes cause hdecode
    exact .inr ⟨if_pos hcaught, nofun⟩
  | ok frame =>
    obtain ⟨generation, sequence, record⟩ := frame
    dsimp only
    by_cases hplace : generation ≠ log.state.generation ∨ sequence ≠ log.sequence
    · refine .inr ⟨if_pos hplace, ?_⟩
      rintro record' ⟨⟩
      exact absurd hplace (by simp)
    · rw [if_neg hplace]
      obtain ⟨rfl, rfl⟩ : generation = log.state.generation ∧ sequence = log.sequence := by simpa using hplace
      obtain ⟨hreads, himage⟩ := decodeTxnFrame_eq_ok.mp hdecode
      cases happly : applyTxn log.state record none with
      | ok u state' => exact .inl ⟨record, state', hreads, himage, acceptTxn_eq_some.mpr happly, rfl⟩
      | error cause state' =>
        have hcaught : cause.endsReplay = true := caught_applyTxn h happly
        obtain rfl := applyTxn_error_state h happly
        refine .inr ⟨if_pos hcaught, ?_⟩
        rintro record' ⟨⟩
        rw [acceptTxn, happly]

section round

variable {file : List UInt8} {baseEnd : Nat} {log : LogCursor} {place : Place}

/-- What stands at the cursor when a round goes on. -/
structure Taken (file : List UInt8) (log : LogCursor) (place : Place) (record : TxnRecord) (state' : VfsState) : Prop where
  fits : FitsLog log.state.generation place record
  accepted : acceptTxn log.state record = some state'
  bytes : frameImage ⟨log.state.generation, place.number, record⟩ <+: file.drop log.cursor

/-- A round takes the frame at the cursor, or nothing there can be taken. -/
def RoundIs (file : List UInt8) (log : LogCursor) (place : Place) (round : Except StoreError (Bool × LogCursor)) : Prop :=
  (∃ record state', Taken file log place record state' ∧
    round = .ok (true, ⟨state', log.cursor + (frameImage ⟨log.state.generation, place.number, record⟩).length,
      log.sequence + 1⟩)) ∨
  (Stops (logFormat log.state.generation) acceptTxn place log.state (file.drop log.cursor) ∧ round = .ok (false, log))

/-- A frame that fits here and begins the bytes is found by its header. -/
theorem inspect_found {record : TxnRecord} (hfits : FitsLog log.state.generation place record)
    (hbegins : frameImage ⟨log.state.generation, place.number, record⟩ <+: file.drop log.cursor) :
    (frameImage ⟨log.state.generation, place.number, record⟩).length ≤ file.length - log.cursor ∧
      inspectTxnFrameHeader (slice file log.cursor txnFrameHeaderBytes) = .ok ⟨log.state.generation, place.number,
        (recordBytes record).length, (frameImage ⟨log.state.generation, place.number, record⟩).length⟩ := by
  have hlength := hbegins.length_le
  rw [List.length_drop] at hlength
  obtain ⟨tail, htail⟩ := hbegins
  refine ⟨hlength, ?_⟩
  rw [slice, ← htail]
  exact inspect_frameImage hfits.encodable tail

theorem replayInspected_round (h : Sound log.state) (hoffset : log.cursor - baseEnd = place.offset)
    (hsequence : log.sequence = place.number) (hnumber : place.number ≤ maxActiveLogFrames)
    (hfile : file.length ≤ maxSafeInteger) (hroom : txnFrameHeaderBytes ≤ file.length - log.cursor)
    {inspected : TxnFrameHeader}
    (hinspect : inspectTxnFrameHeader (slice file log.cursor txnFrameHeaderBytes) = .ok inspected) :
    RoundIs file log place (replayInspected file baseEnd log inspected) := by
  unfold replayInspected
  rw [hoffset]
  by_cases hwhole : inspected.frameBytes > file.length - log.cursor ∨
      place.offset + inspected.frameBytes > maxActiveLogBytes
  · refine .inr ⟨fun record hfits _ hbegins => ?_, if_pos hwhole⟩
    obtain ⟨hlength, hheader⟩ := inspect_found hfits hbegins
    obtain rfl := Except.ok.inj (hinspect.symm.trans hheader)
    have hbytes := hfits.bytes
    dsimp only at hwhole
    omega
  have hpos : 0 < txnFrameHeaderBytes := by decide
  have hslice : slice file log.cursor txnFrameHeaderBytes =
      slice (file.drop log.cursor) 0 txnFrameHeaderBytes := by
    rw [slice, slice, List.drop_zero]
  have hfields := (inspectTxnFrameHeader_eq_ok (by rw [List.length_drop]; exact hroom)).mp (hslice ▸ hinspect)
  obtain ⟨-, -, -, hpayload, -, rfl⟩ := hfields
  have hcap : txnFrameHeaderBytes + maxFramePayloadBytes ≤ maxSafeInteger := by decide
  dsimp only at hwhole ⊢
  rw [if_neg hwhole, readExact_eq hfile (by omega) le_rfl (by omega), ok_bind]
  rcases applyFrame_cases h (slice file log.cursor (txnFrameHeaderBytes + getUint (file.drop log.cursor) 32 4)) with
    ⟨record, state', ⟨hencodable, hmark⟩, himage, haccept, happly⟩ | ⟨happly, hrefused⟩
  · rw [hsequence] at himage hencodable
    have hlength := congrArg List.length himage
    rw [length_slice (by omega)] at hlength
    refine .inl ⟨record, state', ⟨⟨hencodable, hmark, hnumber, by omega⟩, haccept, ?_⟩, ?_⟩
    · rw [← himage]
      exact List.take_prefix _ _
    · rw [happly, ← hlength]
      rfl
  · refine .inr ⟨fun record hfits haccept hbegins => ?_, ?_⟩
    · obtain ⟨-, hheader⟩ := inspect_found hfits hbegins
      obtain hsame := Except.ok.inj (hinspect.symm.trans hheader)
      rw [TxnFrameHeader.mk.injEq] at hsame
      have himage : slice file log.cursor (txnFrameHeaderBytes + getUint (file.drop log.cursor) 32 4) =
          frameImage ⟨log.state.generation, place.number, record⟩ := by
        rw [hsame.2.2.2, slice]
        exact (List.prefix_iff_eq_take.mp hbegins).symm
      rw [hrefused record] at haccept
      · cases haccept
      · rw [himage, hsequence]
        exact (decode_frameImage_iff hfits.encodable).mpr hfits.noMark
    · rw [happly]
      rfl

theorem replayFrame_round (h : Sound log.state) (hcursor : log.cursor = baseEnd + place.offset)
    (hsequence : log.sequence = place.number) (hnumber : place.number ≤ maxActiveLogFrames)
    (hfile : file.length ≤ maxSafeInteger) : RoundIs file log place (replayFrame file baseEnd log) := by
  have hoffset : log.cursor - baseEnd = place.offset := by omega
  have hpos : 0 < txnFrameHeaderBytes := by decide
  unfold replayFrame
  rw [hoffset]
  by_cases hroom : file.length - log.cursor < txnFrameHeaderBytes ∨
      place.offset + txnFrameHeaderBytes > maxActiveLogBytes
  · refine .inr ⟨fun record hfits _ hbegins => ?_, if_pos hroom⟩
    have hlength := (inspect_found hfits hbegins).1
    have hbytes := hfits.bytes
    have hmin := length_frame_ge ⟨log.state.generation, place.number, record⟩
    omega
  rw [if_neg hroom, readExact_eq hfile (by omega) le_rfl (by decide), ok_bind]
  cases hinspect : inspectTxnFrameHeader (slice file log.cursor txnFrameHeaderBytes) with
  | error cause =>
    obtain ⟨message, rfl⟩ := inspect_error hinspect
    refine .inr ⟨fun record hfits _ hbegins => ?_, rfl⟩
    rw [(inspect_found hfits hbegins).2] at hinspect
    cases hinspect
  | ok inspected => exact replayInspected_round h hoffset hsequence hnumber hfile (by omega) hinspect

end round

/-! ### The whole log -/

@[simp] theorem linkNewInode_generation (state : VfsState) (parentId : Nat) (parent : Inode) (name : JsString)
    (inode : Inode) (nextInodeId : Nat) :
    (linkNewInode state parentId parent name inode nextInodeId).generation = state.generation := by
  simp [linkNewInode]

@[simp] theorem unlinkInode_generation (state : VfsState) (parentId : Nat) (name : JsString) (inodeId mtimeMs ctimeMs : Nat) :
    (unlinkInode state parentId name inodeId mtimeMs ctimeMs).generation = state.generation := by
  simp [unlinkInode]

theorem moveEntry_generation (state : VfsState) (record : RenameRecord) (source : Inode) (destination : Option Inode)
    (destinationParent : Inode) (timestampMs : Nat) :
    (moveEntry state record source destination destinationParent timestampMs).generation = state.generation := by
  cases destination <;> simp [moveEntry, stampRename, removeReplaced]

theorem applyCreateLoop_generation {state state' : VfsState} {entries : List CreateDirectoryChoice}
    (happly : applyCreateLoop state entries = .ok () state') : state'.generation = state.generation := by
  induction entries generalizing state with
  | nil =>
    cases happly
    rfl
  | cons entry entries ih =>
    simp only [applyCreateLoop] at happly
    split at happly
    · cases happly
    · split at happly
      · cases happly
      · rw [ih happly, linkNewInode_generation]

theorem applyRecord_generation {state state' : VfsState} {record : TxnRecord}
    (happly : applyRecord state record = .ok () state') : state'.generation = state.generation := by
  cases record with
  | createDirectories entries =>
    simp only [applyRecord, applyCreateDirectories] at happly
    split at happly
    · cases happly
    · exact applyCreateLoop_generation happly
  | rename record =>
    obtain ⟨choice, -, rfl⟩ := checkedThen_eq_ok.mp happly
    exact moveEntry_generation _ _ _ _ _ _
  | _ =>
    obtain ⟨choice, -, rfl⟩ := checkedThen_eq_ok.mp happly
    simp

theorem Balanced.accepts {state state' : VfsState} (h : Balanced state) {record : TxnRecord}
    (haccept : acceptTxn state record = some state') : Balanced state' ∧ state'.generation = state.generation := by
  rw [acceptTxn_eq_some] at haccept
  obtain ⟨bytes, applied, -, hrecord, heq⟩ := applyTxn_eq_ok.mp haccept
  refine ⟨applyTxn_balanced h haccept, ?_⟩
  rw [heq]
  show applied.generation = state.generation
  exact applyRecord_generation hrecord

theorem stops_beyond {generation : Nat} {place : Place} (h : maxActiveLogFrames < place.number) (state : VfsState)
    (bytes : List UInt8) : Stops (logFormat generation) acceptTxn place state bytes := by
  intro record hfits
  have hnumber : place.number ≤ maxActiveLogFrames := FitsLog.number hfits
  omega

theorem replayFrames_eq {file : List UInt8} {baseEnd left : Nat} {log : LogCursor} {place : Place}
    (h : Balanced log.state) (hcursor : log.cursor = baseEnd + place.offset) (hsequence : log.sequence = place.number)
    (hleft : place.number + left = maxActiveLogFrames + 1) (hfile : file.length ≤ maxSafeInteger) :
    ∃ records final rest, Longest (logFormat log.state.generation) acceptTxn place log.state (file.drop log.cursor)
        records final rest ∧ Balanced final ∧
      replayFrames file baseEnd left log = .ok ⟨final,
        log.cursor + (frames (logFormat log.state.generation) place.number records).length,
        log.sequence + records.length⟩ := by
  induction left generalizing log place with
  | zero => exact ⟨[], _, _, .stop (stops_beyond (by omega) _ _), h, rfl⟩
  | succ left ih =>
    rw [replayFrames]
    by_cases hlt : log.cursor < file.length
    · rw [if_pos hlt]
      rcases replayFrame_round h.sound hcursor hsequence (by omega) hfile with
        ⟨record, state', htaken, hround⟩ | ⟨hstops, hround⟩
      · obtain ⟨hnext, hgeneration⟩ := h.accepts htaken.accepted
        obtain ⟨tail, htail⟩ := htaken.bytes
        obtain ⟨records, final, rest, hlongest, hfinal, hreplay⟩ := @ih
          ⟨state', log.cursor + (frameImage ⟨log.state.generation, place.number, record⟩).length, log.sequence + 1⟩
          (place.next (frameImage ⟨log.state.generation, place.number, record⟩).length) hnext
          (by rw [hcursor]; exact Nat.add_assoc _ _ _) (by rw [hsequence]; rfl)
          (by show place.number + 1 + left = _; omega)
        dsimp only at hlongest hreplay
        rw [← List.drop_drop, ← htail, List.drop_left, hgeneration] at hlongest
        refine ⟨record :: records, final, rest, ?_, hfinal, ?_⟩
        · rw [← htail]
          exact .cons htaken.fits htaken.accepted hlongest
        · rw [hround, ok_bind]
          show replayFrames _ _ _ _ = _
          rw [hreplay, hgeneration, frames, List.length_append, List.length_cons]
          congr 2
          · show _ + _ = _ + (_ + _)
            rw [Nat.add_assoc]
            rfl
          · omega
      · refine ⟨[], _, _, .stop hstops, h, ?_⟩
        rw [hround]
        rfl
    · rw [if_neg hlt]
      refine ⟨[], _, _, .stop ?_, h, rfl⟩
      rw [List.drop_eq_nil_of_le (by omega)]
      exact stops_nil fun record => frameImage_ne_nil _

/-! ### What is returned -/

/-- The place of the first frame. -/
def logStart : Place := ⟨1, 0⟩

/-- What the replay returns when it takes the records and comes to the state. -/
def replayed (baseEnd generation : Nat) (records : List TxnRecord) (final : VfsState) : ReplayedLog where
  validEnd := baseEnd + (frames (logFormat generation) 1 records).length
  nextSequence := 1 + records.length
  requiredArenaEnd := arenaHeaderBytes + final.allocator.totalExtents * final.extentSize

theorem requiredArenaEnd_eq {state : VfsState} (h : Sound state) :
    requiredArenaEnd state = .ok (arenaHeaderBytes + state.allocator.totalExtents * state.extentSize) := by
  have htotal := h.alloc.total
  have hsize := h.extentSize.2.1
  have hproduct : state.allocator.totalExtents * state.extentSize ≤ maxTotalExtents * maxExtentBytes :=
    Nat.mul_le_mul htotal hsize
  have hbound : arenaHeaderBytes + maxTotalExtents * maxExtentBytes ≤ maxU64 := by decide
  simp only [requiredArenaEnd, bind_eq_ok]
  refine ⟨state.allocator.totalExtents * state.extentSize, ?_, ?_⟩
  · rw [checkedMultiply, ← Int.natCast_mul, checkedU64_nat]
    exact ⟨rfl, by omega⟩
  · rw [checkedAdd_nat]
    exact ⟨rfl, by omega⟩

/-- The replay comes to the state after the longest log in the bytes, and returns when that is well formed. -/
theorem replayLog_of_longest {file : List UInt8} {state final : VfsState} {baseEnd : Nat} {records : List TxnRecord}
    {rest : List UInt8} (h : Balanced state) (hfile : file.length ≤ maxSafeInteger) (hbase : baseEnd ≤ file.length)
    (hlongest : Longest (logFormat state.generation) acceptTxn logStart state (file.drop baseEnd) records final rest) :
    Balanced final ∧ replayLog file state baseEnd =
      (validateState final >>= fun _ => .ok (final, replayed baseEnd state.generation records final)) := by
  obtain ⟨records', final', rest', hlongest', hfinal, hreplay⟩ := @replayFrames_eq file baseEnd maxActiveLogFrames
    ⟨state, baseEnd, 1⟩ logStart h rfl rfl (Nat.add_comm _ _) hfile
  obtain ⟨rfl, rfl, -⟩ := hlongest.unique hlongest'
  refine ⟨hfinal, ?_⟩
  have hcursor : checkedSafeNumber baseEnd "active log start" = .ok baseEnd :=
    checkedSafeNumber_eq_ok.mpr ⟨rfl, hbase.trans hfile⟩
  rw [replayLog, hcursor, ok_bind, hreplay, ok_bind, requiredArenaEnd_eq hfinal.sound]
  rfl

theorem exists_longest {file : List UInt8} {state : VfsState} (h : Balanced state) (hfile : file.length ≤ maxSafeInteger)
    (baseEnd : Nat) : ∃ records final rest,
      Longest (logFormat state.generation) acceptTxn logStart state (file.drop baseEnd) records final rest := by
  obtain ⟨records, final, rest, hlongest, -, -⟩ := @replayFrames_eq file baseEnd maxActiveLogFrames
    ⟨state, baseEnd, 1⟩ logStart h rfl rfl (Nat.add_comm _ _) hfile
  exact ⟨records, final, rest, hlongest⟩

end Opfs
