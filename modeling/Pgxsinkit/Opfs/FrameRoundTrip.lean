/-
Transaction frames of planned records.

A record that the reducer accepts can be encoded, so the live path always gets its frame,
as long as `txnFrameBytes` says.  The reader takes the frame back exactly when no name in
the record begins with U+FEFF, and whatever it takes is encoded to the same bytes.
-/
import Pgxsinkit.Opfs.HeadersSpec
import Pgxsinkit.Opfs.MetadataRun

namespace Opfs

open Bytes Checked

/-! ### What the reducer accepts can be encoded -/

theorem length_le_expandRuns {runs : List ExtentRun} (h : RunsOk runs) :
    runs.length ≤ (expandRuns runs).length := by
  induction runs with
  | nil => exact Nat.le_refl _
  | cons run runs ih =>
    rw [RunsOk, List.forall_mem_cons] at h
    have hrest := ih h.2
    have hpos := h.1.1
    show runs.length + 1 ≤ (List.range' run.start run.count ++ expandRuns runs).length
    rw [List.length_append, List.length_range']
    omega

theorem length_expandRuns_eq_sum (runs : List ExtentRun) :
    (expandRuns runs).length = (runs.map ExtentRun.count).sum := by
  simp [expandRuns, List.length_flatMap]

theorem RunsOk.encodable {runs : List ExtentRun} (h : RunsOk runs)
    (hle : (expandRuns runs).length ≤ maxExtentsPerInode) : RunsEncodable runs := by
  refine ⟨(length_le_expandRuns h).trans hle, fun run hrun => ?_, ?_⟩
  · obtain ⟨hpos, -, hend⟩ := h run hrun
    exact ⟨by omega, hpos⟩
  · rwa [← length_expandRuns_eq_sum]

theorem Assignable.encodable {state : VfsState} {runs : List ExtentRun} {count : Nat}
    (h : Assignable state runs count) : RunsEncodable runs :=
  h.runs_ok.encodable (h.length ▸ h.le)

/-- Every inode id of a sound state is an unsigned 64-bit value. -/
theorem Sound.id_le {state : VfsState} (h : Sound state) {id : Nat} {inode : Inode}
    (hi : state.inodes.get? id = some inode) : id ≤ maxU64 :=
  (Nat.le_of_lt (h.inodes id inode hi).lt_next).trans h.next_le

theorem Creatable.encodable {state : VfsState} (h : Sound state) {entry : CreateDirectoryChoice}
    {parent : Inode} (hc : Creatable state entry parent) : EntryEncodable entry :=
  ⟨h.id_le hc.found, hc.name, (Nat.le_succ _).trans hc.next_le, hc.mode, hc.atime, hc.mtime,
    hc.ctime⟩

theorem Removable.encodable {state : VfsState} (h : Sound state) {record : RemoveRecord}
    {parent inode : Inode} (hr : Removable state record parent inode) : RemoveEncodable record :=
  ⟨h.id_le hr.owner, hr.name, hr.mtime, hr.ctime⟩

theorem CreatesDirectories.encodable {state state' : VfsState} (h : Sound state)
    {entries : List CreateDirectoryChoice} (hsize : state.inodes.size + entries.length ≤ maxInodes)
    (hc : CreatesDirectories state entries state') : ∀ entry ∈ entries, EntryEncodable entry := by
  induction entries generalizing state with
  | nil => simp
  | cons entry entries ih =>
    rw [List.length_cons] at hsize
    obtain ⟨parent, hcreate, hrest⟩ := hc
    have hsound := hcreate.sound_directory h (by omega)
    refine List.forall_mem_cons.mpr ⟨hcreate.encodable h, ih hsound ?_ hrest⟩
    rw [hcreate.size_directory h]
    omega

theorem applyRecord_encodable {state state' : VfsState} (h : Sound state) {record : TxnRecord}
    (happly : applyRecord state record = .ok () state') : RecordEncodable record := by
  cases record with
  | createDirectories entries =>
    obtain ⟨hne, hsize, hc⟩ := (applyCreateDirectories_eq_ok h).mp happly
    exact ⟨hne, by omega, hc.encodable h hsize⟩
  | createFile record =>
    obtain ⟨parent, hc, -, hsize, hassign, -⟩ := (applyCreateFile_eq_ok h).mp happly
    exact ⟨hc.encodable h, hsize, hassign.encodable⟩
  | removeFile record =>
    obtain ⟨parent, inode, hr, -⟩ := (applyRemoveFile_eq_ok h).mp happly
    exact hr.encodable h
  | changeMode inodeId mode ctimeMs =>
    simp only [applyRecord, applyChangeMode, checkedThen_eq_ok, bind_eq_ok, inodeById_eq_ok,
      validateMode_nat, validateTimestamp_nat, pure_eq_ok] at happly
    obtain ⟨_, ⟨inode, hi, _, ⟨rfl, hmode⟩, _, ⟨rfl, hc⟩, rfl⟩, -⟩ := happly
    exact ⟨h.id_le hi, hmode, hc⟩
  | changeTimes inodeId atimeMs mtimeMs ctimeMs =>
    simp only [applyRecord, applyChangeTimes, checkedThen_eq_ok, bind_eq_ok, inodeById_eq_ok,
      validateTimestamp_nat, pure_eq_ok] at happly
    obtain ⟨_, ⟨inode, hi, _, ⟨rfl, ha⟩, _, ⟨rfl, hm⟩, _, ⟨rfl, hc⟩, rfl⟩, -⟩ := happly
    exact ⟨h.id_le hi, ha, hm, hc⟩
  | resizeFile record =>
    obtain ⟨inode, size, extents, hr, -⟩ := (applyResizeFile_eq_ok h).mp happly
    exact ⟨h.id_le hr.found, hr.size_le, hr.assign.encodable, hr.mtime, hr.ctime⟩
  | removeDirectory record =>
    obtain ⟨parent, inode, hr, -⟩ := (applyRemoveDirectory_eq_ok h).mp happly
    exact hr.encodable h
  | rename record =>
    obtain ⟨source, destination, destinationParent, hr, -⟩ := (applyRename_eq_ok h).mp happly
    obtain ⟨sparent, hsp, -⟩ := childOf_eq_some.mp hr.edge
    exact ⟨h.id_le hsp, hr.sourceName, h.id_le hr.owner, hr.destinationName, hr.timestamp⟩
  | createSymlink record =>
    obtain ⟨parent, hc, -, htarget, -⟩ := (applyCreateSymlink_eq_ok h).mp happly
    exact ⟨hc.encodable h, htarget⟩
  | reserveQuarantine extents =>
    obtain ⟨-, hassign, -⟩ := (applyReserveQuarantine_eq_ok h).mp happly
    exact hassign.encodable

/-! ### Round trips -/

/-- A frame that can be encoded is read back iff no name in it begins with U+FEFF. -/
theorem decode_frameImage_iff {frame : TxnFrame} (h : FrameEncodable frame) :
    decodeTxnFrame (frameImage frame) = .ok frame ↔
      ∀ name ∈ recordNames frame.record, NoMark name := by
  rw [decodeTxnFrame_eq_ok]
  exact ⟨fun hread => hread.1.2, fun hmark => ⟨⟨h, hmark⟩, rfl⟩⟩

/-- The frame of a record that a state accepts can be encoded. -/
theorem Planned.frameEncodable {state : VfsState} (h : Sound state) {record : TxnRecord}
    (hp : Planned state record) {generation sequence : Nat} (hg : generation ≤ maxU64)
    (hs : sequence ≤ maxU64) : FrameEncodable ⟨generation, sequence, record⟩ := by
  obtain ⟨bytes, hpre⟩ := hp.preflight
  obtain ⟨⟨estimated, hestimate, hle⟩, -⟩ := preflightTxn_eq_ok.mp hpre
  obtain ⟨state', happly⟩ := hp.applies
  have henc := applyRecord_encodable h happly
  rw [estimateTxnPayloadBytes_eq henc, Except.ok.injEq] at hestimate
  exact ⟨hg, hs, henc, by rw [hestimate]; exact hle⟩

theorem txnFrameBytes_eq {frame : TxnFrame} (h : FrameEncodable frame) :
    txnFrameBytes frame.record = .ok (frameImage frame).length := by
  have hle := h.length
  rw [txnFrameBytes, estimateTxnPayloadBytes_eq h.record, Checked.ok_bind, throwIf,
    if_neg (by omega), length_frameImage]
  rfl

/-- The frame is encoded into as many bytes as announced, and read back as it was. -/
def RoundTrips (frame : TxnFrame) : Prop :=
  ∃ bytes, encodeTxnFrame frame = .ok bytes ∧ txnFrameBytes frame.record = .ok bytes.length ∧
    decodeTxnFrame bytes = .ok frame

theorem roundTrips_iff {frame : TxnFrame} (h : FrameEncodable frame) :
    RoundTrips frame ↔ ∀ name ∈ recordNames frame.record, NoMark name := by
  rw [← decode_frameImage_iff h]
  constructor
  · rintro ⟨bytes, hencode, -, hdecode⟩
    rw [encodeTxnFrame_eq h, Except.ok.injEq] at hencode
    rwa [hencode]
  · exact fun hdecode => ⟨_, encodeTxnFrame_eq h, txnFrameBytes_eq h, hdecode⟩

/-- What the reader accepts is encoded to the same bytes. -/
theorem encodeTxnFrame_of_decode {bytes : List UInt8} {frame : TxnFrame}
    (h : decodeTxnFrame bytes = .ok frame) : encodeTxnFrame frame = .ok bytes := by
  obtain ⟨⟨hframe, -⟩, rfl⟩ := decodeTxnFrame_eq_ok.mp h
  exact encodeTxnFrame_eq hframe

/-- A planned record makes the round trip in a frame iff no name in it begins with U+FEFF;
every byte string the reader accepts makes it the other way. -/
theorem txn_frame_round_trip (bytes : List UInt8) (frame : TxnFrame) :
    (∀ state, validateState state = .ok () → ∀ (call : PlannerCall) record,
      call.plan state = .ok record → ∀ generation ≤ maxU64, ∀ sequence ≤ maxU64,
        (RoundTrips ⟨generation, sequence, record⟩ ↔ ∀ name ∈ recordNames record, NoMark name)) ∧
      (decodeTxnFrame bytes = .ok frame → encodeTxnFrame frame = .ok bytes) := by
  refine ⟨fun state hvalid call record hplan generation hg sequence hs => ?_,
    encodeTxnFrame_of_decode⟩
  have hwf := validateState_eq_ok_iff.mp hvalid
  exact roundTrips_iff ((call.planned hwf hplan).frameEncodable hwf.sound hg hs)

theorem txn_frame_round_trip_mkdir :
    RoundTrips ⟨1, 1, .createDirectories [⟨1, [97], 2, 0o40777, 5, 5, 5⟩]⟩ := by
  have hvalid := validateState_eq_ok_iff.mpr
    (initialState_wellFormed (show LegalExtentSize 65536 by decide))
  exact ((txn_frame_round_trip [] ⟨1, 1, .createDirectories []⟩).1 _ hvalid (.mkdir [slash, 97] ⟨false, none, 5⟩) _ rfl
    1 (by decide) 1 (by decide)).mpr (by decide)

/-- A directory named U+FEFF is planned, and its frame is refused. -/
theorem txn_frame_round_trip_mark :
    validateState (initialState 65536) = .ok () ∧
      ∃ record, PlannerCall.plan (initialState 65536) (.mkdir [slash, 0xfeff] ⟨false, none, 5⟩) =
        .ok record ∧ ¬ RoundTrips ⟨1, 1, record⟩ := by
  have hvalid := validateState_eq_ok_iff.mpr
    (initialState_wellFormed (show LegalExtentSize 65536 by decide))
  have hwf := validateState_eq_ok_iff.mp hvalid
  refine ⟨hvalid, .createDirectories [⟨1, [0xfeff], 2, 0o40777, 5, 5, 5⟩], rfl, fun htrip => ?_⟩
  have hplan : PlannerCall.plan (initialState 65536) (.mkdir [slash, 0xfeff] ⟨false, none, 5⟩) =
      .ok (.createDirectories [⟨1, [0xfeff], 2, 0o40777, 5, 5, 5⟩]) := rfl
  have hframe := (PlannerCall.planned hwf hplan).frameEncodable hwf.sound
    (show 1 ≤ maxU64 by decide) (show 1 ≤ maxU64 by decide)
  exact absurd ((roundTrips_iff hframe).mp htrip) (by decide)

end Opfs
