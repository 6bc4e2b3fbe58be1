/-
The record codec is exact: `encodeTxnRecord` writes `recordBytes` for every record that can
be encoded, in as many bytes as `estimateTxnPayloadBytes` counted, and `readTxnRecord`
accepts exactly these byte strings, for records without a name that begins with U+FEFF.
-/
import Pgxsinkit.Opfs.TxnCodec

namespace Opfs

open Bytes Checked Unicode

/-! ### The bytes of a record -/

def runsBytes (runs : List ExtentRun) : List UInt8 :=
  leBytes 4 runs.length ++ runs.flatMap fun run => leBytes 8 run.start ++ leBytes 4 run.count

def directoryEntryBytes (entry : CreateDirectoryChoice) : List UInt8 :=
  leBytes 8 entry.parentId ++ (Writes.stringBytes entry.name ++ (leBytes 8 entry.inodeId ++
    (leBytes 4 entry.mode ++ (leBytes 8 entry.atimeMs ++ (leBytes 8 entry.mtimeMs ++
      leBytes 8 entry.ctimeMs)))))

def removeBytes (record : RemoveRecord) : List UInt8 :=
  leBytes 8 record.parentId ++ (Writes.stringBytes record.name ++
    (leBytes 8 record.parentMtimeMs ++ leBytes 8 record.parentCtimeMs))

def fieldBytes : TxnRecord → List UInt8
  | .createDirectories entries => leBytes 4 entries.length ++ entries.flatMap directoryEntryBytes
  | .createFile record =>
    directoryEntryBytes record.header ++ (leBytes 8 record.size ++ runsBytes record.extents)
  | .removeFile record | .removeDirectory record => removeBytes record
  | .changeMode inodeId mode ctimeMs => leBytes 8 inodeId ++ (leBytes 4 mode ++ leBytes 8 ctimeMs)
  | .changeTimes inodeId atimeMs mtimeMs ctimeMs =>
    leBytes 8 inodeId ++ (leBytes 8 atimeMs ++ (leBytes 8 mtimeMs ++ leBytes 8 ctimeMs))
  | .resizeFile record =>
    leBytes 1 (operationCode record.operation) ++ (leBytes 8 record.inodeId ++
      (leBytes 8 record.size ++ (runsBytes record.allocated ++ (leBytes 8 record.mtimeMs ++
        leBytes 8 record.ctimeMs))))
  | .rename record =>
    leBytes 8 record.sourceParentId ++ (Writes.stringBytes record.sourceName ++
      (leBytes 8 record.destinationParentId ++ (Writes.stringBytes record.destinationName ++
        leBytes 8 record.timestampMs)))
  | .createSymlink record =>
    directoryEntryBytes record.header ++ Writes.stringBytes record.target
  | .reserveQuarantine extents => runsBytes extents

def recordBytes (record : TxnRecord) : List UInt8 :=
  leBytes 1 (recordCode record) ++ fieldBytes record

/-! ### The records that can be encoded -/

structure RunsEncodable (runs : List ExtentRun) : Prop where
  length : runs.length ≤ maxExtentsPerInode
  each : ∀ run ∈ runs, run.start ≤ maxU64 ∧ 0 < run.count
  total : (runs.map ExtentRun.count).sum ≤ maxExtentsPerInode

structure EntryEncodable (entry : CreateDirectoryChoice) : Prop where
  parentId : entry.parentId ≤ maxU64
  name : ValidComponent entry.name
  inodeId : entry.inodeId ≤ maxU64
  mode : entry.mode ≤ maxU32
  atime : entry.atimeMs ≤ maxU64
  mtime : entry.mtimeMs ≤ maxU64
  ctime : entry.ctimeMs ≤ maxU64

structure RemoveEncodable (record : RemoveRecord) : Prop where
  parentId : record.parentId ≤ maxU64
  name : ValidComponent record.name
  mtime : record.parentMtimeMs ≤ maxU64
  ctime : record.parentCtimeMs ≤ maxU64

def RecordEncodable : TxnRecord → Prop
  | .createDirectories entries =>
    entries ≠ [] ∧ entries.length ≤ maxInodes ∧ ∀ entry ∈ entries, EntryEncodable entry
  | .createFile record =>
    EntryEncodable record.header ∧ record.size ≤ maxU64 ∧ RunsEncodable record.extents
  | .removeFile record | .removeDirectory record => RemoveEncodable record
  | .changeMode inodeId mode ctimeMs => inodeId ≤ maxU64 ∧ mode ≤ maxU32 ∧ ctimeMs ≤ maxU64
  | .changeTimes inodeId atimeMs mtimeMs ctimeMs =>
    inodeId ≤ maxU64 ∧ atimeMs ≤ maxU64 ∧ mtimeMs ≤ maxU64 ∧ ctimeMs ≤ maxU64
  | .resizeFile record =>
    record.inodeId ≤ maxU64 ∧ record.size ≤ maxU64 ∧ RunsEncodable record.allocated ∧
      record.mtimeMs ≤ maxU64 ∧ record.ctimeMs ≤ maxU64
  | .rename record =>
    record.sourceParentId ≤ maxU64 ∧ ValidComponent record.sourceName ∧
      record.destinationParentId ≤ maxU64 ∧ ValidComponent record.destinationName ∧
        record.timestampMs ≤ maxU64
  | .createSymlink record => EntryEncodable record.header ∧ ValidTarget record.target
  | .reserveQuarantine extents => RunsEncodable extents

/-- The names a record carries. -/
def recordNames : TxnRecord → List JsString
  | .createDirectories entries => entries.map CreateDirectoryChoice.name
  | .createFile record => [record.name]
  | .removeFile record | .removeDirectory record => [record.name]
  | .rename record => [record.sourceName, record.destinationName]
  | .createSymlink record => [record.name]
  | .changeMode .. | .changeTimes .. | .resizeFile .. | .reserveQuarantine .. => []

/-! ### What the writers write -/

theorem RunsEncodable.count_le {runs : List ExtentRun} (h : RunsEncodable runs) {run : ExtentRun}
    (hr : run ∈ runs) : run.count ≤ maxExtentsPerInode :=
  (List.single_le_sum (by simp) _ (List.mem_map_of_mem hr)).trans h.total

theorem RunsEncodable.writes {runs : List ExtentRun} (h : RunsEncodable runs) :
    Writes (writeExtentRuns runs) (runsBytes runs) := by
  have hlen := h.length
  unfold maxExtentsPerInode at hlen
  refine (Writes.u32 (by unfold maxU32; omega)).comp (Writes.all fun run hr => ?_)
  have hcount := h.count_le hr
  unfold maxExtentsPerInode at hcount
  exact (Writes.u64 (h.each run hr).1).comp (Writes.u32 (by unfold maxU32; omega))

theorem EntryEncodable.writes {entry : CreateDirectoryChoice} (h : EntryEncodable entry) :
    Writes (writeDirectoryEntry entry) (directoryEntryBytes entry) :=
  (Writes.u64 h.parentId).comp <| h.name.writes.comp <| (Writes.u64 h.inodeId).comp <|
    (Writes.u32 h.mode).comp <| (Writes.u64 h.atime).comp <| (Writes.u64 h.mtime).comp <|
      Writes.u64 h.ctime

theorem RemoveEncodable.writes {record : RemoveRecord} (h : RemoveEncodable record) :
    Writes (writeRemove record) (removeBytes record) :=
  (Writes.u64 h.parentId).comp <| h.name.writes.comp <| (Writes.u64 h.mtime).comp <|
    Writes.u64 h.ctime

theorem operationCode_le (operation : ResizeOperation) : operationCode operation ≤ 1 := by
  cases operation <;> decide

theorem recordCode_le (record : TxnRecord) : recordCode record ≤ 10 := by
  cases record <;> simp [recordCode]

theorem writes_fields {record : TxnRecord} (h : RecordEncodable record) :
    Writes (writeTxnFields record) (fieldBytes record) := by
  cases record with
  | createDirectories entries =>
    obtain ⟨-, hlen, hall⟩ := h
    unfold maxInodes at hlen
    exact (Writes.u32 (by unfold maxU32; omega)).comp (Writes.all fun entry he =>
      (hall entry he).writes)
  | createFile record => exact h.1.writes.comp ((Writes.u64 h.2.1).comp h.2.2.writes)
  | removeFile record => exact RemoveEncodable.writes h
  | changeMode inodeId mode ctimeMs =>
    exact (Writes.u64 h.1).comp ((Writes.u32 h.2.1).comp (Writes.u64 h.2.2))
  | changeTimes inodeId atimeMs mtimeMs ctimeMs =>
    exact (Writes.u64 h.1).comp ((Writes.u64 h.2.1).comp ((Writes.u64 h.2.2.1).comp
      (Writes.u64 h.2.2.2)))
  | resizeFile record =>
    obtain ⟨hid, hsize, hruns, hm, hc⟩ := h
    have hcode := operationCode_le record.operation
    exact (Writes.u8 (by omega)).comp ((Writes.u64 hid).comp ((Writes.u64 hsize).comp
      (hruns.writes.comp ((Writes.u64 hm).comp (Writes.u64 hc)))))
  | removeDirectory record => exact RemoveEncodable.writes h
  | rename record =>
    obtain ⟨hs, hsn, hd, hdn, hts⟩ := h
    exact (Writes.u64 hs).comp (hsn.writes.comp ((Writes.u64 hd).comp (hdn.writes.comp
      (Writes.u64 hts))))
  | createSymlink record => exact h.1.writes.comp h.2.writes
  | reserveQuarantine extents => exact RunsEncodable.writes h

/-! ### The estimate -/

theorem length_stringBytes {value : JsString} (h : utf8Units value = some (utf8Bytes value)) :
    (Writes.stringBytes value).length = 2 + utf8Bytes value := by
  rw [Writes.stringBytes, List.length_append, length_leBytes, length_textEncode h]

theorem length_runsBytes (runs : List ExtentRun) :
    (runsBytes runs).length = extentRunsPayloadBytes runs := by
  rw [runsBytes, List.length_append, length_leBytes, List.length_flatMap]
  simp [extentRunsPayloadBytes]

theorem length_directoryEntryBytes {entry : CreateDirectoryChoice} (h : EntryEncodable entry) :
    (directoryEntryBytes entry).length = 8 + 2 + utf8Bytes entry.name + 8 + 4 + 24 := by
  simp only [directoryEntryBytes, List.length_append, length_leBytes, length_stringBytes h.name.units]
  omega

theorem estimate_remove {record : RemoveRecord} (h : RemoveEncodable record) (code : Nat) :
    (do let name ← encodedUtf8Length record.name; return 1 + 8 + 2 + name + 16 :
      Except StoreError Nat) = .ok (leBytes 1 code ++ removeBytes record).length := by
  rw [encodedUtf8Length_of_units h.name.units]
  refine congrArg Except.ok ?_
  simp only [removeBytes, List.length_append, length_leBytes, length_stringBytes h.name.units]
  omega

/-- The estimate counts what the writers write. -/
theorem estimateTxnPayloadBytes_eq {record : TxnRecord} (h : RecordEncodable record) :
    estimateTxnPayloadBytes record = .ok (recordBytes record).length := by
  cases record with
  | createDirectories entries =>
    obtain ⟨-, -, hall⟩ := h
    have hloop : ∀ (entries : List CreateDirectoryChoice) (done : Nat),
        (∀ entry ∈ entries, EntryEncodable entry) →
        foldChecked (fun bytes (entry : CreateDirectoryChoice) => do
          let name ← encodedUtf8Length entry.name
          return bytes + 8 + 2 + name + 8 + 4 + 24) done entries =
            .ok (done + (entries.flatMap directoryEntryBytes).length) := by
      intro entries
      induction entries with
      | nil => exact fun done _ => rfl
      | cons entry entries ih =>
        intro done hall
        rw [List.forall_mem_cons] at hall
        rw [foldChecked_cons, encodedUtf8Length_of_units hall.1.name.units, List.flatMap_cons,
          List.length_append, length_directoryEntryBytes hall.1]
        refine (ih _ hall.2).trans (congrArg Except.ok ?_)
        omega
    rw [estimateTxnPayloadBytes, hloop entries 5 hall, recordBytes, fieldBytes]
    simp only [List.length_append, length_leBytes]
    refine congrArg Except.ok ?_
    omega
  | createFile record =>
    have hname : ValidComponent record.name := h.1.name
    have hlen := length_directoryEntryBytes h.1
    rw [estimateTxnPayloadBytes, encodedUtf8Length_of_units hname.units]
    refine congrArg Except.ok ?_
    simp only [recordBytes, fieldBytes, List.length_append, length_leBytes, hlen, length_runsBytes]
    simp only [CreateFileRecord.header]
    omega
  | removeFile record => exact estimate_remove h 3
  | changeMode inodeId mode ctimeMs =>
    exact congrArg Except.ok (by simp [recordBytes, fieldBytes])
  | changeTimes inodeId atimeMs mtimeMs ctimeMs =>
    exact congrArg Except.ok (by simp [recordBytes, fieldBytes])
  | resizeFile record =>
    refine congrArg Except.ok ?_
    simp only [recordBytes, fieldBytes, List.length_append, length_leBytes, length_runsBytes]
    omega
  | removeDirectory record => exact estimate_remove h 7
  | rename record =>
    obtain ⟨-, hsn, -, hdn, -⟩ := h
    rw [estimateTxnPayloadBytes, encodedUtf8Length_of_units hsn.units,
      encodedUtf8Length_of_units hdn.units]
    refine congrArg Except.ok ?_
    simp only [recordBytes, fieldBytes, List.length_append, length_leBytes,
      length_stringBytes hsn.units, length_stringBytes hdn.units]
    omega
  | createSymlink record =>
    have hname : ValidComponent record.name := h.1.name
    have hlen := length_directoryEntryBytes h.1
    rw [estimateTxnPayloadBytes, encodedUtf8Length_of_units hname.units,
      encodedUtf8Length_of_units h.2.units.1]
    refine congrArg Except.ok ?_
    simp only [recordBytes, fieldBytes, List.length_append, length_leBytes, hlen,
      length_stringBytes h.2.units.1]
    simp only [CreateSymlinkRecord.header]
    omega
  | reserveQuarantine extents =>
    refine congrArg Except.ok ?_
    simp only [recordBytes, fieldBytes, List.length_append, length_leBytes, length_runsBytes]

/-- An encodable record is encoded, into as many bytes as were estimated. -/
theorem encodeTxnRecord_eq {record : TxnRecord} (h : RecordEncodable record) :
    encodeTxnRecord record = .ok (recordBytes record) := by
  have hcode := recordCode_le record
  have hwrites : Writes (BinaryWriter.u8 (recordCode record) >=> writeTxnFields record)
      (recordBytes record) := (Writes.u8 (by omega)).comp (writes_fields h)
  rw [encodeTxnRecord, estimateTxnPayloadBytes_eq h, Checked.ok_bind]
  exact hwrites.finish (Nat.zero_add _).symm

/-! ### What the readers accept -/

open BinaryReader in
theorem exact_boundedCount {maximum : Nat} (hmax : maximum ≤ maxU32) (label : String) :
    Reader.Exact (readBoundedCount maximum label) (leBytes 4) fun n => n ≤ maximum := by
  intro bytes n rest
  simp only [readBoundedCount, Reader.bind_eq_ok, Reader.rejectIf_eq_ok, Reader.pure_eq_ok,
    exact_u32 _ _ _]
  constructor
  · rintro ⟨_, _, ⟨-, rfl⟩, _, _, ⟨hn, rfl⟩, rfl, rfl⟩
    exact ⟨by omega, rfl⟩
  · rintro ⟨hn, rfl⟩
    exact ⟨n, _, ⟨by omega, rfl⟩, (), _, ⟨by omega, rfl⟩, rfl, rfl⟩

def runBytes (run : ExtentRun) : List UInt8 := leBytes 8 run.start ++ leBytes 4 run.count

/-- One run, before the count is checked. -/
def readRun : BinaryReader ExtentRun := do
  let start ← BinaryReader.u64
  let count ← BinaryReader.u32
  return ⟨start, count⟩

open BinaryReader in
theorem exact_run :
    Reader.Exact readRun runBytes fun run => run.start ≤ maxU64 ∧ run.count ≤ maxU32 := by
  intro bytes run rest
  simp only [readRun, Reader.bind_eq_ok, Reader.pure_eq_ok, exact_u64 _ _ _, exact_u32 _ _ _,
    runBytes, List.append_assoc]
  constructor
  · rintro ⟨_, _, ⟨hs, rfl⟩, _, _, ⟨hc, rfl⟩, rfl, rfl⟩
    exact ⟨⟨hs, hc⟩, rfl⟩
  · rintro ⟨⟨hs, hc⟩, rfl⟩
    exact ⟨_, _, ⟨hs, rfl⟩, _, _, ⟨hc, rfl⟩, rfl, rfl⟩

def pushRun (acc : List ExtentRun × Nat) (run : ExtentRun) : List ExtentRun × Nat :=
  (acc.1 ++ [run], acc.2 + run.count)

theorem foldl_pushRun (runs : List ExtentRun) (acc : List ExtentRun × Nat) :
    runs.foldl pushRun acc = (acc.1 ++ runs, acc.2 + (runs.map ExtentRun.count).sum) := by
  induction runs generalizing acc with
  | nil => simp
  | cons run runs ih =>
    rw [List.foldl_cons, ih, pushRun, List.map_cons, List.sum_cons, ← Nat.add_assoc,
      List.append_assoc, List.singleton_append]

theorem readExtentRun_eq_ok {acc acc' : List ExtentRun × Nat} {bytes rest : List UInt8} :
    readExtentRun acc bytes = .ok (acc', rest) ↔
      ∃ run, readRun bytes = .ok (run, rest) ∧
        (run.count ≠ 0 ∧ acc.2 + run.count ≤ maxExtentsPerInode) ∧ acc' = pushRun acc run := by
  simp only [readExtentRun, readRun, Reader.bind_eq_ok, Reader.rejectIf_eq_ok, Reader.pure_eq_ok,
    not_or, not_lt, gt_iff_lt]
  constructor
  · rintro ⟨start, mid, hs, count, _, hc, _, _, ⟨hcheck, rfl⟩, rfl, rfl⟩
    exact ⟨⟨start, count⟩, ⟨start, mid, hs, count, _, hc, rfl, rfl⟩, hcheck, rfl⟩
  · rintro ⟨_, ⟨start, mid, hs, count, _, hc, rfl, rfl⟩, hcheck, rfl⟩
    exact ⟨start, mid, hs, count, _, hc, (), _, ⟨hcheck, rfl⟩, rfl, rfl⟩

/-- The bound on the running count is the bound on the total. -/
theorem runs_fit {runs : List ExtentRun} :
    (∀ before run after, runs = before ++ run :: after →
      run.count ≠ 0 ∧ (before.foldl pushRun ([], 0)).2 + run.count ≤ maxExtentsPerInode) ↔
      (∀ run ∈ runs, 0 < run.count) ∧ (runs.map ExtentRun.count).sum ≤ maxExtentsPerInode := by
  simp only [foldl_pushRun, Nat.zero_add]
  constructor
  · intro h
    refine ⟨fun run hr => ?_, ?_⟩
    · obtain ⟨before, after, rfl⟩ := List.append_of_mem hr
      exact Nat.pos_of_ne_zero (h before run after rfl).1
    · rcases runs.eq_nil_or_concat with rfl | ⟨before, run, rfl⟩
      · exact Nat.zero_le _
      · rw [List.concat_eq_append] at h ⊢
        have htotal := (h before run [] rfl).2
        simpa using htotal
  · rintro ⟨hpos, htotal⟩ before run after rfl
    have hrun := hpos run (by simp)
    simp only [List.map_append, List.map_cons, List.sum_append, List.sum_cons] at htotal
    omega

theorem exact_extentRuns : Reader.Exact readExtentRuns runsBytes RunsEncodable := by
  intro bytes runs rest
  have hfold : ∀ {n bytes runs total rest},
      Reader.fold readExtentRun n ([], 0) bytes = .ok ((runs, total), rest) ↔
        runs.length = n ∧ (∀ run ∈ runs, run.start ≤ maxU64 ∧ 0 < run.count) ∧
          (runs.map ExtentRun.count).sum ≤ maxExtentsPerInode ∧
          bytes = runs.flatMap runBytes ++ rest ∧ total = (runs.map ExtentRun.count).sum := by
    intro n bytes runs total rest
    rw [Reader.fold_eq_ok exact_run fun acc bytes acc' rest =>
      @readExtentRun_eq_ok acc acc' bytes rest]
    simp only [runs_fit]
    simp only [foldl_pushRun, List.nil_append, Nat.zero_add, Prod.mk.injEq]
    constructor
    · rintro ⟨_, hlen, hall, ⟨hpos, htotal⟩, hbytes, rfl, htotal'⟩
      exact ⟨hlen, fun run hr => ⟨(hall run hr).1, hpos run hr⟩, htotal, hbytes, htotal'⟩
    · rintro ⟨hlen, hall, htotal, hbytes, htotal'⟩
      refine ⟨runs, hlen, fun run hr => ⟨(hall run hr).1, ?_⟩,
        ⟨fun run hr => (hall run hr).2, htotal⟩, hbytes, rfl, htotal'⟩
      have hle : run.count ≤ (runs.map ExtentRun.count).sum :=
        List.single_le_sum (by simp) _ (List.mem_map_of_mem hr)
      unfold maxExtentsPerInode at htotal
      unfold maxU32
      omega
  simp only [readExtentRuns, Reader.bind_eq_ok, Reader.pure_eq_ok, Prod.exists, hfold,
    exact_boundedCount (by decide : maxExtentsPerInode ≤ maxU32) _ _ _ _, runsBytes,
    List.append_assoc]
  constructor
  · rintro ⟨n, _, ⟨hn, rfl⟩, _, _, _, ⟨rfl, hall, htotal, rfl, -⟩, rfl, rfl⟩
    exact ⟨⟨hn, hall, htotal⟩, rfl⟩
  · rintro ⟨⟨hn, hall, htotal⟩, rfl⟩
    exact ⟨_, _, ⟨hn, rfl⟩, runs, _, rest, ⟨rfl, hall, htotal, rfl, rfl⟩, rfl, rfl⟩

open BinaryReader in
theorem exact_directoryEntry : Reader.Exact readDirectoryEntry directoryEntryBytes fun entry =>
    EntryEncodable entry ∧ NoMark entry.name := by
  intro bytes entry rest
  simp only [readDirectoryEntry, Reader.bind_eq_ok, Reader.pure_eq_ok, exact_u64 _ _ _,
    exact_u32 _ _ _, exact_string _ _ _, directoryEntryBytes, List.append_assoc]
  constructor
  · rintro ⟨_, _, ⟨hp, rfl⟩, _, _, ⟨⟨hname, hmark⟩, rfl⟩, _, _, ⟨hid, rfl⟩, _, _, ⟨hmode, rfl⟩,
      _, _, ⟨ha, rfl⟩, _, _, ⟨hm, rfl⟩, _, _, ⟨hc, rfl⟩, rfl, rfl⟩
    exact ⟨⟨⟨hp, hname, hid, hmode, ha, hm, hc⟩, hmark⟩, rfl⟩
  · rintro ⟨⟨⟨hp, hname, hid, hmode, ha, hm, hc⟩, hmark⟩, rfl⟩
    exact ⟨_, _, ⟨hp, rfl⟩, _, _, ⟨⟨hname, hmark⟩, rfl⟩, _, _, ⟨hid, rfl⟩, _, _, ⟨hmode, rfl⟩,
      _, _, ⟨ha, rfl⟩, _, _, ⟨hm, rfl⟩, _, _, ⟨hc, rfl⟩, rfl, rfl⟩

open BinaryReader in
theorem exact_remove : Reader.Exact readRemove removeBytes fun record =>
    RemoveEncodable record ∧ NoMark record.name := by
  intro bytes record rest
  simp only [readRemove, Reader.bind_eq_ok, Reader.pure_eq_ok, exact_u64 _ _ _, exact_string _ _ _,
    removeBytes, List.append_assoc]
  constructor
  · rintro ⟨_, _, ⟨hp, rfl⟩, _, _, ⟨⟨hname, hmark⟩, rfl⟩, _, _, ⟨hm, rfl⟩, _, _, ⟨hc, rfl⟩, rfl,
      rfl⟩
    exact ⟨⟨⟨hp, hname, hm, hc⟩, hmark⟩, rfl⟩
  · rintro ⟨⟨⟨hp, hname, hm, hc⟩, hmark⟩, rfl⟩
    exact ⟨_, _, ⟨hp, rfl⟩, _, _, ⟨⟨hname, hmark⟩, rfl⟩, _, _, ⟨hm, rfl⟩, _, _, ⟨hc, rfl⟩, rfl, rfl⟩

/-- The records the reader accepts. -/
structure Readable (record : TxnRecord) : Prop where
  encodable : RecordEncodable record
  noMark : ∀ name ∈ recordNames record, NoMark name

/-- A list of entries read one after the other. -/
theorem fold_entries {n : Nat} {entries : List CreateDirectoryChoice} {bytes rest : List UInt8} :
    Reader.fold (fun entries => do
        let entry ← readDirectoryEntry
        return entries ++ [entry]) n [] bytes = .ok (entries, rest) ↔
      entries.length = n ∧ (∀ entry ∈ entries, EntryEncodable entry ∧ NoMark entry.name) ∧
        bytes = entries.flatMap directoryEntryBytes ++ rest := by
  have hpush : ∀ (entries done : List CreateDirectoryChoice),
      entries.foldl (fun done entry => done ++ [entry]) done = done ++ entries := by
    intro entries
    induction entries with
    | nil => exact fun done => (List.append_nil done).symm
    | cons entry entries ih =>
      intro done
      rw [List.foldl_cons, ih, List.append_assoc, List.singleton_append]
  have hfold := @Reader.fold_eq_ok StoreError (List CreateDirectoryChoice) CreateDirectoryChoice
    readDirectoryEntry directoryEntryBytes _ exact_directoryEntry
    (fun entries => do
      let entry ← readDirectoryEntry
      return entries ++ [entry])
    (fun done entry => done ++ [entry]) (fun _ _ => True)
    (fun acc bytes acc' rest => by
      simp only [Reader.bind_eq_ok, Reader.pure_eq_ok, true_and]
      constructor
      · rintro ⟨entry, _, hread, rfl, rfl⟩
        exact ⟨entry, hread, rfl⟩
      · rintro ⟨entry, hread, rfl⟩
        exact ⟨entry, rest, hread, rfl, rfl⟩) n [] entries bytes rest
  rw [hfold]
  simp only [hpush, List.nil_append]
  constructor
  · rintro ⟨_, hlen, hall, -, hbytes, rfl⟩
    exact ⟨hlen, hall, hbytes⟩
  · rintro ⟨hlen, hall, hbytes⟩
    exact ⟨entries, hlen, hall, fun _ _ _ _ => trivial, hbytes, rfl⟩

/-- What the reader of one kind of record does. -/
def ReadsFields (code : Nat) (read : BinaryReader TxnRecord) : Prop :=
  ∀ bytes record rest, read bytes = .ok (record, rest) ↔
    recordCode record = code ∧ Readable record ∧ bytes = fieldBytes record ++ rest

theorem readsCreateDirectories : ReadsFields 1 readCreateDirectories := by
  intro bytes record rest
  simp only [readCreateDirectories, Reader.bind_eq_ok, Reader.rejectIf_eq_ok, Reader.pure_eq_ok,
    fold_entries, exact_boundedCount (by decide : maxInodes ≤ maxU32) _ _ _ _]
  constructor
  · rintro ⟨n, _, ⟨hn, rfl⟩, _, _, ⟨hpos, rfl⟩, entries, _, ⟨rfl, hall, rfl⟩, rfl, rfl⟩
    refine ⟨rfl, ⟨⟨?_, hn, fun entry he => (hall entry he).1⟩, ?_⟩, ?_⟩
    · rintro rfl
      exact hpos rfl
    · rw [recordNames, List.forall_mem_map]
      exact fun entry he => (hall entry he).2
    · rw [fieldBytes, List.append_assoc]
  · rintro ⟨hcode, ⟨henc, hmark⟩, rfl⟩
    cases record with
    | createDirectories entries =>
      rw [recordNames, List.forall_mem_map] at hmark
      refine ⟨entries.length, _, ⟨henc.2.1, by rw [fieldBytes, List.append_assoc]⟩, (), _,
        ⟨mt List.length_eq_zero_iff.mp henc.1, rfl⟩, entries, rest,
        ⟨rfl, fun entry he => ⟨henc.2.2 entry he, hmark entry he⟩, rfl⟩, rfl, rfl⟩
    | _ => cases hcode

theorem readsCreateFile : ReadsFields 2 readCreateFile := by
  intro bytes record rest
  simp only [readCreateFile, Reader.bind_eq_ok, Reader.pure_eq_ok, exact_directoryEntry _ _ _,
    BinaryReader.exact_u64 _ _ _, exact_extentRuns _ _ _]
  constructor
  · rintro ⟨header, _, ⟨⟨henc, hmark⟩, rfl⟩, _, _, ⟨hsize, rfl⟩, _, _, ⟨hruns, rfl⟩, rfl, rfl⟩
    refine ⟨rfl, ⟨⟨henc, hsize, hruns⟩, List.forall_mem_singleton.mpr hmark⟩, ?_⟩
    simp only [fieldBytes, List.append_assoc]
    rfl
  · rintro ⟨hcode, ⟨henc, hmark⟩, rfl⟩
    cases record with
    | createFile record =>
      exact ⟨record.header, _, ⟨⟨henc.1, List.forall_mem_singleton.mp hmark⟩,
        by simp only [fieldBytes, List.append_assoc]⟩, _, _, ⟨henc.2.1, rfl⟩, _, _,
        ⟨henc.2.2, rfl⟩, rfl, rfl⟩
    | _ => cases hcode

theorem readsRemoveFile : ReadsFields 3 (TxnRecord.removeFile <$> readRemove) := by
  intro bytes record rest
  simp only [map_eq_pure_bind, Reader.bind_eq_ok, Reader.pure_eq_ok, exact_remove _ _ _]
  constructor
  · rintro ⟨_, _, ⟨⟨henc, hmark⟩, rfl⟩, rfl, rfl⟩
    exact ⟨rfl, ⟨henc, List.forall_mem_singleton.mpr hmark⟩, rfl⟩
  · rintro ⟨hcode, ⟨henc, hmark⟩, rfl⟩
    cases record with
    | removeFile record =>
      exact ⟨record, rest, ⟨⟨henc, List.forall_mem_singleton.mp hmark⟩, rfl⟩, rfl, rfl⟩
    | _ => cases hcode

theorem readsRemoveDirectory : ReadsFields 7 (TxnRecord.removeDirectory <$> readRemove) := by
  intro bytes record rest
  simp only [map_eq_pure_bind, Reader.bind_eq_ok, Reader.pure_eq_ok, exact_remove _ _ _]
  constructor
  · rintro ⟨_, _, ⟨⟨henc, hmark⟩, rfl⟩, rfl, rfl⟩
    exact ⟨rfl, ⟨henc, List.forall_mem_singleton.mpr hmark⟩, rfl⟩
  · rintro ⟨hcode, ⟨henc, hmark⟩, rfl⟩
    cases record with
    | removeDirectory record =>
      exact ⟨record, rest, ⟨⟨henc, List.forall_mem_singleton.mp hmark⟩, rfl⟩, rfl, rfl⟩
    | _ => cases hcode

open BinaryReader in
theorem readsChangeMode : ReadsFields 4 readChangeMode := by
  intro bytes record rest
  simp only [readChangeMode, Reader.bind_eq_ok, Reader.pure_eq_ok, exact_u64 _ _ _,
    exact_u32 _ _ _]
  constructor
  · rintro ⟨_, _, ⟨hid, rfl⟩, _, _, ⟨hmode, rfl⟩, _, _, ⟨hc, rfl⟩, rfl, rfl⟩
    exact ⟨rfl, ⟨⟨hid, hmode, hc⟩, by simp [recordNames]⟩, by simp [fieldBytes]⟩
  · rintro ⟨hcode, ⟨henc, -⟩, rfl⟩
    cases record with
    | changeMode inodeId mode ctimeMs =>
      exact ⟨_, _, ⟨henc.1, by simp only [fieldBytes, List.append_assoc]⟩, _, _, ⟨henc.2.1, rfl⟩,
        _, _, ⟨henc.2.2, rfl⟩, rfl, rfl⟩
    | _ => cases hcode

open BinaryReader in
theorem readsChangeTimes : ReadsFields 5 readChangeTimes := by
  intro bytes record rest
  simp only [readChangeTimes, Reader.bind_eq_ok, Reader.pure_eq_ok, exact_u64 _ _ _]
  constructor
  · rintro ⟨_, _, ⟨hid, rfl⟩, _, _, ⟨ha, rfl⟩, _, _, ⟨hm, rfl⟩, _, _, ⟨hc, rfl⟩, rfl, rfl⟩
    exact ⟨rfl, ⟨⟨hid, ha, hm, hc⟩, by simp [recordNames]⟩, by simp [fieldBytes]⟩
  · rintro ⟨hcode, ⟨henc, -⟩, rfl⟩
    cases record with
    | changeTimes inodeId atimeMs mtimeMs ctimeMs =>
      exact ⟨_, _, ⟨henc.1, by simp only [fieldBytes, List.append_assoc]⟩, _, _, ⟨henc.2.1, rfl⟩,
        _, _, ⟨henc.2.2.1, rfl⟩, _, _, ⟨henc.2.2.2, rfl⟩, rfl, rfl⟩
    | _ => cases hcode

theorem operationCode_eq {n : Nat} (h : ¬ (n ≠ 0 ∧ n ≠ 1)) :
    operationCode (if n = 0 then .truncate else .write) = n := by
  split
  · rename_i hzero
    rw [hzero, operationCode]
  · rename_i hzero
    rw [operationCode]
    omega

theorem operation_of_code (operation : ResizeOperation) :
    (if operationCode operation = 0 then ResizeOperation.truncate else .write) = operation := by
  cases operation <;> rfl

open BinaryReader in
theorem readsResizeFile : ReadsFields 6 readResizeFile := by
  intro bytes record rest
  simp only [readResizeFile, Reader.bind_eq_ok, Reader.pure_eq_ok, Reader.rejectIf_eq_ok,
    exact_u64 _ _ _, exact_u8 _ _ _, exact_extentRuns _ _ _]
  constructor
  · rintro ⟨code, _, ⟨-, rfl⟩, _, _, ⟨hcode, rfl⟩, _, _, ⟨hid, rfl⟩, _, _, ⟨hsize, rfl⟩, _, _,
      ⟨hruns, rfl⟩, _, _, ⟨hm, rfl⟩, _, _, ⟨hc, rfl⟩, rfl, rfl⟩
    refine ⟨rfl, ⟨⟨hid, hsize, hruns, hm, hc⟩, by simp [recordNames]⟩, ?_⟩
    simp only [fieldBytes, List.append_assoc, operationCode_eq hcode]
  · rintro ⟨hcode, ⟨henc, -⟩, rfl⟩
    cases record with
    | resizeFile record =>
      obtain ⟨hid, hsize, hruns, hm, hc⟩ := henc
      have hle := operationCode_le record.operation
      refine ⟨operationCode record.operation, _, ⟨by omega,
        by simp only [fieldBytes, List.append_assoc]⟩, (), _, ⟨by omega, rfl⟩, _, _, ⟨hid, rfl⟩,
        _, _, ⟨hsize, rfl⟩, _, _, ⟨hruns, rfl⟩, _, _, ⟨hm, rfl⟩, _, _, ⟨hc, rfl⟩, ?_, rfl⟩
      rw [operation_of_code]
    | _ => cases hcode

open BinaryReader in
theorem readsRename : ReadsFields 8 readRename := by
  intro bytes record rest
  simp only [readRename, Reader.bind_eq_ok, Reader.pure_eq_ok, exact_u64 _ _ _,
    exact_string _ _ _]
  constructor
  · rintro ⟨_, _, ⟨hs, rfl⟩, _, _, ⟨⟨hsn, hsm⟩, rfl⟩, _, _, ⟨hd, rfl⟩, _, _, ⟨⟨hdn, hdm⟩, rfl⟩,
      _, _, ⟨hts, rfl⟩, rfl, rfl⟩
    exact ⟨rfl, ⟨⟨hs, hsn, hd, hdn, hts⟩, by simp [recordNames, hsm, hdm]⟩,
      by simp [fieldBytes]⟩
  · rintro ⟨hcode, ⟨henc, hmark⟩, rfl⟩
    cases record with
    | rename record =>
      obtain ⟨hs, hsn, hd, hdn, hts⟩ := henc
      simp only [recordNames, List.forall_mem_cons] at hmark
      exact ⟨_, _, ⟨hs, by simp only [fieldBytes, List.append_assoc]⟩, _, _,
        ⟨⟨hsn, hmark.1⟩, rfl⟩, _, _, ⟨hd, rfl⟩, _, _, ⟨⟨hdn, hmark.2.1⟩, rfl⟩, _, _, ⟨hts, rfl⟩,
        rfl, rfl⟩
    | _ => cases hcode

theorem readsReserveQuarantine :
    ReadsFields 9 (TxnRecord.reserveQuarantine <$> readExtentRuns) := by
  intro bytes record rest
  simp only [map_eq_pure_bind, Reader.bind_eq_ok, Reader.pure_eq_ok, exact_extentRuns _ _ _]
  constructor
  · rintro ⟨_, _, ⟨hruns, rfl⟩, rfl, rfl⟩
    exact ⟨rfl, ⟨hruns, by simp [recordNames]⟩, rfl⟩
  · rintro ⟨hcode, ⟨henc, -⟩, rfl⟩
    cases record with
    | reserveQuarantine extents => exact ⟨extents, rest, ⟨henc, rfl⟩, rfl, rfl⟩
    | _ => cases hcode

theorem readsCreateSymlink : ReadsFields 10 readCreateSymlink := by
  intro bytes record rest
  simp only [readCreateSymlink, Reader.bind_eq_ok, Reader.pure_eq_ok, exact_directoryEntry _ _ _,
    BinaryReader.exact_symlinkTarget _ _ _]
  constructor
  · rintro ⟨header, _, ⟨⟨henc, hmark⟩, rfl⟩, _, _, ⟨htarget, rfl⟩, rfl, rfl⟩
    refine ⟨rfl, ⟨⟨henc, htarget⟩, List.forall_mem_singleton.mpr hmark⟩, ?_⟩
    simp only [fieldBytes, List.append_assoc]
    rfl
  · rintro ⟨hcode, ⟨henc, hmark⟩, rfl⟩
    cases record with
    | createSymlink record =>
      exact ⟨record.header, _, ⟨⟨henc.1, List.forall_mem_singleton.mp hmark⟩,
        by simp only [fieldBytes, List.append_assoc]⟩, _, _, ⟨henc.2, rfl⟩, rfl, rfl⟩
    | _ => cases hcode

theorem readsFields (code : Nat) : ReadsFields code (readTxnFields code) := by
  unfold readTxnFields
  split
  · exact readsCreateDirectories
  · exact readsCreateFile
  · exact readsRemoveFile
  · exact readsChangeMode
  · exact readsChangeTimes
  · exact readsResizeFile
  · exact readsRemoveDirectory
  · exact readsRename
  · exact readsReserveQuarantine
  · exact readsCreateSymlink
  · -- no record has another code
    intro bytes record rest
    constructor
    · exact fun h => absurd h Reader.throw_ne_ok
    · rintro ⟨rfl, -, -⟩
      cases record <;> simp [recordCode] at *

/-- The reader of a record accepts exactly what the writer makes of a readable one. -/
theorem exact_record : Reader.Exact readTxnRecord recordBytes Readable := by
  intro bytes record rest
  simp only [readTxnRecord, Reader.bind_eq_ok, BinaryReader.exact_u8 _ _ _,
    readsFields _ _ _ _, recordBytes, List.append_assoc]
  have hcode := recordCode_le record
  constructor
  · rintro ⟨_, _, ⟨-, rfl⟩, rfl, hreadable, rfl⟩
    exact ⟨hreadable, rfl⟩
  · rintro ⟨hreadable, rfl⟩
    exact ⟨_, _, ⟨by omega, rfl⟩, rfl, hreadable, rfl⟩

theorem decodeTxnRecord_eq_ok {bytes : List UInt8} {record : TxnRecord} :
    decodeTxnRecord bytes = .ok record ↔ Readable record ∧ bytes = recordBytes record :=
  BinaryReader.readAll_eq_ok exact_record

end Opfs
