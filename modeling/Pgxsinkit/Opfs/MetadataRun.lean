/-
Runs of metadata steps from an empty store.

A step is a planner whose record, when it returns one, goes to `applyTxn`, or a repack
with any set of pinned extents.  `run_wellFormed` is the invariant of the metadata core:
every state a run reaches is well formed, so `validateState` accepts it, and no record
that a planner returns for a reached state is refused.
-/
import Pgxsinkit.Opfs.Planned
import Pgxsinkit.Opfs.Repack

namespace Opfs

open Checked

/-- A call of one of the planners, with its arguments. -/
inductive PlannerCall
  | mkdir (path : JsString) (options : MkdirOptions)
  | createFile (path : JsString) (options : CreateFileOptions)
  | symlink (path target : JsString) (options : SymlinkOptions)
  | unlink (path : JsString) (nowMs : Int)
  | chmod (path : JsString) (mode nowMs : Int)
  | utimes (path : JsString) (atimeMs mtimeMs ctimeMs : Int)
  | resizeFile (path : JsString) (size nowMs : Int) (operation : ResizeOperation)
  | rmdir (path : JsString) (nowMs : Int)
  | rename (oldPath newPath : JsString) (nowMs : Int)
  | reserveQuarantine (count : Int)

def PlannerCall.plan (state : VfsState) : PlannerCall → Except StoreError TxnRecord
  | .mkdir path options => planMkdir state path options
  | .createFile path options => planCreateFile state path options
  | .symlink path target options => planSymlink state path target options
  | .unlink path nowMs => planUnlink state path nowMs
  | .chmod path mode nowMs => planChmod state path mode nowMs
  | .utimes path atimeMs mtimeMs ctimeMs => planUtimes state path atimeMs mtimeMs ctimeMs
  | .resizeFile path size nowMs operation => planResizeFile state path size nowMs operation
  | .rmdir path nowMs => planRmdir state path nowMs
  | .rename oldPath newPath nowMs => planRename state oldPath newPath nowMs
  | .reserveQuarantine count => planReserveQuarantine state count

inductive MetadataCall
  | txn (call : PlannerCall)
  | repack (pinnedQuarantine : List Nat)

/-- The state after a call, also when the call throws. -/
def MetadataCall.run (state : VfsState) : MetadataCall → VfsState
  | .txn call =>
    match call.plan state with
    | .error _ => state
    | .ok record =>
      match applyTxn state record none with
      | .error _ state' => state'
      | .ok _ state' => state'
  | .repack pinnedQuarantine =>
    match projectRepack state pinnedQuarantine with
    | .error _ => state
    | .ok projected => projected

def runCalls (state : VfsState) (calls : List MetadataCall) : VfsState :=
  calls.foldl MetadataCall.run state

/-! ### The empty store -/

/-- The state of an empty store. -/
def initialState (extentSize : Nat) : VfsState :=
  { generation := 1
    nextInodeId := 2
    rootInodeId := 1
    extentSize
    activeMetadataFile := .a
    retainedGenerations := ⟨some 1, none⟩
    basePayloadBytes := baseStateFixedBytes + directoryInodeFixedBytes
    inodes := OrdMap.empty.set 1 ⟨1, 0o40777, 0, 0, 0, .directory .empty⟩
    parentByInode := .empty
    allocator := ⟨0, .empty, .empty, .empty⟩ }

theorem createInitialState_eq_ok {extentSize : Nat} {state : VfsState} :
    createInitialState extentSize = .ok state ↔
      LegalExtentSize extentSize ∧ state = initialState extentSize := by
  simp only [createInitialState, bind_eq_ok, validateExtentSize_eq_ok, pure_eq_ok]
  constructor
  · rintro ⟨_, ⟨hlegal, -⟩, rfl⟩
    exact ⟨hlegal, rfl⟩
  · rintro ⟨hlegal, rfl⟩
    exact ⟨extentSize, ⟨hlegal, rfl⟩, rfl⟩

theorem initialState_wellFormed {extentSize : Nat} (h : LegalExtentSize extentSize) :
    WellFormed (initialState extentSize) := by
  refine validateState_eq_ok_iff.mp ?_
  have hsize : validateExtentSize (initialState extentSize).extentSize = .ok extentSize :=
    validateExtentSize_eq_ok.mpr ⟨h, rfl⟩
  unfold validateState validateHead
  rw [hsize]
  rfl

/-! ### Steps and runs -/

theorem PlannerCall.planned {state : VfsState} (h : WellFormed state) {call : PlannerCall}
    {record : TxnRecord} (hplan : call.plan state = .ok record) : Planned state record := by
  cases call with
  | mkdir path options => exact planMkdir_planned h hplan
  | createFile path options => exact planCreateFile_planned h hplan
  | symlink path target options => exact planSymlink_planned h hplan
  | unlink path nowMs => exact planUnlink_planned h hplan
  | chmod path mode nowMs => exact planChmod_planned h hplan
  | utimes path atimeMs mtimeMs ctimeMs => exact planUtimes_planned h hplan
  | resizeFile path size nowMs operation => exact planResizeFile_planned h hplan
  | rmdir path nowMs => exact planRmdir_planned h hplan
  | rename oldPath newPath nowMs => exact planRename_planned h hplan
  | reserveQuarantine count => exact planReserveQuarantine_planned h hplan

/-- One call keeps a state well formed. -/
theorem MetadataCall.run_wellFormed {state : VfsState} (h : WellFormed state)
    (call : MetadataCall) : WellFormed (call.run state) := by
  cases call with
  | txn call =>
    cases hplan : call.plan state with
    | error e => simpa only [MetadataCall.run, hplan] using h
    | ok record =>
      obtain ⟨state', happly, hwf⟩ := (PlannerCall.planned h hplan).applyTxn h
      simpa only [MetadataCall.run, hplan, happly] using hwf
  | repack pinned =>
    cases hrepack : projectRepack state pinned with
    | error e => simpa only [MetadataCall.run, hrepack] using h
    | ok projected =>
      obtain ⟨hgen, rfl⟩ := (projectRepack_eq_ok h).mp hrepack
      simpa only [MetadataCall.run, hrepack] using repacked_wellFormed h pinned hgen

theorem runCalls_wellFormed {state : VfsState} (h : WellFormed state)
    (calls : List MetadataCall) : WellFormed (runCalls state calls) := by
  induction calls generalizing state with
  | nil => exact h
  | cons call calls ih => exact ih (call.run_wellFormed h)

/-- Every state that a run reaches is well formed and accepted by the validator, and every
record a planner returns for it is applied without a throw. -/
theorem metadata_run_valid {extentSize : Nat} (h : LegalExtentSize extentSize) :
    ∃ initial, createInitialState extentSize = .ok initial ∧
      ∀ calls : List MetadataCall, validateState (runCalls initial calls) = .ok () ∧
        WellFormed (runCalls initial calls) ∧
        ∀ (call : PlannerCall) record, call.plan (runCalls initial calls) = .ok record →
          ∃ state', applyTxn (runCalls initial calls) record none = .ok () state' := by
  refine ⟨_, createInitialState_eq_ok.mpr ⟨h, rfl⟩, fun calls => ?_⟩
  have hwf := runCalls_wellFormed (initialState_wellFormed h) calls
  refine ⟨validateState_eq_ok_iff.mpr hwf, hwf, fun call record hplan => ?_⟩
  obtain ⟨state', happly, -⟩ := (PlannerCall.planned hwf hplan).applyTxn hwf
  exact ⟨state', happly⟩

theorem metadata_run_valid_mkdir : ∃ initial, createInitialState 65536 = .ok initial ∧
    validateState (runCalls initial [.txn (.mkdir [slash, 97] ⟨false, none, 5⟩)]) = .ok () := by
  obtain ⟨initial, hinitial, hrun⟩ := metadata_run_valid (show LegalExtentSize 65536 by decide)
  exact ⟨initial, hinitial, (hrun _).1⟩

end Opfs
