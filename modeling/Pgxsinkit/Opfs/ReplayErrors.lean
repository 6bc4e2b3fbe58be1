/-
The errors that end a replay.

The loop of `replayLog` catches three classes of errors.  Decoding a frame throws no other, and nor does
applying a record to a sound state: the one other throw of the reducers, an endless walk, needs a cycle.
-/
import Pgxsinkit.Lib.ErrorKinds
import Pgxsinkit.Opfs.ReplayLog

namespace Opfs

open Checked

/-- The error is one that the replay catches. -/
def Caught (e : StoreError) : Prop := e.endsReplay = true

@[simp] theorem caught_corruptStore (message : String) : Caught (.corruptStore message) := rfl
@[simp] theorem caught_fsError (name : FsErrorName) (message : String) : Caught (.fsError name message) := rfl
@[simp] theorem caught_storeLimit (message : String) : Caught (.storeLimit message) := rfl

/-! ### Decoding -/

section readers

open BinaryReader Reader.ThrowsOnly

theorem caught_number (width : Nat) : Reader.ThrowsOnly Caught (Reader.number width truncated) := number rfl

theorem caught_rejectIf (c : Prop) [Decidable c] (message : String) :
    Reader.ThrowsOnly Caught (Reader.rejectIf c (.corruptStore message)) := rejectIf rfl

theorem caught_raw (length : Nat) (message : String) :
    Reader.ThrowsOnly Caught (Reader.raw length (.corruptStore message)) := raw rfl

theorem caught_decodeText (kind : String) (validate : JsString → Except StoreError Nat) (bytes : List UInt8) :
    ThrowsOnly Caught (decodeText kind validate bytes) := by
  rw [decodeText, throwsOnly_bind, throwsOnly_orThrow]
  refine ⟨fun _ => rfl, fun value _ => throwsOnly_bind.mpr ⟨throwsOnly_throwIf.mpr fun _ => rfl, fun _ _ => ?_⟩⟩
  cases validate value with
  | error cause => exact throwsOnly_error.mpr rfl
  | ok n => exact throwsOnly_ok

theorem caught_text (kind : String) (maximum : Nat) (validate : JsString → Except StoreError Nat) :
    Reader.ThrowsOnly Caught (text kind maximum validate) :=
  (caught_number 2).bind fun _ => (caught_rejectIf _ _).bind fun _ => (caught_raw _ _).bind fun _ => lift (caught_decodeText _ _ _)

theorem caught_readExtentRuns : Reader.ThrowsOnly Caught readExtentRuns := by
  have hrun : ∀ acc, Reader.ThrowsOnly Caught (readExtentRun acc) := fun acc =>
    (caught_number 8).bind fun _ => (caught_number 4).bind fun _ => (caught_rejectIf _ _).bind fun _ => .pure _
  refine .bind ?_ fun count => (fold hrun count _).bind fun _ => .pure _
  exact (caught_number 4).bind fun _ => (caught_rejectIf _ _).bind fun _ => .pure _

theorem caught_readDirectoryEntry : Reader.ThrowsOnly Caught readDirectoryEntry :=
  (caught_number 8).bind fun _ => (caught_text _ _ _).bind fun _ => (caught_number 8).bind fun _ =>
    (caught_number 4).bind fun _ => (caught_number 8).bind fun _ => (caught_number 8).bind fun _ =>
      (caught_number 8).bind fun _ => .pure _

theorem caught_readRemove : Reader.ThrowsOnly Caught readRemove :=
  (caught_number 8).bind fun _ => (caught_text _ _ _).bind fun _ => (caught_number 8).bind fun _ =>
    (caught_number 8).bind fun _ => .pure _

theorem caught_readTxnFields (code : Nat) : Reader.ThrowsOnly Caught (readTxnFields code) := by
  unfold readTxnFields
  split
  · refine .bind ?_ fun count => (caught_rejectIf _ _).bind fun _ =>
      (fold (fun entries => caught_readDirectoryEntry.bind fun _ => .pure _) count []).bind fun _ => .pure _
    exact (caught_number 4).bind fun _ => (caught_rejectIf _ _).bind fun _ => .pure _
  · exact caught_readDirectoryEntry.bind fun _ => (caught_number 8).bind fun _ => caught_readExtentRuns.bind fun _ =>
      .pure _
  · exact map caught_readRemove
  · exact (caught_number 8).bind fun _ => (caught_number 4).bind fun _ => (caught_number 8).bind fun _ => .pure _
  · exact (caught_number 8).bind fun _ => (caught_number 8).bind fun _ => (caught_number 8).bind fun _ =>
      (caught_number 8).bind fun _ => .pure _
  · exact (caught_number 1).bind fun _ => (caught_rejectIf _ _).bind fun _ => (caught_number 8).bind fun _ =>
      (caught_number 8).bind fun _ => caught_readExtentRuns.bind fun _ => (caught_number 8).bind fun _ =>
        (caught_number 8).bind fun _ => .pure _
  · exact map caught_readRemove
  · exact (caught_number 8).bind fun _ => (caught_text _ _ _).bind fun _ => (caught_number 8).bind fun _ =>
      (caught_text _ _ _).bind fun _ => (caught_number 8).bind fun _ => .pure _
  · exact map caught_readExtentRuns
  · exact caught_readDirectoryEntry.bind fun _ => (caught_text _ _ _).bind fun _ => .pure _
  · exact fun _ => throwsOnly_error.mpr rfl

end readers

theorem caught_inspect (header : List UInt8) : ThrowsOnly Caught (inspectTxnFrameHeader header) := by
  simp [inspectTxnFrameHeader, requireMagic, requireZero]

theorem caught_decodeTxnFrame (bytes : List UInt8) : ThrowsOnly Caught (decodeTxnFrame bytes) := by
  have hrecord : ∀ bytes, ThrowsOnly Caught (decodeTxnRecord bytes) := fun bytes => by
    refine throwsOnly_bind.mpr ⟨(caught_number 1).bind caught_readTxnFields bytes, fun p _ => ?_⟩
    simp
  simp [decodeTxnFrame, requireChecksum, caught_inspect, hrecord]

/-! ### Applying -/

@[simp] theorem caught_utf8Length (value : JsString) (label : String) : ThrowsOnly Caught (utf8Length value label) := by
  simp [utf8Length]

@[simp] theorem caught_encodedUtf8Length (value : JsString) : ThrowsOnly Caught (encodedUtf8Length value) :=
  caught_utf8Length value _

@[simp] theorem caught_validatePathComponent (component : JsString) :
    ThrowsOnly Caught (validatePathComponent component) := by
  simp [validatePathComponent]

@[simp] theorem caught_validateSymlinkTarget (target : JsString) : ThrowsOnly Caught (validateSymlinkTarget target) := by
  have hparse : ThrowsOnly Caught (parsePath target) := by
    unfold parsePath
    split
    · exact throwsOnly_ok
    · simp [ThrowsOnly.forEach]
  simp [validateSymlinkTarget, hparse]

@[simp] theorem caught_checkedU64 (value : Int) (label : String) : ThrowsOnly Caught (checkedU64 value label) := by
  simp [checkedU64]

@[simp] theorem caught_checkedAdd (left right : Int) (label : String) : ThrowsOnly Caught (checkedAdd left right label) :=
  caught_checkedU64 _ _

@[simp] theorem caught_validateMode (mode : Int) : ThrowsOnly Caught (validateMode mode) := by
  simp [validateMode]

@[simp] theorem caught_validateTimestamp (timestamp : Int) : ThrowsOnly Caught (validateTimestamp timestamp) :=
  caught_checkedU64 _ _

@[simp] theorem caught_advanceNextInodeId (inodeId : Nat) : ThrowsOnly Caught (advanceNextInodeId inodeId) := by
  simp [advanceNextInodeId]

@[simp] theorem caught_directoryById (state : VfsState) (id : Nat) : ThrowsOnly Caught (directoryById state id) := by
  unfold directoryById
  split
  · simp
  · split <;> simp

@[simp] theorem caught_inodeById (state : VfsState) (id : Nat) : ThrowsOnly Caught (inodeById state id) := by
  simp [inodeById]

@[simp] theorem caught_fileById (state : VfsState) (id : Nat) : ThrowsOnly Caught (fileById state id) := by
  refine throwsOnly_bind.mpr ⟨caught_inodeById state id, fun inode _ => ?_⟩
  split <;> simp

@[simp] theorem caught_childBaseBytes (name : JsString) : ThrowsOnly Caught (childBaseBytes name) := by
  simp [childBaseBytes]

@[simp] theorem caught_inodeBaseBytes (inode : Inode) : ThrowsOnly Caught (inodeBaseBytes inode) := by
  unfold inodeBaseBytes
  split
  · simp
  · simp
  · exact ThrowsOnly.foldChecked (fun _ _ => by simp) _ _

@[simp] theorem caught_extentCountForSize (size : Int) (extentSize : Nat) :
    ThrowsOnly Caught (extentCountForSize size extentSize) := by
  refine throwsOnly_bind.mpr ⟨caught_checkedU64 _ _, fun size _ => ?_⟩
  split <;> simp

@[simp] theorem caught_expandExtentRuns (runs : List ExtentRun) (maximum : Nat) :
    ThrowsOnly Caught (expandExtentRuns runs maximum) := by
  have hrun : ∀ start extents count, ThrowsOnly Caught (expandRun start extents count) := fun start extents count =>
    ThrowsOnly.foldChecked (fun _ _ => by simp) _ _
  exact ThrowsOnly.foldChecked (fun _ _ => by simp [hrun]) _ _

@[simp] theorem caught_selectedExtents (state : VfsState) (runs : List ExtentRun) :
    ThrowsOnly Caught (selectedExtentsAlreadyAvailable state runs) := by
  simp [selectedExtentsAlreadyAvailable]

theorem caught_estimate (record : TxnRecord) : ThrowsOnly Caught (estimateTxnPayloadBytes record) := by
  cases record with
  | createDirectories entries => exact ThrowsOnly.foldChecked (fun _ _ => by simp) _ _
  | _ => simp [estimateTxnPayloadBytes]

theorem caught_projectedBaseDelta (state : VfsState) (record : TxnRecord) :
    ThrowsOnly Caught (projectedBaseDelta state record) := by
  have hdestination : ∀ name destination, ThrowsOnly Caught (destinationBaseDelta name destination) := by
    intro name destination
    cases destination <;> simp [destinationBaseDelta]
  cases record with
  | createDirectories entries => exact ThrowsOnly.foldChecked (fun _ _ => by simp) _ _
  | rename record => simp [projectedBaseDelta, hdestination]
  | _ => simp [projectedBaseDelta]

theorem caught_preflightTxn (state : VfsState) (record : TxnRecord) (limits : PreflightLimits) :
    ThrowsOnly Caught (preflightTxn state record limits) := by
  simp [preflightTxn, caught_estimate, caught_projectedBaseDelta]

@[simp] theorem caught_validateExtentAssignment (state : VfsState) (runs : List ExtentRun) (count : Nat) :
    ThrowsOnly Caught (validateExtentAssignment state runs count) := by
  have hchoice : ∀ next extentId, ThrowsOnly Caught (scanChoice state next extentId) := by
    intro next extentId
    unfold scanChoice
    split <;> simp
  have hscan : ∀ extents, ThrowsOnly Caught (scanAssignment state extents) := fun extents =>
    ThrowsOnly.foldChecked hchoice _ _
  simp [validateExtentAssignment, hscan]

@[simp] theorem caught_checkOwnership (state : VfsState) (id : Nat) (extents : List Nat) (message : String) :
    ThrowsOnly Caught (checkOwnership state id extents message) :=
  ThrowsOnly.forEach fun _ _ => by simp

theorem caught_validateCreateLoop (state : VfsState) (staged : OrdMap Nat (OrdMap JsString Nat)) (expected : Nat)
    (entries : List CreateDirectoryChoice) : ThrowsOnly Caught (validateCreateLoop state staged expected entries) := by
  have hstaged : ∀ staged id, ThrowsOnly Caught (stagedDirectory state staged id) := by
    intro staged id
    unfold stagedDirectory
    split <;> simp
  induction entries generalizing staged expected with
  | nil => exact throwsOnly_ok
  | cons entry rest ih => simp [validateCreateLoop, hstaged, ih]

/-- The walk for the destination of a rename ends: no path is longer than the tree has inodes. -/
theorem caught_directoryContains {state : VfsState} (h : Sound state) (candidate : Nat) {fuel : Nat} {directory : Inode}
    (hi : state.inodes.get? directory.id = some directory) {path : List JsString} (hp : PathTo state directory.id path)
    (hfuel : state.inodes.size < path.length + fuel) :
    ThrowsOnly Caught (directoryContains state candidate fuel directory) := by
  induction fuel generalizing directory path with
  | zero =>
    have hlength := h.tree.path_length_le hp
    have hsize := h.tree.parent_size
    omega
  | succ fuel ih =>
    rw [directoryContains]
    split
    · exact throwsOnly_ok
    · refine ThrowsOnly.anyChecked fun entry hentry => throwsOnly_bind.mpr ⟨caught_inodeById _ _, fun child hchild => ?_⟩
      split
      · rw [inodeById_eq_ok] at hchild
        have hid := (h.inodes _ _ hchild).id_eq
        have hparent := (h.tree.child hi (OrdMap.get?_eq_some_iff.mpr hentry)).1
        have hpath : PathTo state child.id (path ++ [entry.1]) := by
          rw [hid]
          exact hp.trans (.single hparent)
        refine ih (by rw [hid]; exact hchild) hpath ?_
        rw [List.length_append, List.length_singleton]
        omega
      · exact throwsOnly_ok

theorem caught_checkNotInside {state : VfsState} (h : Sound state) {source : Inode} {id : Nat}
    (hs : state.inodes.get? id = some source) (destinationParent : Inode) :
    ThrowsOnly Caught (checkNotInside state source destinationParent) := by
  unfold checkNotInside
  split
  · have hid := (h.inodes _ _ hs).id_eq
    rw [← hid] at hs
    obtain ⟨path, hp⟩ := h.tree.reach hs
    have hwalk := caught_directoryContains h destinationParent.id hs hp (by
      unfold containsFuel
      omega : _ < path.length + containsFuel state)
    simp [hwalk]
  · exact throwsOnly_ok

theorem caught_validateRenamedSubtreeBounds (state : VfsState) (source destinationParent : Inode) (name : JsString) :
    ThrowsOnly Caught (validateRenamedSubtreeBounds state source destinationParent name) := by
  have hclimb : ∀ visited id depth bytes fuel, ThrowsOnly Caught (climb state visited id depth bytes fuel) := by
    intro visited id depth bytes fuel
    induction fuel generalizing visited id depth bytes with
    | zero => simp [climb]
    | succ fuel ih =>
      unfold climb
      split
      · exact throwsOnly_ok
      · simp [ih]
  have hvisit : ∀ fuel inode metrics, ThrowsOnly Caught (visitRenamed state fuel inode metrics) := by
    intro fuel inode metrics
    induction fuel generalizing inode metrics with
    | zero => simp [visitRenamed]
    | succ fuel ih =>
      have hentries : ThrowsOnly Caught (forEach (fun (entry : JsString × Nat) => do
          let child ← inodeById state entry.2
          let childMetrics ← childPathMetrics metrics entry.1
          visitRenamed state fuel child childMetrics) inode.body.children.entries) :=
        .forEach fun entry _ => by simp [childPathMetrics, ih]
      simp [visitRenamed, hentries]
  simp [validateRenamedSubtreeBounds, findPathMetrics, childPathMetrics, hclimb, hvisit]

theorem caught_checkedThen {α : Type} {state state' : VfsState} {check : Except StoreError α} {mutate : α → VfsState}
    {e : StoreError} (h : checkedThen state check mutate = .error e state') (hcheck : ThrowsOnly Caught check) :
    Caught e := by
  cases check with
  | error cause =>
    simp only [checkedThen, EStateM.Result.error.injEq] at h
    exact h.1 ▸ throwsOnly_error.mp hcheck
  | ok a => cases h

theorem caught_applyRename {state state' : VfsState} (h : Sound state) {record : RenameRecord} {e : StoreError}
    (happly : applyRename state record = .error e state') : Caught e := by
  refine caught_checkedThen happly ?_
  have htypes : ∀ source destination, ThrowsOnly Caught (validateRenameTypes source destination) := by
    intro source destination
    cases destination <;> simp [validateRenameTypes]
  have hdestination : ∀ id, ThrowsOnly Caught (destinationInode state id) := by
    intro id
    cases id <;> simp [destinationInode]
  have hreplacement : ∀ destination, ThrowsOnly Caught (checkReplacement state destination) := by
    intro destination
    cases destination <;> simp [checkReplacement]
  have hinside : ∀ id source destinationParent, state.inodes.get? id = some source →
      ThrowsOnly Caught (checkNotInside state source destinationParent) :=
    fun _ _ destinationParent hs => caught_checkNotInside h hs destinationParent
  simp [htypes, hdestination, hreplacement, caught_validateRenamedSubtreeBounds]
  intros
  exact hinside _ _ _ ‹_›

theorem caught_applyRecord {state state' : VfsState} (h : Sound state) {record : TxnRecord} {e : StoreError}
    (happly : applyRecord state record = .error e state') : Caught e := by
  cases record with
  | createDirectories entries =>
    simp only [applyRecord, applyCreateDirectories] at happly
    cases hv : validateCreateDirectories state entries with
    | error cause =>
      simp only [hv, EStateM.Result.error.injEq] at happly
      have hcaught : ThrowsOnly Caught (validateCreateDirectories state entries) := by
        simp [validateCreateDirectories, caught_validateCreateLoop]
      exact happly.1 ▸ hcaught cause hv
    | ok u =>
      simp only [hv] at happly
      -- a validated record never fails half way
      simp only [validateCreateDirectories, bind_eq_ok, throwIf_eq_ok, exists_const, not_lt, gt_iff_lt] at hv
      obtain ⟨-, u, hloop, hsize⟩ := hv
      obtain ⟨s, hs⟩ := (validateCreateLoop_eq_ok (staged_empty state) h hsize).mp hloop
      rw [applyCreateLoop_of_creates hs] at happly
      cases happly
  | rename record => exact caught_applyRename h happly
  | _ =>
    refine caught_checkedThen happly ?_
    simp

theorem caught_applyTxn {state state' : VfsState} (h : Sound state) {record : TxnRecord} {e : StoreError}
    (happly : applyTxn state record none = .error e state') : Caught e := by
  unfold applyTxn projectedBytesFor at happly
  cases hp : preflightTxn state record defaultPreflightLimits with
  | error cause =>
    simp only [hp, EStateM.Result.error.injEq] at happly
    exact happly.1 ▸ caught_preflightTxn state record defaultPreflightLimits cause hp
  | ok bytes =>
    simp only [hp] at happly
    cases hr : applyRecord state record with
    | error cause s =>
      simp only [hr, EStateM.Result.error.injEq] at happly
      exact happly.1 ▸ caught_applyRecord h hr
    | ok _ s => simp [hr] at happly

end Opfs
