/-
One transaction on a well-formed state.

`applyTxn` is all or nothing (`applyTxn_error_state`), keeps everything but the path
limits (`applyTxn_balanced`), and keeps the path limits exactly when the paths the
record creates are within them (`applyTxn_wellFormed_iff`).
-/
import Pgxsinkit.Opfs.NewPaths

namespace Opfs

open Checked

theorem preflightTxn_eq_ok {state : VfsState} {record : TxnRecord} {limits : PreflightLimits}
    {projected : Nat} :
    preflightTxn state record limits = .ok projected ↔
      (∃ bytes, estimateTxnPayloadBytes record = .ok bytes ∧
        bytes ≤ limits.maxFramePayloadBytes) ∧
      ∃ delta, projectedBaseDelta state record = .ok delta ∧
        (projected : Int) = state.basePayloadBytes + delta ∧
        projected ≤ limits.maxBasePayloadBytes := by
  simp only [preflightTxn, bind_eq_ok, throwIf_eq_ok, pure_eq_ok, exists_const, not_or, not_lt]
  constructor
  · rintro ⟨bytes, hb, hle, delta, hd, ⟨hpos, hmax⟩, rfl⟩
    exact ⟨⟨bytes, hb, by omega⟩, delta, hd, by omega, by omega⟩
  · rintro ⟨⟨bytes, hb, hle⟩, delta, hd, hp, hmax⟩
    exact ⟨bytes, hb, by omega, delta, hd, by omega, by omega⟩

theorem applyTxn_eq_ok {state state' : VfsState} {record : TxnRecord} :
    applyTxn state record none = .ok () state' ↔
      ∃ bytes applied, preflightTxn state record defaultPreflightLimits = .ok bytes ∧
        applyRecord state record = .ok () applied ∧
        state' = { applied with basePayloadBytes := bytes } := by
  unfold applyTxn projectedBytesFor
  cases preflightTxn state record defaultPreflightLimits with
  | error e => simp
  | ok bytes =>
    cases applyRecord state record with
    | error e s => simp
    | ok _ s => simp [eq_comm]

/-- A projection prepared for the same state and record changes nothing. -/
theorem applyTxn_prepared {state : VfsState} {record : TxnRecord}
    {prepared : PreparedTxnProjection} (h : prepareTxnProjection state record = .ok prepared) :
    applyTxn state record (some prepared) = applyTxn state record none := by
  simp only [prepareTxnProjection, bind_eq_ok, pure_eq_ok] at h
  obtain ⟨bytes, hbytes, rfl⟩ := h
  have hprojected : projectedBytesFor state record (some ⟨bytes, state.generation, record⟩) =
      projectedBytesFor state record none := by
    simp only [projectedBytesFor, hbytes, bind_eq_ok, throwIf_eq_ok, pure_eq_ok, ne_eq,
      not_true_eq_false, or_self, not_false_eq_true, exists_const, true_and]
  rw [applyTxn, hprojected, applyTxn]

/-! ### All or nothing -/

theorem applyRecord_error_state {state state' : VfsState} (h : Sound state) {record : TxnRecord}
    {e : StoreError} (happly : applyRecord state record = .error e state') : state' = state := by
  cases record with
  | createDirectories entries =>
    simp only [applyRecord, applyCreateDirectories] at happly
    cases hv : validateCreateDirectories state entries with
    | error e => simp_all
    | ok u =>
      -- a validated record never fails half way
      simp only [hv] at happly
      simp only [validateCreateDirectories, bind_eq_ok, throwIf_eq_ok, exists_const, not_lt,
        gt_iff_lt] at hv
      obtain ⟨-, u, hloop, hsize⟩ := hv
      obtain ⟨s, hs⟩ := (validateCreateLoop_eq_ok (staged_empty state) h hsize).mp hloop
      rw [applyCreateLoop_of_creates hs] at happly
      cases happly
  | createFile record => exact checkedThen_error_state happly
  | removeFile record => exact checkedThen_error_state happly
  | changeMode inodeId mode ctimeMs => exact checkedThen_error_state happly
  | changeTimes inodeId atimeMs mtimeMs ctimeMs => exact checkedThen_error_state happly
  | resizeFile record => exact checkedThen_error_state happly
  | removeDirectory record => exact checkedThen_error_state happly
  | rename record => exact checkedThen_error_state happly
  | createSymlink record => exact checkedThen_error_state happly
  | reserveQuarantine extents => exact checkedThen_error_state happly

/-- A transaction that throws leaves the state as it was. -/
theorem applyTxn_error_state {state state' : VfsState} (h : Sound state) {record : TxnRecord}
    {prepared : Option PreparedTxnProjection} {e : StoreError}
    (happly : applyTxn state record prepared = .error e state') : state' = state := by
  unfold applyTxn at happly
  cases hp : projectedBytesFor state record prepared with
  | error e => simp_all
  | ok bytes =>
    simp only [hp] at happly
    cases hr : applyRecord state record with
    | error e s =>
      simp only [hr, EStateM.Result.error.injEq] at happly
      rw [← happly.2]
      exact applyRecord_error_state h hr
    | ok _ s => simp [hr] at happly

/-! ### What a transaction keeps -/

/-- The running base size is read by no part of the invariant but its own. -/
theorem Sound.withBase {state : VfsState} (h : Sound state) (bytes : Nat) :
    Sound { state with basePayloadBytes := bytes } :=
  ⟨h.extentSize, h.generation_pos, h.generation_le, h.next_le, h.inodes_le,
    fun id inode hi => { h.inodes id inode hi with }, ⟨h.tree.root_dir, h.tree.named⟩,
    { h.alloc with }, h.retained_active, h.retained_inactive⟩

theorem applyTxn_balanced {state state' : VfsState} (h : Balanced state) {record : TxnRecord}
    (happly : applyTxn state record none = .ok () state') : Balanced state' := by
  obtain ⟨bytes, applied, hpre, hrecord, rfl⟩ := applyTxn_eq_ok.mp happly
  obtain ⟨-, delta, hdelta, hbytes, hle⟩ := preflightTxn_eq_ok.mp hpre
  obtain ⟨hsound, hcanon⟩ := applyRecord_kept h.sound hrecord hdelta
  refine ⟨hsound.withBase bytes, ?_, hle⟩
  have hbase := h.base_eq
  change bytes = canonicalBaseBytes applied
  omega

/-- A transaction keeps a well-formed state iff the paths it creates are within the limits. -/
theorem applyTxn_wellFormed_iff {state state' : VfsState} (h : WellFormed state)
    {record : TxnRecord} (happly : applyTxn state record none = .ok () state') :
    WellFormed state' ↔ CreatesWithin state record := by
  have hbalanced := applyTxn_balanced h.toBalanced happly
  obtain ⟨bytes, applied, -, hrecord, rfl⟩ := applyTxn_eq_ok.mp happly
  rw [← applyRecord_pathsWithin h.sound h.paths hrecord]
  exact ⟨fun hw => hw.paths, fun hp => ⟨hbalanced, hp⟩⟩

end Opfs
