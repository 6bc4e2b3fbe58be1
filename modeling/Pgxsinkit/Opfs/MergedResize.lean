/-
Two writes that lengthen one file, as one record.

A write that is held back is replaced by the next one of the same file, with the extents of both.  Applied to
the state before the first, the merged record leaves exactly the state that the two leave one after the other:
the same maps in the same order, and the same running base size.
-/
import Pgxsinkit.Opfs.CommitLog
import Pgxsinkit.Opfs.FrameRoundTrip

namespace Opfs

open Checked

/-! ### Extent runs -/

theorem RunsOk.append {left right : List ExtentRun} (h : RunsOk left) (h' : RunsOk right) : RunsOk (left ++ right) :=
  fun run hrun => (List.mem_append.mp hrun).elim (h run) (h' run)

theorem mergeRun_spec {merged : List ExtentRun} {run : ExtentRun} (h : RunsOk merged) (hrun : RunsOk [run]) :
    RunsOk (mergeRun merged run) ∧ expandRuns (mergeRun merged run) = expandRuns merged ++ expandRuns [run] := by
  unfold mergeRun
  rcases merged.eq_nil_or_concat with rfl | ⟨before, last, rfl⟩
  · exact ⟨hrun, rfl⟩
  rw [List.concat_eq_append] at h ⊢
  rw [List.getLast?_concat]
  dsimp only
  split
  · rename_i hadjacent
    obtain ⟨hstart, hcount⟩ := hadjacent
    rw [List.dropLast_concat]
    have hlast := h last (List.mem_append_right _ List.mem_cons_self)
    have hright := hrun run List.mem_cons_self
    constructor
    · refine RunsOk.append (fun r hr => h r (List.mem_append_left _ hr)) fun r hr => ?_
      rw [List.mem_singleton.mp hr]
      refine ⟨by show 0 < last.count + run.count; omega, ?_, ?_⟩
      · show last.count + run.count ≤ maxSafeInteger
        unfold maxSafeInteger
        omega
      · show last.start + (last.count + run.count) ≤ maxU64 + 1
        omega
    · -- the two ranges are one
      have hrange : List.range' last.start (last.count + run.count) =
          List.range' last.start last.count ++ List.range' run.start run.count := by
        rw [← hstart, List.range'_append_1]
      simp [expandRuns, hrange]
  · exact ⟨h.append hrun, expandRuns_append _ _⟩

theorem mergeExtentRuns_spec {left right : List ExtentRun} (h : RunsOk left) (h' : RunsOk right) :
    RunsOk (mergeExtentRuns left right) ∧
      expandRuns (mergeExtentRuns left right) = expandRuns left ++ expandRuns right := by
  unfold mergeExtentRuns
  induction right generalizing left with
  | nil => exact ⟨h, (List.append_nil _).symm⟩
  | cons run right ih =>
    have hrun : RunsOk [run] := fun r hr => h' r (List.mem_cons.mpr (.inl (List.mem_singleton.mp hr)))
    obtain ⟨hok, hexpand⟩ := mergeRun_spec h hrun
    obtain ⟨hok', hexpand'⟩ := ih hok fun r hr => h' r (List.mem_cons_of_mem _ hr)
    refine ⟨hok', ?_⟩
    rw [List.foldl_cons, hexpand', hexpand, List.append_assoc]
    exact congrArg _ (expandRuns_append [run] right).symm

/-! ### The state before and after -/

theorem OrdMap.set_set {K V : Type} [DecidableEq K] (m : OrdMap K V) (k : K) (v w : V) :
    (m.set k v).set k w = m.set k w := by
  refine OrdMap.ext_entries ?_
  show OrdMap.setEntries k w (OrdMap.setEntries k v m.entries) = OrdMap.setEntries k w m.entries
  induction m.entries with
  | nil => simp [OrdMap.setEntries]
  | cons e es ih =>
    by_cases he : e.1 = k
    · simp [OrdMap.setEntries, he]
    · simp [OrdMap.setEntries, he, ih]

/-- The record lengthens its file. -/
def Lengthens (state : VfsState) (record : ResizeFileRecord) : Prop :=
  ∃ inode size extents, state.inodes.get? record.inodeId = some inode ∧ inode.body = .file size extents ∧
    size < record.size

theorem extentCount_mono {size size' extentSize : Nat} (h : size ≤ size') :
    extentCount size extentSize ≤ extentCount size' extentSize := by
  unfold extentCount
  exact Nat.div_le_div_right (by omega)

/-- The state after a record that lengthens a file with the given extents, but for the running base size. -/
def grown (state : VfsState) (record : ResizeFileRecord) (extents : List Nat) : VfsState :=
  { modifyInode state record.inodeId (fun inode => { inode with
        body := .file record.size (extents ++ expandRuns record.allocated)
        mtimeMs := record.mtimeMs
        ctimeMs := record.ctimeMs }) with
    allocator := (expandRuns record.allocated).foldl (ownExtent record.inodeId) state.allocator }

def withBase (state : VfsState) (bytes : Nat) : VfsState := { state with basePayloadBytes := bytes }

theorem grown_get? {state : VfsState} {record : ResizeFileRecord} {extents : List Nat} {inode : Inode}
    (h : state.inodes.get? record.inodeId = some inode) (bytes : Nat) :
    (withBase (grown state record extents) bytes).inodes.get? record.inodeId = some { inode with
      body := .file record.size (extents ++ expandRuns record.allocated)
      mtimeMs := record.mtimeMs
      ctimeMs := record.ctimeMs } := by
  show (modifyInode state record.inodeId _).inodes.get? record.inodeId = _
  rw [modifyInode_get?, h, Option.map_some, if_pos rfl]

theorem grown_extentSize (state : VfsState) (record : ResizeFileRecord) (extents : List Nat) (bytes : Nat) :
    (withBase (grown state record extents) bytes).extentSize = state.extentSize := modifyInode_extentSize _ _ _

theorem canonicalBaseBytes_withBase (state : VfsState) (bytes : Nat) :
    canonicalBaseBytes (withBase state bytes) = canonicalBaseBytes state := rfl

/-- Growing a file twice is growing it once. -/
theorem grown_grown (state : VfsState) {pending record : ResizeFileRecord} (merged : ResizeFileRecord)
    (hid : pending.inodeId = record.inodeId)
    (hmerged : merged = { record with allocated := merged.allocated })
    (hexpand : expandRuns merged.allocated = expandRuns pending.allocated ++ expandRuns record.allocated)
    (extents : List Nat) (base base' : Nat) :
    withBase (grown (withBase (grown state pending extents) base) record (extents ++ expandRuns pending.allocated)) base' =
      withBase (grown state merged extents) base' := by
  unfold grown withBase
  rw [hmerged]
  dsimp only
  rw [hexpand, hid, List.foldl_append]
  cases h : state.inodes.get? record.inodeId with
  | none => simp [modifyInode, h]
  | some inode => simp [modifyInode, h, OrdMap.set_set]

/-- A record that lengthens its file keeps the extents and adds its own. -/
theorem applyResizeFile_lengthens {state state' : VfsState} (h : Sound state) {record : ResizeFileRecord}
    (hlengthens : Lengthens state record) :
    applyResizeFile state record = .ok () state' ↔
      ∃ inode size extents, Resizable state record inode size extents ∧
        extents.length ≤ extentCount record.size state.extentSize ∧ state' = grown state record extents := by
  obtain ⟨inode', size', extents', hfound', hfile', hsize'⟩ := hlengthens
  rw [applyResizeFile_eq_ok h]
  have hlength : ∀ inode size extents, Resizable state record inode size extents →
      extents.length ≤ extentCount record.size state.extentSize := by
    intro inode size extents hresizable
    obtain rfl := Option.some.inj (hfound'.symm.trans hresizable.found)
    rw [hresizable.file, InodeBody.file.injEq] at hfile'
    obtain ⟨rfl, rfl⟩ := hfile'
    rw [((h.inodes _ _ hfound').file _ _ hresizable.file).2.1]
    exact extentCount_mono hsize'.le
  have hgrown : ∀ extents : List Nat, extents.length ≤ extentCount record.size state.extentSize →
      ({ modifyInode state record.inodeId (resized state record extents) with
        allocator := resizedAllocator state record extents } : VfsState) = grown state record extents := by
    intro extents hle
    unfold resized resizedAllocator
    rw [List.take_of_length_le hle, List.drop_eq_nil_of_le hle]
    rfl
  constructor
  · rintro ⟨inode, size, extents, hresizable, rfl⟩
    exact ⟨inode, size, extents, hresizable, hlength _ _ _ hresizable, hgrown _ (hlength _ _ _ hresizable)⟩
  · rintro ⟨inode, size, extents, hresizable, hle, rfl⟩
    exact ⟨inode, size, extents, hresizable, (hgrown _ hle).symm⟩

/-- The record that stands for both. -/
def mergedResize (pending record : ResizeFileRecord) : ResizeFileRecord :=
  { record with allocated := mergeExtentRuns pending.allocated record.allocated }

section merged

variable {state mid : VfsState} {pending record : ResizeFileRecord} {inode : Inode} {size : Nat} {extents : List Nat}

/-- What the second write takes is not what the first has taken. -/
theorem assignable_merged (hmid : Sound mid) {count count' : Nat} (h : Assignable state pending.allocated count)
    (hallocator : mid.allocator = (expandRuns pending.allocated).foldl (ownExtent record.inodeId) state.allocator)
    (howned : ∀ e ∈ expandRuns pending.allocated, Owns mid record.inodeId e)
    (h' : Assignable mid record.allocated count') (hle : count + count' ≤ maxExtentsPerInode) :
    Assignable state (mergedResize pending record).allocated (count + count') := by
  obtain ⟨hok, hexpand⟩ := mergeExtentRuns_spec h.runs_ok h'.runs_ok
  obtain ⟨havailable, htotal, -⟩ := foldl_ownExtent record.inodeId (expandRuns pending.allocated) state.allocator
  rw [← hallocator] at havailable htotal
  have hsame : ((expandRuns pending.allocated ++ expandRuns record.allocated).foldl takeExtent
      state.allocator).totalExtents = ((expandRuns record.allocated).foldl takeExtent mid.allocator).totalExtents := by
    rw [← (foldl_ownExtent record.inodeId (expandRuns record.allocated) mid.allocator).2.1, hallocator,
      ← List.foldl_append]
    exact ((foldl_ownExtent record.inodeId _ state.allocator).2.1).symm
  refine ⟨hok, hle, ?_, ?_, ?_, ?_⟩ <;> show _ <;> unfold mergedResize <;> rw [hexpand]
  · rw [List.length_append, h.length, h'.length]
  · refine List.nodup_append.mpr ⟨h.nodup, h'.nodup, fun e he e' he' heq => ?_⟩
    have hfree := hmid.alloc.free_of_takes h'.takes e' he'
    rw [← heq, (hmid.alloc.owned_iff e record.inodeId).mpr (howned e he)] at hfree
    cases hfree
  · exact takes_append.mpr ⟨h.takes, h'.takes.congr havailable htotal⟩
  · rw [hsame]
    exact h'.total

theorem resizable_merged (hmid : Sound mid) (hid : pending.inodeId = record.inodeId)
    (hextentSize : mid.extentSize = state.extentSize)
    (hp : Resizable state pending inode size extents)
    (hallocator : mid.allocator = (expandRuns pending.allocated).foldl (ownExtent record.inodeId) state.allocator)
    {inode' : Inode} (hr : Resizable mid record inode' pending.size (extents ++ expandRuns pending.allocated))
    (hle' : (extents ++ expandRuns pending.allocated).length ≤ extentCount record.size mid.extentSize) :
    Resizable state (mergedResize pending record) inode size extents := by
  have hlength := hp.assign.length
  rw [List.length_append, hextentSize] at hle'
  have hassign := hr.assign
  rw [List.length_append, hextentSize] at hassign
  have hcount := hr.count_le
  rw [hextentSize] at hcount
  have hmerged := assignable_merged hmid hp.assign hallocator (fun e he => ⟨inode', hr.found, by
    rw [hr.file]
    exact List.mem_append_right _ he⟩) hassign (by omega)
  refine ⟨hid ▸ hp.found, hp.file, hr.size_le, hcount, ?_, hr.mtime, hr.ctime⟩
  have hsum : extentCount (mergedResize pending record).size state.extentSize - extents.length =
      extentCount pending.size state.extentSize - extents.length +
        (extentCount record.size state.extentSize - (extents.length + (expandRuns pending.allocated).length)) := by
    show extentCount record.size state.extentSize - extents.length = _
    omega
  rw [hsum]
  exact hmerged

end merged

/-- What a transaction that lengthens a file does. -/
theorem applyTxn_lengthens {state state' : VfsState} (h : Sound state) {record : ResizeFileRecord}
    (hlengthens : Lengthens state record) (happly : applyTxn state (.resizeFile record) none = .ok () state') :
    ∃ inode size extents base, Resizable state record inode size extents ∧ size < record.size ∧
      extents.length ≤ extentCount record.size state.extentSize ∧ state' = withBase (grown state record extents) base := by
  obtain ⟨base, applied, -, hrecord, rfl⟩ := applyTxn_eq_ok.mp happly
  obtain ⟨inode, size, extents, hresizable, hle, rfl⟩ := (applyResizeFile_lengthens h hlengthens).mp hrecord
  refine ⟨inode, size, extents, base, hresizable, ?_, hle, rfl⟩
  obtain ⟨inode', size', extents', hfound, hfile, hlt⟩ := hlengthens
  obtain rfl := Option.some.inj (hfound.symm.trans hresizable.found)
  rw [hresizable.file, InodeBody.file.injEq] at hfile
  exact hfile.1 ▸ hlt

/-- A record that lengthens a file is accepted when the size that it leads to is the running size of some balanced
state that has everything else from it. -/
theorem applyTxn_grown {state : VfsState} (h : Balanced state) {record : ResizeFileRecord} (hlengthens : Lengthens state record)
    {inode : Inode} {size : Nat} {extents : List Nat} (hresizable : Resizable state record inode size extents)
    (hle : extents.length ≤ extentCount record.size state.extentSize) {base bytes : Nat}
    (hbalanced : Balanced (withBase (grown state record extents) base))
    (hbytes : txnFrameBytes (.resizeFile record) = .ok bytes) :
    applyTxn state (.resizeFile record) none = .ok () (withBase (grown state record extents) base) := by
  have happly : applyRecord state (.resizeFile record) = .ok () (grown state record extents) :=
    (applyResizeFile_lengthens h.sound hlengthens).mpr ⟨inode, size, extents, hresizable, hle, rfl⟩
  obtain ⟨delta, hdelta⟩ : ∃ delta, projectedBaseDelta state (.resizeFile record) = .ok delta := by
    have hassign := hresizable.assign
    simp only [projectedBaseDelta, bind_eq_ok, Prod.exists, fileById_eq_ok, extentCountForSize_eq_ok h.sound.extentSize.pos,
      selectedExtentsAlreadyAvailable_eq_ok, pure_eq_ok]
    exact ⟨_, inode, size, extents, ⟨hresizable.found, hresizable.file⟩, _,
      ⟨hresizable.size_le, rfl, hresizable.count_le⟩, _, ⟨⟨hassign.runs_ok, hassign.length ▸ hassign.le⟩, rfl⟩, rfl⟩
  -- both running sizes are canonical, so the projection hits the one of the state that is left
  have hkept := (applyRecord_kept h.sound happly hdelta).bytes
  have hbase : base = canonicalBaseBytes (grown state record extents) := hbalanced.base_eq
  simp only [txnFrameBytes, bind_eq_ok, throwIf_eq_ok, not_lt, gt_iff_lt] at hbytes
  obtain ⟨payload, hestimate, -, hmax, -⟩ := hbytes
  refine applyTxn_eq_ok.mpr ⟨base, _, preflightTxn_eq_ok.mpr ⟨⟨payload, hestimate, hmax⟩, delta, hdelta, ?_, ?_⟩, happly, rfl⟩
  · rw [hbase, hkept, ← h.base_eq]
  · exact hbalanced.base_le

/-- **The merged record leaves what the two records leave.** -/
theorem applyTxn_merged {state mid final : VfsState} (h : Balanced state) {pending record : ResizeFileRecord}
    (hid : pending.inodeId = record.inodeId) (hpending : applyTxn state (.resizeFile pending) none = .ok () mid)
    (hlengthens : Lengthens state pending) (hrecord : applyTxn mid (.resizeFile record) none = .ok () final)
    (hlengthens' : Lengthens mid record) {bytes : Nat}
    (hbytes : txnFrameBytes (.resizeFile (mergedResize pending record)) = .ok bytes) :
    applyTxn state (.resizeFile (mergedResize pending record)) none = .ok () final ∧
      Lengthens state (mergedResize pending record) := by
  have hbalanced := applyTxn_balanced h hpending
  have hfinal := applyTxn_balanced hbalanced hrecord
  obtain ⟨inode, size, extents, base, hresizable, hlt, hle, hmid⟩ := applyTxn_lengthens h.sound hlengthens hpending
  obtain ⟨inode', size', extents', base', hresizable', hlt', hle', rfl⟩ :=
    applyTxn_lengthens hbalanced.sound hlengthens' hrecord
  -- the second record finds the file that the first left
  obtain ⟨rfl, rfl⟩ : pending.size = size' ∧ extents ++ expandRuns pending.allocated = extents' := by
    have hfound := hresizable'.found
    rw [hmid, ← hid, grown_get? hresizable.found, Option.some.injEq] at hfound
    have hfile := hresizable'.file
    rw [← hfound, InodeBody.file.injEq] at hfile
    exact hfile
  have hextentSize : mid.extentSize = state.extentSize := by
    rw [hmid]
    exact grown_extentSize _ _ _ _
  have hallocator : mid.allocator = (expandRuns pending.allocated).foldl (ownExtent record.inodeId) state.allocator := by
    rw [hmid, ← hid]
    rfl
  have hmerged := resizable_merged hbalanced.sound hid hextentSize hresizable hallocator hresizable' hle'
  have hexpand := (mergeExtentRuns_spec hresizable.assign.runs_ok hresizable'.assign.runs_ok).2
  have hlast : extents.length ≤ extentCount (mergedResize pending record).size state.extentSize := by
    rw [hextentSize, List.length_append] at hle'
    exact (Nat.le_add_right _ _).trans hle'
  have hlengthened : Lengthens state (mergedResize pending record) :=
    ⟨inode, size, extents, hmerged.found, hmerged.file, hlt.trans hlt'⟩
  rw [hmid, grown_grown state (mergedResize pending record) hid rfl hexpand] at hfinal ⊢
  exact ⟨applyTxn_grown h hlengthened hmerged hlast hfinal hbytes, hlengthened⟩

end Opfs
