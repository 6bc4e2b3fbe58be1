/-
What a planner returns applies.

A planner checks what the reducer of its record checks, on the same state, so on a
well-formed state the record it returns is applied and creates only paths within the
limits (`Planned`).  There is one lemma a planner; the shared work is the walk along
a path (`descend_path`, `walkTo_found`) and the choice of extents (`chooseExtents_assignable`).
-/
import Pgxsinkit.Opfs.Txn

namespace Opfs

open Checked RootedTree

/-- A record that its state accepts, with every path it creates within the limits. -/
structure Planned (state : VfsState) (record : TxnRecord) : Prop where
  preflight : ∃ bytes, preflightTxn state record defaultPreflightLimits = .ok bytes
  applies : ∃ state', applyRecord state record = .ok () state'
  within : CreatesWithin state record

theorem checkedPlan_eq_ok {state : VfsState} {record record' : TxnRecord} :
    checkedPlan state record = .ok record' ↔
      (∃ bytes, preflightTxn state record defaultPreflightLimits = .ok bytes) ∧
        record' = record := by
  simp only [checkedPlan, bind_eq_ok, pure_eq_ok, exists_and_right, @eq_comm _ record']

theorem Planned.applyTxn {state : VfsState} {record : TxnRecord} (hp : Planned state record)
    (h : WellFormed state) :
    ∃ state', applyTxn state record none = .ok () state' ∧ WellFormed state' := by
  obtain ⟨bytes, hbytes⟩ := hp.preflight
  obtain ⟨applied, happly⟩ := hp.applies
  have htxn := applyTxn_eq_ok.mpr ⟨bytes, applied, hbytes, happly, rfl⟩
  exact ⟨_, htxn, (applyTxn_wellFormed_iff h htxn).mpr hp.within⟩

/-- A record without entries needs to be accepted only. -/
theorem Planned.of_no_entries {state state' : VfsState} {record planned : TxnRecord}
    (hplan : checkedPlan state record = .ok planned) (hr : createdEntries record = [])
    (happly : applyRecord state record = .ok () state') : Planned state planned := by
  obtain ⟨hbytes, rfl⟩ := checkedPlan_eq_ok.mp hplan
  exact ⟨hbytes, ⟨_, happly⟩, .of_no_entries hr⟩

/-! ### Walking along a path -/

/-- An inode of the tree at a path. -/
structure At (state : VfsState) (inode : Inode) (path : List JsString) : Prop where
  found : state.inodes.get? inode.id = some inode
  path : PathTo state inode.id path

theorem directoryById_at {state : VfsState} (h : Sound state) {id : Nat} {inode : Inode}
    {children : OrdMap JsString Nat} (hd : directoryById state id = .ok (inode, children)) :
    inode.id = id ∧ state.inodes.get? inode.id = some inode ∧
      inode.body = .directory children := by
  obtain ⟨hi, hb⟩ := directoryById_eq_ok.mp hd
  have hid := (h.inodes _ _ hi).id_eq
  exact ⟨hid, by rwa [hid], hb⟩

theorem root_at {state : VfsState} (h : Sound state) {root : Inode}
    (hr : state.inodes.get? state.rootInodeId = some root) : At state root [] := by
  have hid := (h.inodes _ _ hr).id_eq
  refine ⟨by rwa [hid], ?_⟩
  rw [hid]
  exact .refl

/-- An entry of a directory is one component further down. -/
theorem At.child {state : VfsState} (h : Sound state) {inode child : Inode}
    {path : List JsString} (ha : At state inode path) {name : JsString} {id : Nat}
    (hentry : inode.body.children.get? name = some id)
    (hchild : state.inodes.get? id = some child) : At state child (path ++ [name]) := by
  have hid := (h.inodes _ _ hchild).id_eq
  refine ⟨by rwa [hid], ?_⟩
  rw [hid]
  exact .child (h.tree.child ha.found hentry).1 ha.path

theorem descend_path {state : VfsState} (h : Sound state) {components : List JsString}
    {parent result : DirectoryInode} {path : List JsString} (ha : At state parent.1 path)
    (hb : parent.1.body = .directory parent.2)
    (hd : descend state parent components = .ok result) :
    At state result.1 (path ++ components) ∧ result.1.body = .directory result.2 := by
  induction components generalizing parent path with
  | nil =>
    cases hd
    rw [List.append_nil]
    exact ⟨ha, hb⟩
  | cons component rest ih =>
    simp only [descend, bind_eq_ok, orThrow_eq_ok] at hd
    obtain ⟨childId, hentry, child, hchild, hd⟩ := hd
    obtain ⟨hid, hfound, hchildren⟩ := directoryById_at h hchild
    have hstep : At state child.1 (path ++ [component]) :=
      ha.child h (by rwa [hb]) (hid ▸ hfound)
    rw [List.append_cons]
    exact ih hstep hchildren hd

/-- The parent directory and the name of a path. -/
structure ParentAt (state : VfsState) (path : JsString) (parent : Inode)
    (children : OrdMap JsString Nat) (name : JsString) (above : List JsString) : Prop where
  at_parent : At state parent above
  body : parent.body = .directory children
  parsed : parsePath path = .ok (above ++ [name])

theorem parentAndName_path {state : VfsState} (h : Sound state) {path name : JsString}
    {parent : Inode} {children : OrdMap JsString Nat}
    (hp : parentAndName state path = .ok ((parent, children), name)) :
    ∃ above, ParentAt state path parent children name above := by
  simp only [parentAndName, bind_eq_ok, orThrow_eq_ok, pure_eq_ok, Prod.mk.injEq] at hp
  obtain ⟨components, hparse, _, hlast, root, hroot, result, hd, rfl, rfl⟩ := hp
  obtain ⟨hid, hfound, hbody⟩ := directoryById_at h hroot
  obtain ⟨hat, hb⟩ := descend_path h (root_at h (hid ▸ hfound)) hbody hd
  refine ⟨components.dropLast, hat, hb, ?_⟩
  rw [hparse, List.dropLast_append_getLast? _ hlast]

namespace ParentAt

variable {state : VfsState} {path name : JsString} {parent : Inode}
  {children : OrdMap JsString Nat} {above : List JsString}
  (hp : ParentAt state path parent children name above)
include hp

theorem valid : ValidComponent name :=
  (parsePath_eq_ok hp.parsed).1 name (List.mem_append_right _ (List.mem_singleton_self _))

theorem dir : parent.body.isDirectory = true := by
  rw [hp.body]
  rfl

theorem within : WithinPathLimits (above ++ [name]) := (parsePath_eq_ok hp.parsed).2.1

theorem entry {id : Nat} : parent.body.children.get? name = some id ↔
    children.get? name = some id := by
  rw [hp.body]
  rfl

/-- The path of a new entry is the path that was asked for. -/
theorem createsWithin (h : Sound state) {record : TxnRecord} {entry : CreateDirectoryChoice}
    (hentries : createdEntries record = [entry]) (hid : entry.parentId = parent.id)
    (hname : entry.name = name) (hc : Creatable state entry parent) :
    CreatesWithin state record := by
  intro id p hn
  rw [hentries, newPath_singleton h hc] at hn
  obtain ⟨pp, hpp, -, rfl⟩ := hn
  rw [hid] at hpp
  rw [h.tree.path_unique hpp hp.at_parent.path, hname]
  exact hp.within

end ParentAt

theorem walkTo_found {state : VfsState} (h : Sound state) {components : List JsString}
    {inode result : Inode} {path : List JsString} (ha : At state inode path)
    (hw : walkTo state inode components = .ok result) :
    At state result (path ++ components) := by
  induction components generalizing inode path with
  | nil =>
    cases hw
    rwa [List.append_nil]
  | cons component rest ih =>
    unfold walkTo at hw
    split at hw
    · rename_i children hbody
      simp only [bind_eq_ok, orThrow_eq_ok] at hw
      obtain ⟨childId, hentry, child, hchild, hw⟩ := hw
      have hstep : At state child (path ++ [component]) := ha.child h (by rwa [hbody]) hchild
      rw [List.append_cons]
      exact ih hstep hw
    · cases hw

theorem getInodeAtPath_found {state : VfsState} (h : Sound state) {path : JsString}
    {inode : Inode} (hg : getInodeAtPath state path = .ok inode) :
    state.inodes.get? inode.id = some inode := by
  simp only [getInodeAtPath, bind_eq_ok, orThrow_eq_ok] at hg
  obtain ⟨components, -, root, hroot, hw⟩ := hg
  exact (walkTo_found h (root_at h hroot) hw).found

/-! ### Choosing extents -/

/-- Distinct available extents can be taken one after the other. -/
theorem takes_of_available {a : AllocatorState} (hlt : ∀ e ∈ a.available.items, e < a.totalExtents)
    {extents : List Nat} (hmem : ∀ e ∈ extents, e ∈ a.available.items) (hnd : extents.Nodup) :
    Takes a extents ∧ (extents.foldl takeExtent a).totalExtents = a.totalExtents := by
  induction extents generalizing a with
  | nil => exact ⟨trivial, rfl⟩
  | cons e es ih =>
    obtain ⟨hne, hnd⟩ := List.nodup_cons.mp hnd
    rw [List.forall_mem_cons] at hmem
    have ht : Takeable a e := .inl ⟨hmem.1, hlt e hmem.1⟩
    have htotal : (takeExtent a e).totalExtents = a.totalExtents := by
      rw [total_takeExtent ht, if_pos (hlt e hmem.1), Nat.add_zero]
    obtain ⟨h1, h2⟩ := ih
      (fun x hx => by
        rw [htotal]
        exact hlt x ((mem_available_takeExtent ht hlt).mp hx).1)
      (fun x hx => (mem_available_takeExtent ht hlt).mpr
        ⟨hmem.2 x hx, fun hxe => hne (hxe ▸ hx)⟩) hnd
    exact ⟨⟨ht, h1⟩, by rw [List.foldl_cons, h2, htotal]⟩

/-- The arena grows by the next extents. -/
theorem takes_fresh (a : AllocatorState) (n : Nat) :
    Takes a (List.range' a.totalExtents n) ∧
      ((List.range' a.totalExtents n).foldl takeExtent a).totalExtents = a.totalExtents + n := by
  induction n generalizing a with
  | zero => exact ⟨trivial, rfl⟩
  | succ n ih =>
    have hnext : (takeExtent a a.totalExtents).totalExtents = a.totalExtents + 1 := by
      rw [takeExtent, if_neg (Nat.lt_irrefl _)]
    obtain ⟨h1, h2⟩ := ih (takeExtent a a.totalExtents)
    rw [hnext] at h1 h2
    rw [List.range'_succ]
    exact ⟨⟨.inr rfl, h1⟩, by rw [List.foldl_cons, h2]; omega⟩

theorem chooseExtents_takes {state : VfsState} (h : Sound state) {count : Nat}
    {extents : List Nat} (hc : chooseExtents state count = .ok extents) :
    count ≤ maxExtentsPerInode ∧ extents.length = count ∧ extents.Nodup ∧
      Takes state.allocator extents ∧
      (extents.foldl takeExtent state.allocator).totalExtents ≤ maxTotalExtents := by
  have hlt := h.alloc.toAllocated.available_lt
  simp only [chooseExtents, bind_eq_ok, throwIf_eq_ok, exists_const, pure_eq_ok, not_lt,
    gt_iff_lt] at hc
  obtain ⟨hcount, htotal, rfl⟩ := hc
  have hle : min count state.allocator.available.size ≤ state.allocator.available.size :=
    Nat.min_le_right _ _
  have hreused : ∀ e ∈ state.allocator.available.peekLast
      (min count state.allocator.available.size), e < state.allocator.totalExtents :=
    fun e he => hlt e (IndexedExtentSet.mem_of_mem_peekLast he)
  obtain ⟨htake, htot⟩ := takes_of_available hlt
    (fun e he => IndexedExtentSet.mem_of_mem_peekLast he)
    (IndexedExtentSet.nodup_peekLast (min count state.allocator.available.size))
  have hfresh := takes_fresh ((state.allocator.available.peekLast
    (min count state.allocator.available.size)).foldl takeExtent state.allocator)
    (count - min count state.allocator.available.size)
  rw [htot] at hfresh
  refine ⟨hcount, ?_, ?_, takes_append.mpr ⟨htake, hfresh.1⟩, ?_⟩
  · rw [List.length_append, IndexedExtentSet.length_peekLast hle, List.length_range']
    omega
  · rw [List.nodup_append]
    refine ⟨IndexedExtentSet.nodup_peekLast _, List.nodup_range', fun x hx y hy hxy => ?_⟩
    have hxlt := hreused x hx
    have hyge := (List.mem_range'_1.mp hy).1
    omega
  · rw [List.foldl_append, hfresh.2]
    exact htotal

/-- The chosen extents are ones the reducer assigns. -/
theorem chooseExtents_assignable {state : VfsState} (h : Sound state) {count : Nat}
    {extents : List Nat} {runs : List ExtentRun} (hc : chooseExtents state count = .ok extents)
    (hruns : toExtentRuns extents = .ok runs) : Assignable state runs count := by
  obtain ⟨hle, hlen, hnd, ht, htot⟩ := chooseExtents_takes h hc
  have hmax : ∀ e ∈ extents, e ≤ maxU64 := by
    have htaken := h.alloc.toAllocated.own_all ht 0
    intro e he
    have hlt := htaken.owned_lt (.inr ⟨rfl, he⟩)
    rw [(foldl_ownExtent 0 extents state.allocator).2.1] at hlt
    unfold maxTotalExtents at htot
    unfold maxU64
    omega
  obtain ⟨runs', hruns', hok, hx⟩ := toExtentRuns_eq_ok hmax
  rw [hruns'] at hruns
  cases hruns
  exact ⟨hok, hle, by rw [hx]; exact hlen, by rwa [hx], by rwa [hx], by rwa [hx]⟩

/-! ### Creating -/

/-- The entry a planner makes is one the reducer accepts. -/
theorem creatable_planned {state : VfsState} {path name : JsString}
    {parent : Inode} {children : OrdMap JsString Nat} {above : List JsString}
    (hp : ParentAt state path parent children name above) (hfree : children.has name = false)
    (hid : state.nextInodeId + 1 ≤ maxU64) {mode nowMs : Nat} (hmode : mode ≤ maxU32)
    (hnow : nowMs ≤ maxU64) :
    Creatable state ⟨parent.id, name, state.nextInodeId, mode, nowMs, nowMs, nowMs⟩ parent :=
  ⟨hp.valid, hp.at_parent.found, hp.dir, by
    rw [hp.body]
    exact OrdMap.has_eq_false.mp hfree, rfl, hid, hmode, hnow, hnow, hnow⟩

theorem planCreateFile_planned {state : VfsState} (h : WellFormed state) {path : JsString}
    {options : CreateFileOptions} {record : TxnRecord}
    (hplan : planCreateFile state path options = .ok record) : Planned state record := by
  simp only [planCreateFile, bind_eq_ok, Prod.exists, throwIf_eq_ok, exists_const,
    validateMode_eq_ok, validateTimestamp_eq_ok, advanceNextInodeId_eq_ok, checkedU64_eq_ok,
    Int.natCast_inj, Bool.not_eq_true, not_le, ge_iff_le,
    extentCountForSize_eq_ok h.sound.extentSize.pos] at hplan
  obtain ⟨parent, children, name, hparent, hfree, hcount, _, ⟨rfl, -⟩, _, ⟨rfl, hid⟩, mode,
    ⟨-, hmode⟩, nowMs, ⟨-, hnow⟩, size, ⟨-, hsize⟩, count, ⟨-, rfl, -⟩, chosen, hchosen, runs,
    hruns, hplan⟩ := hplan
  obtain ⟨hbytes, rfl⟩ := checkedPlan_eq_ok.mp hplan
  obtain ⟨above, hp⟩ := parentAndName_path h.sound hparent
  have hc := creatable_planned hp hfree hid hmode hnow
  have hassign := chooseExtents_assignable h.sound hchosen hruns
  exact ⟨hbytes, ⟨_, (applyCreateFile_eq_ok h.sound).mpr ⟨parent, hc, hcount, hsize, hassign,
    rfl⟩⟩, hp.createsWithin h.sound rfl rfl rfl hc⟩

theorem planSymlink_planned {state : VfsState} (h : WellFormed state) {path target : JsString}
    {options : SymlinkOptions} {record : TxnRecord}
    (hplan : planSymlink state path target options = .ok record) : Planned state record := by
  simp only [planSymlink, bind_eq_ok, Prod.exists, throwIf_eq_ok, exists_const,
    validateMode_eq_ok, validateTimestamp_eq_ok, advanceNextInodeId_eq_ok, checkedU64_nat,
    Bool.not_eq_true, not_le, ge_iff_le] at hplan
  obtain ⟨parent, children, name, hparent, hfree, hcount, n, htarget, _, ⟨rfl, -⟩, _, ⟨rfl, hid⟩,
    nowMs, ⟨-, hnow⟩, mode, ⟨-, hmode⟩, hplan⟩ := hplan
  obtain ⟨hbytes, rfl⟩ := checkedPlan_eq_ok.mp hplan
  obtain ⟨above, hp⟩ := parentAndName_path h.sound hparent
  have hc := creatable_planned hp hfree hid hmode hnow
  exact ⟨hbytes, ⟨_, (applyCreateSymlink_eq_ok h.sound).mpr ⟨parent, hc, hcount, ⟨n, htarget⟩,
    rfl⟩⟩, hp.createsWithin h.sound rfl rfl rfl hc⟩

/-! ### Removing, changing and reserving -/

/-- The lookup of a removing planner finds what the reducer finds. -/
theorem removable_planned {state : VfsState} (h : Sound state) {path name : JsString}
    {parent inode : Inode} {children : OrdMap JsString Nat} {above : List JsString}
    (hp : ParentAt state path parent children name above)
    (hfound : (children.get? name).bind state.inodes.get? = some inode) {timestamp : Nat}
    (hts : timestamp ≤ maxU64) :
    Removable state ⟨parent.id, name, timestamp, timestamp⟩ parent inode := by
  obtain ⟨hentry, hi⟩ := (entry_lookup h).mp hfound
  exact ⟨hp.valid, hts, hts, hp.at_parent.found, hp.entry.mpr hentry, hi⟩

theorem planUnlink_planned {state : VfsState} (h : WellFormed state) {path : JsString}
    {nowMs : Int} {record : TxnRecord} (hplan : planUnlink state path nowMs = .ok record) :
    Planned state record := by
  simp only [planUnlink, bind_eq_ok, Prod.exists, throwIf_eq_ok, exists_const,
    validateTimestamp_eq_ok, orThrow_eq_ok, Bool.not_eq_true] at hplan
  obtain ⟨parent, children, name, hparent, inode, hfound, hfile, timestamp, ⟨-, hts⟩, hplan⟩ :=
    hplan
  obtain ⟨above, hp⟩ := parentAndName_path h.sound hparent
  exact .of_no_entries hplan rfl ((applyRemoveFile_eq_ok h.sound).mpr
    ⟨parent, inode, removable_planned h.sound hp hfound hts, hfile, rfl⟩)

theorem planRmdir_planned {state : VfsState} (h : WellFormed state) {path : JsString}
    {nowMs : Int} {record : TxnRecord} (hplan : planRmdir state path nowMs = .ok record) :
    Planned state record := by
  simp only [planRmdir, bind_eq_ok, Prod.exists, throwIf_eq_ok, exists_const,
    validateTimestamp_eq_ok, orThrow_eq_ok, Bool.not_eq_false, not_not] at hplan
  obtain ⟨parent, children, name, hparent, inode, hfound, hdir, hempty, timestamp, ⟨-, hts⟩,
    hplan⟩ := hplan
  obtain ⟨above, hp⟩ := parentAndName_path h.sound hparent
  exact .of_no_entries hplan rfl ((applyRemoveDirectory_eq_ok h.sound).mpr
    ⟨parent, inode, removable_planned h.sound hp hfound hts, hdir, hempty, rfl⟩)

theorem planChmod_planned {state : VfsState} (h : WellFormed state) {path : JsString}
    {mode nowMs : Int} {record : TxnRecord} (hplan : planChmod state path mode nowMs = .ok record) :
    Planned state record := by
  simp only [planChmod, bind_eq_ok, validateMode_eq_ok, validateTimestamp_eq_ok] at hplan
  obtain ⟨inode, hinode, mode, ⟨-, hmode⟩, ctimeMs, ⟨-, hctime⟩, hplan⟩ := hplan
  have hfound := getInodeAtPath_found h.sound hinode
  have happly : applyRecord state (.changeMode inode.id mode ctimeMs) =
      .ok () (modifyInode state inode.id fun inode => { inode with mode, ctimeMs }) := by
    simp only [applyRecord, applyChangeMode, checkedThen_eq_ok, bind_eq_ok, inodeById_eq_ok,
      validateMode_nat, validateTimestamp_nat, pure_eq_ok]
    exact ⟨_, ⟨inode, hfound, _, ⟨rfl, hmode⟩, _, ⟨rfl, hctime⟩, rfl⟩, rfl⟩
  exact .of_no_entries hplan rfl happly

theorem planUtimes_planned {state : VfsState} (h : WellFormed state) {path : JsString}
    {atimeMs mtimeMs ctimeMs : Int} {record : TxnRecord}
    (hplan : planUtimes state path atimeMs mtimeMs ctimeMs = .ok record) :
    Planned state record := by
  simp only [planUtimes, bind_eq_ok, validateTimestamp_eq_ok] at hplan
  obtain ⟨inode, hinode, a, ⟨-, ha⟩, m, ⟨-, hm⟩, c, ⟨-, hc⟩, hplan⟩ := hplan
  have hfound := getInodeAtPath_found h.sound hinode
  have happly : applyRecord state (.changeTimes inode.id a m c) =
      .ok () (modifyInode state inode.id fun inode =>
        { inode with atimeMs := a, mtimeMs := m, ctimeMs := c }) := by
    simp only [applyRecord, applyChangeTimes, checkedThen_eq_ok, bind_eq_ok, inodeById_eq_ok,
      validateTimestamp_nat, pure_eq_ok]
    exact ⟨_, ⟨inode, hfound, _, ⟨rfl, ha⟩, _, ⟨rfl, hm⟩, _, ⟨rfl, hc⟩, rfl⟩, rfl⟩
  exact .of_no_entries hplan rfl happly

theorem planResizeFileForInode_planned {state : VfsState} (h : WellFormed state) {inode : Inode}
    {oldSize : Nat} {extents : List Nat} (hfile : inode.body = .file oldSize extents)
    {size nowMs : Int} {operation : ResizeOperation} {record : TxnRecord}
    (hplan : planResizeFileForInode state inode extents size nowMs operation = .ok record) :
    Planned state record := by
  simp only [planResizeFileForInode, bind_eq_ok, throwIf_eq_ok, exists_const, not_not,
    checkedU64_eq_ok, extentCountForSize_eq_ok h.sound.extentSize.pos, validateTimestamp_eq_ok]
    at hplan
  obtain ⟨hfound, newSize, ⟨-, hsize⟩, _, ⟨-, rfl, hmax⟩, timestamp, ⟨-, hts⟩, chosen, hchosen,
    runs, hruns, hplan⟩ := hplan
  have hassign := chooseExtents_assignable h.sound hchosen hruns
  exact .of_no_entries hplan rfl ((applyResizeFile_eq_ok h.sound).mpr
    ⟨inode, oldSize, extents, ⟨hfound, hfile, hsize, hmax, hassign, hts, hts⟩, rfl⟩)

theorem planResizeFile_planned {state : VfsState} (h : WellFormed state) {path : JsString}
    {size nowMs : Int} {operation : ResizeOperation} {record : TxnRecord}
    (hplan : planResizeFile state path size nowMs operation = .ok record) :
    Planned state record := by
  simp only [planResizeFile, bind_eq_ok] at hplan
  obtain ⟨inode, -, hplan⟩ := hplan
  split at hplan
  · rename_i oldSize extents hbody
    exact planResizeFileForInode_planned h hbody hplan
  · cases hplan

theorem planReserveQuarantine_planned {state : VfsState} (h : WellFormed state) {count : Int}
    {record : TxnRecord} (hplan : planReserveQuarantine state count = .ok record) :
    Planned state record := by
  simp only [planReserveQuarantine, bind_eq_ok, throwIf_eq_ok, exists_const, not_or, not_le]
    at hplan
  obtain ⟨⟨hpos, -⟩, chosen, hchosen, runs, hruns, hplan⟩ := hplan
  have hassign := chooseExtents_assignable h.sound hchosen hruns
  refine .of_no_entries hplan rfl ((applyReserveQuarantine_eq_ok h.sound).mpr
    ⟨fun hnil => ?_, by rwa [hassign.length], rfl⟩)
  have hlen := hassign.length
  rw [hnil, List.length_nil] at hlen
  omega

/-! ### Renaming -/

/-- Two spellings of one place are equal, so a rename that names two paths names two places. -/
theorem places_ne {state : VfsState} (h : Sound state) {path path' name name' : JsString}
    {parent parent' : Inode} {children children' : OrdMap JsString Nat}
    {above above' : List JsString} (hp : ParentAt state path parent children name above)
    (hp' : ParentAt state path' parent' children' name' above') (hne : path ≠ path') :
    ¬ (parent.id = parent'.id ∧ name = name') := by
  rintro ⟨hid, rfl⟩
  have habove : above = above' :=
    h.tree.path_unique hp.at_parent.path (hid ▸ hp'.at_parent.path)
  subst habove
  refine hne ?_
  obtain ⟨-, -, ⟨hnil, -⟩ | ⟨-, hs⟩⟩ := parsePath_eq_ok hp.parsed
  · simp at hnil
  obtain ⟨-, -, ⟨hnil, -⟩ | ⟨-, hs'⟩⟩ := parsePath_eq_ok hp'.parsed
  · simp at hnil
  rw [hs, hs']

theorem planRename_planned {state : VfsState} (h : WellFormed state) {oldPath newPath : JsString}
    {nowMs : Int} {record : TxnRecord} (hplan : planRename state oldPath newPath nowMs = .ok record) :
    Planned state record := by
  simp only [planRename, bind_eq_ok, Prod.exists, throwIf_eq_ok, exists_const, orThrow_eq_ok,
    inodeById_eq_ok, validateTimestamp_eq_ok] at hplan
  obtain ⟨hne, sparent, schildren, sname, hs, dparent, dchildren, dname, hd, sourceId, hsource,
    source, hfound, destination, htarget, _, htypes, _, hinside, _, hbounds, timestamp, ⟨-, hts⟩,
    hplan⟩ := hplan
  obtain ⟨sabove, hsp⟩ := parentAndName_path h.sound hs
  obtain ⟨dabove, hdp⟩ := parentAndName_path h.sound hd
  have hid := (h.sound.inodes _ _ hfound).id_eq
  refine .of_no_entries hplan rfl ((applyRename_eq_ok h.sound).mpr
    ⟨source, destination, dparent, ⟨hsp.valid, hdp.valid, places_ne h.sound hsp hdp hne, hts,
      childOf_eq_some.mpr ⟨sparent, hsp.at_parent.found, ?_⟩, by rwa [hid], hdp.at_parent.found,
      hdp.dir, by rwa [hdp.body], htypes, hinside, hbounds⟩, rfl⟩)
  rw [hid]
  exact hsp.entry.mpr hsource

/-! ### Creating directories -/

theorem WithinPathLimits.dropLast {labels labels' : List JsString}
    (h : WithinPathLimits (labels ++ labels')) : WithinPathLimits labels := by
  obtain ⟨hdepth, hbytes⟩ := h
  rw [List.length_append] at hdepth
  rw [pathBytes, List.map_append, List.sum_append] at hbytes
  refine ⟨by omega, ?_⟩
  rw [pathBytes]
  omega

/-- Creating a list of entries and then one more. -/
theorem CreatesDirectories.snoc {state current : VfsState} {entries : List CreateDirectoryChoice}
    (hc : CreatesDirectories state entries current) {entry : CreateDirectoryChoice}
    {parent : Inode} (hentry : Creatable current entry parent) :
    CreatesDirectories state (entries ++ [entry]) (createdDirectory current entry parent) := by
  induction entries generalizing state with
  | nil =>
    rw [show current = state from hc] at hentry ⊢
    exact ⟨parent, hentry, rfl⟩
  | cons first rest ih =>
    obtain ⟨p, hfirst, hrest⟩ := hc
    exact ⟨p, hfirst, ih hrest⟩

/-- Where `mkdirLoop` stands after the components `walked`: the entries so far are created,
and the directory in hand is the one at `walked` in the state they leave. -/
structure MkdirAt (state current : VfsState) (entries : List CreateDirectoryChoice)
    (parentId : Nat) (children : OrdMap JsString Nat) (walked : List JsString) : Prop where
  creates : CreatesDirectories state entries current
  sound : Sound current
  paths : PathsWithin current
  size : current.inodes.size = state.inodes.size + entries.length
  parent : ∃ parent, current.inodes.get? parentId = some parent ∧
    parent.body = .directory children
  path : PathTo current parentId walked
  -- below the first missing component every directory in hand is a new one
  old : entries = [] ∨ children = .empty

/-- Creating the missing component `name`. -/
theorem MkdirAt.create {state current : VfsState} {entries : List CreateDirectoryChoice}
    {parentId : Nat} {children : OrdMap JsString Nat} {walked : List JsString}
    (hm : MkdirAt state current entries parentId children walked) {name : JsString}
    (hname : ValidComponent name) (hfree : children.get? name = none)
    (hwithin : WithinPathLimits (walked ++ [name]))
    (hsize : state.inodes.size + entries.length < maxInodes)
    (hid : current.nextInodeId + 1 ≤ maxU64) {mode nowMs : Nat} (hmode : mode ≤ maxU32)
    (hnow : nowMs ≤ maxU64) :
    ∃ next, next.nextInodeId = current.nextInodeId + 1 ∧ MkdirAt state next
      (entries ++ [⟨parentId, name, current.nextInodeId, mode, nowMs, nowMs, nowMs⟩])
      current.nextInodeId .empty (walked ++ [name]) := by
  obtain ⟨parent, hfound, hbody⟩ := hm.parent
  have hc : Creatable current ⟨parentId, name, current.nextInodeId, mode, nowMs, nowMs, nowMs⟩
      parent := ⟨hname, hfound, by rw [hbody]; rfl, by rw [hbody]; exact hfree, rfl, hid, hmode,
    hnow, hnow, hnow⟩
  have hpaths : ∀ {id path}, PathTo (createdDirectory current _ parent) id path ↔ _ :=
    hc.pathTo_iff hm.sound rfl
  refine ⟨createdDirectory current _ parent, rfl, hm.creates.snoc hc,
    hc.sound_directory hm.sound (by rw [hm.size]; exact hsize), fun id path hp => ?_, ?_, ?_, ?_,
    .inr rfl⟩
  · rcases hpaths.mp hp with hp | ⟨pp, hpp, -, rfl⟩
    · exact hm.paths id path hp
    · rw [hm.sound.tree.path_unique hpp hm.path]
      exact hwithin
  · rw [hc.size_directory hm.sound, hm.size, List.length_append]
    rfl
  · refine ⟨newInode ⟨parentId, name, current.nextInodeId, mode, nowMs, nowMs, nowMs⟩
      (.directory .empty), ?_, rfl⟩
    rw [createdDirectory_get?, if_pos rfl]
  · exact hpaths.mpr (.inr ⟨walked, hm.path, rfl, rfl⟩)

theorem mkdirLoop_creates {state current : VfsState} {recursive : Bool} {mode nowMs : Nat}
    (hmode : mode ≤ maxU32) (hnow : nowMs ≤ maxU64) {rest : List JsString}
    {entries entries' : List CreateDirectoryChoice} {parentId : Nat}
    {children : OrdMap JsString Nat} {walked : List JsString}
    (hm : MkdirAt state current entries parentId children walked)
    (hvalid : ∀ c ∈ rest, ValidComponent c) (hwithin : WithinPathLimits (walked ++ rest))
    (hloop : mkdirLoop state recursive mode nowMs parentId children current.nextInodeId entries
      rest = .ok entries') :
    ∃ state', CreatesDirectories state entries' state' ∧ PathsWithin state' ∧
      state.inodes.size + entries'.length ≤ maxInodes := by
  induction rest generalizing current entries parentId children walked with
  | nil =>
    cases hloop
    exact ⟨current, hm.creates, hm.paths, hm.size ▸ hm.sound.inodes_le⟩
  | cons name rest ih =>
    rw [List.forall_mem_cons] at hvalid
    rw [List.append_cons] at hwithin
    unfold mkdirLoop at hloop
    split at hloop
    · rename_i existingId hexisting
      -- an entry is found in an old directory only
      obtain rfl : entries = [] := hm.old.resolve_right fun hempty => by
        rw [hempty] at hexisting
        cases hexisting
      obtain rfl : current = state := hm.creates
      simp only [bind_eq_ok, orThrow_eq_ok, Option.filter_eq_some_iff, throwIf_eq_ok,
        exists_const] at hloop
      obtain ⟨existing, ⟨hfound, hdir⟩, -, hloop⟩ := hloop
      obtain ⟨parent, hparent, hbody⟩ := hm.parent
      have hid := (hm.sound.inodes _ _ hfound).id_eq
      have hedge := (hm.sound.tree.child hparent (by rwa [hbody])).1
      rw [hid] at hloop
      have hm' : MkdirAt current current [] existingId existing.body.children (walked ++ [name]) :=
        ⟨rfl, hm.sound, hm.paths, rfl, ⟨existing, hfound, InodeBody.eq_directory hdir⟩,
          .child hedge hm.path, .inl rfl⟩
      exact ih hm' hvalid.2 hwithin hloop
    · rename_i hfree
      simp only [bind_eq_ok, throwIf_eq_ok, exists_const, checkedU64_nat,
        advanceNextInodeId_eq_ok, not_le, ge_iff_le] at hloop
      obtain ⟨-, hsize, _, ⟨rfl, -⟩, _, ⟨rfl, hid⟩, hloop⟩ := hloop
      obtain ⟨next, hnext, hm'⟩ := hm.create hvalid.1 hfree hwithin.dropLast hsize hid hmode hnow
      rw [← hnext] at hloop
      exact ih hm' hvalid.2 hwithin hloop

theorem planMkdir_planned {state : VfsState} (h : WellFormed state) {path : JsString}
    {options : MkdirOptions} {record : TxnRecord}
    (hplan : planMkdir state path options = .ok record) : Planned state record := by
  simp only [planMkdir, bind_eq_ok, Prod.exists, throwIf_eq_ok, exists_const, validateMode_eq_ok,
    validateTimestamp_eq_ok, List.length_eq_zero_iff] at hplan
  obtain ⟨components, hparse, -, mode, ⟨-, hmode⟩, nowMs, ⟨-, hnow⟩, root, children, hroot,
    entries, hloop, hne, hplan⟩ := hplan
  obtain ⟨hbytes, rfl⟩ := checkedPlan_eq_ok.mp hplan
  obtain ⟨hvalid, hwithin, -⟩ := parsePath_eq_ok hparse
  obtain ⟨hid, hfound, hbody⟩ := directoryById_at h.sound hroot
  have hstart : MkdirAt state state [] root.id children [] :=
    ⟨rfl, h.sound, h.paths, rfl, ⟨root, hfound, hbody⟩, hid ▸ .refl, .inl rfl⟩
  obtain ⟨state', hcreates, hpaths, hsize⟩ :=
    mkdirLoop_creates hmode hnow hstart hvalid hwithin hloop
  have happly : applyRecord state (.createDirectories entries) = .ok () state' :=
    (applyCreateDirectories_eq_ok h.sound).mpr ⟨hne, hsize, hcreates⟩
  exact ⟨hbytes, ⟨state', happly⟩, (applyRecord_pathsWithin h.sound h.paths happly).mp hpaths⟩

end Opfs
