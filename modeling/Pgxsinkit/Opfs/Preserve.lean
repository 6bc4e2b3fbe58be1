/-
Every record keeps a sound state sound, and changes the canonical base size by what
`projectedBaseDelta` predicts.

There is one lemma per record kind (`applyCreateFile_kept`, …); `applyRecord_kept`
collects them and `applyTxn_balanced` is the step of the reducer: what it returns on
a balanced state is balanced.  The path limits are a matter of the creating records
alone (`applyRecord_paths`), because a rename checks them itself.
-/
import Pgxsinkit.Opfs.RenameSpec

namespace Opfs

open Checked RootedTree

/-! ### Predicted sizes -/

theorem encodedUtf8Length_eq_ok {name : JsString} {n : Nat}
    (h : encodedUtf8Length name = .ok n) : n = utf8Bytes name := by
  rw [encodedUtf8Length, utf8Length_eq_ok] at h
  exact h.2.symm

theorem childBaseBytes_eq_ok {name : JsString} {n : Nat} (h : childBaseBytes name = .ok n) :
    n = entryBytes name := by
  simp only [childBaseBytes, bind_eq_ok, pure_eq_ok] at h
  obtain ⟨b, hb, rfl⟩ := h
  rw [encodedUtf8Length_eq_ok hb, entryBytes]

theorem inodeBaseBytes_eq_ok {inode : Inode} {n : Nat} (h : inodeBaseBytes inode = .ok n) :
    n = bodyBytes inode.body := by
  unfold inodeBaseBytes at h
  unfold bodyBytes
  cases hb : inode.body with
  | directory children =>
    have key : ∀ (entries : List (JsString × Nat)) (acc out : Nat),
        foldChecked (fun bytes name => do
          let child ← childBaseBytes name
          return bytes + child) acc (entries.map Prod.fst) = .ok out →
        out = acc + (entries.map fun e => entryBytes e.1).sum := by
      intro entries
      induction entries with
      | nil => simp [eq_comm]
      | cons e es ih =>
        intro acc out ho
        simp only [List.map_cons, foldChecked_cons, bind_eq_ok, pure_eq_ok] at ho
        obtain ⟨_, ⟨b, hb, rfl⟩, ho⟩ := ho
        rw [ih _ _ ho, childBaseBytes_eq_ok hb, List.map_cons, List.sum_cons, Nat.add_assoc]
    rw [hb] at h
    exact key children.entries _ _ h
  | file size extents =>
    rw [hb] at h
    exact (Except.ok.inj h).symm
  | symlink target =>
    rw [hb] at h
    simp only [bind_eq_ok, pure_eq_ok] at h
    obtain ⟨b, hb, rfl⟩ := h
    rw [encodedUtf8Length_eq_ok hb]

/-- What a record does to a state: it stays sound, and its base grows by `delta`. -/
structure Kept (state state' : VfsState) (delta : Int) : Prop where
  sound : Sound state'
  bytes : (canonicalBaseBytes state' : Int) = canonicalBaseBytes state + delta

theorem canonicalBaseBytes_touch {state : VfsState} {key : Nat} {f : Inode → Inode}
    (hf : ∀ inode, (f inode).body = inode.body) :
    canonicalBaseBytes (modifyInode state key f) = canonicalBaseBytes state := by
  rw [canonicalBaseBytes_eq, canonicalBaseBytes_eq, modifyInode_allocator, inodesBytes_touch hf]

/-! ### Modes and times -/

theorem applyChangeMode_kept {state state' : VfsState} (h : Sound state) {id mode ctimeMs : Nat}
    (happly : applyChangeMode state id mode ctimeMs = .ok () state') : Kept state state' 0 := by
  simp only [applyChangeMode, checkedThen_eq_ok, bind_eq_ok, inodeById_eq_ok, validateMode_nat,
    validateTimestamp_nat, pure_eq_ok] at happly
  obtain ⟨_, ⟨_, -, _, ⟨rfl, hmode⟩, _, ⟨rfl, hc⟩, rfl⟩, rfl⟩ := happly
  refine ⟨h.touch fun i hi => ⟨rfl, ?_⟩, ?_⟩
  · have hok := h.inodes id i hi
    exact hok.touch rfl rfl hmode hok.atime hok.mtime hc
  · rw [canonicalBaseBytes_touch, Int.add_zero]
    exact fun _ => rfl

theorem applyChangeTimes_kept {state state' : VfsState} (h : Sound state)
    {id atimeMs mtimeMs ctimeMs : Nat}
    (happly : applyChangeTimes state id atimeMs mtimeMs ctimeMs = .ok () state') :
    Kept state state' 0 := by
  simp only [applyChangeTimes, checkedThen_eq_ok, bind_eq_ok, inodeById_eq_ok,
    validateTimestamp_nat, pure_eq_ok] at happly
  obtain ⟨_, ⟨_, -, _, ⟨rfl, ha⟩, _, ⟨rfl, hm⟩, _, ⟨rfl, hc⟩, rfl⟩, rfl⟩ := happly
  refine ⟨h.touch fun i hi => ⟨rfl, ?_⟩, ?_⟩
  · have hok := h.inodes id i hi
    exact hok.touch rfl rfl hok.mode ha hm hc
  · rw [canonicalBaseBytes_touch, Int.add_zero]
    exact fun _ => rfl

/-! ### Creating -/

theorem countP_of_selected {state : VfsState} {runs : List ExtentRun} {n : Nat}
    (h : selectedExtentsAlreadyAvailable state runs = .ok n) :
    n = (expandRuns runs).countP (· < state.allocator.totalExtents) :=
  (selectedExtentsAlreadyAvailable_eq_ok.mp h).2

theorem applyCreateFile_kept {state state' : VfsState} (h : Sound state)
    {record : CreateFileRecord} (happly : applyCreateFile state record = .ok () state')
    {delta : Int} (hdelta : projectedBaseDelta state (.createFile record) = .ok delta) :
    Kept state state' delta := by
  obtain ⟨parent, hc, hcount, hsize, hassign, rfl⟩ := (applyCreateFile_eq_ok h).mp happly
  have hbody : NewBody state (.file record.size (expandRuns record.extents)) :=
    ⟨rfl, hassign.nodup, nofun, fun size extents he => by
      cases he
      exact ⟨hsize, hassign.length, hassign.length ▸ hassign.le⟩⟩
  have hbytes := Allocated.bytes_own_all hassign.takes hassign.nodup record.inodeId
  have hcanon := hc.canonical h hbody.leaf
    ((expandRuns record.extents).foldl (ownExtent record.inodeId) state.allocator)
  refine ⟨hc.sound h hcount hbody (h.alloc.toAllocated.own_all hassign.takes record.inodeId) ?_
    (Allocated.tags_own_all _ _ _), ?_⟩
  · rw [(foldl_ownExtent _ _ _).2.1]
    exact hassign.total
  · simp only [projectedBaseDelta, bind_eq_ok, expandExtentRuns_eq_ok, pure_eq_ok] at hdelta
    obtain ⟨_, ⟨-, rfl, -⟩, reused, hreused, child, hchild, rfl⟩ := hdelta
    rw [countP_of_selected hreused, childBaseBytes_eq_ok hchild]
    rw [bodyBytes, show record.header.name = record.name from rfl] at hcanon
    omega

theorem applyCreateSymlink_kept {state state' : VfsState} (h : Sound state)
    {record : CreateSymlinkRecord} (happly : applyCreateSymlink state record = .ok () state')
    {delta : Int} (hdelta : projectedBaseDelta state (.createSymlink record) = .ok delta) :
    Kept state state' delta := by
  obtain ⟨parent, hc, hcount, htarget, rfl⟩ := (applyCreateSymlink_eq_ok h).mp happly
  have hbody : NewBody state (.symlink record.target) :=
    ⟨rfl, List.nodup_nil, fun target ht => by cases ht; exact htarget, nofun⟩
  have hcanon := hc.canonical h hbody.leaf state.allocator
  refine ⟨hc.sound h hcount hbody (h.alloc.toAllocated.congr fun i e => by simp) h.alloc.total
    (.refl _), ?_⟩
  simp only [projectedBaseDelta, bind_eq_ok, pure_eq_ok] at hdelta
  obtain ⟨target, ht, child, hchild, rfl⟩ := hdelta
  rw [childBaseBytes_eq_ok hchild, encodedUtf8Length_eq_ok ht]
  rw [bodyBytes, show record.header.name = record.name from rfl] at hcanon
  omega

theorem createsDirectories_kept {state state' : VfsState} (h : Sound state)
    {entries : List CreateDirectoryChoice} (hsize : state.inodes.size + entries.length ≤ maxInodes)
    (hc : CreatesDirectories state entries state') :
    Sound state' ∧ canonicalBaseBytes state' = canonicalBaseBytes state +
      (entries.map fun e => directoryInodeFixedBytes + entryBytes e.name).sum := by
  induction entries generalizing state with
  | nil =>
    rw [show state' = state from hc]
    exact ⟨h, rfl⟩
  | cons entry rest ih =>
    obtain ⟨parent, hcreate, hrest⟩ := hc
    rw [List.length_cons] at hsize
    have hstep := hcreate.sound_directory h (by omega)
    have hcanon := hcreate.canonical h (newBody_directory state).leaf state.allocator
    obtain ⟨hsound, hbytes⟩ := ih hstep (by rw [hcreate.size_directory h]; omega) hrest
    refine ⟨hsound, ?_⟩
    rw [hbytes, List.map_cons, List.sum_cons]
    simp only [bodyBytes, OrdMap.sum_empty] at hcanon
    rw [createdDirectory]
    omega

theorem projectedBaseDelta_createDirectories {state : VfsState}
    {entries : List CreateDirectoryChoice} {delta : Int}
    (h : projectedBaseDelta state (.createDirectories entries) = .ok delta) :
    delta = (entries.map fun e => directoryInodeFixedBytes + entryBytes e.name).sum := by
  have key : ∀ (acc out : Int), foldChecked (fun (bytes : Int) (entry : CreateDirectoryChoice) => do
        let child ← childBaseBytes entry.name
        return bytes + directoryInodeFixedBytes + child) acc entries = .ok out →
      out = acc + (entries.map fun e => directoryInodeFixedBytes + entryBytes e.name).sum := by
    clear h
    induction entries with
    | nil => simp [eq_comm]
    | cons e es ih =>
      intro acc out ho
      simp only [foldChecked_cons, bind_eq_ok, pure_eq_ok] at ho
      obtain ⟨_, ⟨b, hb, rfl⟩, ho⟩ := ho
      rw [ih _ _ ho, childBaseBytes_eq_ok hb, List.map_cons, List.sum_cons]
      omega
  simpa using key 0 delta h

theorem applyCreateDirectories_kept {state state' : VfsState} (h : Sound state)
    {entries : List CreateDirectoryChoice}
    (happly : applyCreateDirectories state entries = .ok () state') {delta : Int}
    (hdelta : projectedBaseDelta state (.createDirectories entries) = .ok delta) :
    Kept state state' delta := by
  obtain ⟨-, hsize, hc⟩ := (applyCreateDirectories_eq_ok h).mp happly
  obtain ⟨hsound, hbytes⟩ := createsDirectories_kept h hsize hc
  refine ⟨hsound, ?_⟩
  rw [hbytes, projectedBaseDelta_createDirectories hdelta]
  push_cast
  rfl

/-! ### Removing -/

namespace Removable

variable {state : VfsState} {record : RemoveRecord} {parent inode : Inode}
  (hr : Removable state record parent inode)
include hr

theorem unlinkable (hleaf : ∀ n, inode.body.children.get? n = none) :
    Unlinkable state record.parentId parent record.name inode.id inode :=
  ⟨hr.owner, hr.entry, hr.found, hleaf⟩

/-- The size projection looks at the same inode as the reducer. -/
theorem inode_unique {parent' inode' : Inode} {children : OrdMap JsString Nat}
    (hp : state.inodes.get? record.parentId = some parent' ∧ parent'.body = .directory children)
    (hfound : children.get? record.name = some inode'.id ∧
      state.inodes.get? inode'.id = some inode') : inode' = inode := by
  have hparent := hr.owner
  rw [hp.1] at hparent
  cases hparent
  have hentry := hr.entry
  rw [hp.2, InodeBody.children_directory, hfound.1] at hentry
  have hi := hfound.2
  rw [Option.some.inj hentry, hr.found] at hi
  exact (Option.some.inj hi).symm

theorem sound (h : Sound state) (hleaf : ∀ n, inode.body.children.get? n = none) :
    Sound (removed state record inode
      (inode.body.extents.foldl releaseExtent state.allocator)) := by
  obtain ⟨hbooks, -⟩ := h.alloc.toAllocated.release_all
    (fun e he => (⟨inode, hr.found, he⟩ : Owns state inode.id e))
    (h.alloc.extents_nodup _ _ hr.found)
  refine h.unlink (hr.unlinkable hleaf) hr.mtime hr.ctime hbooks ?_
    (Allocated.tags_release_all _ _)
  rw [(foldl_releaseExtent _ _).2]
  exact h.alloc.total

theorem canonical (h : Sound state) (hleaf : ∀ n, inode.body.children.get? n = none) :
    canonicalBaseBytes (removed state record inode
        (inode.body.extents.foldl releaseExtent state.allocator)) +
        entryBytes record.name + bodyBytes inode.body =
      canonicalBaseBytes state + inode.body.extents.length * 16 := by
  obtain ⟨-, hbytes⟩ := h.alloc.toAllocated.release_all
    (fun e he => (⟨inode, hr.found, he⟩ : Owns state inode.id e))
    (h.alloc.extents_nodup _ _ hr.found)
  have hb := (hr.unlinkable hleaf).bytes record.parentMtimeMs record.parentCtimeMs
  rw [canonicalBaseBytes_eq, canonicalBaseBytes_eq]
  simp only [inodesBytes, removed] at hb ⊢
  omega

end Removable

theorem applyRemoveFile_kept {state state' : VfsState} (h : Sound state)
    {record : RemoveRecord} (happly : applyRemoveFile state record = .ok () state')
    {delta : Int} (hdelta : projectedBaseDelta state (.removeFile record) = .ok delta) :
    Kept state state' delta := by
  obtain ⟨parent, inode, hr, hdir, rfl⟩ := (applyRemoveFile_eq_ok h).mp happly
  have hleaf : ∀ n, inode.body.children.get? n = none := fun n => by
    rw [InodeBody.children_of_not_directory hdir]
    rfl
  have hcanon := hr.canonical h hleaf
  refine ⟨hr.sound h hleaf, ?_⟩
  simp only [projectedBaseDelta, bind_eq_ok, Prod.exists, directoryById_eq_ok, orThrow_eq_ok,
    Option.filter_eq_some_iff, entry_lookup h, pure_eq_ok] at hdelta
  obtain ⟨_, children, hparent, inode', ⟨hfound, -⟩, bytes, hbytes, child, hchild, rfl⟩ := hdelta
  obtain rfl := hr.inode_unique hparent hfound
  rw [inodeBaseBytes_eq_ok hbytes, childBaseBytes_eq_ok hchild]
  omega

theorem applyRemoveDirectory_kept {state state' : VfsState} (h : Sound state)
    {record : RemoveRecord} (happly : applyRemoveDirectory state record = .ok () state')
    {delta : Int} (hdelta : projectedBaseDelta state (.removeDirectory record) = .ok delta) :
    Kept state state' delta := by
  obtain ⟨parent, inode, hr, hdir, hempty, rfl⟩ := (applyRemoveDirectory_eq_ok h).mp happly
  have hleaf := OrdMap.get?_of_size_eq_zero hempty
  have hext : inode.body.extents = [] := by
    rw [InodeBody.eq_directory hdir]
    rfl
  have hsound := hr.sound h hleaf
  have hcanon := hr.canonical h hleaf
  rw [hext] at hsound hcanon
  refine ⟨hsound, ?_⟩
  simp only [projectedBaseDelta, bind_eq_ok, Prod.exists, directoryById_eq_ok, orThrow_eq_ok,
    Option.filter_eq_some_iff, entry_lookup h, pure_eq_ok] at hdelta
  obtain ⟨_, children, hparent, inode', ⟨hfound, -⟩, bytes, hbytes, child, hchild, rfl⟩ := hdelta
  obtain rfl := hr.inode_unique hparent hfound
  rw [inodeBaseBytes_eq_ok hbytes, childBaseBytes_eq_ok hchild]
  simp only [List.foldl_nil, List.length_nil] at hcanon
  omega

/-! ### Resizing and reserving -/

namespace Resizable

variable {state : VfsState} {record : ResizeFileRecord} {inode : Inode} {size : Nat}
  {extents : List Nat} (hr : Resizable state record inode size extents)
include hr

theorem editable : Editable state record.inodeId (resized state record extents) inode :=
  ⟨hr.found, by rw [hr.file]; rfl, by rw [hr.file]; rfl⟩

theorem owns_iff {e : Nat} : Owns state record.inodeId e ↔ e ∈ extents := by
  rw [Owns]
  simp [hr.found, hr.file]

/-- The file's extents, cut to the new size, and the new ones do not overlap. -/
theorem nodup (h : Sound state) :
    (extents.take (extentCount record.size state.extentSize) ++
      expandRuns record.allocated).Nodup := by
  have hnd := h.alloc.extents_nodup _ _ hr.found
  rw [hr.file] at hnd
  refine List.nodup_append.mpr
    ⟨List.Nodup.sublist (List.take_sublist _ _) hnd, hr.assign.nodup, ?_⟩
  rintro e he _ ha rfl
  have hfree := h.alloc.toAllocated.free_of_takes hr.assign.takes e ha
  rw [(h.alloc.owned_iff e _).mpr (hr.owns_iff.mpr (List.mem_of_mem_take he))] at hfree
  cases hfree

theorem length :
    (extents.take (extentCount record.size state.extentSize) ++
      expandRuns record.allocated).length = extentCount record.size state.extentSize := by
  rw [List.length_append, List.length_take, hr.assign.length]
  omega

theorem inodeOk (h : Sound state) :
    InodeOk state record.inodeId (resized state record extents inode) := by
  have hok := h.inodes _ _ hr.found
  exact ⟨hok.id_eq, hok.lt_next, hok.mode, hok.atime, hr.mtime, hr.ctime, nofun, nofun,
    fun n es he => by
      cases he
      exact ⟨hr.size_le, hr.length, by rw [hr.length]; exact hr.count_le⟩⟩

theorem books (h : Sound state) :
    Allocated (fun i e => if i = record.inodeId then
        e ∈ (resized state record extents inode).body.extents else Owns state i e)
      (resizedAllocator state record extents) ∧
    unownedBytes (resizedAllocator state record extents) +
        (expandRuns record.allocated).countP (· < state.allocator.totalExtents) * 8 =
      unownedBytes state.allocator +
        (extents.length - extentCount record.size state.extentSize) * 16 := by
  have hnd := h.alloc.extents_nodup _ _ hr.found
  rw [hr.file, InodeBody.extents_file] at hnd
  have hown := h.alloc.toAllocated.own_all hr.assign.takes record.inodeId
  obtain ⟨hbooks, hbytes⟩ := hown.release_all
    (fun e he => .inl (hr.owns_iff.mpr (List.mem_of_mem_drop he)))
    (List.Nodup.sublist (List.drop_sublist (extentCount record.size state.extentSize) _) hnd)
  have hbytes' := Allocated.bytes_own_all hr.assign.takes hr.assign.nodup record.inodeId
  rw [List.length_drop] at hbytes
  refine ⟨hbooks.congr fun i e => ?_, by rw [resizedAllocator]; omega⟩
  by_cases hi : i = record.inodeId
  · -- of its old extents the file keeps those before the cut
    have hsplit : e ∈ extents ∧ e ∉ extents.drop (extentCount record.size state.extentSize) ↔
        e ∈ extents.take (extentCount record.size state.extentSize) := by
      have hcut := List.take_append_drop (extentCount record.size state.extentSize) extents
      constructor
      · rintro ⟨he, hne⟩
        rw [← hcut] at he
        exact (List.mem_append.mp he).resolve_right hne
      · intro he
        refine ⟨List.mem_of_mem_take he, fun hd => ?_⟩
        rw [← hcut] at hnd
        exact (List.nodup_append.mp hnd).2.2 e he e hd rfl
    have hnew : e ∈ expandRuns record.allocated →
        e ∉ extents.drop (extentCount record.size state.extentSize) := fun ha hd => by
      have hfree := h.alloc.toAllocated.free_of_takes hr.assign.takes e ha
      rw [(h.alloc.owned_iff e _).mpr (hr.owns_iff.mpr (List.mem_of_mem_drop hd))] at hfree
      cases hfree
    rw [hi, hr.owns_iff, if_pos rfl, resized, InodeBody.extents_file, List.mem_append, ← hsplit]
    tauto
  · rw [if_neg hi]
    refine ⟨fun ho => ho.1.resolve_right fun ho => hi ho.1, fun ho => ⟨.inl ho, fun hd => ?_⟩⟩
    have h1 := (h.alloc.owned_iff e _).mpr (hr.owns_iff.mpr (List.mem_of_mem_drop hd))
    rw [(h.alloc.owned_iff e i).mpr ho] at h1
    exact hi (Option.some.inj h1)

end Resizable

theorem applyResizeFile_kept {state state' : VfsState} (h : Sound state)
    {record : ResizeFileRecord} (happly : applyResizeFile state record = .ok () state')
    {delta : Int} (hdelta : projectedBaseDelta state (.resizeFile record) = .ok delta) :
    Kept state state' delta := by
  obtain ⟨inode, size, extents, hr, rfl⟩ := (applyResizeFile_eq_ok h).mp happly
  obtain ⟨hbooks, hbytes⟩ := hr.books h
  refine ⟨h.edit hr.editable (hr.inodeOk h) (hr.nodup h) hbooks ?_ ?_, ?_⟩
  · rw [resizedAllocator, (foldl_releaseExtent _ _).2, (foldl_ownExtent _ _ _).2.1]
    exact hr.assign.total
  · exact (Allocated.tags_own_all _ _ _).trans (Allocated.tags_release_all _ _)
  · have hb := inodesBytes_modifyInode (f := resized state record extents) hr.found
    have hlen := hr.length
    simp only [projectedBaseDelta, bind_eq_ok, Prod.exists, fileById_eq_ok,
      extentCountForSize_eq_ok h.extentSize.pos, pure_eq_ok] at hdelta
    obtain ⟨inode', size', extents', ⟨hi, hf⟩, _, ⟨-, rfl, -⟩, reused, hreused, rfl⟩ := hdelta
    rw [hr.found] at hi
    cases hi
    rw [hr.file] at hf
    cases hf
    rw [countP_of_selected hreused, canonicalBaseBytes_eq, canonicalBaseBytes_eq]
    rw [hr.file] at hb
    simp only [inodesBytes, bodyBytes, resized] at hb ⊢
    omega

/-- An allocator whose books account for the same files. -/
theorem Sound.reallocate {state : VfsState} (h : Sound state) {a : AllocatorState}
    (hbooks : Allocated (Owns state) a) (htotal : a.totalExtents ≤ maxTotalExtents)
    (htags : TagsFrom state.allocator a) : Sound { state with allocator := a } :=
  h.of_frame ⟨rfl, rfl, rfl, rfl, rfl⟩ h.next_le h.inodes_le
    (fun id i hi => (h.inodes id i hi).mono (Nat.le_refl _) rfl) (h.tree.congr rfl rfl rfl) hbooks
    h.alloc.extents_nodup htotal htags

theorem applyReserveQuarantine_kept {state state' : VfsState} (h : Sound state)
    {extents : List ExtentRun} (happly : applyReserveQuarantine state extents = .ok () state')
    {delta : Int} (hdelta : projectedBaseDelta state (.reserveQuarantine extents) = .ok delta) :
    Kept state state' delta := by
  obtain ⟨-, hassign, rfl⟩ := (applyReserveQuarantine_eq_ok h).mp happly
  have hbytes := h.alloc.toAllocated.bytes_reserve_all hassign.takes hassign.nodup
  refine ⟨h.reallocate (h.alloc.toAllocated.reserve_all hassign.takes hassign.nodup).1 ?_
    (Allocated.tags_reserve_all _ _), ?_⟩
  · rw [(foldl_reserveExtent _ _).2]
    exact hassign.total
  · simp only [projectedBaseDelta, bind_eq_ok, expandExtentRuns_eq_ok, pure_eq_ok] at hdelta
    obtain ⟨_, ⟨-, rfl, -⟩, reused, hreused, rfl⟩ := hdelta
    rw [countP_of_selected hreused, canonicalBaseBytes_eq, canonicalBaseBytes_eq]
    simp only [inodesBytes]
    omega

/-! ### Renaming -/

theorem applyRename_kept {state state' : VfsState} (h : Sound state) {record : RenameRecord}
    (happly : applyRename state record = .ok () state') {delta : Int}
    (hdelta : projectedBaseDelta state (.rename record) = .ok delta) :
    Kept state state' delta := by
  obtain ⟨source, destination, destinationParent, hr, rfl⟩ := (applyRename_eq_ok h).mp happly
  have hm := hr.movable h
  obtain ⟨hsound, hbytes⟩ := h.move hm hr.timestamp
  have hb := hm.bytes record.timestampMs
  refine ⟨hsound, ?_⟩
  simp only [projectedBaseDelta, bind_eq_ok, Prod.exists, directoryById_eq_ok, orThrow_eq_ok,
    pure_eq_ok] at hdelta
  obtain ⟨_, schildren, -, dparent, dchildren, ⟨hd, hdb⟩, sourceBytes, hs, d, hdest, _, -, rfl⟩ :=
    hdelta
  rw [hr.owner] at hd
  cases hd
  -- the projection looks at the inode that the reducer replaces
  have hlookup : (dchildren.get? record.destinationName).bind state.inodes.get? = destination := by
    have htarget := (destinationInode_eq_ok h).mp hr.target
    rw [hdb, InodeBody.children_directory] at htarget
    rw [htarget.1]
    cases destination with
    | none => rfl
    | some d => exact htarget.2 d rfl
  rw [hlookup] at hdest
  rw [canonicalBaseBytes_eq, canonicalBaseBytes_eq, childBaseBytes_eq_ok hs]
  cases destination with
  | none =>
    simp only [destinationBaseDelta, bind_eq_ok, pure_eq_ok] at hdest
    obtain ⟨bytes, hbytes', rfl⟩ := hdest
    rw [childBaseBytes_eq_ok hbytes']
    simp only [Option.elim_none, List.length_nil] at hb hbytes
    omega
  | some destination =>
    simp only [destinationBaseDelta, bind_eq_ok, pure_eq_ok] at hdest
    obtain ⟨bytes, hbytes', rfl⟩ := hdest
    rw [inodeBaseBytes_eq_ok hbytes']
    simp only [Option.elim_some] at hb hbytes
    omega

/-! ### The reducer -/

theorem applyRecord_kept {state state' : VfsState} (h : Sound state) {record : TxnRecord}
    (happly : applyRecord state record = .ok () state') {delta : Int}
    (hdelta : projectedBaseDelta state record = .ok delta) : Kept state state' delta := by
  cases record with
  | createDirectories entries => exact applyCreateDirectories_kept h happly hdelta
  | createFile record => exact applyCreateFile_kept h happly hdelta
  | removeFile record => exact applyRemoveFile_kept h happly hdelta
  | changeMode inodeId mode ctimeMs =>
    cases hdelta
    exact applyChangeMode_kept h happly
  | changeTimes inodeId atimeMs mtimeMs ctimeMs =>
    cases hdelta
    exact applyChangeTimes_kept h happly
  | resizeFile record => exact applyResizeFile_kept h happly hdelta
  | removeDirectory record => exact applyRemoveDirectory_kept h happly hdelta
  | rename record => exact applyRename_kept h happly hdelta
  | createSymlink record => exact applyCreateSymlink_kept h happly hdelta
  | reserveQuarantine extents => exact applyReserveQuarantine_kept h happly hdelta

end Opfs
