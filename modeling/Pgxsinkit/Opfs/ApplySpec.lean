/-
One specification lemma for each reducer.

`applyCreateFile_eq_ok` and its siblings say, for a sound state, exactly when the
reducer accepts its record and what state it returns.  The conditions are stated on
the state and the record alone, so the same lemma serves the planners (their records
are accepted) and the preservation of the invariant.
-/
import Pgxsinkit.Opfs.TreeSteps

namespace Opfs

open Checked RootedTree

/-! ### Creating -/

def CreateFileRecord.header (record : CreateFileRecord) : CreateDirectoryChoice :=
  ⟨record.parentId, record.name, record.inodeId, record.mode, record.atimeMs, record.mtimeMs,
    record.ctimeMs⟩

def CreateSymlinkRecord.header (record : CreateSymlinkRecord) : CreateDirectoryChoice :=
  ⟨record.parentId, record.name, record.inodeId, record.mode, record.atimeMs, record.mtimeMs,
    record.ctimeMs⟩

/-- What every creating record checks of a new entry. -/
structure Creatable (state : VfsState) (entry : CreateDirectoryChoice) (parent : Inode) :
    Prop where
  name : ValidComponent entry.name
  found : state.inodes.get? entry.parentId = some parent
  dir : parent.body.isDirectory = true
  free : parent.body.children.get? entry.name = none
  id_eq : entry.inodeId = state.nextInodeId
  next_le : entry.inodeId + 1 ≤ maxU64
  mode : entry.mode ≤ maxU32
  atime : entry.atimeMs ≤ maxU64
  mtime : entry.mtimeMs ≤ maxU64
  ctime : entry.ctimeMs ≤ maxU64

def newInode (entry : CreateDirectoryChoice) (body : InodeBody) : Inode :=
  ⟨entry.inodeId, entry.mode, entry.atimeMs, entry.mtimeMs, entry.ctimeMs, body⟩

/-- The state with the new inode linked, under the given allocator. -/
def created (state : VfsState) (entry : CreateDirectoryChoice) (parent : Inode)
    (body : InodeBody) (a : AllocatorState) : VfsState :=
  { linkNewInode state entry.parentId parent entry.name (newInode entry body)
      (entry.inodeId + 1) with allocator := a }

/-- The bodies a new inode may have. -/
structure NewBody (state : VfsState) (body : InodeBody) : Prop where
  leaf : body.children = .empty
  nodup : body.extents.Nodup
  target : ∀ target, body = .symlink target → ValidTarget target
  file : ∀ size extents, body = .file size extents →
    size ≤ maxU64 ∧ extents.length = extentCount size state.extentSize ∧
      extents.length ≤ maxExtentsPerInode

theorem newBody_directory (state : VfsState) : NewBody state (.directory .empty) :=
  ⟨rfl, List.nodup_nil, nofun, nofun⟩

namespace Creatable

variable {state : VfsState} {entry : CreateDirectoryChoice} {parent : Inode}
  (hc : Creatable state entry parent)
include hc

theorem linkable {body : InodeBody} (hleaf : body.children = .empty) :
    Linkable state entry.parentId parent entry.name (newInode entry body) :=
  ⟨hc.found, hc.dir, hc.free, hc.name, hc.id_eq, hleaf⟩

theorem parent_ne (h : Sound state) : entry.parentId ≠ entry.inodeId := by
  have hl : Linkable state entry.parentId parent entry.name (newInode entry (.directory .empty)) :=
    hc.linkable rfl
  exact hl.owner_ne h

theorem sound (h : Sound state) (hsize : state.inodes.size < maxInodes) {body : InodeBody}
    (hbody : NewBody state body) {a : AllocatorState}
    (hbooks : Allocated (fun i e => Owns state i e ∨ i = entry.inodeId ∧ e ∈ body.extents) a)
    (htotal : a.totalExtents ≤ maxTotalExtents) (htags : TagsFrom state.allocator a) :
    Sound (created state entry parent body a) := by
  refine h.link (hc.linkable hbody.leaf) (by rw [hc.id_eq]) hc.next_le hsize ?_ hbody.nodup hbooks
    htotal htags
  refine ⟨rfl, Nat.lt_succ_self _, hc.mode, hc.atime, hc.mtime, hc.ctime, fun n c hn => ?_,
    hbody.target, hbody.file⟩
  rw [newInode, hbody.leaf] at hn
  cases hn

/-- The base after linking a new inode. -/
theorem canonical (h : Sound state) {body : InodeBody} (hleaf : body.children = .empty)
    (a : AllocatorState) :
    canonicalBaseBytes (created state entry parent body a) + unownedBytes state.allocator =
      canonicalBaseBytes state + entryBytes entry.name + bodyBytes body + unownedBytes a := by
  have hb := (hc.linkable hleaf).bytes h (entry.inodeId + 1)
  rw [canonicalBaseBytes_eq, canonicalBaseBytes_eq]
  simp only [inodesBytes, created, newInode] at hb ⊢
  omega

end Creatable

theorem linkNewInode_with_allocator (state : VfsState) (a : AllocatorState) (p : Nat)
    (parent : Inode) (name : JsString) (inode : Inode) (next : Nat) :
    linkNewInode { state with allocator := a } p parent name inode next =
      { linkNewInode state p parent name inode next with allocator := a } := by
  unfold linkNewInode modifyInode
  cases state.inodes.get? p <;> rfl

/-- A directory is found iff it is an inode with entries. -/
theorem isDirectory_iff {inode : Inode} :
    inode.body.isDirectory = true ↔ inode.body = .directory inode.body.children :=
  ⟨InodeBody.eq_directory, fun h => by rw [h]; rfl⟩

/-- The extents of a record that its allocator can hand out. -/
structure Assignable (state : VfsState) (runs : List ExtentRun) (count : Nat) : Prop where
  runs_ok : RunsOk runs
  le : count ≤ maxExtentsPerInode
  length : (expandRuns runs).length = count
  nodup : (expandRuns runs).Nodup
  takes : Takes state.allocator (expandRuns runs)
  total : ((expandRuns runs).foldl takeExtent state.allocator).totalExtents ≤ maxTotalExtents

theorem validateExtentAssignment_iff {state : VfsState} (h : Sound state)
    {runs : List ExtentRun} {count : Nat} {extents : List Nat} :
    validateExtentAssignment state runs count = .ok extents ↔
      Assignable state runs count ∧ extents = expandRuns runs := by
  rw [validateExtentAssignment_eq_ok h.alloc.toAllocated]
  constructor
  · rintro ⟨⟨hr, rfl, hle⟩, rfl, hnd, ht, htot⟩
    exact ⟨⟨hr, hle, rfl, hnd, ht, htot⟩, rfl⟩
  · rintro ⟨⟨hr, hle, rfl, hnd, ht, htot⟩, rfl⟩
    exact ⟨⟨hr, rfl, hle⟩, rfl, hnd, ht, htot⟩

theorem applyCreateFile_eq_ok {state state' : VfsState} (h : Sound state)
    {record : CreateFileRecord} :
    applyCreateFile state record = .ok () state' ↔
      ∃ parent, Creatable state record.header parent ∧ state.inodes.size < maxInodes ∧
        record.size ≤ maxU64 ∧
        Assignable state record.extents (extentCount record.size state.extentSize) ∧
        state' = created state record.header parent
          (.file record.size (expandRuns record.extents))
          ((expandRuns record.extents).foldl (ownExtent record.inodeId) state.allocator) := by
  simp only [applyCreateFile, checkedThen_eq_ok, bind_eq_ok, Prod.exists, directoryById_eq_ok,
    validatePathComponent_eq_ok, throwIf_eq_ok, not_or, not_not, exists_const,
    advanceNextInodeId_eq_ok, validateMode_nat, validateTimestamp_nat, checkedU64_nat,
    extentCountForSize_eq_ok h.extentSize.pos, validateExtentAssignment_iff h, pure_eq_ok,
    Prod.mk.injEq, Bool.not_eq_true, OrdMap.has_eq_false, linkNewInode_with_allocator]
  constructor
  · rintro ⟨parent, next, size, extents, ⟨_, ⟨hname, -⟩, _, children, ⟨hp, hpb⟩, hfree,
      ⟨hid, -⟩, _, ⟨rfl, hle⟩, _, ⟨rfl, hmode⟩, _, ⟨rfl, ha⟩, _, ⟨rfl, hm⟩, _, ⟨rfl, hc⟩, _,
      ⟨rfl, hsize⟩, _, ⟨-, rfl, hmax⟩, _, ⟨hassign, rfl⟩, hcount, rfl, rfl, rfl, rfl⟩, rfl⟩
    exact ⟨_, ⟨hname, hp, by rw [hpb]; rfl, by rw [hpb]; exact hfree, hid, hle, hmode, ha, hm,
      hc⟩, by omega, hsize, hassign, rfl⟩
  · rintro ⟨parent, ⟨hname, hp, hd, hfree, hid, hle, hmode, ha, hm, hc⟩, hcount, hsize, hassign,
      rfl⟩
    have hfresh : state.inodes.get? record.inodeId = none := by
      have hl : Linkable state record.parentId parent record.name
        (newInode record.header (.directory .empty)) := ⟨hp, hd, hfree, hname, hid, rfl⟩
      exact hl.fresh h
    exact ⟨parent, _, _, _, ⟨_, ⟨hname, rfl⟩, parent, _, ⟨hp, InodeBody.eq_directory hd⟩, hfree,
      ⟨hid, hfresh⟩, _, ⟨rfl, hle⟩, _, ⟨rfl, hmode⟩, _, ⟨rfl, ha⟩, _, ⟨rfl, hm⟩, _, ⟨rfl, hc⟩, _,
      ⟨rfl, hsize⟩, _, ⟨hsize, rfl, hassign.le⟩, _, ⟨hassign, rfl⟩, Nat.not_le.mpr hcount, rfl,
      rfl, rfl, rfl⟩, rfl⟩

theorem applyCreateSymlink_eq_ok {state state' : VfsState} (h : Sound state)
    {record : CreateSymlinkRecord} :
    applyCreateSymlink state record = .ok () state' ↔
      ∃ parent, Creatable state record.header parent ∧ state.inodes.size < maxInodes ∧
        ValidTarget record.target ∧
        state' = created state record.header parent (.symlink record.target)
          state.allocator := by
  simp only [applyCreateSymlink, checkedThen_eq_ok, bind_eq_ok, Prod.exists, directoryById_eq_ok,
    validatePathComponent_eq_ok, throwIf_eq_ok, not_or, not_not, exists_const,
    advanceNextInodeId_eq_ok, validateMode_nat, validateTimestamp_nat, pure_eq_ok,
    Prod.mk.injEq, Bool.not_eq_true, OrdMap.has_eq_false]
  have halloc : ∀ (p : Nat) (parent : Inode) (name : JsString) (inode : Inode) (next : Nat),
      { linkNewInode state p parent name inode next with allocator := state.allocator } =
        linkNewInode state p parent name inode next := by
    intro p parent name inode next
    rw [← linkNewInode_with_allocator]
  constructor
  · rintro ⟨parent, next, ⟨_, ⟨hname, -⟩, _, children, ⟨hp, hpb⟩, hfree, ⟨hid, -⟩, _, ⟨rfl, hle⟩,
      _, ⟨rfl, hmode⟩, _, ⟨rfl, ha⟩, _, ⟨rfl, hm⟩, _, ⟨rfl, hc⟩, _, htarget, hcount, rfl, rfl⟩,
      rfl⟩
    exact ⟨_, ⟨hname, hp, by rw [hpb]; rfl, by rw [hpb]; exact hfree, hid, hle, hmode, ha, hm,
      hc⟩, by omega, ⟨_, htarget⟩, (halloc _ _ _ _ _).symm⟩
  · rintro ⟨parent, ⟨hname, hp, hd, hfree, hid, hle, hmode, ha, hm, hc⟩, hcount, ⟨n, htarget⟩,
      rfl⟩
    have hfresh : state.inodes.get? record.inodeId = none := by
      have hl : Linkable state record.parentId parent record.name
        (newInode record.header (.directory .empty)) := ⟨hp, hd, hfree, hname, hid, rfl⟩
      exact hl.fresh h
    exact ⟨parent, _, ⟨_, ⟨hname, rfl⟩, parent, _, ⟨hp, InodeBody.eq_directory hd⟩, hfree,
      ⟨hid, hfresh⟩, _, ⟨rfl, hle⟩, _, ⟨rfl, hmode⟩, _, ⟨rfl, ha⟩, _, ⟨rfl, hm⟩, _, ⟨rfl, hc⟩, n,
      htarget, Nat.not_le.mpr hcount, rfl, rfl⟩, (halloc _ _ _ _ _).symm⟩

/-! ### Creating several directories -/

/-- The state with a new empty directory. -/
def createdDirectory (state : VfsState) (entry : CreateDirectoryChoice) (parent : Inode) :
    VfsState :=
  created state entry parent (.directory .empty) state.allocator

theorem createdDirectory_get? (state : VfsState) (entry : CreateDirectoryChoice) (parent : Inode)
    (k : Nat) : (createdDirectory state entry parent).inodes.get? k =
      if k = entry.inodeId then some (newInode entry (.directory .empty))
      else (state.inodes.get? k).map fun i =>
        if k = entry.parentId then i.mapChildren (·.set entry.name entry.inodeId) else i :=
  linkNewInode_get? state entry.parentId parent entry.name (newInode entry (.directory .empty))
    (entry.inodeId + 1) k

/-- The entries are created one after the other, each in the state the earlier ones left. -/
def CreatesDirectories : VfsState → List CreateDirectoryChoice → VfsState → Prop
  | state, [], state' => state' = state
  | state, entry :: rest, state' => ∃ parent, Creatable state entry parent ∧
      CreatesDirectories (createdDirectory state entry parent) rest state'

theorem Creatable.sound_directory {state : VfsState} {entry : CreateDirectoryChoice}
    {parent : Inode} (hc : Creatable state entry parent) (h : Sound state)
    (hsize : state.inodes.size < maxInodes) : Sound (createdDirectory state entry parent) :=
  hc.sound h hsize (newBody_directory state)
    (h.alloc.toAllocated.congr fun i e => by simp) h.alloc.total (.refl _)

theorem Creatable.size_directory {state : VfsState} {entry : CreateDirectoryChoice}
    {parent : Inode} (hc : Creatable state entry parent) (h : Sound state) :
    (createdDirectory state entry parent).inodes.size = state.inodes.size + 1 :=
  (hc.linkable rfl).size h (entry.inodeId + 1)

/-- The staged copies show the directories as the entries created so far leave them. -/
def Staged (state : VfsState) (staged : OrdMap Nat (OrdMap JsString Nat)) (current : VfsState) :
    Prop :=
  ∀ id children, stagedDirectory state staged id = .ok children ↔
    ∃ inode, current.inodes.get? id = some inode ∧ inode.body = .directory children

theorem staged_empty (state : VfsState) : Staged state .empty state := fun id children => by
  simp only [stagedDirectory, OrdMap.get?_empty, bind_eq_ok, pure_eq_ok, Prod.exists,
    directoryById_eq_ok]
  constructor
  · rintro ⟨inode, _, ⟨hi, hb⟩, rfl⟩
    exact ⟨inode, hi, hb⟩
  · rintro ⟨inode, hi, hb⟩
    exact ⟨inode, _, ⟨hi, hb⟩, rfl⟩

theorem Staged.step {state current : VfsState} {staged : OrdMap Nat (OrdMap JsString Nat)}
    (hs : Staged state staged current) (h : Sound current) {entry : CreateDirectoryChoice}
    {parent : Inode} (hc : Creatable current entry parent) {children : OrdMap JsString Nat}
    (hchildren : parent.body = .directory children) :
    Staged state ((staged.set entry.parentId (children.set entry.name entry.inodeId)).set
      entry.inodeId .empty) (createdDirectory current entry parent) := by
  have hne := hc.parent_ne h
  intro id c
  rw [createdDirectory_get?]
  unfold stagedDirectory
  by_cases hid : id = entry.inodeId
  · simp [hid, newInode]
  · rw [OrdMap.get?_set_ne _ _ hid, if_neg hid]
    by_cases hp : id = entry.parentId
    · rw [hp, OrdMap.get?_set_self, hc.found]
      simp only [Except.ok.injEq, Option.map_some, if_true, Option.some.injEq, exists_eq_left',
        Inode.mapChildren_of_directory _ _ hchildren, InodeBody.directory.injEq]
    · rw [OrdMap.get?_set_ne _ _ hp]
      simp only [hp, if_false, Option.map_id']
      exact hs id c

/-- The checks of the record are those of creating its entries one after the other. -/
theorem validateCreateLoop_eq_ok {state current : VfsState}
    {staged : OrdMap Nat (OrdMap JsString Nat)} {entries : List CreateDirectoryChoice}
    (hs : Staged state staged current) (h : Sound current)
    (hsize : current.inodes.size + entries.length ≤ maxInodes) {u : Unit} :
    validateCreateLoop state staged current.nextInodeId entries = .ok u ↔
      ∃ state', CreatesDirectories current entries state' := by
  induction entries generalizing staged current with
  | nil => simp [validateCreateLoop, CreatesDirectories]
  | cons entry rest ih =>
    rw [List.length_cons] at hsize
    have hnext : ∀ parent, Creatable current entry parent →
        (createdDirectory current entry parent).nextInodeId = current.nextInodeId + 1 :=
      fun parent hc => by rw [← hc.id_eq]; rfl
    have hstep : ∀ parent children, parent.body = .directory children →
        Creatable current entry parent →
        (validateCreateLoop state ((staged.set entry.parentId
          (children.set entry.name entry.inodeId)).set entry.inodeId .empty)
          (current.nextInodeId + 1) rest = .ok u ↔
        ∃ state', CreatesDirectories (createdDirectory current entry parent) rest state') := by
      intro parent children hb hc
      rw [← hnext parent hc]
      exact ih (hs.step h hc hb) (hc.sound_directory h (by omega))
        (by rw [hc.size_directory h]; omega)
    simp only [validateCreateLoop, bind_eq_ok, validatePathComponent_eq_ok, validateMode_nat,
      validateTimestamp_nat, throwIf_eq_ok, not_or, not_not, exists_const, Bool.not_eq_true,
      OrdMap.has_eq_false, advanceNextInodeId_eq_ok, hs _ _, CreatesDirectories]
    constructor
    · rintro ⟨_, ⟨hname, -⟩, _, ⟨rfl, hmode⟩, _, ⟨rfl, ha⟩, _, ⟨rfl, hm⟩, _, ⟨rfl, hct⟩, ⟨hid, -⟩,
        children, ⟨parent, hp, hb⟩, hfree, _, ⟨rfl, hle⟩, hrest⟩
      have hc : Creatable current entry parent := ⟨hname, hp, by rw [hb]; rfl,
        by rw [hb]; exact hfree, hid, by omega, hmode, ha, hm, hct⟩
      obtain ⟨state', hst⟩ := (hstep parent children hb hc).mp hrest
      exact ⟨state', parent, hc, hst⟩
    · rintro ⟨state', parent, hc, hst⟩
      have hb := InodeBody.eq_directory hc.dir
      have hle := hc.next_le
      rw [hc.id_eq] at hle
      exact ⟨_, ⟨hc.name, rfl⟩, _, ⟨rfl, hc.mode⟩, _, ⟨rfl, hc.atime⟩, _, ⟨rfl, hc.mtime⟩, _,
        ⟨rfl, hc.ctime⟩, ⟨hc.id_eq, by rw [hc.id_eq]; omega⟩, _, ⟨parent, hc.found, hb⟩, hc.free, _,
        ⟨rfl, hle⟩, (hstep parent _ hb hc).mpr ⟨state', hst⟩⟩

/-- The loop of the reducer creates the entries one after the other. -/
theorem applyCreateLoop_of_creates {state state' : VfsState} {entries : List CreateDirectoryChoice}
    (hc : CreatesDirectories state entries state') :
    applyCreateLoop state entries = .ok () state' := by
  induction entries generalizing state with
  | nil => rw [hc]; rfl
  | cons entry rest ih =>
    obtain ⟨parent, hcreate, hrest⟩ := hc
    have hdir : directoryById state entry.parentId = .ok (parent, parent.body.children) :=
      directoryById_eq_ok.mpr ⟨hcreate.found, InodeBody.eq_directory hcreate.dir⟩
    have hnext : advanceNextInodeId entry.inodeId = .ok (entry.inodeId + 1) :=
      advanceNextInodeId_eq_ok.mpr ⟨rfl, hcreate.next_le⟩
    have hlink : linkNewInode state entry.parentId parent entry.name
        (newInode entry (.directory .empty)) (entry.inodeId + 1) =
        createdDirectory state entry parent := by
      rw [createdDirectory, created, ← linkNewInode_with_allocator]
    simp only [applyCreateLoop, hdir, hnext]
    rw [← ih hrest, ← hlink]
    rfl

theorem applyCreateDirectories_eq_ok {state state' : VfsState} (h : Sound state)
    {entries : List CreateDirectoryChoice} :
    applyCreateDirectories state entries = .ok () state' ↔
      entries ≠ [] ∧ state.inodes.size + entries.length ≤ maxInodes ∧
        CreatesDirectories state entries state' := by
  have hcheck : validateCreateDirectories state entries = .ok () ↔
      entries ≠ [] ∧ state.inodes.size + entries.length ≤ maxInodes ∧
        ∃ s, CreatesDirectories state entries s := by
    simp only [validateCreateDirectories, bind_eq_ok, throwIf_eq_ok, List.length_eq_zero_iff,
      exists_const, Nat.not_lt, gt_iff_lt]
    refine and_congr_right fun _ => ?_
    constructor
    · rintro ⟨_, hloop, hsize⟩
      exact ⟨hsize, (validateCreateLoop_eq_ok (staged_empty state) h hsize).mp hloop⟩
    · rintro ⟨hsize, hs⟩
      exact ⟨(), (validateCreateLoop_eq_ok (staged_empty state) h hsize).mpr hs, hsize⟩
  unfold applyCreateDirectories
  cases hv : validateCreateDirectories state entries with
  | error e =>
    refine ⟨fun happly => (by cases happly), fun hc => ?_⟩
    rw [hcheck.mpr ⟨hc.1, hc.2.1, state', hc.2.2⟩] at hv
    cases hv
  | ok u =>
    obtain ⟨hne, hsize, s, hs⟩ := hcheck.mp hv
    have hloop := applyCreateLoop_of_creates hs
    dsimp only
    constructor
    · intro happly
      rw [hloop] at happly
      cases happly
      exact ⟨hne, hsize, hs⟩
    · rintro ⟨-, -, hc⟩
      exact applyCreateLoop_of_creates hc

/-! ### Removing -/

/-- The books show the files' extents as owned, so the ownership check of a sound state
never fails. -/
theorem checkOwnership_of_sound {state : VfsState} (h : Sound state) {id : Nat}
    {extents : List Nat} (ho : ∀ e ∈ extents, Owns state id e) (message : String) :
    checkOwnership state id extents message = .ok () := by
  rw [checkOwnership, forEach_eq_ok]
  intro e he
  have hid := (h.alloc.owned_iff e id).mpr (ho e he)
  refine ⟨(), throwIf_eq_ok.mpr ?_⟩
  rw [not_or, not_not, Bool.not_eq_true, OrdMap.has_eq_false]
  exact ⟨hid, h.alloc.owned_quarantine e id hid⟩

/-- What a removing record checks of the entry it removes. -/
structure Removable (state : VfsState) (record : RemoveRecord) (parent inode : Inode) :
    Prop where
  name : ValidComponent record.name
  mtime : record.parentMtimeMs ≤ maxU64
  ctime : record.parentCtimeMs ≤ maxU64
  owner : state.inodes.get? record.parentId = some parent
  entry : parent.body.children.get? record.name = some inode.id
  found : state.inodes.get? inode.id = some inode

def removed (state : VfsState) (record : RemoveRecord) (inode : Inode) (a : AllocatorState) :
    VfsState :=
  { unlinkInode state record.parentId record.name inode.id record.parentMtimeMs
      record.parentCtimeMs with allocator := a }

theorem unlinkInode_with_allocator (state : VfsState) (p : Nat) (name : JsString)
    (c m ct : Nat) : { unlinkInode state p name c m ct with allocator := state.allocator } =
      unlinkInode state p name c m ct := by
  unfold unlinkInode modifyInode
  cases state.inodes.get? p <;> rfl

/-- The lookup of a removing record. -/
theorem entry_lookup {state : VfsState} (h : Sound state) {children : OrdMap JsString Nat}
    {name : JsString} {inode : Inode} :
    (children.get? name).bind state.inodes.get? = some inode ↔
      children.get? name = some inode.id ∧ state.inodes.get? inode.id = some inode := by
  rw [Option.bind_eq_some_iff]
  constructor
  · rintro ⟨c, hc, hi⟩
    have hid := (h.inodes c inode hi).id_eq
    subst hid
    exact ⟨hc, hi⟩
  · rintro ⟨hc, hi⟩
    exact ⟨_, hc, hi⟩

theorem applyRemoveFile_eq_ok {state state' : VfsState} (h : Sound state)
    {record : RemoveRecord} :
    applyRemoveFile state record = .ok () state' ↔
      ∃ parent inode, Removable state record parent inode ∧ inode.body.isDirectory = false ∧
        state' = removed state record inode
          (inode.body.extents.foldl releaseExtent state.allocator) := by
  have hallocator : ∀ (p : Nat) (name : JsString) (c m ct : Nat),
      (unlinkInode state p name c m ct).allocator = state.allocator := fun _ _ _ _ _ => by
    simp only [unlinkInode, modifyInode_allocator]
  simp only [applyRemoveFile, checkedThen_eq_ok, bind_eq_ok, Prod.exists, directoryById_eq_ok,
    validatePathComponent_eq_ok, throwIf_eq_ok, exists_const, validateTimestamp_nat,
    orThrow_eq_ok, entry_lookup h, pure_eq_ok, Bool.not_eq_true, hallocator]
  constructor
  · rintro ⟨inode, ⟨_, ⟨hname, -⟩, _, ⟨rfl, hm⟩, _, ⟨rfl, hc⟩, parent, children, ⟨hp, hpb⟩, _,
      ⟨hentry, hi⟩, hdir, _, -, rfl⟩, rfl⟩
    exact ⟨parent, _, ⟨hname, hm, hc, hp, by rw [hpb]; exact hentry, hi⟩, hdir, rfl⟩
  · rintro ⟨parent, inode, ⟨hname, hm, hc, hp, hentry, hi⟩, hdir, rfl⟩
    exact ⟨inode, ⟨_, ⟨hname, rfl⟩, _, ⟨rfl, hm⟩, _, ⟨rfl, hc⟩, parent, _,
      ⟨hp, InodeBody.eq_directory (InodeBody.isDirectory_of_entry hentry)⟩, inode, ⟨hentry, hi⟩,
      hdir, (), checkOwnership_of_sound h (fun e he => ⟨inode, hi, he⟩) _, rfl⟩, rfl⟩

theorem applyRemoveDirectory_eq_ok {state state' : VfsState} (h : Sound state)
    {record : RemoveRecord} :
    applyRemoveDirectory state record = .ok () state' ↔
      ∃ parent inode, Removable state record parent inode ∧ inode.body.isDirectory = true ∧
        inode.body.children.size = 0 ∧
        state' = removed state record inode state.allocator := by
  simp only [applyRemoveDirectory, checkedThen_eq_ok, bind_eq_ok, Prod.exists,
    directoryById_eq_ok, validatePathComponent_eq_ok, throwIf_eq_ok, exists_const,
    validateTimestamp_nat, orThrow_eq_ok, entry_lookup h, pure_eq_ok, Bool.not_eq_false, not_not,
    Prod.mk.injEq]
  constructor
  · rintro ⟨inode, _, _, ⟨_, ⟨hname, -⟩, parent, children, ⟨hp, hpb⟩, _, ⟨hentry, hi⟩, hdir,
      hempty, _, ⟨rfl, hm⟩, _, ⟨rfl, hc⟩, rfl, rfl, rfl⟩, rfl⟩
    exact ⟨parent, _, ⟨hname, hm, hc, hp, by rw [hpb]; exact hentry, hi⟩, hdir, hempty,
      (unlinkInode_with_allocator _ _ _ _ _ _).symm⟩
  · rintro ⟨parent, inode, ⟨hname, hm, hc, hp, hentry, hi⟩, hdir, hempty, rfl⟩
    exact ⟨inode, _, _, ⟨_, ⟨hname, rfl⟩, parent, _,
      ⟨hp, InodeBody.eq_directory (InodeBody.isDirectory_of_entry hentry)⟩, inode, ⟨hentry, hi⟩,
      hdir, hempty, _, ⟨rfl, hm⟩, _, ⟨rfl, hc⟩, rfl, rfl, rfl⟩,
      (unlinkInode_with_allocator _ _ _ _ _ _).symm⟩

/-! ### Resizing and reserving -/

/-- The file a resize record leaves. -/
def resized (state : VfsState) (record : ResizeFileRecord) (extents : List Nat) :
    Inode → Inode := fun inode =>
  { inode with
    body := .file record.size
      (extents.take (extentCount record.size state.extentSize) ++ expandRuns record.allocated)
    mtimeMs := record.mtimeMs
    ctimeMs := record.ctimeMs }

def resizedAllocator (state : VfsState) (record : ResizeFileRecord) (extents : List Nat) :
    AllocatorState :=
  (extents.drop (extentCount record.size state.extentSize)).foldl releaseExtent
    ((expandRuns record.allocated).foldl (ownExtent record.inodeId) state.allocator)

theorem modifyInode_with_allocator (state : VfsState) (a : AllocatorState) (key : Nat)
    (f : Inode → Inode) :
    modifyInode { state with allocator := a } key f =
      { modifyInode state key f with allocator := a } := by
  unfold modifyInode
  cases state.inodes.get? key <;> rfl

/-- What a resize record checks. -/
structure Resizable (state : VfsState) (record : ResizeFileRecord) (inode : Inode) (size : Nat)
    (extents : List Nat) : Prop where
  found : state.inodes.get? record.inodeId = some inode
  file : inode.body = .file size extents
  size_le : record.size ≤ maxU64
  count_le : extentCount record.size state.extentSize ≤ maxExtentsPerInode
  assign : Assignable state record.allocated
    (extentCount record.size state.extentSize - extents.length)
  mtime : record.mtimeMs ≤ maxU64
  ctime : record.ctimeMs ≤ maxU64

theorem applyResizeFile_eq_ok {state state' : VfsState} (h : Sound state)
    {record : ResizeFileRecord} :
    applyResizeFile state record = .ok () state' ↔
      ∃ inode size extents, Resizable state record inode size extents ∧
        state' = { modifyInode state record.inodeId (resized state record extents) with
          allocator := resizedAllocator state record extents } := by
  simp only [applyResizeFile, checkedThen_eq_ok, bind_eq_ok, Prod.exists, fileById_eq_ok,
    validateTimestamp_nat, checkedU64_nat,
    extentCountForSize_eq_ok h.extentSize.pos, validateExtentAssignment_iff h, pure_eq_ok,
    Prod.mk.injEq, modifyInode_with_allocator]
  constructor
  · rintro ⟨inode, size, _, _, _, _, _, ⟨_, oldSize, extents, ⟨hi, hb⟩, _, ⟨rfl, hsize⟩, _,
      ⟨-, rfl, hmax⟩, _, ⟨hassign, rfl⟩, _, -, _, ⟨rfl, hm⟩, _, ⟨rfl, hc⟩, rfl, rfl, rfl, rfl,
      rfl, rfl, rfl⟩, rfl⟩
    have hid := (h.inodes _ _ hi).id_eq
    refine ⟨_, oldSize, extents, ⟨hi, hb, hsize, hmax, hassign, hm, hc⟩, ?_⟩
    rw [resizedAllocator, ← hid]
    rfl
  · rintro ⟨inode, size, extents, ⟨hi, hb, hsize, hmax, hassign, hm, hc⟩, rfl⟩
    have hid := (h.inodes _ _ hi).id_eq
    refine ⟨inode, _, _, _, _, _, _, ⟨inode, size, extents, ⟨hi, hb⟩, _, ⟨rfl, hsize⟩, _,
      ⟨hsize, rfl, hmax⟩, _, ⟨hassign, rfl⟩, (), checkOwnership_of_sound h (fun e he => ?_) _,
      _, ⟨rfl, hm⟩, _, ⟨rfl, hc⟩, rfl, rfl, rfl, rfl, rfl, rfl, rfl⟩, ?_⟩
    · refine ⟨inode, by rw [hid]; exact hi, ?_⟩
      rw [hb]
      exact List.mem_of_mem_drop he
    · rw [resizedAllocator, ← hid]
      rfl

theorem length_expandRuns (runs : List ExtentRun) :
    (expandRuns runs).length = (runs.map ExtentRun.count).sum := by
  simp [expandRuns, List.length_flatMap]

theorem applyReserveQuarantine_eq_ok {state state' : VfsState} (h : Sound state)
    {extents : List ExtentRun} :
    applyReserveQuarantine state extents = .ok () state' ↔
      expandRuns extents ≠ [] ∧ Assignable state extents (expandRuns extents).length ∧
        state' = { state with
          allocator := (expandRuns extents).foldl reserveExtent state.allocator } := by
  simp only [applyReserveQuarantine, checkedThen_eq_ok, bind_eq_ok, throwIf_eq_ok, exists_const,
    validateExtentAssignment_iff h, ← length_expandRuns, not_or, List.length_eq_zero_iff]
  constructor
  · rintro ⟨_, ⟨⟨hne, -⟩, hassign, rfl⟩, rfl⟩
    exact ⟨hne, hassign, rfl⟩
  · rintro ⟨hne, hassign, rfl⟩
    exact ⟨_, ⟨⟨hne, Nat.not_lt.mpr hassign.le⟩, hassign, rfl⟩, rfl⟩

end Opfs
