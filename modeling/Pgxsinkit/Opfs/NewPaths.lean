/-
Which paths a record adds to the tree.

Only creating records and renames add paths.  A rename checks the bounds of every
path it makes, so the path limits of a state can only be broken by a creating
record; `applyRecord_pathsWithin` says that they are kept exactly when every path
the record creates (`NewPath`) is within the limits.
-/
import Pgxsinkit.Opfs.Preserve

namespace Opfs

open Checked RootedTree

/-- The directory entries a record creates. -/
def createdEntries : TxnRecord → List CreateDirectoryChoice
  | .createDirectories entries => entries
  | .createFile record => [record.header]
  | .createSymlink record => [record.header]
  | _ => []

/-- The paths of the entries that a record creates in a state: below an inode of the
state, or below an entry of the same record. -/
inductive NewPath (state : VfsState) (entries : List CreateDirectoryChoice) :
    Nat → List JsString → Prop
  | fromTree {entry : CreateDirectoryChoice} {path : List JsString} : entry ∈ entries →
      PathTo state entry.parentId path → NewPath state entries entry.inodeId (path ++ [entry.name])
  | nested {entry : CreateDirectoryChoice} {path : List JsString} : entry ∈ entries →
      NewPath state entries entry.parentId path →
      NewPath state entries entry.inodeId (path ++ [entry.name])

/-- Every path the record creates is within the limits. -/
def CreatesWithin (state : VfsState) (record : TxnRecord) : Prop :=
  ∀ id path, NewPath state (createdEntries record) id path → WithinPathLimits path

theorem NewPath.nil {state : VfsState} {id : Nat} {path : List JsString} :
    ¬ NewPath state [] id path := by
  rintro (⟨he, -⟩ | ⟨he, -⟩) <;> cases he

/-! ### One new entry -/

theorem Creatable.pathTo_iff {state : VfsState} {entry : CreateDirectoryChoice} {parent : Inode}
    (hc : Creatable state entry parent) (h : Sound state) {body : InodeBody}
    (hleaf : body.children = .empty) {a : AllocatorState} {id : Nat} {path : List JsString} :
    PathTo (created state entry parent body a) id path ↔
      PathTo state id path ∨
        ∃ pp, PathTo state entry.parentId pp ∧ id = entry.inodeId ∧ path = pp ++ [entry.name] := by
  have hl := hc.linkable hleaf
  have hlinked := hl.linked h (entry.inodeId + 1)
  have hroot : (linkNewInode state entry.parentId parent entry.name (newInode entry body)
      (entry.inodeId + 1)).rootInodeId = state.rootInodeId := by
    simp only [linkNewInode, modifyInode_rootInodeId]
  have hkeep : ∀ {k labels}, PathTo state k labels → PathTo (linkNewInode state entry.parentId
      parent entry.name (newInode entry body) (entry.inodeId + 1)) k labels := by
    intro k labels hb
    have hpresent : Present state k := by
      by_cases hk : k = state.rootInodeId
      · exact hk ▸ h.tree.named.root_present
      · obtain ⟨q, n, _, hq, -, -⟩ := hb.exists_parent hk
        exact h.tree.named.child_present _ _ _ ((h.tree.named.inverse _ _ _).mp hq)
    rw [PathTo, hroot]
    exact h.tree.named.path_of_present_linked hlinked hpresent hb
  constructor
  · exact fun hp => hl.path h (entry.inodeId + 1) hp
  · rintro (hp | ⟨pp, hpp, rfl, rfl⟩)
    · exact hkeep hp
    · exact .child hlinked.parent_self (hkeep hpp)

/-- The path of the one entry of a record is no nested one. -/
theorem newPath_singleton {state : VfsState} (h : Sound state) {entry : CreateDirectoryChoice}
    {parent : Inode} (hc : Creatable state entry parent) {id : Nat} {path : List JsString} :
    NewPath state [entry] id path ↔
      ∃ pp, PathTo state entry.parentId pp ∧ id = entry.inodeId ∧ path = pp ++ [entry.name] := by
  have hne := hc.parent_ne h
  constructor
  · intro hn
    induction hn with
    | fromTree he hp =>
      rw [List.mem_singleton.mp he] at hp ⊢
      exact ⟨_, hp, rfl, rfl⟩
    | nested he _ ih =>
      obtain ⟨_, -, hid, -⟩ := ih
      rw [List.mem_singleton.mp he] at hid
      exact absurd hid hne
  · rintro ⟨pp, hp, rfl, rfl⟩
    exact .fromTree (List.mem_singleton_self _) hp

theorem Creatable.pathTo_iff_newPath {state : VfsState} {entry : CreateDirectoryChoice}
    {parent : Inode} (hc : Creatable state entry parent) (h : Sound state) {body : InodeBody}
    (hleaf : body.children = .empty) {a : AllocatorState} {id : Nat} {path : List JsString} :
    PathTo (created state entry parent body a) id path ↔
      PathTo state id path ∨ NewPath state [entry] id path := by
  rw [hc.pathTo_iff h hleaf, newPath_singleton h hc]

/-! ### Several new entries -/

theorem NewPath.exists_entry {state : VfsState} {entries : List CreateDirectoryChoice} {id : Nat}
    {path : List JsString} (h : NewPath state entries id path) :
    ∃ entry ∈ entries, entry.inodeId = id := by
  cases h with
  | fromTree he => exact ⟨_, he, rfl⟩
  | nested he => exact ⟨_, he, rfl⟩

/-- The ids of the entries are the next ones of the state. -/
theorem CreatesDirectories.next_le {state state' : VfsState}
    {entries : List CreateDirectoryChoice} (hc : CreatesDirectories state entries state') :
    ∀ entry ∈ entries, state.nextInodeId ≤ entry.inodeId := by
  induction entries generalizing state with
  | nil => exact nofun
  | cons first rest ih =>
    obtain ⟨parent, hcreate, hrest⟩ := hc
    have hnext : (createdDirectory state first parent).nextInodeId = first.inodeId + 1 := rfl
    intro entry he
    rcases List.mem_cons.mp he with rfl | he
    · exact hcreate.id_eq.ge
    · have := ih hrest entry he
      rw [hnext, hcreate.id_eq] at this
      omega

/-- The new paths of the later entries are those of the whole list, and those of the whole
list that do not end at the first entry. -/
theorem newPath_cons_iff {state : VfsState} (h : Sound state) {entry : CreateDirectoryChoice}
    {parent : Inode} (hc : Creatable state entry parent) {rest : List CreateDirectoryChoice}
    (hrest : ∀ e ∈ rest, entry.inodeId < e.inodeId) {id : Nat} {path : List JsString} :
    PathTo (createdDirectory state entry parent) id path ∨
        NewPath (createdDirectory state entry parent) rest id path ↔
      PathTo state id path ∨ NewPath state (entry :: rest) id path := by
  have hone : ∀ {id path}, PathTo (createdDirectory state entry parent) id path ↔
      PathTo state id path ∨ ∃ pp, PathTo state entry.parentId pp ∧ id = entry.inodeId ∧
        path = pp ++ [entry.name] := hc.pathTo_iff h rfl
  have hparent : entry.parentId < entry.inodeId := by
    rw [hc.id_eq]
    exact (h.inodes _ _ hc.found).lt_next
  constructor
  · rintro (hp | hn)
    · rcases hone.mp hp with hp | ⟨pp, hpp, rfl, rfl⟩
      · exact .inl hp
      · exact .inr (.fromTree List.mem_cons_self hpp)
    · refine .inr ?_
      induction hn with
      | fromTree he hp =>
        rcases hone.mp hp with hp | ⟨pp, hpp, hid, rfl⟩
        · exact .fromTree (List.mem_cons_of_mem _ he) hp
        · exact .nested (List.mem_cons_of_mem _ he) (hid ▸ .fromTree List.mem_cons_self hpp)
      | nested he _ ih => exact .nested (List.mem_cons_of_mem _ he) ih
  · rintro (hp | hn)
    · exact .inl (hone.mpr (.inl hp))
    · induction hn with
      | fromTree he hp =>
        rcases List.mem_cons.mp he with rfl | he
        · exact .inl (hone.mpr (.inr ⟨_, hp, rfl, rfl⟩))
        · exact .inr (.fromTree he (hone.mpr (.inl hp)))
      | nested he hn ih =>
        rcases List.mem_cons.mp he with rfl | he
        · -- the parent of the first entry is older than every entry
          obtain ⟨e, he, hid⟩ := hn.exists_entry
          rcases List.mem_cons.mp he with rfl | he
          · omega
          · have := hrest e he
            omega
        · exact .inr (ih.elim (.fromTree he) (.nested he))

theorem createsDirectories_pathTo_iff {state state' : VfsState} (h : Sound state)
    {entries : List CreateDirectoryChoice}
    (hsize : state.inodes.size + entries.length ≤ maxInodes)
    (hc : CreatesDirectories state entries state') {id : Nat} {path : List JsString} :
    PathTo state' id path ↔ PathTo state id path ∨ NewPath state entries id path := by
  induction entries generalizing state with
  | nil =>
    rw [show state' = state from hc]
    exact ⟨.inl, fun hp => hp.resolve_right NewPath.nil⟩
  | cons entry rest ih =>
    obtain ⟨parent, hcreate, hrest⟩ := hc
    rw [List.length_cons] at hsize
    rw [ih (hcreate.sound_directory h (by omega)) (by rw [hcreate.size_directory h]; omega) hrest]
    exact newPath_cons_iff h hcreate fun e he => hrest.next_le e he

/-! ### Every record -/

theorem CreatesWithin.of_no_entries {state : VfsState} {record : TxnRecord}
    (hr : createdEntries record = []) : CreatesWithin state record := fun id path hn => by
  rw [hr] at hn
  exact absurd hn NewPath.nil

/-- A record that adds the paths of its entries and no others. -/
theorem pathsWithin_of_pathTo_iff {state state' : VfsState} {record : TxnRecord}
    (hp : PathsWithin state)
    (hiff : ∀ {id path}, PathTo state' id path ↔
      PathTo state id path ∨ NewPath state (createdEntries record) id path) :
    PathsWithin state' ↔ CreatesWithin state record :=
  ⟨fun h id path hn => h id path (hiff.mpr (.inr hn)),
    fun h id path hpath => (hiff.mp hpath).elim (hp id path) (h id path)⟩

theorem PathsWithin.congr {state state' : VfsState} (hp : PathsWithin state)
    (hparent : parentOf state' = parentOf state) (hroot : state'.rootInodeId = state.rootInodeId) :
    PathsWithin state' := by
  intro id path hpath
  rw [PathTo, hparent, hroot] at hpath
  exact hp id path hpath

theorem PathsWithin.modify {state : VfsState} (hp : PathsWithin state) (key : Nat)
    (f : Inode → Inode) (a : AllocatorState) :
    PathsWithin { modifyInode state key f with allocator := a } :=
  hp.congr (parentOf_modifyInode state key f) (modifyInode_rootInodeId ..)

theorem PathsWithin.removed {state : VfsState} (hp : PathsWithin state) {record : RemoveRecord}
    {parent inode : Inode} (hr : Removable state record parent inode)
    (hleaf : ∀ n, inode.body.children.get? n = none) (a : AllocatorState) :
    PathsWithin (removed state record inode a) := fun id path hpath =>
  hp id path ((hr.unlinkable hleaf).path hpath)

theorem PathsWithin.renamed {state : VfsState} (hp : PathsWithin state) (h : Sound state)
    {record : RenameRecord} {source : Inode} {destination : Option Inode}
    {destinationParent : Inode}
    (hr : Renamable state record source destination destinationParent) (ts : Nat) :
    PathsWithin (moveEntry state record source destination destinationParent ts) := by
  intro id path hpath
  rcases (hr.movable h).path h hpath with hold | ⟨dPath, labels, hd, hb, rfl⟩
  · exact hp id path hold
  · exact hr.path h hd hb

/-- A record keeps the path limits iff the paths it creates are within them. -/
theorem applyRecord_pathsWithin {state state' : VfsState} (h : Sound state)
    (hp : PathsWithin state) {record : TxnRecord}
    (happly : applyRecord state record = .ok () state') :
    PathsWithin state' ↔ CreatesWithin state record := by
  cases record with
  | createDirectories entries =>
    obtain ⟨-, hsize, hc⟩ := (applyCreateDirectories_eq_ok h).mp happly
    exact pathsWithin_of_pathTo_iff hp (createsDirectories_pathTo_iff h hsize hc)
  | createFile record =>
    obtain ⟨parent, hc, -, -, -, rfl⟩ := (applyCreateFile_eq_ok h).mp happly
    exact pathsWithin_of_pathTo_iff hp (hc.pathTo_iff_newPath h rfl)
  | createSymlink record =>
    obtain ⟨parent, hc, -, -, rfl⟩ := (applyCreateSymlink_eq_ok h).mp happly
    exact pathsWithin_of_pathTo_iff hp (hc.pathTo_iff_newPath h rfl)
  | removeFile record =>
    obtain ⟨parent, inode, hr, hfile, rfl⟩ := (applyRemoveFile_eq_ok h).mp happly
    refine iff_of_true (hp.removed hr (fun n => ?_) _) (.of_no_entries rfl)
    rw [InodeBody.children_of_not_directory hfile]
    rfl
  | changeMode inodeId mode ctimeMs =>
    simp only [applyRecord, applyChangeMode, checkedThen_eq_ok] at happly
    obtain ⟨_, -, rfl⟩ := happly
    exact iff_of_true (hp.congr (parentOf_modifyInode ..) (modifyInode_rootInodeId ..))
      (.of_no_entries rfl)
  | changeTimes inodeId atimeMs mtimeMs ctimeMs =>
    simp only [applyRecord, applyChangeTimes, checkedThen_eq_ok] at happly
    obtain ⟨_, -, rfl⟩ := happly
    exact iff_of_true (hp.congr (parentOf_modifyInode ..) (modifyInode_rootInodeId ..))
      (.of_no_entries rfl)
  | resizeFile record =>
    obtain ⟨inode, size, extents, -, rfl⟩ := (applyResizeFile_eq_ok h).mp happly
    exact iff_of_true (hp.modify _ _ _) (.of_no_entries rfl)
  | removeDirectory record =>
    obtain ⟨parent, inode, hr, -, hempty, rfl⟩ := (applyRemoveDirectory_eq_ok h).mp happly
    exact iff_of_true (hp.removed hr (OrdMap.get?_of_size_eq_zero hempty) _) (.of_no_entries rfl)
  | rename record =>
    obtain ⟨source, destination, destinationParent, hr, rfl⟩ := (applyRename_eq_ok h).mp happly
    exact iff_of_true (hp.renamed h hr _) (.of_no_entries rfl)
  | reserveQuarantine extents =>
    obtain ⟨-, -, rfl⟩ := (applyReserveQuarantine_eq_ok h).mp happly
    exact iff_of_true (hp.congr rfl rfl) (.of_no_entries rfl)

end Opfs
