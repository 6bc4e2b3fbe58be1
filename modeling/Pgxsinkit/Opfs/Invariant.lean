/-
What a valid state is (`WellFormed`), stated without the walk that checks it.

* the inode graph is one tree under the root: the parent index is the exact
  inverse of the directory entries, and every inode has a path from the root
  within the depth and byte limits;
* every extent below `totalExtents` is owned, available or in quarantine, in
  exactly one way, and `ownedBy` lists exactly the extents of the files;
* the running base size is the size of the canonical encoding.

`validateState_eq_ok_iff` (next module) says that the walk accepts exactly these.
-/
import Pgxsinkit.Lib.RootedTree
import Pgxsinkit.Opfs.Validate

namespace Opfs

open Checked RootedTree

/-- The parent index as a parent function. -/
def parentOf (state : VfsState) (id : Nat) : Option (Nat × JsString) :=
  (state.parentByInode.get? id).map fun e => (e.parentId, e.name)

/-- `id` is at `path` in the tree. -/
abbrev PathTo (state : VfsState) (id : Nat) (path : List JsString) : Prop :=
  Below (parentOf state) state.rootInodeId id path

@[simp] theorem parentOf_eq_some {state : VfsState} {id p : Nat} {name : JsString} :
    parentOf state id = some (p, name) ↔ state.parentByInode.get? id = some ⟨p, name⟩ := by
  unfold parentOf
  cases state.parentByInode.get? id with
  | none => simp
  | some e => cases e; simp

@[simp] theorem parentOf_eq_none {state : VfsState} {id : Nat} :
    parentOf state id = none ↔ state.parentByInode.get? id = none := by
  simp [parentOf]

def ValidTarget (target : JsString) : Prop := ∃ n, validateSymlinkTarget target = .ok n

/-- How many extents a file of the given size owns. -/
def extentCount (size extentSize : Nat) : Nat := (size + extentSize - 1) / extentSize

theorem extentCountForSize_eq_ok {size extentSize n : Nat} (h : 0 < extentSize) :
    extentCountForSize size extentSize = .ok n ↔
      size ≤ maxU64 ∧ n = extentCount size extentSize ∧ n ≤ maxExtentsPerInode := by
  simp only [extentCountForSize, bind_eq_ok, checkedU64_nat]
  constructor
  · rintro ⟨v, ⟨rfl, hv⟩, h'⟩
    by_cases hs : size = 0
    · rw [if_pos hs, pure_eq_ok] at h'
      subst h' hs
      refine ⟨hv, ?_, Nat.zero_le _⟩
      rw [extentCount, Nat.zero_add]
      exact (Nat.div_eq_of_lt (by omega)).symm
    · rw [if_neg hs] at h'
      simp only [bind_eq_ok, throwIf_eq_ok, pure_eq_ok, exists_const] at h'
      exact ⟨hv, h'.2.symm, by omega⟩
  · rintro ⟨hv, rfl, hn⟩
    refine ⟨size, ⟨rfl, hv⟩, ?_⟩
    by_cases hs : size = 0
    · subst hs
      rw [if_pos rfl, extentCount, Nat.zero_add, Nat.div_eq_of_lt (by omega)]
      rfl
    · rw [if_neg hs]
      simp only [bind_eq_ok, throwIf_eq_ok, pure_eq_ok, exists_const]
      exact ⟨by unfold extentCount at hn; omega, rfl⟩

/-! ### Canonical sizes -/

def entryBytes (name : JsString) : Nat := childFixedBytes + utf8Bytes name

def bodyBytes : InodeBody → Nat
  | .directory children => directoryInodeFixedBytes + children.sum fun name _ => entryBytes name
  | .file _ extents => fileInodeFixedBytes + extents.length * 8
  | .symlink target => symlinkInodeFixedBytes + utf8Bytes target

/-- The payload size of the canonical encoding of the state. -/
def canonicalBaseBytes (state : VfsState) : Nat :=
  baseStateFixedBytes + state.inodes.sum (fun _ inode => bodyBytes inode.body) +
    state.allocator.available.size * 8 + state.allocator.quarantine.size * 16

/-! ### The invariant -/

structure InodeOk (state : VfsState) (key : Nat) (inode : Inode) : Prop where
  id_eq : inode.id = key
  lt_next : key < state.nextInodeId
  mode : inode.mode ≤ maxU32
  atime : inode.atimeMs ≤ maxU64
  mtime : inode.mtimeMs ≤ maxU64
  ctime : inode.ctimeMs ≤ maxU64
  names : ∀ name c, inode.body.children.get? name = some c → ValidComponent name
  target : ∀ target, inode.body = .symlink target → ValidTarget target
  file : ∀ size extents, inode.body = .file size extents →
    size ≤ maxU64 ∧ extents.length = extentCount size state.extentSize ∧
      extents.length ≤ maxExtentsPerInode

/-- What the entry `name` of the inode `p` names. -/
def childOf (state : VfsState) (p : Nat) (name : JsString) : Option Nat :=
  (state.inodes.get? p).bind fun inode => inode.body.children.get? name

def Present (state : VfsState) (id : Nat) : Prop :=
  ∃ inode, state.inodes.get? id = some inode

/-- The inode graph is a tree and the parent index is its inverse. -/
structure TreeOk (state : VfsState) : Prop where
  root_dir : ∃ root, state.inodes.get? state.rootInodeId = some root ∧
    root.body.isDirectory = true
  named : NamedTree state.rootInodeId (Present state) (childOf state) (parentOf state)

/-- Every path of the tree is within the depth and byte limits. -/
def PathsWithin (state : VfsState) : Prop :=
  ∀ id path, PathTo state id path → WithinPathLimits path

/-- `inode id` of the state owns the extent `e`. -/
def Owns (state : VfsState) (id e : Nat) : Prop :=
  ∃ inode, state.inodes.get? id = some inode ∧ e ∈ inode.body.extents

/-- The books of an allocator: every extent of the arena is owned (as `owns` says),
available or in quarantine, in exactly one way. -/
structure Allocated (owns : Nat → Nat → Prop) (allocator : AllocatorState) : Prop where
  owned_iff : ∀ e id, allocator.ownedBy.get? e = some id ↔ owns id e
  cover : ∀ e, e < allocator.totalExtents ↔
    (∃ id, allocator.ownedBy.get? e = some id) ∨ e ∈ allocator.available.items ∨
      ∃ tag, allocator.quarantine.get? e = some tag
  owned_available : ∀ e id, allocator.ownedBy.get? e = some id →
    e ∉ allocator.available.items
  owned_quarantine : ∀ e id, allocator.ownedBy.get? e = some id →
    allocator.quarantine.get? e = none
  available_quarantine : ∀ e, e ∈ allocator.available.items → allocator.quarantine.get? e = none

structure AllocOk (state : VfsState) : Prop extends
    Allocated (Owns state) state.allocator where
  extents_nodup : ∀ id inode, state.inodes.get? id = some inode → inode.body.extents.Nodup
  total : state.allocator.totalExtents ≤ maxTotalExtents
  tags : ∀ e tag, state.allocator.quarantine.get? e = some tag →
    tag = none ∨ tag = some state.generation

/-- Everything but the path limits and the running base size. -/
structure Sound (state : VfsState) : Prop where
  extentSize : LegalExtentSize state.extentSize
  generation_pos : 0 < state.generation
  generation_le : state.generation ≤ maxU64
  next_le : state.nextInodeId ≤ maxU64
  inodes_le : state.inodes.size ≤ maxInodes
  inodes : ∀ id inode, state.inodes.get? id = some inode → InodeOk state id inode
  tree : TreeOk state
  alloc : AllocOk state
  retained_active :
    state.retainedGenerations.get state.activeMetadataFile = some state.generation
  retained_inactive : ∀ g,
    state.retainedGenerations.get (otherMetadataFile state.activeMetadataFile) = some g →
      0 < g ∧ g + 1 = state.generation

/-- Sound, and the running base size is right: what every record keeps. -/
structure Balanced (state : VfsState) : Prop where
  sound : Sound state
  base_eq : state.basePayloadBytes = canonicalBaseBytes state
  base_le : state.basePayloadBytes ≤ maxMetadataBaseWriterBytes

/-- The states `validateState` accepts. -/
structure WellFormed (state : VfsState) : Prop extends Balanced state where
  paths : PathsWithin state

/-! ### The tree -/

theorem childOf_eq_some {state : VfsState} {p c : Nat} {name : JsString} :
    childOf state p name = some c ↔
      ∃ parent, state.inodes.get? p = some parent ∧ parent.body.children.get? name = some c := by
  rw [childOf, Option.bind_eq_some_iff]

namespace TreeOk

variable {state : VfsState} (h : TreeOk state)
include h

theorem entry_iff {p c : Nat} {name : JsString} :
    state.parentByInode.get? c = some ⟨p, name⟩ ↔
      ∃ parent, state.inodes.get? p = some parent ∧
        parent.body.children.get? name = some c := by
  rw [← parentOf_eq_some, h.named.inverse, childOf_eq_some]

theorem root_orphan : state.parentByInode.get? state.rootInodeId = none :=
  parentOf_eq_none.mp h.named.root_orphan

theorem path_unique {id : Nat} {p q : List JsString} (hp : PathTo state id p)
    (hq : PathTo state id q) : p = q := hp.unique h.named.root_orphan hq

theorem siblings {x y : Nat} {e : Nat × JsString} (hx : parentOf state x = some e)
    (hy : parentOf state y = some e) : x = y := by
  obtain ⟨p, name⟩ := e
  rw [h.named.inverse] at hx hy
  rw [hx] at hy
  exact Option.some.inj hy

theorem path_injective {x y : Nat} {p : List JsString} (hx : PathTo state x p)
    (hy : PathTo state y p) : x = y := hx.injective (fun _ _ _ => h.siblings) hy

/-- The entry of a directory leads to an inode whose parent it is. -/
theorem child {p c : Nat} {name : JsString} {parent : Inode}
    (hp : state.inodes.get? p = some parent) (hc : parent.body.children.get? name = some c) :
    parentOf state c = some (p, name) ∧ ∃ inode, state.inodes.get? c = some inode := by
  have he : childOf state p name = some c := childOf_eq_some.mpr ⟨parent, hp, hc⟩
  exact ⟨(h.named.inverse _ _ _).mpr he, h.named.child_present _ _ _ he⟩

theorem reach {id : Nat} {inode : Inode} (hi : state.inodes.get? id = some inode) :
    ∃ path, PathTo state id path := h.named.reach id ⟨inode, hi⟩

/-- Every inode but the root has a parent. -/
theorem exists_parent {id : Nat} {inode : Inode} (hi : state.inodes.get? id = some inode)
    (hr : id ≠ state.rootInodeId) : ∃ e, state.parentByInode.get? id = some e := by
  obtain ⟨path, hp⟩ := h.reach hi
  obtain ⟨p, name, _, he, -, -⟩ := hp.exists_parent hr
  exact ⟨_, parentOf_eq_some.mp he⟩

theorem present_of_parent {id : Nat} {e : ParentEntry}
    (he : state.parentByInode.get? id = some e) : Present state id := by
  obtain ⟨parent, hp, hc⟩ := h.entry_iff.mp he
  exact (h.child hp hc).2

/-- The parent index has one entry for every inode but the root. -/
theorem parent_size : state.parentByInode.size + 1 = state.inodes.size := by
  obtain ⟨root, hr, -⟩ := h.root_dir
  rw [← OrdMap.size_delete_of_some hr]
  congr 1
  refine OrdMap.size_eq_of_keys fun k => ?_
  rw [OrdMap.get?_delete]
  by_cases hk : k = state.rootInodeId
  · rw [if_pos hk, hk, h.root_orphan]
    simp
  · rw [if_neg hk]
    exact ⟨fun ⟨e, he⟩ => h.present_of_parent he, fun ⟨i, hi⟩ => h.exists_parent hi hk⟩

/-- No path is longer than the parent index. -/
theorem path_length_le {id : Nat} {p : List JsString} (hp : PathTo state id p) :
    p.length ≤ state.parentByInode.size := by
  rw [← OrdMap.length_keys]
  refine hp.length_le h.named.root_orphan fun x e he => ?_
  obtain ⟨q, name⟩ := e
  exact OrdMap.mem_keys_iff.mpr ⟨_, parentOf_eq_some.mp he⟩

end TreeOk

end Opfs
