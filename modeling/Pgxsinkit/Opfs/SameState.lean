/-
States that differ in the order of their maps only.

The disk keeps no order: an encoded state comes back with its inodes, names, available
extents and quarantine sorted.  `SameState` is what comes back; the validator cannot tell
such states apart (`WellFormed.congr`).
-/
import Pgxsinkit.Opfs.ValidateIff

namespace Opfs

open Checked RootedTree

/-- A body up to the order of its entries. -/
inductive BodyView
  | directory (children : JsString → Option Nat)
  | file (size : Nat) (extents : List Nat)
  | symlink (target : JsString)

def InodeBody.view : InodeBody → BodyView
  | .directory children => .directory children.get?
  | .file size extents => .file size extents
  | .symlink target => .symlink target

/-- An inode up to the order of its entries. -/
def Inode.view (inode : Inode) : (Nat × Nat × Nat × Nat × Nat) × BodyView :=
  ((inode.id, inode.mode, inode.atimeMs, inode.mtimeMs, inode.ctimeMs), inode.body.view)

/-- The same state up to the order of the maps, whatever is known of the inactive file. -/
structure SameState (s t : VfsState) : Prop where
  generation : s.generation = t.generation
  nextInodeId : s.nextInodeId = t.nextInodeId
  rootInodeId : s.rootInodeId = t.rootInodeId
  extentSize : s.extentSize = t.extentSize
  activeMetadataFile : s.activeMetadataFile = t.activeMetadataFile
  basePayloadBytes : s.basePayloadBytes = t.basePayloadBytes
  inodes : ∀ id, (s.inodes.get? id).map Inode.view = (t.inodes.get? id).map Inode.view
  parents : ∀ id, s.parentByInode.get? id = t.parentByInode.get? id
  totalExtents : s.allocator.totalExtents = t.allocator.totalExtents
  ownedBy : ∀ e, s.allocator.ownedBy.get? e = t.allocator.ownedBy.get? e
  available : s.allocator.available.items.Perm t.allocator.available.items
  quarantine : ∀ e, s.allocator.quarantine.get? e = t.allocator.quarantine.get? e

/-! ### What the view of a body shows -/

theorem view_children {b b' : InodeBody} (h : b.view = b'.view) (name : JsString) :
    b.children.get? name = b'.children.get? name := by
  cases b <;> cases b' <;> simp_all [InodeBody.view]

theorem view_extents {b b' : InodeBody} (h : b.view = b'.view) : b.extents = b'.extents := by
  cases b <;> cases b' <;> simp_all [InodeBody.view]

theorem view_isDirectory {b b' : InodeBody} (h : b.view = b'.view) :
    b.isDirectory = b'.isDirectory := by
  cases b <;> cases b' <;> simp_all [InodeBody.view, InodeBody.isDirectory]

theorem view_file {b b' : InodeBody} (h : b.view = b'.view) {size : Nat} {extents : List Nat} :
    b = .file size extents ↔ b' = .file size extents := by
  cases b <;> cases b' <;> simp_all [InodeBody.view]

theorem view_symlink {b b' : InodeBody} (h : b.view = b'.view) {target : JsString} :
    b = .symlink target ↔ b' = .symlink target := by
  cases b <;> cases b' <;> simp_all [InodeBody.view]

theorem view_bodyBytes {b b' : InodeBody} (h : b.view = b'.view) : bodyBytes b = bodyBytes b' := by
  cases b with
  | directory c =>
    cases b' with
    | directory c' =>
      rw [InodeBody.view, InodeBody.view, BodyView.directory.injEq] at h
      rw [bodyBytes, bodyBytes, OrdMap.sum_congr fun name => congrFun h name]
    | _ => cases h
  | file size extents =>
    cases b' with
    | file size' extents' =>
      rw [InodeBody.view, InodeBody.view, BodyView.file.injEq] at h
      rw [bodyBytes, bodyBytes, h.2]
    | _ => cases h
  | symlink target =>
    cases b' with
    | symlink target' =>
      rw [InodeBody.view, InodeBody.view, BodyView.symlink.injEq] at h
      rw [bodyBytes, bodyBytes, h]
    | _ => cases h

namespace SameState

variable {s t : VfsState} (h : SameState s t)

theorem refl (s : VfsState) : SameState s s :=
  ⟨rfl, rfl, rfl, rfl, rfl, rfl, fun _ => rfl, fun _ => rfl, rfl, fun _ => rfl, .refl _,
    fun _ => rfl⟩

include h

theorem symm : SameState t s :=
  ⟨h.generation.symm, h.nextInodeId.symm, h.rootInodeId.symm, h.extentSize.symm,
    h.activeMetadataFile.symm, h.basePayloadBytes.symm, fun id => (h.inodes id).symm,
    fun id => (h.parents id).symm, h.totalExtents.symm, fun e => (h.ownedBy e).symm,
    h.available.symm, fun e => (h.quarantine e).symm⟩

theorem trans {u : VfsState} (h' : SameState t u) : SameState s u :=
  ⟨h.generation.trans h'.generation, h.nextInodeId.trans h'.nextInodeId,
    h.rootInodeId.trans h'.rootInodeId, h.extentSize.trans h'.extentSize,
    h.activeMetadataFile.trans h'.activeMetadataFile,
    h.basePayloadBytes.trans h'.basePayloadBytes, fun id => (h.inodes id).trans (h'.inodes id),
    fun id => (h.parents id).trans (h'.parents id), h.totalExtents.trans h'.totalExtents,
    fun e => (h.ownedBy e).trans (h'.ownedBy e), h.available.trans h'.available,
    fun e => (h.quarantine e).trans (h'.quarantine e)⟩

/-- An inode of one state has a counterpart in the other. -/
theorem find {id : Nat} {inode : Inode} (hi : s.inodes.get? id = some inode) :
    ∃ inode', t.inodes.get? id = some inode' ∧ inode.view = inode'.view := by
  have hview := h.inodes id
  rw [hi, Option.map_some, eq_comm, Option.map_eq_some_iff] at hview
  obtain ⟨inode', hi', hv⟩ := hview
  exact ⟨inode', hi', hv.symm⟩

theorem parentOf_eq : parentOf s = parentOf t := by
  funext id
  rw [parentOf, parentOf, h.parents]

theorem pathTo {id : Nat} {path : List JsString} : PathTo s id path ↔ PathTo t id path := by
  rw [PathTo, PathTo, h.parentOf_eq, h.rootInodeId]

theorem childOf_eq : childOf s = childOf t := by
  funext id name
  have hview := h.inodes id
  unfold childOf
  cases hs : s.inodes.get? id with
  | none =>
    rw [hs, Option.map_none, eq_comm, Option.map_eq_none_iff] at hview
    simp only [hview, Option.bind_none]
  | some inode =>
    obtain ⟨inode', ht, hv⟩ := h.find hs
    rw [ht, Option.bind_some, Option.bind_some]
    exact view_children (congrArg Prod.snd hv) name

theorem present_eq : Present s = Present t := by
  funext id
  refine propext ⟨fun ⟨inode, hi⟩ => ?_, fun ⟨inode, hi⟩ => ?_⟩
  · obtain ⟨inode', hi', -⟩ := h.find hi
    exact ⟨inode', hi'⟩
  · obtain ⟨inode', hi', -⟩ := h.symm.find hi
    exact ⟨inode', hi'⟩

theorem owns_eq : Owns s = Owns t := by
  have hmono : ∀ {s t : VfsState}, SameState s t → ∀ {id e}, Owns s id e → Owns t id e := by
    rintro s t h id e ⟨inode, hi, he⟩
    obtain ⟨inode', hi', hv⟩ := h.find hi
    exact ⟨inode', hi', view_extents (congrArg Prod.snd hv) ▸ he⟩
  funext id e
  exact propext ⟨hmono h, hmono h.symm⟩

theorem size_inodes : s.inodes.size = t.inodes.size :=
  OrdMap.size_eq_of_keys fun k => by rw [← Present, h.present_eq]; rfl

theorem canonicalBaseBytes_eq : canonicalBaseBytes s = canonicalBaseBytes t := by
  have hinodes : s.inodes.sum (fun _ inode => bodyBytes inode.body) =
      t.inodes.sum fun _ inode => bodyBytes inode.body := by
    refine OrdMap.sum_eq_of_map fun id => ?_
    have hview := h.inodes id
    cases hs : s.inodes.get? id with
    | none =>
      rw [hs, Option.map_none, eq_comm, Option.map_eq_none_iff] at hview
      simp only [hview, Option.map_none]
    | some inode =>
      obtain ⟨inode', ht, hv⟩ := h.find hs
      rw [ht, Option.map_some, Option.map_some, view_bodyBytes (congrArg Prod.snd hv)]
  rw [canonicalBaseBytes, canonicalBaseBytes, hinodes, OrdMap.size_congr h.quarantine,
    IndexedExtentSet.size, IndexedExtentSet.size, h.available.length_eq]

theorem treeOk (ht : TreeOk s) : TreeOk t := by
  obtain ⟨root, hroot, hdir⟩ := ht.root_dir
  obtain ⟨root', hroot', hv⟩ := h.find hroot
  refine ⟨⟨root', h.rootInodeId ▸ hroot', view_isDirectory (congrArg Prod.snd hv) ▸ hdir⟩, ?_⟩
  have hnamed := ht.named
  rwa [h.rootInodeId, h.present_eq, h.childOf_eq, h.parentOf_eq] at hnamed

theorem allocOk (ha : AllocOk s) : AllocOk t := by
  have howner := ha.owned_iff
  have hcover := ha.cover
  have hoa := ha.owned_available
  have hoq := ha.owned_quarantine
  have haq := ha.available_quarantine
  have htags := ha.tags
  simp only [h.ownedBy, h.quarantine, h.available.mem_iff, h.owns_eq, h.totalExtents,
    h.generation] at howner hcover hoa hoq haq htags
  refine ⟨⟨howner, hcover, hoa, hoq, haq⟩, fun id inode hi => ?_, h.totalExtents ▸ ha.total, htags⟩
  obtain ⟨inode', hi', hv⟩ := h.symm.find hi
  exact view_extents (congrArg Prod.snd hv) ▸ ha.extents_nodup id inode' hi'

theorem inodeOk {id : Nat} {inode inode' : Inode} (hv : inode.view = inode'.view)
    (hi : InodeOk s id inode) : InodeOk t id inode' := by
  obtain ⟨hheader, hbody⟩ := Prod.mk.injEq .. ▸ hv
  simp only [Prod.mk.injEq] at hheader
  obtain ⟨hid, hmode, hat, hmt, hct⟩ := hheader
  refine ⟨hid ▸ hi.id_eq, h.nextInodeId ▸ hi.lt_next, hmode ▸ hi.mode, hat ▸ hi.atime,
    hmt ▸ hi.mtime, hct ▸ hi.ctime, fun name c hc => ?_, fun target htarget => ?_,
    fun size extents hfile => ?_⟩
  · exact hi.names name c (view_children hbody name ▸ hc)
  · exact hi.target target ((view_symlink hbody).mpr htarget)
  · exact h.extentSize ▸ hi.file size extents ((view_file hbody).mpr hfile)

/-- The validator sees no order, and of the inactive file only its generation. -/
theorem wellFormed (hs : WellFormed s)
    (hactive : t.retainedGenerations.get t.activeMetadataFile = some t.generation)
    (hinactive : ∀ g, t.retainedGenerations.get (otherMetadataFile t.activeMetadataFile) = some g →
      0 < g ∧ g + 1 = t.generation) : WellFormed t := by
  have hsound := hs.sound
  refine ⟨⟨⟨h.extentSize ▸ hsound.extentSize, h.generation ▸ hsound.generation_pos,
    h.generation ▸ hsound.generation_le, h.nextInodeId ▸ hsound.next_le,
    h.size_inodes ▸ hsound.inodes_le, fun id inode hi => ?_, h.treeOk hsound.tree,
    h.allocOk hsound.alloc, hactive, hinactive⟩, ?_, h.basePayloadBytes ▸ hs.base_le⟩, ?_⟩
  · obtain ⟨inode', hi', hv⟩ := h.symm.find hi
    exact h.inodeOk hv.symm (hsound.inodes id inode' hi')
  · rw [← h.basePayloadBytes, ← h.canonicalBaseBytes_eq]
    exact hs.base_eq
  · exact fun id path hp => hs.paths id path (h.pathTo.mpr hp)

end SameState

end Opfs
