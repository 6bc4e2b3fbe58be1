/-
The live state of a repacked store (`core/state-machine.ts`, data model).

An inode is the common header with a body of its kind.  Maps keep their insertion
order (`OrdMap`), because the order of the quarantine and of the available
extents decides which extent is handed out next.  `IndexedExtentSet` is the
source's array with swap-removal; its reverse index is the position in the list.
-/
import Pgxsinkit.Lib.OrdMap
import Pgxsinkit.Opfs.Path

namespace Opfs

inductive MetadataFile
  | a
  | b
  deriving DecidableEq, Repr

def otherMetadataFile : MetadataFile → MetadataFile
  | .a => .b
  | .b => .a

@[simp] theorem otherMetadataFile_otherMetadataFile (file : MetadataFile) :
    otherMetadataFile (otherMetadataFile file) = file := by cases file <;> rfl

@[simp] theorem otherMetadataFile_ne (file : MetadataFile) : otherMetadataFile file ≠ file := by
  cases file <;> decide

inductive InodeBody
  | directory (children : OrdMap JsString Nat)
  | file (size : Nat) (extents : List Nat)
  | symlink (target : JsString)
  deriving DecidableEq

structure Inode where
  id : Nat
  mode : Nat
  atimeMs : Nat
  mtimeMs : Nat
  ctimeMs : Nat
  body : InodeBody
  deriving DecidableEq

namespace InodeBody

def isDirectory : InodeBody → Bool
  | .directory _ => true
  | _ => false

/-- The extents a body owns: only a file owns any. -/
def extents : InodeBody → List Nat
  | .file _ extents => extents
  | _ => []

/-- The entries of a directory; nothing else has any. -/
def children : InodeBody → OrdMap JsString Nat
  | .directory children => children
  | _ => .empty

@[simp] theorem extents_directory (c : OrdMap JsString Nat) : (directory c).extents = [] := rfl
@[simp] theorem extents_file (n : Nat) (es : List Nat) : (file n es).extents = es := rfl
@[simp] theorem extents_symlink (t : JsString) : (symlink t).extents = [] := rfl
@[simp] theorem children_directory (c : OrdMap JsString Nat) : (directory c).children = c := rfl
@[simp] theorem children_file (n : Nat) (es : List Nat) : (file n es).children = .empty := rfl
@[simp] theorem children_symlink (t : JsString) : (symlink t).children = .empty := rfl

end InodeBody

/-! ### Indexed extent sets -/

/-- An ordered set of extents that removes an element by moving the last one into its place. -/
structure IndexedExtentSet where
  items : List Nat
  nodup : items.Nodup

namespace IndexedExtentSet

theorem ext_items {s t : IndexedExtentSet} (h : s.items = t.items) : s = t := by
  cases s; cases t; simpa using h

instance : DecidableEq IndexedExtentSet := fun s t =>
  decidable_of_iff (s.items = t.items) ⟨ext_items, fun h => by rw [h]⟩

def empty : IndexedExtentSet := ⟨[], List.nodup_nil⟩

def size (s : IndexedExtentSet) : Nat := s.items.length

def has (s : IndexedExtentSet) (extentId : Nat) : Bool := decide (extentId ∈ s.items)

def add (s : IndexedExtentSet) (extentId : Nat) : IndexedExtentSet :=
  if h : extentId ∈ s.items then s
  else ⟨s.items ++ [extentId], by
    rw [List.nodup_append]
    exact ⟨s.nodup, List.nodup_singleton _, fun x hx y hy hxy => h (by
      rw [List.mem_singleton] at hy; rwa [← hy, ← hxy])⟩⟩

/-- `pop()`, then the popped element takes the place of the removed one. -/
def deleteItems (items : List Nat) (extentId : Nat) : List Nat :=
  match items.getLast? with
  | none => items
  | some last =>
    if extentId ∈ items then
      if items.idxOf extentId < items.dropLast.length then
        items.dropLast.set (items.idxOf extentId) last
      else items.dropLast
    else items

theorem perm_cons_deleteItems {items : List Nat} {e : Nat} (h : e ∈ items) :
    items.Perm (e :: deleteItems items e) := by
  rcases items.eq_nil_or_concat with rfl | ⟨xs, last, rfl⟩
  · simp at h
  rw [List.concat_eq_append] at h ⊢
  simp only [deleteItems, List.getLast?_concat, if_pos h, List.dropLast_concat]
  by_cases hx : e ∈ xs
  · obtain ⟨l₁, l₂, rfl, hl⟩ := List.eq_append_cons_of_mem hx
    have hidx : (l₁ ++ e :: l₂ ++ [last]).idxOf e = l₁.length := by
      rw [List.append_assoc, List.idxOf_append_of_notMem hl]
      simp
    rw [hidx, if_pos (by simp), List.set_append_right _ _ (Nat.le_refl _), Nat.sub_self,
      List.set_cons_zero]
    have h1 : (l₁ ++ e :: l₂ ++ [last]).Perm (last :: (l₁ ++ e :: l₂)) :=
      List.perm_append_singleton _ _
    have h2 : (l₁ ++ e :: l₂).Perm (e :: (l₁ ++ l₂)) := List.perm_middle
    have h3 : (l₁ ++ last :: l₂).Perm (last :: (l₁ ++ l₂)) := List.perm_middle
    exact h1.trans ((h2.cons _).trans ((List.Perm.swap _ _ _).trans (h3.symm.cons _)))
  · have he : e = last := by
      rcases List.mem_append.mp h with h | h
      · exact absurd h hx
      · simpa using h
    subst he
    rw [List.idxOf_append_of_notMem hx, if_neg (by simp)]
    exact List.perm_append_singleton _ _

theorem deleteItems_of_not_mem {items : List Nat} {e : Nat} (h : e ∉ items) :
    deleteItems items e = items := by
  unfold deleteItems
  cases items.getLast? <;> simp [h]

theorem nodup_deleteItems {items : List Nat} (e : Nat) (h : items.Nodup) :
    (deleteItems items e).Nodup := by
  by_cases he : e ∈ items
  · exact (List.nodup_cons.mp ((perm_cons_deleteItems he).nodup_iff.mp h)).2
  · rwa [deleteItems_of_not_mem he]

def delete (s : IndexedExtentSet) (extentId : Nat) : IndexedExtentSet :=
  ⟨deleteItems s.items extentId, nodup_deleteItems extentId s.nodup⟩

/-- The last `count` elements, last first. -/
def peekLast (s : IndexedExtentSet) (count : Nat) : List Nat :=
  (s.items.drop (s.items.length - count)).reverse

@[simp] theorem mem_add {s : IndexedExtentSet} {e x : Nat} :
    x ∈ (s.add e).items ↔ x = e ∨ x ∈ s.items := by
  unfold add
  by_cases h : e ∈ s.items
  · rw [dif_pos h]
    exact ⟨.inr, fun hx => hx.elim (fun hxe => hxe ▸ h) id⟩
  · rw [dif_neg h, List.mem_append, List.mem_singleton]
    tauto

theorem size_add {s : IndexedExtentSet} {e : Nat} (h : e ∉ s.items) :
    (s.add e).size = s.size + 1 := by
  simp [add, h, size]

@[simp] theorem mem_delete {s : IndexedExtentSet} {e x : Nat} :
    x ∈ (s.delete e).items ↔ x ∈ s.items ∧ x ≠ e := by
  by_cases h : e ∈ s.items
  · have hp := perm_cons_deleteItems h
    have hn := List.nodup_cons.mp (hp.nodup_iff.mp s.nodup)
    rw [hp.mem_iff, List.mem_cons]
    change x ∈ deleteItems s.items e ↔ _
    constructor
    · intro hx
      exact ⟨.inr hx, fun hxe => hn.1 (hxe ▸ hx)⟩
    · rintro ⟨rfl | hx, hne⟩
      · exact absurd rfl hne
      · exact hx
  · change x ∈ deleteItems s.items e ↔ _
    rw [deleteItems_of_not_mem h]
    exact ⟨fun hx => ⟨hx, fun hxe => h (hxe ▸ hx)⟩, And.left⟩

theorem size_delete {s : IndexedExtentSet} {e : Nat} (h : e ∈ s.items) :
    (s.delete e).size + 1 = s.size := by
  have := (perm_cons_deleteItems h).length_eq
  simpa [size, delete] using this.symm

@[simp] theorem has_eq_true {s : IndexedExtentSet} {e : Nat} :
    s.has e = true ↔ e ∈ s.items := by simp [has]

@[simp] theorem items_empty : empty.items = [] := rfl

theorem mem_of_mem_peekLast {s : IndexedExtentSet} {n : Nat} {e : Nat}
    (h : e ∈ s.peekLast n) : e ∈ s.items :=
  List.mem_of_mem_drop (List.mem_reverse.mp h)

theorem length_peekLast {s : IndexedExtentSet} {n : Nat} (h : n ≤ s.size) :
    (s.peekLast n).length = n := by
  unfold size at h
  simp only [peekLast, List.length_reverse, List.length_drop]
  omega

theorem nodup_peekLast {s : IndexedExtentSet} (n : Nat) : (s.peekLast n).Nodup :=
  List.nodup_reverse.mpr (s.nodup.sublist (List.drop_sublist _ _))

end IndexedExtentSet

/-! ### The state -/

structure AllocatorState where
  totalExtents : Nat
  ownedBy : OrdMap Nat Nat
  available : IndexedExtentSet
  /-- The first generation that excludes the old owner; `none` until a repack tags it. -/
  quarantine : OrdMap Nat (Option Nat)
  deriving DecidableEq

/-- `Record<MetadataFile, bigint | null>` -/
structure RetainedGenerations where
  a : Option Nat
  b : Option Nat
  deriving DecidableEq

namespace RetainedGenerations

def get (r : RetainedGenerations) : MetadataFile → Option Nat
  | .a => r.a
  | .b => r.b

def set (r : RetainedGenerations) (file : MetadataFile) (g : Option Nat) : RetainedGenerations :=
  match file with
  | .a => { r with a := g }
  | .b => { r with b := g }

@[simp] theorem get_set_self (r : RetainedGenerations) (file : MetadataFile) (g : Option Nat) :
    (r.set file g).get file = g := by cases file <;> rfl

@[simp] theorem get_set_other (r : RetainedGenerations) (file : MetadataFile) (g : Option Nat) :
    (r.set file g).get (otherMetadataFile file) = r.get (otherMetadataFile file) := by
  cases file <;> rfl

end RetainedGenerations

structure ParentEntry where
  parentId : Nat
  name : JsString
  deriving DecidableEq

structure VfsState where
  generation : Nat
  nextInodeId : Nat
  rootInodeId : Nat
  extentSize : Nat
  activeMetadataFile : MetadataFile
  retainedGenerations : RetainedGenerations
  basePayloadBytes : Nat
  inodes : OrdMap Nat Inode
  parentByInode : OrdMap Nat ParentEntry
  allocator : AllocatorState
  deriving DecidableEq

/-! ### Transaction records -/

structure CreateDirectoryChoice where
  parentId : Nat
  name : JsString
  inodeId : Nat
  mode : Nat
  atimeMs : Nat
  mtimeMs : Nat
  ctimeMs : Nat
  deriving DecidableEq

structure ExtentRun where
  start : Nat
  count : Nat
  deriving DecidableEq

inductive ResizeOperation
  | truncate
  | write
  deriving DecidableEq

structure CreateFileRecord where
  parentId : Nat
  name : JsString
  inodeId : Nat
  mode : Nat
  atimeMs : Nat
  mtimeMs : Nat
  ctimeMs : Nat
  size : Nat
  extents : List ExtentRun
  deriving DecidableEq

/-- The fields of a `removeFile` and of a `removeDirectory` record. -/
structure RemoveRecord where
  parentId : Nat
  name : JsString
  parentMtimeMs : Nat
  parentCtimeMs : Nat
  deriving DecidableEq

structure ResizeFileRecord where
  operation : ResizeOperation
  inodeId : Nat
  size : Nat
  allocated : List ExtentRun
  mtimeMs : Nat
  ctimeMs : Nat
  deriving DecidableEq

structure RenameRecord where
  sourceParentId : Nat
  sourceName : JsString
  destinationParentId : Nat
  destinationName : JsString
  timestampMs : Nat
  deriving DecidableEq

structure CreateSymlinkRecord where
  parentId : Nat
  name : JsString
  inodeId : Nat
  mode : Nat
  atimeMs : Nat
  mtimeMs : Nat
  ctimeMs : Nat
  target : JsString
  deriving DecidableEq

inductive TxnRecord
  | createDirectories (entries : List CreateDirectoryChoice)
  | createFile (record : CreateFileRecord)
  | removeFile (record : RemoveRecord)
  | changeMode (inodeId : Nat) (mode ctimeMs : Nat)
  | changeTimes (inodeId : Nat) (atimeMs mtimeMs ctimeMs : Nat)
  | resizeFile (record : ResizeFileRecord)
  | removeDirectory (record : RemoveRecord)
  | rename (record : RenameRecord)
  | createSymlink (record : CreateSymlinkRecord)
  | reserveQuarantine (extents : List ExtentRun)
  deriving DecidableEq

end Opfs
