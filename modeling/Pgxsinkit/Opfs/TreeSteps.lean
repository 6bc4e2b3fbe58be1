/-
What the reducer's mutations do to the tree.

Each mutation is described once by its effect on the lookups (`modifyInode_get?`,
`linkNewInode_get?`, `unlinkInode_get?`, `moveEntry_get?`) and on the encoded size
of the inodes; that a mutation keeps the state sound is then the matching change of
a `NamedTree` and the books of the allocator.
-/
import Pgxsinkit.Opfs.Extents

namespace Opfs

open Checked RootedTree

/-! ### Mutating one inode -/

section ModifyInode

variable (state : VfsState) (key : Nat) (f : Inode → Inode)

theorem modifyInode_eq : modifyInode state key f =
    { state with inodes := (modifyInode state key f).inodes } := by
  unfold modifyInode
  cases state.inodes.get? key <;> rfl

@[simp] theorem modifyInode_parentByInode :
    (modifyInode state key f).parentByInode = state.parentByInode := by
  rw [modifyInode_eq]

@[simp] theorem modifyInode_allocator :
    (modifyInode state key f).allocator = state.allocator := by rw [modifyInode_eq]

@[simp] theorem modifyInode_rootInodeId :
    (modifyInode state key f).rootInodeId = state.rootInodeId := by rw [modifyInode_eq]

@[simp] theorem modifyInode_nextInodeId :
    (modifyInode state key f).nextInodeId = state.nextInodeId := by rw [modifyInode_eq]

@[simp] theorem modifyInode_extentSize :
    (modifyInode state key f).extentSize = state.extentSize := by rw [modifyInode_eq]

@[simp] theorem modifyInode_generation :
    (modifyInode state key f).generation = state.generation := by rw [modifyInode_eq]

@[simp] theorem modifyInode_activeMetadataFile :
    (modifyInode state key f).activeMetadataFile = state.activeMetadataFile := by
  rw [modifyInode_eq]

@[simp] theorem modifyInode_retainedGenerations :
    (modifyInode state key f).retainedGenerations = state.retainedGenerations := by
  rw [modifyInode_eq]

@[simp] theorem modifyInode_basePayloadBytes :
    (modifyInode state key f).basePayloadBytes = state.basePayloadBytes := by
  rw [modifyInode_eq]

@[simp] theorem modifyInode_get? (k : Nat) : (modifyInode state key f).inodes.get? k =
    (state.inodes.get? k).map fun inode => if k = key then f inode else inode := by
  unfold modifyInode
  cases h : state.inodes.get? key with
  | none =>
    by_cases hk : k = key
    · rw [hk, h]
      rfl
    · simp [hk]
  | some inode =>
    simp only [OrdMap.get?_set]
    by_cases hk : k = key
    · simp [hk, h]
    · simp [hk]

@[simp] theorem modifyInode_size : (modifyInode state key f).inodes.size = state.inodes.size := by
  unfold modifyInode
  cases h : state.inodes.get? key with
  | none => rfl
  | some inode => exact OrdMap.size_set_of_some h _

end ModifyInode

/-- The encoded size of the inodes. -/
def inodesBytes (state : VfsState) : Nat := state.inodes.sum fun _ inode => bodyBytes inode.body

theorem canonicalBaseBytes_eq (state : VfsState) :
    canonicalBaseBytes state =
      baseStateFixedBytes + inodesBytes state + unownedBytes state.allocator := by
  rw [canonicalBaseBytes, inodesBytes, unownedBytes, Nat.add_assoc _ (_ * 8)]

theorem inodesBytes_modifyInode {state : VfsState} {key : Nat} {f : Inode → Inode} {inode : Inode}
    (h : state.inodes.get? key = some inode) :
    inodesBytes (modifyInode state key f) + bodyBytes inode.body =
      inodesBytes state + bodyBytes (f inode).body := by
  unfold modifyInode inodesBytes
  rw [h]
  exact OrdMap.sum_set_of_some h _ _

/-- A mutation that leaves the body alone leaves the encoded size alone. -/
theorem inodesBytes_touch {state : VfsState} {key : Nat} {f : Inode → Inode}
    (hf : ∀ inode, (f inode).body = inode.body) :
    inodesBytes (modifyInode state key f) = inodesBytes state := by
  cases h : state.inodes.get? key with
  | none => unfold modifyInode; rw [h]
  | some inode =>
    have := inodesBytes_modifyInode (f := f) h
    rw [hf] at this
    omega

namespace Inode

variable (g : OrdMap JsString Nat → OrdMap JsString Nat) (inode : Inode)

@[simp] theorem mapChildren_id : (inode.mapChildren g).id = inode.id := by
  unfold mapChildren; split <;> rfl

@[simp] theorem mapChildren_mode : (inode.mapChildren g).mode = inode.mode := by
  unfold mapChildren; split <;> rfl

@[simp] theorem mapChildren_atimeMs : (inode.mapChildren g).atimeMs = inode.atimeMs := by
  unfold mapChildren; split <;> rfl

@[simp] theorem mapChildren_mtimeMs : (inode.mapChildren g).mtimeMs = inode.mtimeMs := by
  unfold mapChildren; split <;> rfl

@[simp] theorem mapChildren_ctimeMs : (inode.mapChildren g).ctimeMs = inode.ctimeMs := by
  unfold mapChildren; split <;> rfl

theorem mapChildren_of_directory {children : OrdMap JsString Nat}
    (h : inode.body = .directory children) :
    (inode.mapChildren g).body = .directory (g children) := by
  unfold mapChildren; rw [h]

theorem mapChildren_of_not_directory (h : inode.body.isDirectory = false) :
    inode.mapChildren g = inode := by
  unfold mapChildren
  split
  · rename_i hb
    rw [hb] at h
    cases h
  · rfl

@[simp] theorem mapChildren_isDirectory :
    (inode.mapChildren g).body.isDirectory = inode.body.isDirectory := by
  unfold mapChildren
  split
  · rename_i hb
    rw [hb]
    rfl
  · rfl

@[simp] theorem mapChildren_extents :
    (inode.mapChildren g).body.extents = inode.body.extents := by
  unfold mapChildren
  split
  · rename_i hb
    rw [hb]
    rfl
  · rfl

end Inode

/-- A body that is no directory is decided by the kind alone. -/
theorem InodeBody.children_of_not_directory {body : InodeBody} (h : body.isDirectory = false) :
    body.children = .empty := by
  cases body <;> first | rfl | cases h

theorem InodeBody.eq_directory {body : InodeBody} (h : body.isDirectory = true) :
    body = .directory body.children := by
  cases body <;> first | rfl | cases h

/-- An inode with an entry is a directory. -/
theorem InodeBody.isDirectory_of_entry {body : InodeBody} {name : JsString} {c : Nat}
    (h : body.children.get? name = some c) : body.isDirectory = true := by
  by_contra hd
  rw [children_of_not_directory (by simpa using hd)] at h
  cases h

theorem get?_mapChildren_delete {inode : Inode} {name n : JsString} :
    (inode.mapChildren (·.delete name)).body.children.get? n =
      if n = name then none else inode.body.children.get? n := by
  cases hd : inode.body.isDirectory with
  | true =>
    have hb := InodeBody.eq_directory hd
    rw [Inode.mapChildren_of_directory _ _ hb]
    exact OrdMap.get?_delete _ _ _
  | false =>
    rw [Inode.mapChildren_of_not_directory _ _ hd, InodeBody.children_of_not_directory hd]
    split <;> rfl

theorem get?_mapChildren_set {inode : Inode} (hd : inode.body.isDirectory = true)
    {name n : JsString} {c : Nat} :
    (inode.mapChildren (·.set name c)).body.children.get? n =
      if n = name then some c else inode.body.children.get? n := by
  rw [Inode.mapChildren_of_directory _ _ (InodeBody.eq_directory hd)]
  exact OrdMap.get?_set _ _ _ _

theorem bodyBytes_mapChildren_delete {inode : Inode} {name : JsString} {c : Nat}
    (h : inode.body.children.get? name = some c) :
    bodyBytes (inode.mapChildren (·.delete name)).body + entryBytes name =
      bodyBytes inode.body := by
  have hb := InodeBody.eq_directory (InodeBody.isDirectory_of_entry h)
  rw [Inode.mapChildren_of_directory _ _ hb, hb, bodyBytes, bodyBytes]
  have := OrdMap.sum_delete_of_some h fun name _ => entryBytes name
  simp only [InodeBody.children_directory]
  omega

theorem bodyBytes_mapChildren_set {inode : Inode} {name : JsString} {c : Nat}
    (hd : inode.body.isDirectory = true) (h : inode.body.children.get? name = none) :
    bodyBytes (inode.mapChildren (·.set name c)).body =
      bodyBytes inode.body + entryBytes name := by
  have hb := InodeBody.eq_directory hd
  rw [Inode.mapChildren_of_directory _ _ hb, hb, bodyBytes, bodyBytes]
  have := OrdMap.sum_set_of_none h c fun name _ => entryBytes name
  simp only [InodeBody.children_directory]
  omega

/-! ### Inodes under a mutation -/

/-- Everything `InodeOk` reads of the state. -/
theorem InodeOk.mono {state state' : VfsState} {key : Nat} {inode : Inode}
    (h : InodeOk state key inode) (hnext : state.nextInodeId ≤ state'.nextInodeId)
    (hes : state'.extentSize = state.extentSize) : InodeOk state' key inode :=
  { h with
    lt_next := Nat.lt_of_lt_of_le h.lt_next hnext
    file := fun size extents hb => by rw [hes]; exact h.file size extents hb }

/-- New timestamps within bounds. -/
theorem InodeOk.touch {state : VfsState} {key : Nat} {inode inode' : Inode}
    (h : InodeOk state key inode) (hid : inode'.id = inode.id) (hbody : inode'.body = inode.body)
    (hmode : inode'.mode ≤ maxU32) (ha : inode'.atimeMs ≤ maxU64) (hm : inode'.mtimeMs ≤ maxU64)
    (hc : inode'.ctimeMs ≤ maxU64) : InodeOk state key inode' where
  id_eq := hid.trans h.id_eq
  lt_next := h.lt_next
  mode := hmode
  atime := ha
  mtime := hm
  ctime := hc
  names := by rw [hbody]; exact h.names
  target := by rw [hbody]; exact h.target
  file := by rw [hbody]; exact h.file

theorem InodeOk.mapChildren {state : VfsState} {key : Nat} {inode : Inode}
    {g : OrdMap JsString Nat → OrdMap JsString Nat} (h : InodeOk state key inode)
    (hnames : ∀ children, inode.body = .directory children → ∀ name c,
      (g children).get? name = some c → ValidComponent name) :
    InodeOk state key (inode.mapChildren g) := by
  cases hd : inode.body.isDirectory with
  | true =>
    have hb := InodeBody.eq_directory hd
    have hb' := Inode.mapChildren_of_directory g inode hb
    refine ⟨by simpa using h.id_eq, h.lt_next, by simpa using h.mode, by simpa using h.atime,
      by simpa using h.mtime, by simpa using h.ctime, ?_, ?_, ?_⟩ <;> rw [hb']
    · exact hnames _ hb
    · exact nofun
    · exact nofun
  | false =>
    rw [Inode.mapChildren_of_not_directory _ _ hd]
    exact h

theorem InodeOk.mapChildren_delete {state : VfsState} {key : Nat} {inode : Inode}
    (h : InodeOk state key inode) (name : JsString) :
    InodeOk state key (inode.mapChildren (·.delete name)) :=
  h.mapChildren fun children hb n c hc => by
    rw [OrdMap.get?_delete] at hc
    split at hc
    · cases hc
    · exact h.names n c (by rw [hb]; exact hc)

theorem InodeOk.mapChildren_set {state : VfsState} {key : Nat} {inode : Inode}
    (h : InodeOk state key inode) {name : JsString} (hname : ValidComponent name) (id : Nat) :
    InodeOk state key (inode.mapChildren (·.set name id)) :=
  h.mapChildren fun children hb n c hc => by
    rw [OrdMap.get?_set] at hc
    split at hc
    · rename_i hn
      exact hn ▸ hname
    · exact h.names n c (by rw [hb]; exact hc)

/-- Two states with the same inodes and parent index have the same tree. -/
theorem TreeOk.congr {state state' : VfsState} (h : TreeOk state)
    (hroot : state'.rootInodeId = state.rootInodeId) (hin : state'.inodes = state.inodes)
    (hpar : state'.parentByInode = state.parentByInode) : TreeOk state' := by
  obtain ⟨hdir, hnamed⟩ := h
  have hP : Present state' = Present state := by unfold Present; rw [hin]
  have hC : childOf state' = childOf state := by unfold childOf; rw [hin]
  have hR : parentOf state' = parentOf state := by unfold parentOf; rw [hpar]
  refine ⟨by rw [hroot, hin]; exact hdir, ?_⟩
  rw [hroot, hP, hC, hR]
  exact hnamed

/-- The fields that no record changes. -/
structure SameFrame (state state' : VfsState) : Prop where
  extentSize : state'.extentSize = state.extentSize
  generation : state'.generation = state.generation
  root : state'.rootInodeId = state.rootInodeId
  active : state'.activeMetadataFile = state.activeMetadataFile
  retained : state'.retainedGenerations = state.retainedGenerations

theorem SameFrame.trans {s s' s'' : VfsState} (h : SameFrame s s') (h' : SameFrame s' s'') :
    SameFrame s s'' :=
  ⟨h'.1.trans h.1, h'.2.trans h.2, h'.3.trans h.3, h'.4.trans h.4, h'.5.trans h.5⟩

theorem sameFrame_modifyInode (state : VfsState) (key : Nat) (f : Inode → Inode) :
    SameFrame state (modifyInode state key f) := ⟨by simp, by simp, by simp, by simp, by simp⟩

/-- The four fields that records change are no part of the frame. -/
theorem SameFrame.update {s s' : VfsState} (h : SameFrame s s') (next : Nat)
    (inodes : OrdMap Nat Inode) (parents : OrdMap Nat ParentEntry) (a : AllocatorState) :
    SameFrame s { s' with
      nextInodeId := next, inodes := inodes, parentByInode := parents, allocator := a } :=
  ⟨h.1, h.2, h.3, h.4, h.5⟩

/-- A state with the same frame is sound when its inodes, tree and books are. -/
theorem Sound.of_frame {state state' : VfsState} (h : Sound state) (hf : SameFrame state state')
    (hnext : state'.nextInodeId ≤ maxU64) (hsize : state'.inodes.size ≤ maxInodes)
    (hinodes : ∀ id inode, state'.inodes.get? id = some inode → InodeOk state' id inode)
    (htree : TreeOk state') (hbooks : Allocated (Owns state') state'.allocator)
    (hnd : ∀ id inode, state'.inodes.get? id = some inode → inode.body.extents.Nodup)
    (htotal : state'.allocator.totalExtents ≤ maxTotalExtents)
    (htags : TagsFrom state.allocator state'.allocator) : Sound state' where
  extentSize := hf.extentSize ▸ h.extentSize
  generation_pos := hf.generation ▸ h.generation_pos
  generation_le := hf.generation ▸ h.generation_le
  next_le := hnext
  inodes_le := hsize
  inodes := hinodes
  tree := htree
  alloc := ⟨hbooks, hnd, htotal, fun e tag ht => by
    rw [hf.generation]
    exact (htags e tag ht).elim .inl (h.alloc.tags e tag)⟩
  retained_active := by rw [hf.retained, hf.active, hf.generation]; exact h.retained_active
  retained_inactive := fun g hg => by
    rw [hf.retained, hf.active] at hg
    rw [hf.generation]
    exact h.retained_inactive g hg

/-! ### Linking a new inode -/

theorem linkNewInode_get? (state : VfsState) (p : Nat) (parent : Inode) (name : JsString)
    (inode : Inode) (next k : Nat) :
    (linkNewInode state p parent name inode next).inodes.get? k =
      if k = inode.id then some inode
      else (state.inodes.get? k).map fun i =>
        if k = p then i.mapChildren (·.set name inode.id) else i := by
  simp only [linkNewInode, OrdMap.get?_set, modifyInode_get?]

/-- What a record must have checked before it may link a new inode. -/
structure Linkable (state : VfsState) (p : Nat) (parent : Inode) (name : JsString)
    (inode : Inode) : Prop where
  owner : state.inodes.get? p = some parent
  dir : parent.body.isDirectory = true
  free : parent.body.children.get? name = none
  name : ValidComponent name
  id_eq : inode.id = state.nextInodeId
  leaf : inode.body.children = .empty

namespace Linkable

variable {state : VfsState} {p : Nat} {parent : Inode} {name : JsString} {inode : Inode}
  (hl : Linkable state p parent name inode)
include hl

theorem fresh (h : Sound state) : state.inodes.get? inode.id = none := by
  by_contra hne
  obtain ⟨i, hi⟩ := Option.ne_none_iff_exists'.mp hne
  have := (h.inodes _ _ hi).lt_next
  rw [hl.id_eq] at this
  exact Nat.lt_irrefl _ this

theorem owner_ne (h : Sound state) : p ≠ inode.id := by
  rintro rfl
  have := hl.owner
  rw [hl.fresh h] at this
  cases this

theorem linked (h : Sound state) (next : Nat) :
    NamedTree.Linked (Present state) (childOf state) (parentOf state) p name inode.id
      (Present (linkNewInode state p parent name inode next))
      (childOf (linkNewInode state p parent name inode next))
      (parentOf (linkNewInode state p parent name inode next)) := by
  have hfresh := hl.fresh h
  have hne := hl.owner_ne h
  have hid := (h.inodes _ _ hl.owner).id_eq
  refine ⟨fun ⟨i, hi⟩ => ?_, ⟨parent, hl.owner⟩, ?_, fun k => ?_, ?_, fun q n hqn => ?_, ?_,
    fun k hk => ?_⟩
  · rw [hfresh] at hi
    cases hi
  · rw [childOf, hl.owner]
    exact hl.free
  · simp only [Present, linkNewInode_get?]
    by_cases hk : k = inode.id
    · simp [hk]
    · simp [hk]
  · rw [childOf, linkNewInode_get?, if_neg hne, hl.owner]
    simp only [Option.map_some, if_true, Option.bind_some, get?_mapChildren_set hl.dir]
  · rw [childOf, childOf, linkNewInode_get?]
    by_cases hq : q = inode.id
    · rw [if_pos hq, hq, hfresh]
      simp [hl.leaf]
    · rw [if_neg hq]
      by_cases hqp : q = p
      · have hn : n ≠ name := fun hn => hqn ⟨hqp, hn⟩
        rw [hqp, hl.owner]
        simp only [Option.map_some, if_true, Option.bind_some, get?_mapChildren_set hl.dir,
          if_neg hn]
      · simp [hqp]
  · rw [parentOf_eq_some]
    simp only [linkNewInode, modifyInode_parentByInode, OrdMap.get?_set_self, hid]
  · simp only [parentOf, linkNewInode, modifyInode_parentByInode, OrdMap.get?_set_ne _ _ hk]

theorem size (h : Sound state) (next : Nat) :
    (linkNewInode state p parent name inode next).inodes.size = state.inodes.size + 1 := by
  have hf : (modifyInode state p (Inode.mapChildren (·.set name inode.id))).inodes.get?
      inode.id = none := by rw [modifyInode_get?, hl.fresh h]; rfl
  rw [← modifyInode_size state p (Inode.mapChildren (·.set name inode.id))]
  exact OrdMap.size_set_of_none hf _

theorem bytes (h : Sound state) (next : Nat) :
    inodesBytes (linkNewInode state p parent name inode next) =
      inodesBytes state + entryBytes name + bodyBytes inode.body := by
  have hf : (modifyInode state p (Inode.mapChildren (·.set name inode.id))).inodes.get?
      inode.id = none := by rw [modifyInode_get?, hl.fresh h]; rfl
  have h1 := OrdMap.sum_set_of_none hf inode fun _ i => bodyBytes i.body
  have h2 := inodesBytes_modifyInode (f := Inode.mapChildren (·.set name inode.id)) hl.owner
  rw [bodyBytes_mapChildren_set hl.dir hl.free] at h2
  simp only [inodesBytes, linkNewInode] at h1 h2 ⊢
  omega

/-- The only new path is that of the new inode. -/
theorem path (h : Sound state) (next : Nat) {id : Nat} {path : List JsString}
    (hp : PathTo (linkNewInode state p parent name inode next) id path) :
    PathTo state id path ∨
      ∃ pp, PathTo state p pp ∧ id = inode.id ∧ path = pp ++ [name] := by
  have hroot : (linkNewInode state p parent name inode next).rootInodeId = state.rootInodeId := by
    simp only [linkNewInode, modifyInode_rootInodeId]
  rw [PathTo, hroot] at hp
  exact h.tree.named.path_linked (hl.linked h next) hp

theorem owns (h : Sound state) (next : Nat) {i e : Nat} :
    Owns (linkNewInode state p parent name inode next) i e ↔
      Owns state i e ∨ i = inode.id ∧ e ∈ inode.body.extents := by
  simp only [Owns, linkNewInode_get?]
  by_cases hi : i = inode.id
  · subst hi
    simp [hl.fresh h]
  · simp only [hi, if_false, false_and, or_false, Option.map_eq_some_iff]
    constructor
    · rintro ⟨_, ⟨j, hj, rfl⟩, he⟩
      refine ⟨j, hj, ?_⟩
      split at he
      · simpa using he
      · exact he
    · rintro ⟨j, hj, he⟩
      refine ⟨_, ⟨j, hj, rfl⟩, ?_⟩
      split
      · simpa using he
      · exact he

end Linkable

/-- Linking a new inode into a sound state, with the allocator that accounts for what the
inode owns. -/
theorem Sound.link {state : VfsState} (h : Sound state) {p : Nat} {parent : Inode}
    {name : JsString} {inode : Inode} (hl : Linkable state p parent name inode) {next : Nat}
    (hnext : next = state.nextInodeId + 1) (hle : next ≤ maxU64)
    (hsize : state.inodes.size < maxInodes) {a : AllocatorState}
    (hinode : InodeOk { state with nextInodeId := next } inode.id inode)
    (hnd : inode.body.extents.Nodup)
    (hbooks : Allocated (fun i e => Owns state i e ∨ i = inode.id ∧ e ∈ inode.body.extents) a)
    (htotal : a.totalExtents ≤ maxTotalExtents) (htags : TagsFrom state.allocator a) :
    Sound { linkNewInode state p parent name inode next with allocator := a } := by
  have hget := linkNewInode_get? state p parent name inode next
  have hframe : SameFrame state { linkNewInode state p parent name inode next with
      allocator := a } := (sameFrame_modifyInode _ _ _).update _ _ _ _
  refine h.of_frame hframe hle (by rw [hl.size h next]; exact hsize) (fun id i hi => ?_) ?_
    (hbooks.congr fun i e => (hl.owns h next).symm) (fun id i hi => ?_) htotal htags
  · rw [hget] at hi
    split at hi
    · rename_i hid
      cases hi
      rw [hid]
      exact hinode.mono (Nat.le_refl _) hframe.extentSize
    · obtain ⟨j, hj, rfl⟩ := Option.map_eq_some_iff.mp hi
      have hmono : InodeOk { linkNewInode state p parent name inode next with allocator := a }
          id j := (h.inodes id j hj).mono (by rw [hnext]; exact Nat.le_succ _) hframe.extentSize
      split
      · exact hmono.mapChildren_set hl.name _
      · exact hmono
  · refine @TreeOk.congr (linkNewInode state p parent name inode next) _ ⟨?_, ?_⟩ rfl rfl rfl
    · obtain ⟨root, hr, hd⟩ := h.tree.root_dir
      have hrne : state.rootInodeId ≠ inode.id := fun he => by
        rw [he, hl.fresh h] at hr
        cases hr
      rw [hframe.root, hget, if_neg hrne, hr]
      refine ⟨_, rfl, ?_⟩
      split
      · simpa using hd
      · exact hd
    · rw [hframe.root]
      exact h.tree.named.linked (hl.linked h next)
  · rw [hget] at hi
    split at hi
    · cases hi
      exact hnd
    · obtain ⟨j, hj, rfl⟩ := Option.map_eq_some_iff.mp hi
      have := h.alloc.extents_nodup id j hj
      split
      · simpa using this
      · exact this

/-! ### Changing one inode in place -/

theorem parentOf_modifyInode (state : VfsState) (key : Nat) (f : Inode → Inode) :
    parentOf (modifyInode state key f) = parentOf state := by
  funext k
  simp only [parentOf, modifyInode_parentByInode]

/-- Changing an inode without touching its entries. -/
structure Editable (state : VfsState) (key : Nat) (f : Inode → Inode) (inode : Inode) : Prop where
  found : state.inodes.get? key = some inode
  dir : (f inode).body.isDirectory = inode.body.isDirectory
  children : (f inode).body.children = inode.body.children

namespace Editable

variable {state : VfsState} {key : Nat} {f : Inode → Inode} {inode : Inode}
  (he : Editable state key f inode)
include he

theorem get?_eq {k : Nat} {i : Inode}
    (hi : (modifyInode state key f).inodes.get? k = some i) :
    k = key ∧ i = f inode ∨ k ≠ key ∧ state.inodes.get? k = some i := by
  rw [modifyInode_get?] at hi
  by_cases hk : k = key
  · rw [hk, he.found] at hi
    simp only [Option.map_some, if_true, Option.some.injEq] at hi
    exact .inl ⟨hk, hi.symm⟩
  · simp only [hk, if_false, Option.map_id'] at hi
    exact .inr ⟨hk, hi⟩

omit he in
theorem present : Present (modifyInode state key f) = Present state := by
  funext k
  simp only [Present, modifyInode_get?]
  cases state.inodes.get? k <;> simp

theorem childOf_eq : childOf (modifyInode state key f) = childOf state := by
  funext k n
  simp only [childOf, modifyInode_get?]
  by_cases hk : k = key
  · rw [hk, he.found]
    simp [he.children]
  · simp [hk]

theorem treeOk (h : TreeOk state) : TreeOk (modifyInode state key f) := by
  refine ⟨?_, ?_⟩
  · obtain ⟨root, hr, hd⟩ := h.root_dir
    rw [modifyInode_rootInodeId, modifyInode_get?, hr]
    refine ⟨_, rfl, ?_⟩
    split
    · rename_i hk
      rw [hk, he.found] at hr
      cases hr
      rw [he.dir, hd]
    · exact hd
  · rw [modifyInode_rootInodeId, present, he.childOf_eq, parentOf_modifyInode]
    exact h.named

theorem owns {i e : Nat} : Owns (modifyInode state key f) i e ↔
    if i = key then e ∈ (f inode).body.extents else Owns state i e := by
  unfold Owns
  split
  · rename_i hi
    rw [hi, modifyInode_get?, he.found]
    simp
  · rename_i hi
    simp [hi]

end Editable

theorem Sound.edit {state : VfsState} (h : Sound state) {key : Nat} {f : Inode → Inode}
    {inode : Inode} (he : Editable state key f inode) (hok : InodeOk state key (f inode))
    (hnd : (f inode).body.extents.Nodup) {a : AllocatorState}
    (hbooks : Allocated
      (fun i e => if i = key then e ∈ (f inode).body.extents else Owns state i e) a)
    (htotal : a.totalExtents ≤ maxTotalExtents) (htags : TagsFrom state.allocator a) :
    Sound { modifyInode state key f with allocator := a } := by
  have hframe : SameFrame state { modifyInode state key f with allocator := a } :=
    (sameFrame_modifyInode _ _ _).update _ _ _ _
  have hnext : (modifyInode state key f).nextInodeId = state.nextInodeId := by simp
  refine h.of_frame hframe (hnext ▸ h.next_le)
    (by rw [modifyInode_size]; exact h.inodes_le) (fun id i hi => ?_)
    ((he.treeOk h.tree).congr rfl rfl rfl) (hbooks.congr fun i e => he.owns.symm)
    (fun id i hi => ?_) htotal htags
  · rcases he.get?_eq hi with ⟨rfl, rfl⟩ | ⟨-, hi⟩
    · exact hok.mono (Nat.le_of_eq hnext.symm) hframe.extentSize
    · exact (h.inodes id i hi).mono (Nat.le_of_eq hnext.symm) hframe.extentSize
  · rcases he.get?_eq hi with ⟨rfl, rfl⟩ | ⟨-, hi⟩
    · exact hnd
    · exact h.alloc.extents_nodup id i hi

/-- A change of mode or times keeps the state sound. -/
theorem Sound.touch {state : VfsState} (h : Sound state) {key : Nat} {f : Inode → Inode}
    (hf : ∀ inode, state.inodes.get? key = some inode →
      (f inode).body = inode.body ∧ InodeOk state key (f inode)) :
    Sound (modifyInode state key f) := by
  cases hi : state.inodes.get? key with
  | none =>
    unfold modifyInode
    rw [hi]
    exact h
  | some inode =>
    obtain ⟨hbody, hok⟩ := hf inode hi
    have he : Editable state key f inode := ⟨hi, by rw [hbody], by rw [hbody]⟩
    have := h.edit he hok (a := state.allocator) (by
        rw [hbody]; exact h.alloc.extents_nodup key inode hi)
      (h.alloc.toAllocated.congr fun i e => ?_) h.alloc.total (.refl _)
    · rwa [← modifyInode_allocator state key f] at this
    · split
      · rename_i hik
        rw [hik, hbody, Owns]
        simp [hi]
      · rfl

/-! ### Unlinking a leaf -/

/-- What a record must have checked before it may remove an inode. -/
structure Unlinkable (state : VfsState) (p : Nat) (parent : Inode) (name : JsString) (c : Nat)
    (inode : Inode) : Prop where
  owner : state.inodes.get? p = some parent
  entry : parent.body.children.get? name = some c
  found : state.inodes.get? c = some inode
  leaf : ∀ n, inode.body.children.get? n = none

theorem unlinkInode_get? (state : VfsState) (p : Nat) (name : JsString) (c m ct k : Nat) :
    (unlinkInode state p name c m ct).inodes.get? k =
      if k = c then none
      else (state.inodes.get? k).map fun i =>
        if k = p then { i.mapChildren (·.delete name) with mtimeMs := m, ctimeMs := ct } else i := by
  simp only [unlinkInode, OrdMap.get?_delete, modifyInode_get?]

namespace Unlinkable

variable {state : VfsState} {p : Nat} {parent : Inode} {name : JsString} {c : Nat} {inode : Inode}
  (hu : Unlinkable state p parent name c inode)
include hu

theorem ne_root (h : Sound state) : state.rootInodeId ≠ c :=
  (h.tree.named.ne_root (childOf_eq_some.mpr ⟨parent, hu.owner, hu.entry⟩)).symm

theorem owner_ne : p ≠ c := by
  rintro rfl
  have h := hu.owner
  rw [hu.found] at h
  cases h
  have := hu.entry
  rw [hu.leaf] at this
  cases this

theorem unlinked (m ct : Nat) :
    NamedTree.Unlinked (Present state) (childOf state) (parentOf state) p name c
      (Present (unlinkInode state p name c m ct)) (childOf (unlinkInode state p name c m ct))
      (parentOf (unlinkInode state p name c m ct)) := by
  refine ⟨childOf_eq_some.mpr ⟨parent, hu.owner, hu.entry⟩, fun n => ?_, fun k => ?_, ?_,
    fun q n hqn => ?_, ?_, fun k hk => ?_⟩
  · rw [childOf, hu.found]
    exact hu.leaf n
  · simp only [Present, unlinkInode_get?]
    by_cases hk : k = c
    · simp [hk]
    · simp [hk]
  · rw [childOf, unlinkInode_get?, if_neg hu.owner_ne, hu.owner]
    simp only [Option.map_some, if_true, Option.bind_some]
    rw [get?_mapChildren_delete, if_pos rfl]
  · rw [childOf, childOf, unlinkInode_get?]
    by_cases hq : q = c
    · rw [if_pos hq, hq, hu.found]
      exact (hu.leaf n).symm
    · rw [if_neg hq]
      by_cases hqp : q = p
      · have hn : n ≠ name := fun hn => hqn ⟨hqp, hn⟩
        rw [hqp, hu.owner]
        simp only [Option.map_some, if_true, Option.bind_some]
        rw [get?_mapChildren_delete, if_neg hn]
      · simp [hqp]
  · rw [parentOf_eq_none]
    simp only [unlinkInode, OrdMap.get?_delete_self]
  · simp only [parentOf, unlinkInode, modifyInode_parentByInode, OrdMap.get?_delete_ne _ hk]

theorem size (m ct : Nat) :
    (unlinkInode state p name c m ct).inodes.size + 1 = state.inodes.size := by
  have hf : ∃ i, (modifyInode state p fun parent =>
      { parent.mapChildren (·.delete name) with mtimeMs := m, ctimeMs := ct }).inodes.get? c =
        some i := by
    rw [modifyInode_get?, hu.found]
    exact ⟨_, rfl⟩
  obtain ⟨i, hi⟩ := hf
  have := OrdMap.size_delete_of_some hi
  rw [modifyInode_size] at this
  exact this

theorem bytes (m ct : Nat) :
    inodesBytes (unlinkInode state p name c m ct) + entryBytes name + bodyBytes inode.body =
      inodesBytes state := by
  have hf : (modifyInode state p fun parent =>
      { parent.mapChildren (·.delete name) with mtimeMs := m, ctimeMs := ct }).inodes.get? c =
        some inode := by
    rw [modifyInode_get?, hu.found]
    simp [hu.owner_ne.symm]
  have h1 := OrdMap.sum_delete_of_some hf fun _ i => bodyBytes i.body
  have h2 := inodesBytes_modifyInode (f := fun parent : Inode =>
    { parent.mapChildren (·.delete name) with mtimeMs := m, ctimeMs := ct }) hu.owner
  have h3 := bodyBytes_mapChildren_delete hu.entry
  simp only [inodesBytes, unlinkInode] at h1 h2 ⊢
  omega

theorem path {m ct id : Nat} {path : List JsString}
    (hp : PathTo (unlinkInode state p name c m ct) id path) : PathTo state id path := by
  have hroot : (unlinkInode state p name c m ct).rootInodeId = state.rootInodeId := by
    simp only [unlinkInode, modifyInode_rootInodeId]
  rw [PathTo, hroot] at hp
  exact NamedTree.path_unlinked (hu.unlinked m ct) hp

theorem owns (h : Sound state) {m ct i e : Nat} :
    Owns (unlinkInode state p name c m ct) i e ↔ Owns state i e ∧ e ∉ inode.body.extents := by
  have hc : Owns state c e ↔ e ∈ inode.body.extents := by
    rw [Owns]
    simp [hu.found]
  have hdis : i ≠ c → Owns state i e → e ∉ inode.body.extents := fun hi ho hmem => by
    have h1 := (h.alloc.owned_iff e i).mpr ho
    rw [(h.alloc.owned_iff e c).mpr (hc.mpr hmem)] at h1
    exact hi (Option.some.inj h1).symm
  by_cases hi : i = c
  · subst hi
    rw [hc]
    simp [Owns, unlinkInode_get?]
  · have : Owns (unlinkInode state p name c m ct) i e ↔ Owns state i e := by
      simp only [Owns, unlinkInode_get?, if_neg hi, Option.map_eq_some_iff]
      constructor
      · rintro ⟨_, ⟨j, hj, rfl⟩, he⟩
        refine ⟨j, hj, ?_⟩
        split at he
        · simpa using he
        · exact he
      · rintro ⟨j, hj, he⟩
        refine ⟨_, ⟨j, hj, rfl⟩, ?_⟩
        split
        · simpa using he
        · exact he
    rw [this, and_iff_left_of_imp (hdis hi)]

end Unlinkable

theorem Sound.unlink {state : VfsState} (h : Sound state) {p : Nat} {parent : Inode}
    {name : JsString} {c : Nat} {inode : Inode} (hu : Unlinkable state p parent name c inode)
    {m ct : Nat} (hm : m ≤ maxU64) (hct : ct ≤ maxU64) {a : AllocatorState}
    (hbooks : Allocated (fun i e => Owns state i e ∧ e ∉ inode.body.extents) a)
    (htotal : a.totalExtents ≤ maxTotalExtents) (htags : TagsFrom state.allocator a) :
    Sound { unlinkInode state p name c m ct with allocator := a } := by
  have hframe : SameFrame state { unlinkInode state p name c m ct with allocator := a } :=
    (sameFrame_modifyInode _ _ _).update _ _ _ _
  have hnext : (unlinkInode state p name c m ct).nextInodeId = state.nextInodeId := by
    simp only [unlinkInode, modifyInode_nextInodeId]
  have hsize := hu.size m ct
  have hget : ∀ {id i}, (unlinkInode state p name c m ct).inodes.get? id = some i →
      ∃ j, state.inodes.get? id = some j ∧ i = if id = p then
        { j.mapChildren (·.delete name) with mtimeMs := m, ctimeMs := ct } else j := by
    intro id i hi
    rw [unlinkInode_get?] at hi
    split at hi
    · cases hi
    · obtain ⟨j, hj, rfl⟩ := Option.map_eq_some_iff.mp hi
      exact ⟨j, hj, rfl⟩
  refine h.of_frame hframe (hnext ▸ h.next_le)
    (Nat.le_trans (Nat.le_trans (Nat.le_succ _) (Nat.le_of_eq hsize)) h.inodes_le)
    (fun id i hi => ?_) ?_
    (hbooks.congr fun i e => (hu.owns h).symm) (fun id i hi => ?_) htotal htags
  · obtain ⟨j, hj, rfl⟩ := hget hi
    have hmono : InodeOk { unlinkInode state p name c m ct with allocator := a } id j :=
      (h.inodes id j hj).mono (Nat.le_of_eq hnext.symm) hframe.extentSize
    split
    · have hd := hmono.mapChildren_delete name
      exact hd.touch rfl rfl hd.mode hd.atime hm hct
    · exact hmono
  · refine @TreeOk.congr (unlinkInode state p name c m ct) _ ⟨?_, ?_⟩ rfl rfl rfl
    · obtain ⟨root, hr, hd⟩ := h.tree.root_dir
      rw [hframe.root, unlinkInode_get?, if_neg (hu.ne_root h), hr]
      refine ⟨_, rfl, ?_⟩
      split
      · simpa using hd
      · exact hd
    · rw [hframe.root]
      exact h.tree.named.unlinked (hu.unlinked m ct)
  · obtain ⟨j, hj, rfl⟩ := hget hi
    have := h.alloc.extents_nodup id j hj
    split
    · simpa using this
    · exact this

/-! ### Moving an entry -/

theorem inodesBytes_dropEntry {state : VfsState} {p c : Nat} {name : JsString}
    (h : childOf state p name = some c) :
    inodesBytes (modifyInode state p (Inode.mapChildren (·.delete name))) + entryBytes name =
      inodesBytes state := by
  obtain ⟨parent, hp, hc⟩ := childOf_eq_some.mp h
  have h1 := inodesBytes_modifyInode (f := Inode.mapChildren (·.delete name)) hp
  have h2 := bodyBytes_mapChildren_delete hc
  omega

theorem inodesBytes_addEntry {state : VfsState} {p c : Nat} {name : JsString} {parent : Inode}
    (hp : state.inodes.get? p = some parent) (hd : parent.body.isDirectory = true)
    (h : parent.body.children.get? name = none) :
    inodesBytes (modifyInode state p (Inode.mapChildren (·.set name c))) =
      inodesBytes state + entryBytes name := by
  have h1 := inodesBytes_modifyInode (f := Inode.mapChildren (·.set name c)) hp
  rw [bodyBytes_mapChildren_set hd h] at h1
  omega

theorem childOf_dropEntry (state : VfsState) (p q : Nat) (name n : JsString) :
    childOf (modifyInode state p (Inode.mapChildren (·.delete name))) q n =
      if q = p ∧ n = name then none else childOf state q n := by
  rw [childOf, childOf, modifyInode_get?]
  cases state.inodes.get? q with
  | none => simp
  | some i =>
    by_cases hq : q = p
    · simp only [Option.map_some, hq, if_true, Option.bind_some, true_and]
      exact get?_mapChildren_delete
    · simp [hq]

theorem inodesBytes_stampRename (state : VfsState) (record : RenameRecord) (sourceId ts : Nat) :
    inodesBytes (stampRename state record sourceId ts) = inodesBytes state := by
  simp only [stampRename]
  rw [inodesBytes_touch, inodesBytes_touch, inodesBytes_touch] <;> exact fun _ => rfl

/-- Removing the replaced inode frees its entry and its body. -/
theorem inodesBytes_removeReplaced {state : VfsState} {record : RenameRecord}
    {destination : Option Inode}
    (htarget : childOf state record.destinationParentId record.destinationName =
      destination.map Inode.id)
    (hfound : ∀ d ∈ destination, state.inodes.get? d.id = some d)
    (hne : ∀ d ∈ destination, d.id ≠ record.destinationParentId) :
    inodesBytes (removeReplaced state record destination) +
      (destination.elim 0 fun d => entryBytes record.destinationName + bodyBytes d.body) =
      inodesBytes state := by
  cases destination with
  | none => rfl
  | some d =>
    have hdrop := inodesBytes_dropEntry htarget
    have hd : (modifyInode state record.destinationParentId
        (Inode.mapChildren (·.delete record.destinationName))).inodes.get? d.id = some d := by
      rw [modifyInode_get?, hfound d rfl]
      simp [hne d rfl]
    have hremove := OrdMap.sum_delete_of_some hd fun _ i => bodyBytes i.body
    simp only [inodesBytes, removeReplaced, Option.elim_some] at hdrop hremove ⊢
    omega

/-- After the removal the destination is a directory without the entry. -/
theorem removeReplaced_owner {state : VfsState} {record : RenameRecord}
    {destination : Option Inode} {parent : Inode}
    (htarget : childOf state record.destinationParentId record.destinationName =
      destination.map Inode.id)
    (hne : ∀ d ∈ destination, d.id ≠ record.destinationParentId)
    (hp : state.inodes.get? record.destinationParentId = some parent)
    (hd : parent.body.isDirectory = true) :
    ∃ parent', (removeReplaced state record destination).inodes.get?
        record.destinationParentId = some parent' ∧ parent'.body.isDirectory = true ∧
      parent'.body.children.get? record.destinationName = none := by
  cases destination with
  | none =>
    rw [childOf, hp] at htarget
    exact ⟨parent, hp, hd, htarget⟩
  | some d =>
    refine ⟨parent.mapChildren (·.delete record.destinationName), ?_, by simp [hd], ?_⟩
    · simp only [removeReplaced, OrdMap.get?_delete_ne _ (hne d rfl).symm, modifyInode_get?, hp,
        Option.map_some, if_true]
    · rw [get?_mapChildren_delete, if_pos rfl]

/-- What `moveEntry` does to the entries of the inode `k`. -/
def movedEntries (record : RenameRecord) (sourceId : Nat) (replaced : Bool) (k : Nat)
    (inode : Inode) : Inode :=
  let inode := if k = record.sourceParentId then
    inode.mapChildren (·.delete record.sourceName) else inode
  let inode := if replaced = true ∧ k = record.destinationParentId then
    inode.mapChildren (·.delete record.destinationName) else inode
  if k = record.destinationParentId then
    inode.mapChildren (·.set record.destinationName sourceId) else inode

/-- What `moveEntry` does to the times of the inode `k`. -/
def movedTimes (record : RenameRecord) (sourceId timestampMs : Nat) (k : Nat)
    (inode : Inode) : Inode :=
  let inode := if k = sourceId then { inode with ctimeMs := timestampMs } else inode
  let inode := if k = record.sourceParentId then
    { inode with mtimeMs := timestampMs, ctimeMs := timestampMs } else inode
  if k = record.destinationParentId then
    { inode with mtimeMs := timestampMs, ctimeMs := timestampMs } else inode

def movedInode (record : RenameRecord) (sourceId timestampMs : Nat) (replaced : Bool) (k : Nat)
    (inode : Inode) : Inode :=
  movedTimes record sourceId timestampMs k (movedEntries record sourceId replaced k inode)

/-- The inode that a rename replaces is gone. -/
def withoutReplaced (state : VfsState) (destination : Option Inode) (k : Nat) : Option Inode :=
  if destination.map Inode.id = some k then none else state.inodes.get? k

theorem moveEntry_get? (state : VfsState) (record : RenameRecord) (source : Inode)
    (destination : Option Inode) (destinationParent : Inode) (ts k : Nat) :
    (moveEntry state record source destination destinationParent ts).inodes.get? k =
      (withoutReplaced state destination k).map
        (movedInode record source.id ts destination.isSome k) := by
  cases destination with
  | none =>
    simp only [moveEntry, removeReplaced, stampRename, modifyInode_get?, Option.map_map, withoutReplaced, Option.map_none,
      reduceCtorEq, if_false]
    congr 1
  | some d =>
    simp only [moveEntry, removeReplaced, stampRename, modifyInode_get?, OrdMap.get?_delete, withoutReplaced,
      Option.map_some, Option.some.injEq, eq_comm (a := k)]
    by_cases hk : d.id = k
    · simp [hk]
    · simp only [hk, if_false, Option.map_map]
      congr 1
      funext inode
      simp only [Function.comp_apply, movedInode, movedEntries, movedTimes, Option.isSome_some,
        true_and, eq_comm (a := k)]

section MovedInode

variable {record : RenameRecord} {sourceId ts k : Nat} {replaced : Bool} {inode : Inode}

@[simp] theorem movedTimes_body : (movedTimes record sourceId ts k inode).body = inode.body := by
  unfold movedTimes
  split_ifs <;> rfl

theorem movedTimes_ok {state : VfsState} (h : InodeOk state k inode) (hts : ts ≤ maxU64) :
    InodeOk state k (movedTimes record sourceId ts k inode) := by
  have hm := h.mtime
  have hc := h.ctime
  refine h.touch ?_ movedTimes_body ?_ ?_ ?_ ?_ <;> unfold movedTimes <;> split_ifs <;>
    first | rfl | exact h.mode | exact h.atime | assumption

theorem movedEntries_isDirectory :
    (movedEntries record sourceId replaced k inode).body.isDirectory = inode.body.isDirectory := by
  unfold movedEntries
  split_ifs <;> simp

theorem movedEntries_extents :
    (movedEntries record sourceId replaced k inode).body.extents = inode.body.extents := by
  unfold movedEntries
  split_ifs <;> simp

theorem movedEntries_ok {state : VfsState} (h : InodeOk state k inode)
    (hname : ValidComponent record.destinationName) :
    InodeOk state k (movedEntries record sourceId replaced k inode) := by
  have hdel : ∀ {i : Inode} {n : JsString} {c : Prop} [Decidable c], InodeOk state k i →
      InodeOk state k (if c then i.mapChildren (·.delete n) else i) := by
    intro i n c _ hi
    split
    · exact hi.mapChildren_delete n
    · exact hi
  have h2 := hdel (n := record.destinationName)
    (c := replaced = true ∧ k = record.destinationParentId)
    (hdel (n := record.sourceName) (c := k = record.sourceParentId) h)
  unfold movedEntries
  dsimp only
  split
  · exact h2.mapChildren_set hname _
  · exact h2

theorem get?_movedEntries
    (hd : k = record.destinationParentId → inode.body.isDirectory = true) (n : JsString) :
    (movedEntries record sourceId replaced k inode).body.children.get? n =
      if k = record.destinationParentId ∧ n = record.destinationName then some sourceId
      else if k = record.sourceParentId ∧ n = record.sourceName then none
      else inode.body.children.get? n := by
  unfold movedEntries
  have hdel : ∀ {i : Inode} {c : Prop} [Decidable c] {name : JsString},
      (if c then i.mapChildren (·.delete name) else i).body.children.get? n =
        if c ∧ n = name then none else i.body.children.get? n := by
    intro i c _ name
    by_cases hc : c
    · simp only [hc, if_true, true_and]
      exact get?_mapChildren_delete
    · simp only [hc, if_false, false_and]
  by_cases hk : k = record.destinationParentId
  · rw [if_pos hk, get?_mapChildren_set (by split_ifs <;> simpa using hd hk), hdel, hdel]
    simp only [hk, true_and, and_true]
    by_cases hn : n = record.destinationName
    · simp [hn]
    · simp [hn]
  · simp only [hk, if_false, false_and, and_false]
    exact hdel

end MovedInode

/-- What a rename must have checked before it moves the entry. -/
structure Movable (state : VfsState) (record : RenameRecord) (source : Inode)
    (destination : Option Inode) (destinationParent : Inode) : Prop where
  edge : childOf state record.sourceParentId record.sourceName = some source.id
  found : state.inodes.get? source.id = some source
  owner : state.inodes.get? record.destinationParentId = some destinationParent
  dir : destinationParent.body.isDirectory = true
  target : childOf state record.destinationParentId record.destinationName =
    destination.map Inode.id
  replaced : ∀ d ∈ destination, state.inodes.get? d.id = some d ∧
    ∀ n, d.body.children.get? n = none
  ne : ¬ (record.destinationParentId = record.sourceParentId ∧
    record.destinationName = record.sourceName)
  not_below : ∀ ls, ¬ Below (parentOf state) source.id record.destinationParentId ls
  name : ValidComponent record.destinationName

/-- The entries without the replaced one. -/
def childWithout (state : VfsState) (record : RenameRecord) (q : Nat) (n : JsString) :
    Option Nat :=
  if q = record.destinationParentId ∧ n = record.destinationName then none
  else childOf state q n

/-- The parent index without the replaced inode. -/
def parentWithout (state : VfsState) (destination : Option Inode) (k : Nat) :
    Option (Nat × JsString) :=
  if destination.map Inode.id = some k then none else parentOf state k

namespace Movable

variable {state : VfsState} {record : RenameRecord} {source : Inode}
  {destination : Option Inode} {destinationParent : Inode}
  (hm : Movable state record source destination destinationParent)
include hm

/-- An inode with an entry is not the replaced one. -/
theorem ne_replaced {q c : Nat} {n : JsString} (hc : childOf state q n = some c) :
    destination.map Inode.id ≠ some q := by
  intro hq
  obtain ⟨d, hd, rfl⟩ := Option.map_eq_some_iff.mp hq
  obtain ⟨hfound, hleaf⟩ := hm.replaced d hd
  rw [childOf, hfound, Option.bind_some, hleaf] at hc
  cases hc

theorem destination_ne : destination.map Inode.id ≠ some record.destinationParentId := by
  intro hq
  have ht := hm.target
  rw [hq] at ht
  exact hm.ne_replaced ht hq

/-- The tree without the replaced inode. -/
theorem withoutTree (h : Sound state) :
    NamedTree state.rootInodeId (fun k => ∃ i, withoutReplaced state destination k = some i)
      (childWithout state record) (parentWithout state destination) := by
  have hself : childWithout state record record.destinationParentId record.destinationName =
      none := if_pos ⟨rfl, rfl⟩
  cases hdest : destination with
  | none =>
    have ht : childOf state record.destinationParentId record.destinationName = none := by
      rw [hm.target, hdest]
      rfl
    have hchild : childWithout state record = childOf state := by
      funext q n
      unfold childWithout
      split
      · rename_i hqn
        rw [hqn.1, hqn.2, ht]
      · rfl
    have hparent : parentWithout state none = parentOf state := by
      funext k
      exact if_neg nofun
    have hpresent : (fun k => ∃ i, withoutReplaced state none k = some i) = Present state := by
      funext k
      simp only [withoutReplaced, Option.map_none, reduceCtorEq, if_false, Present]
    rw [hchild, hparent, hpresent]
    exact h.tree.named
  | some d =>
    obtain ⟨hfound, hleaf⟩ := hm.replaced d hdest
    have hu : NamedTree.Unlinked (Present state) (childOf state) (parentOf state)
        record.destinationParentId record.destinationName d.id
        (fun k => ∃ i, withoutReplaced state (some d) k = some i) (childWithout state record)
        (parentWithout state (some d)) := by
      refine ⟨by rw [hm.target, hdest]; rfl, fun n => by rw [childOf, hfound]; exact hleaf n,
        fun k => ?_, hself, fun q n hqn => if_neg hqn, if_pos rfl, fun k hk => if_neg ?_⟩
      · simp only [withoutReplaced, Option.map_some, Option.some.injEq, Present]
        by_cases hk : d.id = k
        · simp [hk]
        · simp [hk, eq_comm (a := k)]
      · simpa [eq_comm] using hk
    exact h.tree.named.unlinked hu

theorem childOf_moveEntry (ts q : Nat) (n : JsString) :
    childOf (moveEntry state record source destination destinationParent ts) q n =
      if q = record.destinationParentId ∧ n = record.destinationName then some source.id
      else if q = record.sourceParentId ∧ n = record.sourceName then none
      else childWithout state record q n := by
  rw [childOf, moveEntry_get?]
  by_cases hq : destination.map Inode.id = some q
  · -- the replaced inode has no entries, before or after
    have hnd : ¬ (q = record.destinationParentId ∧ n = record.destinationName) :=
      fun hqn => hm.destination_ne (hqn.1 ▸ hq)
    have hnone : childOf state q n = none := by
      by_contra hne
      obtain ⟨c, hc⟩ := Option.ne_none_iff_exists'.mp hne
      exact hm.ne_replaced hc hq
    rw [withoutReplaced, if_pos hq, if_neg hnd, childWithout, if_neg hnd, hnone]
    simp
  · rw [withoutReplaced, if_neg hq]
    cases hi : state.inodes.get? q with
    | none =>
      have hqd : q ≠ record.destinationParentId := fun he => by
        rw [he, hm.owner] at hi
        cases hi
      have hnone : childOf state q n = none := by rw [childOf, hi]; rfl
      simp [hqd, childWithout, hnone]
    | some i =>
      have hd : q = record.destinationParentId → i.body.isDirectory = true := fun he => by
        rw [he, hm.owner] at hi
        cases hi
        exact hm.dir
      have hc : childOf state q n = i.body.children.get? n := by rw [childOf, hi]; rfl
      simp only [Option.map_some, Option.bind_some, movedInode, movedTimes_body,
        get?_movedEntries hd, childWithout, hc]
      by_cases hqn : q = record.destinationParentId ∧ n = record.destinationName
      · simp [hqn]
      · simp [hqn]

theorem parentOf_moveEntry (h : Sound state) (ts k : Nat) :
    parentOf (moveEntry state record source destination destinationParent ts) k =
      if k = source.id then some (record.destinationParentId, record.destinationName)
      else parentWithout state destination k := by
  have hid := (h.inodes _ _ hm.owner).id_eq
  have hpar : (moveEntry state record source destination destinationParent ts).parentByInode.get? k =
      if k = source.id then some ⟨destinationParent.id, record.destinationName⟩
      else if destination.map Inode.id = some k then none else state.parentByInode.get? k := by
    cases destination with
    | none =>
      simp only [moveEntry, removeReplaced, stampRename, modifyInode_parentByInode, OrdMap.get?_set, Option.map_none,
        reduceCtorEq, if_false]
    | some d =>
      simp only [moveEntry, removeReplaced, stampRename, modifyInode_parentByInode, OrdMap.get?_set, OrdMap.get?_delete,
        Option.map_some, Option.some.injEq, eq_comm (a := k)]
  rw [parentOf, hpar, parentWithout, hid]
  split
  · rfl
  · split <;> rfl

theorem moved (h : Sound state) (ts : Nat) :
    NamedTree.Moved (fun k => ∃ i, withoutReplaced state destination k = some i)
      (childWithout state record) (parentWithout state destination)
      record.sourceParentId record.sourceName source.id
      record.destinationParentId record.destinationName
      (Present (moveEntry state record source destination destinationParent ts))
      (childOf (moveEntry state record source destination destinationParent ts))
      (parentOf (moveEntry state record source destination destinationParent ts)) := by
  have hne : ¬ (record.sourceParentId = record.destinationParentId ∧
      record.sourceName = record.destinationName) :=
    fun he => hm.ne ⟨he.1.symm, he.2.symm⟩
  refine ⟨?_, ⟨destinationParent, ?_⟩, if_pos ⟨rfl, rfl⟩, fun ls hb => ?_, fun k => ?_, ?_, ?_,
    fun q n hq hq' => ?_, ?_, fun k hk => ?_⟩
  · rw [childWithout, if_neg hne, hm.edge]
  · rw [withoutReplaced, if_neg hm.destination_ne, hm.owner]
  · refine hm.not_below ls (hb.mono fun x e he => ?_)
    unfold parentWithout at he
    split at he
    · cases he
    · exact he
  · simp only [Present, moveEntry_get?]
    cases withoutReplaced state destination k <;> simp
  · rw [hm.childOf_moveEntry, if_neg hne, if_pos ⟨rfl, rfl⟩]
  · rw [hm.childOf_moveEntry, if_pos ⟨rfl, rfl⟩]
  · rw [hm.childOf_moveEntry, if_neg hq', if_neg hq]
  · rw [hm.parentOf_moveEntry h, if_pos rfl]
  · rw [hm.parentOf_moveEntry h, if_neg hk]

/-- The only new paths are those through the moved inode. -/
theorem path (h : Sound state) {ts id : Nat} {path : List JsString}
    (hp : PathTo (moveEntry state record source destination destinationParent ts) id path) :
    PathTo state id path ∨ ∃ dPath ls, PathTo state record.destinationParentId dPath ∧
      Below (parentOf state) source.id id ls ∧
      path = dPath ++ [record.destinationName] ++ ls := by
  have hroot : (moveEntry state record source destination destinationParent ts).rootInodeId =
      state.rootInodeId := by
    cases destination <;> simp only [moveEntry, removeReplaced, stampRename, modifyInode_rootInodeId]
  rw [PathTo, hroot] at hp
  have htree := hm.withoutTree h
  have hmoved := hm.moved h ts
  have hsub : ∀ x e, parentWithout state destination x = some e → parentOf state x = some e :=
    fun x e he => by
      unfold parentWithout at he
      split at he
      · cases he
      · exact he
  have hpresent : ∃ i, withoutReplaced state destination id = some i := by
    have hnew := htree.moved hmoved
    by_cases hid : id = state.rootInodeId
    · exact hid ▸ htree.root_present
    · obtain ⟨q, n, _, hq, -, -⟩ := hp.exists_parent hid
      exact (hmoved.present_iff id).mp (hnew.child_present _ _ _ ((hnew.inverse _ _ _).mp hq))
  rcases htree.path_moved hmoved hpresent hp with hold | ⟨dPath, ls, hd, hb, rfl⟩
  · exact .inl (hold.mono hsub)
  · exact .inr ⟨dPath, ls, hd.mono hsub, hb.mono hsub, rfl⟩

theorem owns (h : Sound state) (ts : Nat) {i e : Nat} :
    Owns (moveEntry state record source destination destinationParent ts) i e ↔
      Owns state i e ∧ ∀ d ∈ destination, e ∉ d.body.extents := by
  have hiff : Owns (moveEntry state record source destination destinationParent ts) i e ↔
      Owns state i e ∧ destination.map Inode.id ≠ some i := by
    simp only [Owns, moveEntry_get?, withoutReplaced]
    by_cases hi : destination.map Inode.id = some i
    · simp [hi]
    · rw [if_neg hi]
      cases state.inodes.get? i with
      | none => simp
      | some j =>
        simp [movedInode, movedEntries_extents, hi]
  rw [hiff]
  refine and_congr_right fun ho => ⟨fun hne d hd he => hne ?_, fun hall hi => ?_⟩
  · have hod : Owns state d.id e := ⟨d, (hm.replaced d hd).1, he⟩
    have h1 := (h.alloc.owned_iff e i).mpr ho
    rw [(h.alloc.owned_iff e d.id).mpr hod] at h1
    rw [Option.mem_def.mp hd]
    exact h1
  · obtain ⟨d, hd, rfl⟩ := Option.map_eq_some_iff.mp hi
    obtain ⟨j, hj, he⟩ := ho
    rw [(hm.replaced d hd).1] at hj
    cases hj
    exact hall d hd he

theorem size (ts : Nat) :
    (moveEntry state record source destination destinationParent ts).inodes.size +
      destination.toList.length = state.inodes.size := by
  cases destination with
  | none => simp only [moveEntry, removeReplaced, stampRename, modifyInode_size, Option.toList_none, List.length_nil, Nat.add_zero]
  | some d =>
    obtain ⟨hfound, -⟩ := hm.replaced d rfl
    obtain ⟨i, hi⟩ : ∃ i, (modifyInode (modifyInode state record.sourceParentId
        (Inode.mapChildren (·.delete record.sourceName))) record.destinationParentId
        (Inode.mapChildren (·.delete record.destinationName))).inodes.get? d.id = some i := by
      rw [modifyInode_get?, modifyInode_get?, hfound]
      exact ⟨_, rfl⟩
    have := OrdMap.size_delete_of_some hi
    simp only [modifyInode_size] at this
    simp only [moveEntry, removeReplaced, stampRename, modifyInode_size, Option.toList_some, List.length_singleton]
    exact this

theorem bytes (ts : Nat) :
    inodesBytes (moveEntry state record source destination destinationParent ts) +
        entryBytes record.sourceName +
        (destination.elim 0 fun d => entryBytes record.destinationName + bodyBytes d.body) =
      inodesBytes state + entryBytes record.destinationName := by
  have hdrop := inodesBytes_dropEntry hm.edge
  have htarget : childOf (modifyInode state record.sourceParentId
      (Inode.mapChildren (·.delete record.sourceName))) record.destinationParentId
      record.destinationName = destination.map Inode.id := by
    rw [childOf_dropEntry, if_neg hm.ne, hm.target]
  have howner : ∃ parent, (modifyInode state record.sourceParentId
      (Inode.mapChildren (·.delete record.sourceName))).inodes.get?
        record.destinationParentId = some parent ∧ parent.body.isDirectory = true := by
    rw [modifyInode_get?, hm.owner]
    refine ⟨_, rfl, ?_⟩
    split <;> simp [hm.dir]
  have hfound : ∀ d ∈ destination, (modifyInode state record.sourceParentId
      (Inode.mapChildren (·.delete record.sourceName))).inodes.get? d.id = some d :=
    fun d hd => by
      have hne : d.id ≠ record.sourceParentId := fun he =>
        hm.ne_replaced hm.edge (by rw [Option.mem_def.mp hd, ← he]; rfl)
      rw [modifyInode_get?, (hm.replaced d hd).1]
      simp [hne]
  have hne : ∀ d ∈ destination, d.id ≠ record.destinationParentId := fun d hd he =>
    hm.destination_ne (by rw [Option.mem_def.mp hd, ← he]; rfl)
  unfold moveEntry
  rw [inodesBytes_stampRename]
  generalize modifyInode state record.sourceParentId
    (Inode.mapChildren (·.delete record.sourceName)) = s₁ at *
  obtain ⟨parent, hp, hd⟩ := howner
  have hremove := inodesBytes_removeReplaced htarget hfound hne
  obtain ⟨parent', hp', hd', hfree⟩ := removeReplaced_owner htarget hne hp hd
  have hadd := inodesBytes_addEntry (c := source.id) hp' hd' hfree
  simp only [inodesBytes] at hadd hremove hdrop ⊢
  omega

end Movable

theorem sameFrame_moveEntry (state : VfsState) (record : RenameRecord) (source : Inode)
    (destination : Option Inode) (destinationParent : Inode) (ts : Nat) :
    SameFrame state (moveEntry state record source destination destinationParent ts) := by
  cases destination <;> constructor <;>
    simp only [moveEntry, removeReplaced, stampRename, modifyInode_extentSize,
      modifyInode_generation, modifyInode_rootInodeId, modifyInode_activeMetadataFile,
      modifyInode_retainedGenerations]

@[simp] theorem moveEntry_nextInodeId (state : VfsState) (record : RenameRecord) (source : Inode)
    (destination : Option Inode) (destinationParent : Inode) (ts : Nat) :
    (moveEntry state record source destination destinationParent ts).nextInodeId =
      state.nextInodeId := by
  cases destination <;>
    simp only [moveEntry, removeReplaced, stampRename, modifyInode_nextInodeId]

theorem moveEntry_allocator (state : VfsState) (record : RenameRecord) (source : Inode)
    (destination : Option Inode) (destinationParent : Inode) (ts : Nat) :
    (moveEntry state record source destination destinationParent ts).allocator =
      (destination.elim [] fun d => d.body.extents).foldl releaseExtent state.allocator := by
  cases destination <;>
    simp only [moveEntry, removeReplaced, stampRename, modifyInode_allocator, Option.elim_none,
      Option.elim_some, List.foldl_nil]

theorem Sound.move {state : VfsState} (h : Sound state) {record : RenameRecord} {source : Inode}
    {destination : Option Inode} {destinationParent : Inode}
    (hm : Movable state record source destination destinationParent) {ts : Nat}
    (hts : ts ≤ maxU64) :
    Sound (moveEntry state record source destination destinationParent ts) ∧
      unownedBytes (moveEntry state record source destination destinationParent ts).allocator =
        unownedBytes state.allocator +
          (destination.elim [] fun d => d.body.extents).length * 16 := by
  have hframe := sameFrame_moveEntry state record source destination destinationParent ts
  have hnext := moveEntry_nextInodeId state record source destination destinationParent ts
  have hsize := hm.size ts
  have hget : ∀ {id i}, (moveEntry state record source destination destinationParent ts).inodes.get?
      id = some i → ∃ j, state.inodes.get? id = some j ∧
        i = movedInode record source.id ts destination.isSome id j := by
    intro id i hi
    rw [moveEntry_get?, withoutReplaced] at hi
    split at hi
    · cases hi
    · obtain ⟨j, hj, rfl⟩ := Option.map_eq_some_iff.mp hi
      exact ⟨j, hj, rfl⟩
  -- releasing what the replaced file owned
  obtain ⟨hbooks, hbytes⟩ : Allocated
        (fun i x => Owns state i x ∧ x ∉ destination.elim [] fun d => d.body.extents)
        ((destination.elim [] fun d => d.body.extents).foldl releaseExtent state.allocator) ∧
      unownedBytes ((destination.elim [] fun d => d.body.extents).foldl releaseExtent
        state.allocator) = unownedBytes state.allocator +
          (destination.elim [] fun d => d.body.extents).length * 16 := by
    cases destination with
    | none => exact ⟨h.alloc.toAllocated.congr fun i x => by simp, by simp⟩
    | some d =>
      have hd := (hm.replaced d rfl).1
      exact h.alloc.toAllocated.release_all (fun e he => ⟨d, hd, he⟩)
        (h.alloc.extents_nodup d.id d hd)
  rw [← moveEntry_allocator state record source destination destinationParent ts] at hbooks hbytes
  refine ⟨h.of_frame hframe (hnext ▸ h.next_le) ?_ (fun id i hi => ?_) ⟨?_, ?_⟩
    (hbooks.congr fun i e => ?_) (fun id i hi => ?_) ?_ ?_, hbytes⟩
  · have := h.inodes_le
    omega
  · obtain ⟨j, hj, rfl⟩ := hget hi
    have hok := (h.inodes id j hj).mono (Nat.le_of_eq hnext.symm) hframe.extentSize
    exact movedTimes_ok (movedEntries_ok hok hm.name) hts
  · obtain ⟨root, hr, hd⟩ := h.tree.root_dir
    have hrne : destination.map Inode.id ≠ some state.rootInodeId := fun he => by
      have ht := hm.target
      rw [he] at ht
      exact h.tree.named.ne_root ht rfl
    rw [hframe.root, moveEntry_get?, withoutReplaced, if_neg hrne, hr]
    refine ⟨_, rfl, ?_⟩
    rw [movedInode, movedTimes_body, movedEntries_isDirectory, hd]
  · rw [hframe.root]
    exact (hm.withoutTree h).moved (hm.moved h ts)
  · rw [hm.owns h]
    cases destination <;> simp
  · obtain ⟨j, hj, rfl⟩ := hget hi
    rw [movedInode, movedTimes_body, movedEntries_extents]
    exact h.alloc.extents_nodup id j hj
  · rw [moveEntry_allocator, (foldl_releaseExtent _ _).2]
    exact h.alloc.total
  · rw [moveEntry_allocator]
    exact Allocated.tags_release_all _ _

end Opfs
