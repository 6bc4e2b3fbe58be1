/-
The checks of a rename, against the tree.

* `directoryContains_false` — the walk for the destination finds every directory
  below the source, so a rename that passes it makes no cycle;
* `findPathMetrics_eq` — climbing the parent index measures the path;
* `visitRenamed_path` — the bounds check covers every path through the moved inode;
* `applyRename_eq_ok` — when the reducer accepts a rename, and what it leaves.
-/
import Pgxsinkit.Opfs.ApplySpec
import Pgxsinkit.Opfs.ValidateIff

namespace Opfs

open Checked RootedTree

/-! ### The walk for the destination -/

/-- A path down from an inode starts with one of its entries. -/
theorem Sound.exists_entry {state : VfsState} (h : Sound state) {a k : Nat} {inode : Inode}
    (hi : state.inodes.get? a = some inode) {name : JsString} {labels : List JsString}
    (hb : Below (parentOf state) a k (name :: labels)) :
    ∃ c child, (name, c) ∈ inode.body.children.entries ∧ state.inodes.get? c = some child ∧
      parentOf state c = some (a, name) ∧ Below (parentOf state) c k labels := by
  obtain ⟨c, hpar, hb'⟩ := hb.exists_child
  obtain ⟨parent, hp, hname⟩ := h.tree.entry_iff.mp (parentOf_eq_some.mp hpar)
  rw [hi] at hp
  cases hp
  obtain ⟨-, child, hchild⟩ := h.tree.child hi hname
  exact ⟨c, child, OrdMap.get?_eq_some_iff.mp hname, hchild, hpar, hb'⟩

/-- Only a directory has anything below it. -/
theorem Sound.eq_of_not_directory {state : VfsState} (h : Sound state) {a k : Nat}
    {inode : Inode} (hi : state.inodes.get? a = some inode)
    (hd : inode.body.isDirectory = false) {labels : List JsString}
    (hb : Below (parentOf state) a k labels) : k = a := by
  cases labels with
  | nil => exact hb.eq_of_nil
  | cons name labels =>
    obtain ⟨c, child, he, -⟩ := h.exists_entry hi hb
    rw [InodeBody.children_of_not_directory hd] at he
    cases he

theorem directoryContains_false {state : VfsState} (h : Sound state) {candidate : Nat}
    {found : Inode} (hf : state.inodes.get? candidate = some found)
    (hfd : found.body.isDirectory = true) {fuel : Nat} {directory : Inode}
    (hi : state.inodes.get? directory.id = some directory)
    (hc : directoryContains state candidate fuel directory = .ok false) {labels : List JsString} :
    ¬ Below (parentOf state) directory.id candidate labels := by
  induction fuel generalizing directory labels with
  | zero => simp [directoryContains] at hc
  | succ fuel ih =>
    intro hb
    rw [directoryContains] at hc
    split at hc
    · cases hc
    · rename_i hne
      rw [anyChecked_eq_false] at hc
      cases labels with
      | nil => exact hne hb.eq_of_nil.symm
      | cons name labels =>
        obtain ⟨c, child, he, hchild, -, hb'⟩ := h.exists_entry hi hb
        have hcid := (h.inodes c child hchild).id_eq
        have hstep := hc (name, c) he
        simp only [bind_eq_ok, inodeById_eq_ok, hchild, Option.some.injEq, exists_eq_left'] at hstep
        split at hstep
        · rw [← hcid] at hb'
          exact ih (by rw [hcid]; exact hchild) hstep hb'
        · rename_i hcd
          have := h.eq_of_not_directory hchild (by simpa using hcd) hb'
          rw [this, hchild] at hf
          cases hf
          exact hcd hfd

/-! ### Path metrics -/

theorem Sound.encoded_name {state : VfsState} (h : Sound state) {c p : Nat} {name : JsString}
    (hpar : parentOf state c = some (p, name)) :
    encodedUtf8Length name = .ok (utf8Bytes name) := by
  obtain ⟨parent, hp, hname⟩ := h.tree.entry_iff.mp (parentOf_eq_some.mp hpar)
  exact encodedUtf8Length_of_units ((h.inodes p parent hp).names name c hname).units

/-- Climbing from an inode counts the components of its path. -/
theorem climb_eq {state : VfsState} (h : Sound state) {id : Nat} {path : List JsString}
    (hp : PathTo state id path) {visited : List Nat}
    (hv : ∀ v ∈ visited, ∃ ls, ls ≠ [] ∧ Below (parentOf state) id v ls) {depth bytes fuel : Nat}
    (hfuel : path.length < fuel) :
    climb state visited id depth bytes fuel =
      .ok (depth + path.length, bytes + (path.map utf8Bytes).sum) := by
  induction fuel generalizing id path visited depth bytes with
  | zero => omega
  | succ fuel ih =>
    rw [climb]
    by_cases hid : id = state.rootInodeId
    · rw [if_pos hid]
      rw [hid] at hp
      rw [h.tree.path_unique hp .refl]
      rfl
    · obtain ⟨p, name, ls, hpar, hb, rfl⟩ := hp.exists_parent hid
      have hnew : id ∉ visited := fun hm => by
        obtain ⟨ls', hne, hb'⟩ := hv id hm
        exact hne (hp.not_cyclic h.tree.named.root_orphan hb')
      have hrec := @ih p ls hb (id :: visited) (by
        intro v hvm
        rcases List.mem_cons.mp hvm with rfl | hvm
        · exact ⟨[name], by simp, .single hpar⟩
        · obtain ⟨ls', -, hb'⟩ := hv v hvm
          exact ⟨[name] ++ ls', by simp, (Below.single hpar).trans hb'⟩)
        (depth + 1) (bytes + utf8Bytes name) (by
          rw [List.length_append, List.length_singleton] at hfuel
          omega)
      rw [if_neg hid, throwIf, if_neg hnew, parentOf_eq_some.mp hpar, orThrow_some]
      simp only [ok_bind, h.encoded_name hpar, hrec, List.length_append, List.length_singleton,
        List.map_append, List.map_cons, List.map_nil, List.sum_append, List.sum_cons,
        List.sum_nil, Except.ok.injEq, Prod.mk.injEq]
      omega

theorem findPathMetrics_eq {state : VfsState} (h : Sound state) {id : Nat}
    {path : List JsString} (hp : PathTo state id path) :
    findPathMetrics state id = .ok (metricsAt path) := by
  have hle := h.tree.path_length_le hp
  rw [findPathMetrics, climb_eq h hp (by simp) (Nat.lt_succ_of_le hle), metricsAt, pathBytes_eq]
  simp only [ok_bind, Nat.zero_add]
  rfl

/-- The bounds check of a rename covers every path down from the moved inode. -/
theorem visitRenamed_path {state : VfsState} (h : Sound state) {fuel : Nat} {inode : Inode}
    (hi : state.inodes.get? inode.id = some inode) {path : List JsString}
    (hv : visitRenamed state fuel inode (metricsAt path) = .ok ()) {k : Nat}
    {labels : List JsString} (hb : Below (parentOf state) inode.id k labels) :
    WithinPathLimits (path ++ labels) := by
  induction fuel generalizing inode path labels with
  | zero => simp [visitRenamed] at hv
  | succ fuel ih =>
    simp only [visitRenamed, bind_eq_ok, throwIf_eq_ok, exists_const, forEach_eq_ok,
      Nat.not_lt, gt_iff_lt] at hv
    obtain ⟨hdepth, hbytes, hall⟩ := hv
    cases labels with
    | nil =>
      rw [List.append_nil]
      exact ⟨hdepth, hbytes⟩
    | cons name labels =>
      obtain ⟨c, child, he, hchild, hpar, hb'⟩ := h.exists_entry hi hb
      have hcid := (h.inodes c child hchild).id_eq
      obtain ⟨u, _, hgot, m, hm, hrec⟩ := hall (name, c) he
      rw [inodeById_eq_ok, hchild] at hgot
      cases hgot
      have hmetrics : m = metricsAt (path ++ [name]) := by
        rw [childPathMetrics, h.encoded_name hpar] at hm
        rw [← childMetrics_metricsAt]
        exact (Except.ok.inj hm).symm
      rw [hmetrics] at hrec
      rw [← hcid] at hb'
      have := ih (by rw [hcid]; exact hchild) hrec hb'
      rwa [List.append_assoc, List.singleton_append] at this

/-! ### The reducer -/

/-- What a rename checks, in the code's own predicates. -/
structure Renamable (state : VfsState) (record : RenameRecord) (source : Inode)
    (destination : Option Inode) (destinationParent : Inode) : Prop where
  sourceName : ValidComponent record.sourceName
  destinationName : ValidComponent record.destinationName
  ne : ¬ (record.sourceParentId = record.destinationParentId ∧
    record.sourceName = record.destinationName)
  timestamp : record.timestampMs ≤ maxU64
  edge : childOf state record.sourceParentId record.sourceName = some source.id
  found : state.inodes.get? source.id = some source
  owner : state.inodes.get? record.destinationParentId = some destinationParent
  dir : destinationParent.body.isDirectory = true
  target : destinationInode state
    (destinationParent.body.children.get? record.destinationName) = .ok destination
  types : validateRenameTypes source destination = .ok ()
  not_inside : checkNotInside state source destinationParent = .ok ()
  bounds : validateRenamedSubtreeBounds state source destinationParent
    record.destinationName = .ok ()

theorem destinationInode_eq_ok {state : VfsState} (h : Sound state) {id : Option Nat}
    {destination : Option Inode} :
    destinationInode state id = .ok destination ↔
      id = destination.map Inode.id ∧
        ∀ d ∈ destination, state.inodes.get? d.id = some d := by
  cases id with
  | none =>
    simp only [destinationInode, Except.ok.injEq]
    constructor
    · rintro rfl
      exact ⟨rfl, by simp⟩
    · rintro ⟨hd, -⟩
      exact (Option.map_eq_none_iff.mp hd.symm).symm
  | some id =>
    simp only [destinationInode, bind_eq_ok, inodeById_eq_ok, pure_eq_ok]
    constructor
    · rintro ⟨d, hd, rfl⟩
      have hid := (h.inodes id d hd).id_eq
      refine ⟨by rw [← hid]; rfl, fun d' hd' => ?_⟩
      cases hd'
      rw [hid]
      exact hd
    · rintro ⟨hid, hall⟩
      obtain ⟨d, rfl, hd⟩ := Option.map_eq_some_iff.mp hid.symm
      exact ⟨d, by rw [← hd]; exact hall d rfl, rfl⟩

namespace Renamable

variable {state : VfsState} {record : RenameRecord} {source : Inode}
  {destination : Option Inode} {destinationParent : Inode}
  (hr : Renamable state record source destination destinationParent)
include hr

theorem replaced (h : Sound state) : ∀ d ∈ destination, state.inodes.get? d.id = some d ∧
    ∀ n, d.body.children.get? n = none := by
  intro d hd
  refine ⟨((destinationInode_eq_ok h).mp hr.target).2 d hd, fun n => ?_⟩
  have htypes := hr.types
  rw [Option.mem_def.mp hd] at htypes
  simp only [validateRenameTypes, bind_eq_ok, throwIf_eq_ok, exists_const] at htypes
  cases hdir : d.body.isDirectory with
  | false =>
    rw [InodeBody.children_of_not_directory hdir]
    rfl
  | true =>
    have hempty : d.body.children.size = 0 := by
      by_contra hne
      exact htypes.2.2 ⟨hdir, hne⟩
    exact OrdMap.get?_of_size_eq_zero hempty n

/-- A rename that passed its checks can move the entry. -/
theorem movable (h : Sound state) :
    Movable state record source destination destinationParent := by
  refine ⟨hr.edge, hr.found, hr.owner, hr.dir, ?_, hr.replaced h,
    fun he => hr.ne ⟨he.1.symm, he.2.symm⟩, fun ls hb => ?_, hr.destinationName⟩
  · rw [childOf, hr.owner]
    exact ((destinationInode_eq_ok h).mp hr.target).1
  · have hid := (h.inodes _ _ hr.owner).id_eq
    cases hd : source.body.isDirectory with
    | true =>
      have hcheck := hr.not_inside
      rw [checkNotInside, if_pos hd] at hcheck
      simp only [bind_eq_ok, throwIf_eq_ok, Bool.not_eq_true] at hcheck
      obtain ⟨_, hcontains, rfl⟩ := hcheck
      rw [hid] at hcontains
      exact directoryContains_false h hr.owner hr.dir hr.found hcontains hb
    | false =>
      have heq := h.eq_of_not_directory hr.found hd hb
      have howner := hr.owner
      rw [heq, hr.found] at howner
      cases howner
      rw [hr.dir] at hd
      cases hd

/-- Every path through the moved inode is within the limits. -/
theorem path (h : Sound state) {dPath labels : List JsString} {k : Nat}
    (hd : PathTo state record.destinationParentId dPath)
    (hb : Below (parentOf state) source.id k labels) :
    WithinPathLimits (dPath ++ [record.destinationName] ++ labels) := by
  have hid := (h.inodes _ _ hr.owner).id_eq
  have hbounds := hr.bounds
  rw [validateRenamedSubtreeBounds, hid, findPathMetrics_eq h hd] at hbounds
  simp only [ok_bind, childPathMetrics, encodedUtf8Length_of_units hr.destinationName.units]
    at hbounds
  have hvisit : visitRenamed state (maxPathDepth + 1) source
      (metricsAt (dPath ++ [record.destinationName])) = .ok () := by
    rw [← childMetrics_metricsAt]
    exact hbounds
  exact visitRenamed_path h hr.found hvisit hb

end Renamable

theorem checkReplacement_of_sound {state : VfsState} (h : Sound state)
    {destination : Option Inode} (hd : ∀ d ∈ destination, state.inodes.get? d.id = some d) :
    checkReplacement state destination = .ok () := by
  cases destination with
  | none => rfl
  | some d => exact checkOwnership_of_sound h (fun e he => ⟨d, hd d rfl, he⟩) _

theorem applyRename_eq_ok {state state' : VfsState} (h : Sound state) {record : RenameRecord} :
    applyRename state record = .ok () state' ↔
      ∃ source destination destinationParent,
        Renamable state record source destination destinationParent ∧
        state' = moveEntry state record source destination destinationParent
          record.timestampMs := by
  simp only [applyRename, checkedThen_eq_ok, bind_eq_ok, Prod.exists, directoryById_eq_ok,
    validatePathComponent_eq_ok, throwIf_eq_ok, exists_const, validateTimestamp_nat,
    orThrow_eq_ok, inodeById_eq_ok, pure_eq_ok, Prod.mk.injEq]
  constructor
  · rintro ⟨source, destination, destinationParent, _, ⟨_, ⟨hsn, -⟩, _, ⟨hdn, -⟩, hne, _,
      ⟨rfl, hts⟩, sparent, schildren, ⟨hsp, hsb⟩, _, dchildren, ⟨hdp, hdb⟩, sid, hsid, _, hs, _,
      hdest, u, htypes, v, hinside, w, hbounds, x, -, rfl, rfl, rfl, rfl⟩, rfl⟩
    have hid := (h.inodes _ _ hs).id_eq
    refine ⟨_, _, _, ⟨hsn, hdn, hne, hts, ?_, by rw [hid]; exact hs, hdp, by rw [hdb]; rfl,
      by rw [hdb]; exact hdest, htypes, hinside, hbounds⟩, rfl⟩
    rw [childOf, hsp, hid]
    simpa [hsb] using hsid
  · rintro ⟨source, destination, destinationParent, ⟨hsn, hdn, hne, hts, hedge, hs, hdp, hd, hdest,
      htypes, hinside, hbounds⟩, rfl⟩
    obtain ⟨sparent, hsp, hsid⟩ := childOf_eq_some.mp hedge
    have hsd := InodeBody.eq_directory (InodeBody.isDirectory_of_entry hsid)
    exact ⟨source, destination, destinationParent, _, ⟨_, ⟨hsn, rfl⟩, _, ⟨hdn, rfl⟩, hne, _,
      ⟨rfl, hts⟩, sparent, _, ⟨hsp, hsd⟩, destinationParent, _,
      ⟨hdp, InodeBody.eq_directory hd⟩, _, hsid, _, hs, _, hdest, (), htypes, (), hinside, (),
      hbounds, (), checkReplacement_of_sound h ((destinationInode_eq_ok h).mp hdest).2, rfl, rfl,
      rfl, rfl⟩, rfl⟩

end Opfs
