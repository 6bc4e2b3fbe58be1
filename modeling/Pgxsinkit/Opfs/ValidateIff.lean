/-
`validateState` accepts exactly the well-formed states.

The walk certifies a listing of the nodes (`Walked`).  In one direction the
listing is repetition-free and as long as the inode table, so it is the inode
table in another order and the local checks hold everywhere; in the other the
tree has a path to every inode, and the walk meets every path once.

* `validateState_eq_ok_iff` — `validateState` returns iff `WellFormed`.
-/
import Pgxsinkit.Opfs.ValidateSpec

namespace Opfs

open Checked RootedTree

/-! ### The checks before and after the walk -/

/-- The extents in the order the validator classifies them after the walk. -/
def unownedExtents (allocator : AllocatorState) : List Nat :=
  allocator.available.items ++ allocator.quarantine.keys

/-- The checks after the walk, on what the walk has listed. -/
structure TailOk (state : VfsState) (acc : VisitAcc) : Prop where
  reached : acc.reached.length = state.inodes.size
  parents : state.parentByInode.size + 1 = state.inodes.size
  owners : acc.classified.length = state.allocator.ownedBy.size
  base_eq : state.basePayloadBytes = acc.calculatedBasePayloadBytes +
    (state.allocator.available.size * 8 + state.allocator.quarantine.size * 16)
  base_le : state.basePayloadBytes ≤ maxMetadataBaseWriterBytes
  active : state.retainedGenerations.get state.activeMetadataFile = some state.generation
  inactive : ∀ g,
    state.retainedGenerations.get (otherMetadataFile state.activeMetadataFile) = some g →
      g ≤ maxU64 ∧ 0 < g ∧ g + 1 = state.generation
  in_range : ∀ e ∈ unownedExtents state.allocator, e < state.allocator.totalExtents
  tags : ∀ entry ∈ state.allocator.quarantine.entries,
    entry.2 = none ∨ entry.2 = some state.generation
  nodup : (acc.classified ++ unownedExtents state.allocator).Nodup
  cover : (acc.classified ++ unownedExtents state.allocator).length =
    state.allocator.totalExtents

theorem foldChecked_available_eq_ok {state : VfsState} {classified out : List Nat}
    (hn : classified.Nodup) :
    foldChecked (classify state "available") classified state.allocator.available.items = .ok out ↔
      (∀ e ∈ state.allocator.available.items, e < state.allocator.totalExtents) ∧
      (classified ++ state.allocator.available.items).Nodup ∧
      out = classified ++ state.allocator.available.items := by
  refine (foldChecked_classify_eq_ok state id (fun _ => True)
    (fun {classified out e} => ?_) hn).trans (by simp)
  simp only [classify_eq_ok, id_eq, true_and]

theorem foldChecked_quarantine_eq_ok {state : VfsState} {classified out : List Nat}
    (hn : classified.Nodup) :
    foldChecked (fun classified (entry : Nat × Option Nat) => do
        let classified ← classify state "quarantined" classified entry.1
        throwIf (entry.2 ≠ none ∧ entry.2 ≠ some state.generation)
          (.storeLimit "quarantine generation is inconsistent with retained metadata")
        return classified) classified state.allocator.quarantine.entries = .ok out ↔
      (∀ entry ∈ state.allocator.quarantine.entries, entry.1 < state.allocator.totalExtents ∧
        (entry.2 = none ∨ entry.2 = some state.generation)) ∧
      (classified ++ state.allocator.quarantine.keys).Nodup ∧
      out = classified ++ state.allocator.quarantine.keys := by
  refine foldChecked_classify_eq_ok state Prod.fst
    (fun entry : Nat × Option Nat => entry.2 = none ∨ entry.2 = some state.generation)
    (fun {classified out entry} => ?_) hn
  simp only [bind_eq_ok, classify_eq_ok, throwIf_eq_ok, pure_eq_ok, exists_const]
  constructor
  · rintro ⟨_, ⟨h, rfl⟩, ht, rfl⟩
    exact ⟨h, by tauto, rfl⟩
  · rintro ⟨h, ht, rfl⟩
    exact ⟨_, ⟨h, rfl⟩, by tauto, rfl⟩

theorem validateInactive_eq_ok {state : VfsState} {u : Unit} :
    validateInactive state = .ok u ↔ ∀ g,
      state.retainedGenerations.get (otherMetadataFile state.activeMetadataFile) = some g →
        g ≤ maxU64 ∧ 0 < g ∧ g + 1 = state.generation := by
  unfold validateInactive
  cases state.retainedGenerations.get (otherMetadataFile state.activeMetadataFile) with
  | none => simp
  | some g =>
    simp only [bind_eq_ok, checkedU64_nat, throwIf_eq_ok, Option.some.injEq, forall_eq']
    constructor
    · rintro ⟨_, ⟨rfl, hg⟩, h⟩
      omega
    · rintro ⟨hg, h⟩
      exact ⟨g, ⟨rfl, hg⟩, by omega⟩

theorem validatePartition_eq_ok {state : VfsState} {classified : List Nat}
    (hn : classified.Nodup) {u : Unit} :
    validatePartition state classified = .ok u ↔
      (∀ e ∈ unownedExtents state.allocator, e < state.allocator.totalExtents) ∧
      (∀ entry ∈ state.allocator.quarantine.entries,
        entry.2 = none ∨ entry.2 = some state.generation) ∧
      (classified ++ unownedExtents state.allocator).Nodup ∧
      (classified ++ unownedExtents state.allocator).length = state.allocator.totalExtents := by
  simp only [validatePartition, bind_eq_ok, throwIf_eq_ok, not_not, unownedExtents,
    List.mem_append, ← List.append_assoc]
  constructor
  · rintro ⟨_, ha, _, hq, hl⟩
    obtain ⟨hall, hnd, rfl⟩ := (foldChecked_available_eq_ok hn).mp ha
    obtain ⟨hall', hnd', rfl⟩ := (foldChecked_quarantine_eq_ok hnd).mp hq
    refine ⟨fun e he => he.elim (hall e) fun hk => ?_, fun en hen => (hall' en hen).2, hnd', hl⟩
    obtain ⟨en, hen, rfl⟩ := List.mem_map.mp hk
    exact (hall' en hen).1
  · rintro ⟨hall, htags, hnd, hl⟩
    have hnd' := (List.nodup_append.mp hnd).1
    exact ⟨_, (foldChecked_available_eq_ok hn).mpr ⟨fun e he => hall e (.inl he), hnd', rfl⟩, _,
      (foldChecked_quarantine_eq_ok hnd').mpr
        ⟨fun en hen => ⟨hall _ (.inr (List.mem_map_of_mem hen)), htags en hen⟩, hnd, rfl⟩, hl⟩

theorem validateTail_eq_ok {state : VfsState} {acc : VisitAcc} (hn : acc.classified.Nodup)
    {u : Unit} : validateTail state acc = .ok u ↔ TailOk state acc := by
  simp only [validateTail, bind_eq_ok, throwIf_eq_ok, not_not, exists_const, Nat.not_lt,
    validateInactive_eq_ok, validatePartition_eq_ok hn, gt_iff_lt]
  constructor
  · rintro ⟨h1, h2, h3, h4, h5, h6, h7, h8, h9, h10, h11⟩
    exact ⟨h1, h2, h3, h4, h5, h6, h7, h8, h9, h10, h11⟩
  · rintro ⟨h1, h2, h3, h4, h5, h6, h7, h8, h9, h10, h11⟩
    exact ⟨h1, h2, h3, h4, h5, h6, h7, h8, h9, h10, h11⟩

structure HeadOk (state : VfsState) (root : Inode) : Prop where
  extentSize : LegalExtentSize state.extentSize
  generation_le : state.generation ≤ maxU64
  generation_pos : 0 < state.generation
  next_le : state.nextInodeId ≤ maxU64
  found : state.inodes.get? state.rootInodeId = some root
  root_dir : root.body.isDirectory = true
  root_orphan : state.parentByInode.get? state.rootInodeId = none
  inodes_le : state.inodes.size ≤ maxInodes
  total : state.allocator.totalExtents ≤ maxTotalExtents

theorem validateHead_eq_ok {state : VfsState} {root : Inode} :
    validateHead state = .ok root ↔ HeadOk state root := by
  simp only [validateHead, bind_eq_ok, validateExtentSize_eq_ok, checkedU64_nat, throwIf_eq_ok,
    orThrow_eq_ok, Option.filter_eq_some_iff, pure_eq_ok, exists_const, Bool.not_eq_true,
    OrdMap.has_eq_false]
  constructor
  · rintro ⟨_, ⟨hes, rfl⟩, _, ⟨rfl, hg⟩, hpos, _, ⟨rfl, hn⟩, _, ⟨hr, hd⟩, ho, hi, _, ⟨rfl, -⟩, ht,
      rfl⟩
    exact ⟨hes, hg, by omega, hn, hr, hd, ho, by omega, by omega⟩
  · rintro ⟨hes, hg, hpos, hn, hr, hd, ho, hi, ht⟩
    refine ⟨_, ⟨hes, rfl⟩, _, ⟨rfl, hg⟩, by omega, _, ⟨rfl, hn⟩, root, ⟨hr, hd⟩, ho, by omega, _,
      ⟨rfl, ?_⟩, by omega, rfl⟩
    unfold maxTotalExtents at ht
    unfold maxU64
    omega

/-! ### The listing, from the walk to the tree -/

/-- The metrics of the node at a path. -/
def metricsAt (path : List JsString) : PathMetrics := ⟨path.length, pathBytes path⟩

theorem childMetrics_metricsAt (path : List JsString) (name : JsString) :
    childMetrics (metricsAt path) name = metricsAt (path ++ [name]) := by
  simp only [childMetrics, metricsAt, List.length_append, List.length_singleton, pathBytes,
    List.map_append, List.sum_append, List.map_cons, List.map_nil, List.sum_cons, List.sum_nil,
    PathMetrics.mk.injEq, true_and, List.length_eq_zero_iff]
  cases path with
  | nil => simp
  | cons c cs =>
    simp only [reduceCtorEq, if_false, List.map_cons, List.sum_cons]
    omega

theorem mem_subtree_get? {state : VfsState} {fuel key : Nat} {inode : Inode}
    (h : state.inodes.get? key = some inode) {node : Nat × Inode}
    (hn : node ∈ subtree state fuel key inode) : state.inodes.get? node.1 = some node.2 := by
  induction fuel generalizing key inode with
  | zero => simp [subtree] at hn
  | succ fuel ih =>
    rcases List.mem_cons.mp hn with rfl | hn
    · exact h
    · obtain ⟨entry, he, hm⟩ := List.mem_flatMap.mp hn
      cases hc : state.inodes.get? entry.2 with
      | none => simp [hc] at hm
      | some child => rw [hc] at hm; exact ih hc hm

/-- What the walk has checked of one listed node: its own fields, and its entries
under the metrics of its path. -/
structure Listed (state : VfsState) (nodes : List (Nat × Inode)) (node : Nat × Inode) :
    Prop where
  ok : NodeOk state node.1 node.2
  entries : ∃ metrics, ∀ entry ∈ node.2.body.children.entries,
    EdgeOk state node.1 metrics entry ∧
      ∃ child, state.inodes.get? entry.2 = some child ∧ (entry.2, child) ∈ nodes
  path : ∃ path, PathTo state node.1 path ∧ WithinPathLimits path

theorem Listed.mono {state : VfsState} {nodes nodes' : List (Nat × Inode)} {node : Nat × Inode}
    (h : Listed state nodes node) (hsub : ∀ n ∈ nodes, n ∈ nodes') :
    Listed state nodes' node := by
  obtain ⟨hok, ⟨metrics, he⟩, hp⟩ := h
  refine ⟨hok, ⟨metrics, fun entry hen => ?_⟩, hp⟩
  obtain ⟨hedge, child, hc, hmem⟩ := he entry hen
  exact ⟨hedge, child, hc, hsub _ hmem⟩

theorem mem_subtree_self {state : VfsState} {fuel key : Nat} {inode : Inode} :
    (key, inode) ∈ subtree state (fuel + 1) key inode := List.mem_cons_self

theorem mem_subtree_child {state : VfsState} {fuel key : Nat} {inode child : Inode}
    {entry : JsString × Nat} (he : entry ∈ inode.body.children.entries)
    (hc : state.inodes.get? entry.2 = some child) {node : Nat × Inode}
    (hn : node ∈ subtree state fuel entry.2 child) :
    node ∈ subtree state (fuel + 1) key inode :=
  List.mem_cons_of_mem _ (List.mem_flatMap.mpr ⟨entry, he, by simpa only [hc] using hn⟩)

/-- A walk that succeeded at the metrics of its path has checked every node it listed, and
all of them but the first are named by an entry of a listed directory. -/
theorem SubtreeOk.listed {state : VfsState} {fuel key : Nat} {inode : Inode}
    {path : List JsString} (h : SubtreeOk state fuel key inode (metricsAt path))
    (hp : PathTo state key path) (hlim : WithinPathLimits path) {node : Nat × Inode}
    (hn : node ∈ subtree state fuel key inode) :
    Listed state (subtree state fuel key inode) node ∧
      (node = (key, inode) ∨ ∃ parent ∈ subtree state fuel key inode, ∃ name,
        (name, node.1) ∈ parent.2.body.children.entries) := by
  induction fuel generalizing key inode path node with
  | zero => simp [subtree] at hn
  | succ fuel ih =>
    obtain ⟨hnode, hentries⟩ := h
    have hkey : inode.id = key := hnode.key_eq.symm
    have hchild : ∀ entry ∈ inode.body.children.entries, ∃ child,
        state.inodes.get? entry.2 = some child ∧
        SubtreeOk state fuel entry.2 child (metricsAt (path ++ [entry.1])) ∧
        PathTo state entry.2 (path ++ [entry.1]) ∧ WithinPathLimits (path ++ [entry.1]) := by
      intro entry he
      obtain ⟨hedge, child, hc, hsub⟩ := hentries entry he
      have hd := hedge.depth
      have hb := hedge.bytes
      rw [childMetrics_metricsAt] at hsub hd hb
      refine ⟨child, hc, hsub, .child ?_ hp, hd, hb⟩
      rw [parentOf_eq_some, hedge.parent, hkey]
    rcases List.mem_cons.mp hn with rfl | hn
    · refine ⟨⟨hnode, ⟨metricsAt path, fun entry he => ?_⟩, path, hp, hlim⟩, .inl rfl⟩
      obtain ⟨child, hc, hsub, -, -⟩ := hchild entry he
      refine ⟨hkey ▸ (hentries entry he).1, child, hc, mem_subtree_child he hc ?_⟩
      cases fuel with
      | zero => exact hsub.elim
      | succ fuel => exact mem_subtree_self
    · obtain ⟨entry, he, hm⟩ := List.mem_flatMap.mp hn
      obtain ⟨child, hc, hsub, hp', hlim'⟩ := hchild entry he
      rw [hc] at hm
      obtain ⟨hl, hpar⟩ := ih hsub hp' hlim' hm
      refine ⟨hl.mono fun n => mem_subtree_child he hc, .inr ?_⟩
      rcases hpar with rfl | ⟨parent, hpm, name, hname⟩
      · exact ⟨(key, inode), mem_subtree_self, entry.1, he⟩
      · exact ⟨parent, mem_subtree_child he hc hpm, name, hname⟩

/-! ### The partition of the arena, by counting -/

/-- The extents of all files, in the order of the inode table. -/
def ownedExtents (state : VfsState) : List Nat := listedExtents state.inodes.entries

theorem mem_ownedExtents {state : VfsState} {e : Nat} :
    e ∈ ownedExtents state ↔
      ∃ id inode, state.inodes.get? id = some inode ∧ e ∈ inode.body.extents := by
  simp only [ownedExtents, listedExtents, List.mem_flatMap, Prod.exists, OrdMap.get?_eq_some_iff]

/-- `AllocOk` as the validator checks it: by listing and counting. -/
structure Counted (state : VfsState) : Prop where
  owner : ∀ id inode, state.inodes.get? id = some inode → ∀ e ∈ inode.body.extents,
    e < state.allocator.totalExtents ∧ state.allocator.ownedBy.get? e = some id
  owners : (ownedExtents state).length = state.allocator.ownedBy.size
  in_range : ∀ e ∈ unownedExtents state.allocator, e < state.allocator.totalExtents
  tags : ∀ entry ∈ state.allocator.quarantine.entries,
    entry.2 = none ∨ entry.2 = some state.generation
  nodup : (ownedExtents state ++ unownedExtents state.allocator).Nodup
  cover : (ownedExtents state ++ unownedExtents state.allocator).length =
    state.allocator.totalExtents
  total : state.allocator.totalExtents ≤ maxTotalExtents

theorem mem_unownedExtents {allocator : AllocatorState} {e : Nat} :
    e ∈ unownedExtents allocator ↔
      e ∈ allocator.available.items ∨ ∃ tag, allocator.quarantine.get? e = some tag := by
  rw [unownedExtents, List.mem_append, OrdMap.mem_keys_iff]

theorem AllocOk.mem_ownedExtents {state : VfsState} (h : AllocOk state) {e : Nat} :
    e ∈ ownedExtents state ↔ ∃ id, state.allocator.ownedBy.get? e = some id := by
  simp only [Opfs.mem_ownedExtents, h.owned_iff, Owns]

theorem AllocOk.ownedExtents_nodup {state : VfsState} (h : AllocOk state) :
    (ownedExtents state).Nodup := by
  refine List.nodup_flatMap.mpr ⟨fun node hn => ?_, ?_⟩
  · exact h.extents_nodup node.1 node.2 (OrdMap.get?_eq_some_iff.mpr hn)
  · refine (List.Nodup.of_map _ state.inodes.nodup).pairwise_of_forall_ne
      fun x hx y hy hxy e hex hey => hxy ?_
    have hx' := OrdMap.get?_eq_some_iff.mpr hx
    have hy' := OrdMap.get?_eq_some_iff.mpr hy
    have ox := (h.owned_iff e x.1).mpr ⟨x.2, hx', hex⟩
    have oy := (h.owned_iff e y.1).mpr ⟨y.2, hy', hey⟩
    have hk : x.1 = y.1 := by rw [ox] at oy; exact Option.some.inj oy
    rw [hk, hy'] at hx'
    exact Prod.ext hk (Option.some.inj hx').symm

theorem AllocOk.counted {state : VfsState} (h : AllocOk state) : Counted state := by
  have hmem : ∀ e, e ∈ ownedExtents state ++ unownedExtents state.allocator ↔
      e < state.allocator.totalExtents := fun e => by
    rw [List.mem_append, h.mem_ownedExtents, mem_unownedExtents, h.cover]
  have hnd : (ownedExtents state ++ unownedExtents state.allocator).Nodup := by
    refine List.nodup_append.mpr ⟨h.ownedExtents_nodup, List.nodup_append.mpr
      ⟨state.allocator.available.nodup, state.allocator.quarantine.keys_nodup, ?_⟩, ?_⟩
    · rintro e he _ hq rfl
      obtain ⟨tag, ht⟩ := OrdMap.mem_keys_iff.mp hq
      rw [h.available_quarantine e he] at ht
      cases ht
    · rintro e he _ hu rfl
      obtain ⟨id, hid⟩ := h.mem_ownedExtents.mp he
      rcases mem_unownedExtents.mp hu with ha | ⟨tag, ht⟩
      · exact h.owned_available e id hid ha
      · rw [h.owned_quarantine e id hid] at ht
        cases ht
  refine ⟨fun id inode hi e he => ?_, ?_, fun e he => (hmem e).mp (List.mem_append_right _ he),
    fun en hen => h.tags en.1 en.2 (OrdMap.get?_eq_some_iff.mpr hen), hnd, ?_, h.total⟩
  · have ho := (h.owned_iff e id).mpr ⟨inode, hi, he⟩
    exact ⟨(h.cover e).mpr (.inl ⟨id, ho⟩), ho⟩
  · rw [← OrdMap.length_keys]
    refine ((List.perm_ext_iff_of_nodup h.ownedExtents_nodup
      state.allocator.ownedBy.keys_nodup).mpr fun e => ?_).length_eq
    rw [h.mem_ownedExtents, OrdMap.mem_keys_iff]
  · rw [← List.length_range (n := state.allocator.totalExtents)]
    refine ((List.perm_ext_iff_of_nodup hnd List.nodup_range).mpr fun e => ?_).length_eq
    rw [hmem, List.mem_range]

theorem Counted.allocOk {state : VfsState} (h : Counted state) : AllocOk state := by
  have hsub : ∀ e ∈ ownedExtents state, ∃ id, state.allocator.ownedBy.get? e = some id := by
    intro e he
    obtain ⟨id, inode, hi, hmem⟩ := mem_ownedExtents.mp he
    exact ⟨id, (h.owner id inode hi e hmem).2⟩
  obtain ⟨hnd, hnu, hdisj⟩ := List.nodup_append.mp h.nodup
  have hkeys := OrdMap.perm_keys_of_length hnd hsub h.owners
  have howned : ∀ e id, state.allocator.ownedBy.get? e = some id → e ∈ ownedExtents state :=
    fun e id he => hkeys.mem_iff.mpr (OrdMap.mem_keys_iff.mpr ⟨id, he⟩)
  have hrange : (ownedExtents state ++ unownedExtents state.allocator).Perm
      (List.range state.allocator.totalExtents) := by
    refine (List.subperm_of_subset h.nodup fun e he => List.mem_range.mpr ?_).perm_of_length_le
      (by rw [h.cover, List.length_range])
    rcases List.mem_append.mp he with he | he
    · obtain ⟨id, inode, hi, hmem⟩ := mem_ownedExtents.mp he
      exact (h.owner id inode hi e hmem).1
    · exact h.in_range e he
  refine ⟨⟨fun e id => ⟨fun he => ?_, fun ⟨inode, hi, hmem⟩ => (h.owner id inode hi e hmem).2⟩,
    fun e => ?_, fun e id he ha => ?_, fun e id he => ?_, fun e ha => ?_⟩, fun id inode hi => ?_,
    h.total, fun e tag he => h.tags (e, tag) (OrdMap.get?_eq_some_iff.mp he)⟩
  · obtain ⟨id', inode, hi, hmem⟩ := mem_ownedExtents.mp (howned e id he)
    have := (h.owner id' inode hi e hmem).2
    rw [he] at this
    cases this
    exact ⟨inode, hi, hmem⟩
  · rw [← List.mem_range, ← hrange.mem_iff, List.mem_append, mem_unownedExtents]
    exact or_congr_left ⟨hsub e, fun ⟨id, he⟩ => howned e id he⟩
  · exact hdisj e (howned e id he) e (mem_unownedExtents.mpr (.inl ha)) rfl
  · by_contra hne
    obtain ⟨tag, ht⟩ := Option.ne_none_iff_exists'.mp hne
    exact hdisj e (howned e id he) e (mem_unownedExtents.mpr (.inr ⟨tag, ht⟩)) rfl
  · by_contra hne
    obtain ⟨tag, ht⟩ := Option.ne_none_iff_exists'.mp hne
    exact (List.nodup_append.mp hnu).2.2 e ha e (OrdMap.mem_keys_iff.mpr ⟨tag, ht⟩) rfl
  · exact (List.nodup_flatMap.mp hnd).1 (id, inode) (OrdMap.get?_eq_some_iff.mp hi)

theorem allocOk_iff_counted {state : VfsState} : AllocOk state ↔ Counted state :=
  ⟨AllocOk.counted, Counted.allocOk⟩

/-! ### The walk and the invariant -/

/-- What the walk from the root lists. -/
def walkNodes (state : VfsState) (root : Inode) : List (Nat × Inode) :=
  subtree state (maxPathDepth + 1) state.rootInodeId root

def walkAcc (state : VfsState) (root : Inode) : VisitAcc :=
  ⟨listedIds (walkNodes state root), listedExtents (walkNodes state root),
    baseStateFixedBytes + listedBytes (walkNodes state root)⟩

/-- Everything `validateState` has established when it returns. -/
structure Walked (state : VfsState) (root : Inode) : Prop where
  head : HeadOk state root
  subtree : SubtreeOk state (maxPathDepth + 1) state.rootInodeId root (metricsAt [])
  ids : (listedIds (walkNodes state root)).Nodup
  tail : TailOk state (walkAcc state root)

theorem validateState_eq_ok_walked {state : VfsState} :
    validateState state = .ok () ↔ ∃ root, Walked state root := by
  have hnil : (⟨[], [], baseStateFixedBytes⟩ : VisitAcc).NoRepeat :=
    ⟨List.nodup_nil, List.nodup_nil⟩
  have hacc : ∀ root, (⟨[], [], baseStateFixedBytes⟩ : VisitAcc).extend (walkNodes state root)
      (listedBytes (walkNodes state root)) = walkAcc state root := fun root => by
    simp only [VisitAcc.extend, List.nil_append, walkAcc]
  simp only [validateState, bind_eq_ok, validateHead_eq_ok]
  constructor
  · rintro ⟨root, hhead, acc, hvisit, htail⟩
    obtain ⟨hsub, hnr, rfl⟩ := (visit_spec hhead.extentSize.pos _ hnil).mp hvisit
    rw [← walkNodes, hacc] at hnr htail
    exact ⟨root, hhead, hsub, hnr.1, (validateTail_eq_ok hnr.2).mp htail⟩
  · rintro ⟨root, hhead, hsub, hids, htail⟩
    have hnd : (listedExtents (walkNodes state root)).Nodup := (List.nodup_append.mp htail.nodup).1
    exact ⟨root, hhead, _, (visit_spec hhead.extentSize.pos _ hnil).mpr
      ⟨hsub, ⟨hids, hnd⟩, (hacc root).symm⟩, (validateTail_eq_ok hnd).mpr htail⟩

/-- When the listing is the inode table in another order, the allocator and size checks of
the walk are those of the whole table. -/
theorem tailOk_iff_of_perm {state : VfsState} {root : Inode}
    (hperm : (walkNodes state root).Perm state.inodes.entries) :
    (listedExtents (walkNodes state root)).Perm (ownedExtents state) ∧
      (walkAcc state root).calculatedBasePayloadBytes =
        baseStateFixedBytes + state.inodes.sum fun _ inode => bodyBytes inode.body :=
  ⟨hperm.flatMap_right _, by
    simp only [walkAcc, listedBytes, OrdMap.sum, (hperm.map _).sum_eq]⟩

namespace Walked

variable {state : VfsState} {root : Inode} (h : Walked state root)
include h

theorem perm : (walkNodes state root).Perm state.inodes.entries := by
  refine OrdMap.perm_entries_of_length h.ids (fun e he => mem_subtree_get? h.head.found he) ?_
  rw [← h.tail.reached, walkAcc, listedIds, List.length_map]

theorem listed {id : Nat} {inode : Inode} (hi : state.inodes.get? id = some inode) :
    Listed state (walkNodes state root) (id, inode) ∧
      (id = state.rootInodeId ∨ ∃ p parent name, state.inodes.get? p = some parent ∧
        parent.body.children.get? name = some id) := by
  have hmem : (id, inode) ∈ walkNodes state root :=
    h.perm.mem_iff.mpr (OrdMap.get?_eq_some_iff.mp hi)
  obtain ⟨hl, hpar⟩ := h.subtree.listed .refl (by decide) hmem
  refine ⟨hl, ?_⟩
  rcases hpar with heq | ⟨parent, hp, name, hname⟩
  · exact .inl (congrArg Prod.fst heq)
  · exact .inr ⟨parent.1, parent.2, name, mem_subtree_get? h.head.found hp,
      OrdMap.get?_eq_some_iff.mpr hname⟩

/-- The entry of a directory is the child's parent entry, and the child exists. -/
theorem edge {p c : Nat} {parent : Inode} {name : JsString}
    (hp : state.inodes.get? p = some parent) (hc : parent.body.children.get? name = some c) :
    ValidComponent name ∧ state.parentByInode.get? c = some ⟨p, name⟩ ∧
      ∃ child, state.inodes.get? c = some child := by
  obtain ⟨metrics, hentries⟩ := (h.listed hp).1.entries
  obtain ⟨hedge, child, hchild, -⟩ := hentries (name, c) (OrdMap.get?_eq_some_iff.mp hc)
  exact ⟨hedge.name, hedge.parent, child, hchild⟩

/-- Every entry of the parent index comes from a directory entry: the index is no larger
than the inodes without the root, which all have one. -/
theorem parent_present {c : Nat} {e : ParentEntry}
    (he : state.parentByInode.get? c = some e) :
    c ≠ state.rootInodeId ∧ ∃ inode, state.inodes.get? c = some inode := by
  have hsize : state.parentByInode.size ≤ (state.inodes.delete state.rootInodeId).size := by
    have h1 := OrdMap.size_delete_of_some h.head.found
    have h2 := h.tail.parents
    omega
  have hsub : ∀ k inode, (state.inodes.delete state.rootInodeId).get? k = some inode →
      ∃ e, state.parentByInode.get? k = some e := by
    intro k inode hk
    rw [OrdMap.get?_delete] at hk
    split at hk
    · cases hk
    · rename_i hne
      rcases (h.listed hk).2 with rfl | ⟨p, parent, name, hp, hname⟩
      · exact absurd rfl hne
      · exact ⟨_, (h.edge hp hname).2.1⟩
  obtain ⟨inode, hi⟩ := OrdMap.keys_eq_of_size_le hsub hsize he
  rw [OrdMap.get?_delete] at hi
  split at hi
  · cases hi
  · exact ⟨‹_›, inode, hi⟩

theorem treeOk : TreeOk state := by
  have hchild : ∀ p name c, childOf state p name = some c →
      parentOf state c = some (p, name) ∧ Present state c := fun p name c hc => by
    obtain ⟨parent, hp, hname⟩ := childOf_eq_some.mp hc
    exact ⟨parentOf_eq_some.mpr (h.edge hp hname).2.1, (h.edge hp hname).2.2⟩
  refine ⟨⟨root, h.head.found, h.head.root_dir⟩, ⟨root, h.head.found⟩,
    parentOf_eq_none.mpr h.head.root_orphan, fun p name c => ⟨fun he => ?_, fun hc => ?_⟩,
    fun p name c hc => ?_, fun p name c hc => (hchild p name c hc).2, fun id ⟨inode, hi⟩ => ?_⟩
  · have he := parentOf_eq_some.mp he
    obtain ⟨hne, inode, hi⟩ := h.parent_present he
    rcases (h.listed hi).2 with rfl | ⟨p', parent, name', hp, hname⟩
    · exact absurd rfl hne
    · have := (h.edge hp hname).2.1
      rw [he] at this
      cases this
      exact childOf_eq_some.mpr ⟨parent, hp, hname⟩
  · exact (hchild p name c hc).1
  · obtain ⟨parent, hp, -⟩ := childOf_eq_some.mp hc
    exact ⟨parent, hp⟩
  · obtain ⟨path, hp, -⟩ := (h.listed hi).1.path
    exact ⟨path, hp⟩

theorem pathsWithin : PathsWithin state := by
  intro id path hp
  obtain ⟨inode, hi⟩ : Present state id := by
    by_cases hid : id = state.rootInodeId
    · exact ⟨root, hid ▸ h.head.found⟩
    · obtain ⟨p, name, _, he, -, -⟩ := hp.exists_parent hid
      exact (h.parent_present (parentOf_eq_some.mp he)).2
  obtain ⟨path', hp', hlim⟩ := (h.listed hi).1.path
  rwa [h.treeOk.path_unique hp hp']

theorem inodeOk {id : Nat} {inode : Inode} (hi : state.inodes.get? id = some inode) :
    InodeOk state id inode := by
  obtain ⟨hkey, -, hlt, hmode, hatime, hmtime, hctime, htarget, hfile, -⟩ := (h.listed hi).1.ok
  have hkey : id = inode.id := hkey
  exact ⟨hkey.symm, hkey ▸ hlt, hmode, hatime, hmtime, hctime,
    fun name c hc => (h.edge hi hc).1, htarget, hfile⟩

theorem allocOk : AllocOk state := by
  have hext := (tailOk_iff_of_perm h.perm).1
  refine allocOk_iff_counted.mpr ⟨fun id inode hi e he => ?_, ?_, h.tail.in_range, h.tail.tags,
    ?_, ?_, h.head.total⟩
  · have hok := (h.listed hi).1.ok
    have hkey : id = inode.id := hok.key_eq
    rw [hkey]
    exact hok.owner e he
  · rw [← hext.length_eq]
    exact h.tail.owners
  · exact (hext.append_right _).nodup_iff.mp h.tail.nodup
  · rw [← (hext.append_right _).length_eq]
    exact h.tail.cover

theorem wellFormed : WellFormed state := by
  refine ⟨⟨⟨h.head.extentSize, h.head.generation_pos, h.head.generation_le, h.head.next_le,
    h.head.inodes_le, fun _ _ hi => h.inodeOk hi, h.treeOk, h.allocOk, h.tail.active,
    fun g hg => (h.tail.inactive g hg).2⟩, ?_, h.tail.base_le⟩, h.pathsWithin⟩
  rw [h.tail.base_eq, (tailOk_iff_of_perm h.perm).2, canonicalBaseBytes]
  omega

end Walked

/-! ### From the tree to the listing -/

namespace WellFormed

variable {state : VfsState} (h : WellFormed state)
include h

theorem nodeOk {id : Nat} {inode : Inode} (hi : state.inodes.get? id = some inode) :
    NodeOk state id inode := by
  have hok := h.sound.inodes id inode hi
  have hlt := hok.lt_next
  have hnext := h.sound.next_le
  refine ⟨hok.id_eq.symm, by rw [hok.id_eq]; omega, by rw [hok.id_eq]; exact hlt, hok.mode,
    hok.atime, hok.mtime, hok.ctime, hok.target, hok.file, fun e he => ?_⟩
  rw [hok.id_eq]
  have ho := (h.sound.alloc.owned_iff e id).mpr ⟨inode, hi, he⟩
  exact ⟨(h.sound.alloc.cover e).mpr (.inl ⟨id, ho⟩), ho⟩

/-- A node within the path limits passes with the fuel that its depth leaves. -/
theorem subtreeOk {fuel key : Nat} {inode : Inode} {path : List JsString}
    (hi : state.inodes.get? key = some inode) (hp : PathTo state key path)
    (hfuel : path.length + fuel = maxPathDepth + 1) :
    SubtreeOk state fuel key inode (metricsAt path) := by
  induction fuel generalizing key inode path with
  | zero =>
    have := (h.paths key path hp).1
    omega
  | succ fuel ih =>
    have hid : inode.id = key := (h.sound.inodes key inode hi).id_eq
    refine ⟨h.nodeOk hi, fun entry he => ?_⟩
    have hc := OrdMap.get?_eq_some_iff.mpr he
    obtain ⟨hpar, child, hchild⟩ := h.sound.tree.child hi hc
    have hp' : PathTo state entry.2 (path ++ [entry.1]) := .child hpar hp
    have hlim := h.paths entry.2 _ hp'
    have hsub := ih hchild hp' (by rw [List.length_append, List.length_singleton]; omega)
    rw [childMetrics_metricsAt]
    refine ⟨⟨(h.sound.inodes key inode hi).names _ _ hc, ?_, ?_, ?_⟩, child, hchild, hsub⟩
    · rw [hid]
      exact parentOf_eq_some.mp hpar
    · rw [childMetrics_metricsAt]
      exact hlim.1
    · rw [childMetrics_metricsAt]
      exact hlim.2

/-- The nodes listed below a node have paths that extend its path. -/
theorem path_of_mem_subtree {fuel key : Nat} {inode : Inode} {path : List JsString}
    (hi : state.inodes.get? key = some inode) (hp : PathTo state key path)
    {node : Nat × Inode} (hn : node ∈ subtree state fuel key inode) :
    ∃ rest, PathTo state node.1 (path ++ rest) := by
  induction fuel generalizing key inode path with
  | zero => simp [subtree] at hn
  | succ fuel ih =>
    rcases List.mem_cons.mp hn with rfl | hn
    · exact ⟨[], by simpa using hp⟩
    · obtain ⟨entry, he, hm⟩ := List.mem_flatMap.mp hn
      obtain ⟨hpar, child, hchild⟩ := h.sound.tree.child hi (OrdMap.get?_eq_some_iff.mpr he)
      rw [hchild] at hm
      obtain ⟨rest, hr⟩ := ih hchild (.child hpar hp) hm
      exact ⟨entry.1 :: rest, by simpa using hr⟩

/-- No inode is listed twice: its path decides under which entry it is listed. -/
theorem nodup_subtree {fuel key : Nat} {inode : Inode} {path : List JsString}
    (hi : state.inodes.get? key = some inode) (hp : PathTo state key path) :
    (listedIds (subtree state fuel key inode)).Nodup := by
  induction fuel generalizing key inode path with
  | zero => simp [subtree, listedIds]
  | succ fuel ih =>
    have hstep : ∀ entry ∈ inode.body.children.entries, ∃ child,
        state.inodes.get? entry.2 = some child ∧ PathTo state entry.2 (path ++ [entry.1]) :=
      fun entry he => by
        obtain ⟨hpar, child, hchild⟩ := h.sound.tree.child hi (OrdMap.get?_eq_some_iff.mpr he)
        exact ⟨child, hchild, .child hpar hp⟩
    -- an id listed under an entry has that entry next on its path
    have hunder : ∀ entry ∈ inode.body.children.entries, ∀ child,
        state.inodes.get? entry.2 = some child →
        ∀ id ∈ listedIds (subtree state fuel entry.2 child),
          ∃ rest, PathTo state id (path ++ entry.1 :: rest) := by
      intro entry he child hchild id hid
      obtain ⟨child', hchild', hp'⟩ := hstep entry he
      obtain ⟨node, hn, rfl⟩ := List.mem_map.mp hid
      obtain ⟨rest, hr⟩ := h.path_of_mem_subtree hchild hp' hn
      exact ⟨rest, by simpa using hr⟩
    rw [subtree, listedIds, List.map_cons, List.map_flatMap, List.nodup_cons]
    refine ⟨fun hm => ?_, List.nodup_flatMap.mpr ⟨fun entry he => ?_, ?_⟩⟩
    · obtain ⟨entry, he, hid⟩ := List.mem_flatMap.mp hm
      obtain ⟨child, hchild, -⟩ := hstep entry he
      rw [hchild] at hid
      obtain ⟨rest, hr⟩ := hunder entry he child hchild key hid
      have := h.sound.tree.path_unique hr hp
      simp at this
    · obtain ⟨child, hchild, hp'⟩ := hstep entry he
      rw [hchild]
      exact ih hchild hp'
    · refine (List.Nodup.of_map _ inode.body.children.nodup).pairwise_of_forall_ne
        fun x hx y hy hxy id hidx hidy => hxy ?_
      obtain ⟨cx, hcx, -⟩ := hstep x hx
      obtain ⟨cy, hcy, -⟩ := hstep y hy
      simp only [hcx] at hidx
      simp only [hcy] at hidy
      obtain ⟨rx, hrx⟩ := hunder x hx cx hcx id hidx
      obtain ⟨ry, hry⟩ := hunder y hy cy hcy id hidy
      have hname := List.append_cancel_left (h.sound.tree.path_unique hrx hry)
      rw [List.cons.injEq] at hname
      have hx' := OrdMap.get?_eq_some_iff.mpr hx
      have hy' := OrdMap.get?_eq_some_iff.mpr hy
      rw [hname.1, hy'] at hx'
      exact Prod.ext hname.1 (Option.some.inj hx').symm

/-- Every inode that the fuel can reach is listed. -/
theorem mem_subtree {fuel key : Nat} {inode : Inode} (hi : state.inodes.get? key = some inode)
    {id : Nat} {found : Inode} (hf : state.inodes.get? id = some found) {labels : List JsString}
    (hb : Below (parentOf state) key id labels) (hfuel : labels.length < fuel) :
    (id, found) ∈ subtree state fuel key inode := by
  induction labels generalizing fuel key inode with
  | nil =>
    obtain ⟨fuel, rfl⟩ := Nat.exists_eq_succ_of_ne_zero (Nat.ne_of_gt hfuel)
    have := hb.eq_of_nil
    subst this
    rw [hi] at hf
    cases hf
    exact mem_subtree_self
  | cons name labels ih =>
    obtain ⟨fuel, rfl⟩ := Nat.exists_eq_succ_of_ne_zero (Nat.ne_of_gt (Nat.zero_lt_of_lt hfuel))
    obtain ⟨c, hpar, hb'⟩ := hb.exists_child
    obtain ⟨parent, hp, hname⟩ := h.sound.tree.entry_iff.mp (parentOf_eq_some.mp hpar)
    rw [hi] at hp
    cases hp
    obtain ⟨-, child, hchild⟩ := h.sound.tree.child hi hname
    rw [List.length_cons] at hfuel
    have he : (name, c) ∈ inode.body.children.entries := OrdMap.get?_eq_some_iff.mp hname
    exact mem_subtree_child he hchild (ih hchild hb' (by omega))

theorem walked : ∃ root, Walked state root := by
  obtain ⟨root, hroot, hdir⟩ := h.sound.tree.root_dir
  have hids : (listedIds (walkNodes state root)).Nodup := h.nodup_subtree hroot .refl
  have hperm : (walkNodes state root).Perm state.inodes.entries := by
    refine OrdMap.perm_entries_of_mem hids (fun e he => mem_subtree_get? hroot he)
      fun id inode hi => ?_
    obtain ⟨path, hp⟩ := h.sound.tree.reach hi
    exact h.mem_subtree hroot hi hp (Nat.lt_succ_of_le (h.paths id path hp).1)
  obtain ⟨hext, hbytes⟩ := tailOk_iff_of_perm hperm
  have hc := allocOk_iff_counted.mp h.sound.alloc
  refine ⟨root, ⟨h.sound.extentSize, h.sound.generation_le, h.sound.generation_pos,
    h.sound.next_le, hroot, hdir, h.sound.tree.root_orphan, h.sound.inodes_le, hc.total⟩,
    h.subtreeOk hroot .refl rfl, hids, ?_⟩
  refine ⟨?_, h.sound.tree.parent_size, hext.length_eq.trans hc.owners, ?_, h.base_le,
    h.sound.retained_active, fun g hg => ?_, hc.in_range, hc.tags,
    (hext.append_right _).nodup_iff.mpr hc.nodup,
    (hext.append_right _).length_eq.trans hc.cover⟩
  · rw [walkAcc, listedIds, List.length_map, hperm.length_eq, OrdMap.size]
  · rw [h.base_eq, hbytes, canonicalBaseBytes]
    omega
  · have hlt := h.sound.retained_inactive g hg
    have hle := h.sound.generation_le
    exact ⟨by omega, hlt⟩

end WellFormed

/-- `validateState` accepts exactly the well-formed states. -/
theorem validateState_eq_ok_iff {state : VfsState} :
    validateState state = .ok () ↔ WellFormed state :=
  validateState_eq_ok_walked.trans ⟨fun ⟨_, h⟩ => h.wellFormed, WellFormed.walked⟩

end Opfs
