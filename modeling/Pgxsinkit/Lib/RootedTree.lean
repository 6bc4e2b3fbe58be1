/-
Rooted trees given by a parent function.

`Below parent a k labels` says that `k` is reached from `a` by walking down the
edges spelled by `labels`; a node of the tree is one below the root.  Nothing is
assumed finite and no node need be in the tree.  The three changes a directory
tree makes are covered by one congruence (`Below.congr_off`): a change of the
parent of one node `s` keeps every path that does not pass `s`.

* `Below.unique` — in a rooted tree a node has one path from the root;
* `Below.move` — re-hanging `s` under a node outside its own subtree moves
  exactly the paths that pass `s`;
* `Below.length_le` — a path is no longer than the number of nodes with a parent;
* `NamedTree.linked`, `unlinked`, `moved` — the three changes keep a tree a tree, and
  `path_linked`, `path_unlinked`, `path_moved` say which paths are new.
-/
import Mathlib

namespace RootedTree

variable {K L : Type}

/-- `k` is reached from `a` by the edge labels `labels`. -/
inductive Below (parent : K → Option (K × L)) (a : K) : K → List L → Prop
  | refl : Below parent a a []
  | child {k p : K} {l : L} {labels : List L} :
      parent k = some (p, l) → Below parent a p labels → Below parent a k (labels ++ [l])

variable {parent parent' : K → Option (K × L)} {root a k p s d : K} {l n : L}
  {labels labels' : List L}

namespace Below

theorem eq_of_nil (h : Below parent a k []) : k = a := by
  generalize hl : ([] : List L) = ls at h
  cases h with
  | refl => rfl
  | child _ _ => simp at hl

theorem trans (h : Below parent a k labels) {j : K} (h' : Below parent k j labels') :
    Below parent a j (labels ++ labels') := by
  induction h' with
  | refl => simpa using h
  | child hp _ ih => rw [← List.append_assoc]; exact .child hp ih

theorem single (h : parent k = some (p, l)) : Below parent p k [l] := by
  simpa using Below.child h (.refl (a := p))

/-- The last edge of a nonempty path. -/
theorem exists_parent (h : Below parent a k labels) (hk : k ≠ a) :
    ∃ p l ls, parent k = some (p, l) ∧ Below parent a p ls ∧ labels = ls ++ [l] := by
  cases h with
  | refl => exact absurd rfl hk
  | child hp hb => exact ⟨_, _, _, hp, hb, rfl⟩

/-- The first edge of a nonempty path. -/
theorem exists_child {q : L} {qs : List L} (h : Below parent a k (q :: qs)) :
    ∃ c, parent c = some (a, q) ∧ Below parent c k qs := by
  generalize hl : q :: qs = ls at h
  induction h generalizing qs with
  | refl => simp at hl
  | @child k p l ls hp hb ih =>
    cases ls with
    | nil =>
      obtain ⟨rfl, rfl⟩ : q = l ∧ qs = [] := by simpa using hl
      have := hb.eq_of_nil
      subst this
      exact ⟨k, hp, .refl⟩
    | cons q' ls =>
      obtain ⟨rfl, rfl⟩ : q = q' ∧ qs = ls ++ [l] := by simpa using hl
      obtain ⟨c, hc, hb'⟩ := ih rfl
      exact ⟨c, hc, .child hp hb'⟩

/-- A node has one path from a root without a parent. -/
theorem unique (hroot : parent root = none) (h : Below parent root k labels)
    (h' : Below parent root k labels') : labels = labels' := by
  induction h generalizing labels' with
  | refl =>
    cases h' with
    | refl => rfl
    | child hp _ => rw [hroot] at hp; cases hp
  | child hp _ ih =>
    cases h' with
    | refl => rw [hroot] at hp; cases hp
    | child hp' hb' =>
      rw [hp] at hp'
      cases hp'
      rw [ih hb']

/-- Equal paths end in the same node when siblings carry different labels. -/
theorem injective (hsib : ∀ x y e, parent x = some e → parent y = some e → x = y)
    (h : Below parent a k labels) {j : K} (h' : Below parent a j labels) : k = j := by
  induction h generalizing j with
  | refl => exact h'.eq_of_nil.symm
  | @child k p l ls hp _ ih =>
    generalize hls : ls ++ [l] = ls' at h'
    cases h' with
    | refl => simp at hls
    | child hp' hb' =>
      obtain ⟨rfl, hl⟩ := List.append_inj' hls rfl
      cases hl
      obtain rfl := ih hb'
      exact hsib _ _ _ hp hp'

/-- No node of a rooted tree is properly below itself. -/
theorem not_cyclic (hroot : parent root = none) (hk : Below parent root k labels)
    (h : Below parent k k labels') : labels' = [] := by
  have := (hk.trans h).unique hroot hk
  simpa using this

/-- Fewer edges, fewer paths. -/
theorem mono (hsub : ∀ x e, parent' x = some e → parent x = some e)
    (h : Below parent' a k labels) : Below parent a k labels := by
  induction h with
  | refl => exact .refl
  | child hp _ ih => exact .child (hsub _ _ hp) ih

/-- A change of the parent of `s` alone keeps the paths that do not pass `s`. -/
theorem congr_off (hoff : ∀ x, x ≠ s → parent' x = parent x)
    (h : Below parent a k labels) (hs : ∀ ls, ¬ Below parent s k ls) :
    Below parent' a k labels := by
  induction h with
  | refl => exact .refl
  | @child k p l ls hp _ ih =>
    have hks : k ≠ s := fun hk => hs [] (hk ▸ .refl)
    refine .child (by rw [hoff k hks, hp]) (ih fun ls' hb => hs (ls' ++ [l]) (.child hp hb))

/-- A change of the parent of `s` alone keeps the paths that start at `s`. -/
theorem congr_subtree (hroot : parent root = none)
    (hoff : ∀ x, x ≠ s → parent' x = parent x) (hs : Below parent root s labels')
    (h : Below parent s k labels) : Below parent' s k labels := by
  induction h with
  | refl => exact .refl
  | @child k p l ls hp hb ih =>
    refine .child ?_ ih
    rw [hoff k ?_, hp]
    rintro rfl
    have := hs.not_cyclic hroot (.child hp hb)
    simp at this

/-- A node that is nobody's parent has only itself below it. -/
theorem of_no_child (hs : ∀ x l, parent x ≠ some (s, l)) (h : Below parent s k labels) :
    k = s := by
  cases labels with
  | nil => exact h.eq_of_nil
  | cons q qs =>
    obtain ⟨c, hc, _⟩ := h.exists_child
    exact absurd hc (hs c q)

/-- Changing the parent of a leaf keeps the path of every other node. -/
theorem congr_leaf (hoff : ∀ x, x ≠ s → parent' x = parent x)
    (hs : ∀ x l, parent x ≠ some (s, l)) (hk : k ≠ s) (h : Below parent a k labels) :
    Below parent' a k labels :=
  h.congr_off hoff fun _ hb => hk (hb.of_no_child hs)

/-- Re-hanging `s` under `d`, which is not below `s`: a path through `s` now runs
through `d`.  (`congr_off` keeps every other path.) -/
theorem move (hroot : parent root = none) (hoff : ∀ x, x ≠ s → parent' x = parent x)
    (hnew : parent' s = some (d, n)) {sPath dPath : List L}
    (hs : Below parent root s sPath) (hd : Below parent root d dPath)
    (hds : ∀ ls, ¬ Below parent s d ls) (h : Below parent s k labels) :
    Below parent' root k (dPath ++ [n] ++ labels) :=
  (Below.child hnew (hd.congr_off hoff hds)).trans (congr_subtree hroot hoff hs h)

/-- The nodes on a path are distinct, and all but the root have a parent. -/
theorem exists_nodes (hroot : parent root = none) (h : Below parent root k labels) :
    ∃ nodes : List K, nodes.Nodup ∧ nodes.length = labels.length ∧
      ∀ x ∈ nodes, (∃ e, parent x = some e) ∧
        ∃ ls, Below parent root x ls ∧ ls.length ≤ labels.length := by
  induction h with
  | refl => exact ⟨[], by simp, rfl, by simp⟩
  | @child k p l ls hp hb ih =>
    obtain ⟨nodes, hnd, hlen, hmem⟩ := ih
    refine ⟨k :: nodes, List.nodup_cons.mpr ⟨fun hk => ?_, hnd⟩, by simp [hlen], ?_⟩
    · obtain ⟨_, ls', hb', hle⟩ := hmem k hk
      have := hb'.unique hroot (.child hp hb)
      rw [this, List.length_append, List.length_singleton] at hle
      omega
    · intro x hx
      rcases List.mem_cons.mp hx with rfl | hx
      · exact ⟨⟨_, hp⟩, _, .child hp hb, Nat.le_refl _⟩
      · obtain ⟨he, ls', hb', hle⟩ := hmem x hx
        exact ⟨he, ls', hb', by rw [List.length_append]; omega⟩

/-- A path is no longer than a listing of the nodes that have a parent. -/
theorem length_le (hroot : parent root = none) (h : Below parent root k labels)
    {dom : List K} (hdom : ∀ x e, parent x = some e → x ∈ dom) :
    labels.length ≤ dom.length := by
  obtain ⟨nodes, hnd, hlen, hmem⟩ := h.exists_nodes hroot
  have hsub : nodes ⊆ dom := fun x hx => by
    obtain ⟨⟨e, he⟩, _⟩ := hmem x hx
    exact hdom x e he
  rw [← hlen]
  exact (List.subperm_of_subset hnd hsub).length_le

end Below

/-! ### Trees with named children -/

/-- The nodes `present` form one tree under `root`: `parent` is the exact inverse of the
child lookup, and every node is reached from the root. -/
structure NamedTree (root : K) (present : K → Prop) (child : K → L → Option K)
    (parent : K → Option (K × L)) : Prop where
  root_present : present root
  root_orphan : parent root = none
  inverse : ∀ p l c, parent c = some (p, l) ↔ child p l = some c
  owner_present : ∀ p l c, child p l = some c → present p
  child_present : ∀ p l c, child p l = some c → present c
  reach : ∀ k, present k → ∃ path, Below parent root k path

namespace NamedTree

/-- The tree with the new leaf `c` under the name `l` of `p`. -/
structure Linked (present : K → Prop) (child : K → L → Option K)
    (parent : K → Option (K × L)) (p : K) (l : L) (c : K)
    (present' : K → Prop) (child' : K → L → Option K) (parent' : K → Option (K × L)) :
    Prop where
  fresh : ¬ present c
  owner : present p
  free : child p l = none
  present_iff : ∀ k, present' k ↔ present k ∨ k = c
  child_self : child' p l = some c
  child_ne : ∀ q n, ¬ (q = p ∧ n = l) → child' q n = child q n
  parent_self : parent' c = some (p, l)
  parent_ne : ∀ k, k ≠ c → parent' k = parent k

/-- The tree without the leaf `c`, which `p` named `l`. -/
structure Unlinked (present : K → Prop) (child : K → L → Option K)
    (parent : K → Option (K × L)) (p : K) (l : L) (c : K)
    (present' : K → Prop) (child' : K → L → Option K) (parent' : K → Option (K × L)) :
    Prop where
  edge : child p l = some c
  leaf : ∀ n, child c n = none
  present_iff : ∀ k, present' k ↔ present k ∧ k ≠ c
  child_self : child' p l = none
  child_ne : ∀ q n, ¬ (q = p ∧ n = l) → child' q n = child q n
  parent_self : parent' c = none
  parent_ne : ∀ k, k ≠ c → parent' k = parent k

/-- The tree in which `s`, which `p` named `l`, hangs under the name `m` of `d` instead. -/
structure Moved (present : K → Prop) (child : K → L → Option K)
    (parent : K → Option (K × L)) (p : K) (l : L) (s d : K) (m : L)
    (present' : K → Prop) (child' : K → L → Option K) (parent' : K → Option (K × L)) :
    Prop where
  edge : child p l = some s
  owner : present d
  free : child d m = none
  not_below : ∀ ls, ¬ Below parent s d ls
  present_iff : ∀ k, present' k ↔ present k
  child_source : child' p l = none
  child_target : child' d m = some s
  child_ne : ∀ q n, ¬ (q = p ∧ n = l) → ¬ (q = d ∧ n = m) → child' q n = child q n
  parent_self : parent' s = some (d, m)
  parent_ne : ∀ k, k ≠ s → parent' k = parent k

variable {present present' : K → Prop} {child child' : K → L → Option K} {c : K} {m : L}
  (h : NamedTree root present child parent)
include h

theorem ne_root (hc : child p l = some c) : c ≠ root := by
  rintro rfl
  have := (h.inverse _ _ _).mpr hc
  rw [h.root_orphan] at this
  cases this

theorem parent_eq_none (hc : ¬ present c) : parent c = none := by
  cases hp : parent c with
  | none => rfl
  | some e => exact absurd (h.child_present _ _ _ ((h.inverse _ _ _).mp hp)) hc

/-- A node with no children has only itself below it. -/
theorem below_leaf (hleaf : ∀ l, child c l = none) (hb : Below parent c k labels) : k = c := by
  refine hb.of_no_child fun x l hx => ?_
  rw [h.inverse, hleaf] at hx
  cases hx

theorem path_of_present_linked
    (hl : Linked present child parent p l c present' child' parent') (hk : present k)
    (hb : Below parent root k labels) : Below parent' root k labels := by
  refine hb.congr_leaf hl.parent_ne (fun x n hx => ?_) fun hkc => hl.fresh (hkc ▸ hk)
  exact hl.fresh (h.owner_present _ _ _ ((h.inverse _ _ _).mp hx))

theorem linked (hl : Linked present child parent p l c present' child' parent') :
    NamedTree root present' child' parent' := by
  have hpc : p ≠ c := fun he => hl.fresh (he ▸ hl.owner)
  have hrc : root ≠ c := fun he => hl.fresh (he ▸ h.root_present)
  refine ⟨(hl.present_iff _).mpr (.inl h.root_present), ?_, fun q n k => ?_, fun q n k hk => ?_,
    fun q n k hk => ?_, fun k hk => ?_⟩
  · rw [hl.parent_ne _ hrc, h.root_orphan]
  · by_cases hkc : k = c
    · subst hkc
      rw [hl.parent_self, Option.some.injEq, Prod.mk.injEq]
      refine ⟨?_, fun hq => ?_⟩
      · rintro ⟨rfl, rfl⟩
        exact hl.child_self
      · by_contra hne
        rw [hl.child_ne q n fun hh => hne ⟨hh.1.symm, hh.2.symm⟩] at hq
        exact hl.fresh (h.child_present _ _ _ hq)
    · rw [hl.parent_ne k hkc, h.inverse]
      by_cases hqn : q = p ∧ n = l
      · obtain ⟨rfl, rfl⟩ := hqn
        rw [hl.free, hl.child_self]
        exact ⟨nofun, fun hx => absurd (Option.some.inj hx).symm hkc⟩
      · rw [hl.child_ne q n hqn]
  · by_cases hqn : q = p ∧ n = l
    · exact (hl.present_iff q).mpr (.inl (hqn.1 ▸ hl.owner))
    · rw [hl.child_ne q n hqn] at hk
      exact (hl.present_iff q).mpr (.inl (h.owner_present _ _ _ hk))
  · by_cases hqn : q = p ∧ n = l
    · obtain ⟨rfl, rfl⟩ := hqn
      rw [hl.child_self] at hk
      exact (hl.present_iff k).mpr (.inr (Option.some.inj hk).symm)
    · rw [hl.child_ne q n hqn] at hk
      exact (hl.present_iff k).mpr (.inl (h.child_present _ _ _ hk))
  · rcases (hl.present_iff k).mp hk with hk | rfl
    · obtain ⟨path, hp⟩ := h.reach k hk
      exact ⟨path, h.path_of_present_linked hl hk hp⟩
    · obtain ⟨path, hp⟩ := h.reach p hl.owner
      exact ⟨_, .child hl.parent_self (h.path_of_present_linked hl hl.owner hp)⟩

/-- The only new path is that of the new leaf. -/
theorem path_linked (hl : Linked present child parent p l c present' child' parent')
    (hb : Below parent' root k labels) :
    Below parent root k labels ∨
      ∃ path, Below parent root p path ∧ k = c ∧ labels = path ++ [l] := by
  have hroot := (h.linked hl).root_orphan
  by_cases hk : present k
  · obtain ⟨path, hp⟩ := h.reach k hk
    rw [hb.unique hroot (h.path_of_present_linked hl hk hp)]
    exact .inl hp
  · have hkr : k ≠ root := fun he => hk (he ▸ h.root_present)
    obtain ⟨q, n, ls, hq, hbq, rfl⟩ := hb.exists_parent hkr
    by_cases hkc : k = c
    · subst hkc
      rw [hl.parent_self] at hq
      cases hq
      obtain ⟨path, hp⟩ := h.reach p hl.owner
      rw [hbq.unique hroot (h.path_of_present_linked hl hl.owner hp)]
      exact .inr ⟨path, hp, rfl, rfl⟩
    · rw [hl.parent_ne k hkc] at hq
      exact absurd (h.child_present _ _ _ ((h.inverse _ _ _).mp hq)) hk

theorem unlinked (hu : Unlinked present child parent p l c present' child' parent') :
    NamedTree root present' child' parent' := by
  have hpl := (h.inverse _ _ _).mpr hu.edge
  have hchild : ∀ q n k, child' q n = some k → child q n = some k ∧ k ≠ c := fun q n k hk => by
    by_cases hqn : q = p ∧ n = l
    · rw [hqn.1, hqn.2, hu.child_self] at hk
      cases hk
    · rw [hu.child_ne q n hqn] at hk
      refine ⟨hk, fun hkc => hqn ?_⟩
      have := (h.inverse _ _ _).mpr hk
      rw [hkc, hpl] at this
      cases this
      exact ⟨rfl, rfl⟩
  refine ⟨(hu.present_iff _).mpr ⟨h.root_present, (h.ne_root hu.edge).symm⟩, ?_, fun q n k => ?_,
    fun q n k hk => ?_, fun q n k hk => ?_, fun k hk => ?_⟩
  · rw [hu.parent_ne _ (h.ne_root hu.edge).symm, h.root_orphan]
  · constructor
    · intro hk
      have hkc : k ≠ c := fun hkc => by rw [hkc, hu.parent_self] at hk; cases hk
      rw [hu.parent_ne k hkc, h.inverse] at hk
      rwa [hu.child_ne]
      rintro ⟨rfl, rfl⟩
      rw [hu.edge] at hk
      exact hkc (Option.some.inj hk).symm
    · intro hk
      obtain ⟨hk, hkc⟩ := hchild q n k hk
      rw [hu.parent_ne k hkc, h.inverse, hk]
  · obtain ⟨hk, -⟩ := hchild q n k hk
    refine (hu.present_iff q).mpr ⟨h.owner_present _ _ _ hk, fun hq => ?_⟩
    rw [hq, hu.leaf] at hk
    cases hk
  · obtain ⟨hk, hkc⟩ := hchild q n k hk
    exact (hu.present_iff k).mpr ⟨h.child_present _ _ _ hk, hkc⟩
  · obtain ⟨hk, hkc⟩ := (hu.present_iff k).mp hk
    obtain ⟨path, hp⟩ := h.reach k hk
    exact ⟨path, hp.congr_leaf hu.parent_ne
      (fun x n hx => by rw [h.inverse, hu.leaf] at hx; cases hx) hkc⟩

omit h in
/-- Removing a leaf makes no new path. -/
theorem path_unlinked (hu : Unlinked present child parent p l c present' child' parent')
    (hb : Below parent' root k labels) : Below parent root k labels :=
  hb.mono fun x e he => by
    rw [← hu.parent_ne x fun hx => ?_, he]
    rw [hx, hu.parent_self] at he
    cases he

theorem path_moved_below (hm : Moved present child parent p l s d m present' child' parent')
    {dPath : List L} (hd : Below parent root d dPath) (hb : Below parent s k labels) :
    Below parent' root k (dPath ++ [m] ++ labels) := by
  obtain ⟨sPath, hs⟩ := h.reach s (h.child_present _ _ _ hm.edge)
  exact Below.move h.root_orphan hm.parent_ne hm.parent_self hs hd hm.not_below hb

theorem moved (hm : Moved present child parent p l s d m present' child' parent') :
    NamedTree root present' child' parent' := by
  have hpl := (h.inverse _ _ _).mpr hm.edge
  have hne : ¬ (d = p ∧ m = l) := by
    rintro ⟨rfl, rfl⟩
    have := hm.free
    rw [hm.edge] at this
    cases this
  have hchild : ∀ q n k, child' q n = some k →
      k = s ∧ q = d ∧ n = m ∨ k ≠ s ∧ child q n = some k := fun q n k hk => by
    by_cases hqd : q = d ∧ n = m
    · rw [hqd.1, hqd.2, hm.child_target] at hk
      exact .inl ⟨(Option.some.inj hk).symm, hqd⟩
    · by_cases hqp : q = p ∧ n = l
      · rw [hqp.1, hqp.2, hm.child_source] at hk
        cases hk
      · rw [hm.child_ne q n hqp hqd] at hk
        refine .inr ⟨fun hks => hqp ?_, hk⟩
        have := (h.inverse _ _ _).mpr hk
        rw [hks, hpl] at this
        cases this
        exact ⟨rfl, rfl⟩
  obtain ⟨dPath, hd⟩ := h.reach d hm.owner
  refine ⟨(hm.present_iff _).mpr h.root_present, ?_, fun q n k => ?_, fun q n k hk => ?_,
    fun q n k hk => ?_, fun k hk => ?_⟩
  · rw [hm.parent_ne _ (h.ne_root hm.edge).symm, h.root_orphan]
  · constructor
    · intro hk
      by_cases hks : k = s
      · rw [hks, hm.parent_self] at hk
        cases hk
        rw [hks, hm.child_target]
      · rw [hm.parent_ne k hks, h.inverse] at hk
        rw [hm.child_ne, hk]
        · rintro ⟨rfl, rfl⟩
          rw [hm.edge] at hk
          exact hks (Option.some.inj hk).symm
        · rintro ⟨rfl, rfl⟩
          rw [hm.free] at hk
          cases hk
    · intro hk
      rcases hchild q n k hk with ⟨rfl, rfl, rfl⟩ | ⟨hks, hk⟩
      · exact hm.parent_self
      · rw [hm.parent_ne k hks, h.inverse, hk]
  · rcases hchild q n k hk with ⟨-, rfl, -⟩ | ⟨-, hk⟩
    · exact (hm.present_iff q).mpr hm.owner
    · exact (hm.present_iff q).mpr (h.owner_present _ _ _ hk)
  · rcases hchild q n k hk with ⟨rfl, -, -⟩ | ⟨-, hk⟩
    · exact (hm.present_iff k).mpr (h.child_present _ _ _ hm.edge)
    · exact (hm.present_iff k).mpr (h.child_present _ _ _ hk)
  · obtain ⟨path, hp⟩ := h.reach k ((hm.present_iff k).mp hk)
    by_cases hbelow : ∃ ls, Below parent s k ls
    · obtain ⟨ls, hls⟩ := hbelow
      exact ⟨_, h.path_moved_below hm hd hls⟩
    · exact ⟨path, hp.congr_off hm.parent_ne fun ls hls => hbelow ⟨ls, hls⟩⟩

/-- The only new paths are those through the moved node. -/
theorem path_moved (hm : Moved present child parent p l s d m present' child' parent')
    (hk : present k)
    (hb : Below parent' root k labels) :
    Below parent root k labels ∨ ∃ dPath ls, Below parent root d dPath ∧
      Below parent s k ls ∧ labels = dPath ++ [m] ++ ls := by
  have hroot := (h.moved hm).root_orphan
  obtain ⟨dPath, hd⟩ := h.reach d hm.owner
  obtain ⟨path, hp⟩ := h.reach k hk
  by_cases hbelow : ∃ ls, Below parent s k ls
  · obtain ⟨ls, hls⟩ := hbelow
    exact .inr ⟨dPath, ls, hd, hls, hb.unique hroot (h.path_moved_below hm hd hls)⟩
  · rw [hb.unique hroot (hp.congr_off hm.parent_ne fun ls hls => hbelow ⟨ls, hls⟩)]
    exact .inl hp

end NamedTree

end RootedTree
