/-
Listings of records by a key: the map a loop over one builds, and the one sorted by key.

Where no two records share a key, the map lists the records as they are, and sorting forgets the
order they came in.
-/
import Pgxsinkit.Lib.OrdMap
import Mathlib.Data.List.Sort

namespace Keyed

variable {α K L : Type} [DecidableEq K] [LinearOrder L]

/-! ### The map by key -/

/-- `new Map(list.map((item) => [key(item), item]))` -/
def byKey (key : α → K) (list : List α) : OrdMap K α :=
  list.foldl (fun map item => map.set (key item) item) OrdMap.empty

theorem entries_byKey {key : α → K} {list : List α} (h : (list.map key).Nodup) :
    (byKey key list).entries = list.map fun item => (key item, item) := by
  have hfold : byKey key list = (list.map fun item => (key item, item)).foldl
      (fun map entry => map.set entry.1 entry.2) OrdMap.empty := by
    rw [List.foldl_map]
    rfl
  rw [hfold, OrdMap.entries_foldl_set]
  · rfl
  · rw [OrdMap.empty, List.nil_append, List.map_map]
    exact h

theorem get?_byKey {key : α → K} {list : List α} (h : (list.map key).Nodup) {k : K} {item : α} :
    (byKey key list).get? k = some item ↔ item ∈ list ∧ key item = k := by
  rw [OrdMap.get?_eq_some_iff, entries_byKey h]
  constructor
  · intro hmem
    obtain ⟨found, hfound, heq⟩ := List.mem_map.1 hmem
    obtain ⟨rfl, rfl⟩ := Prod.mk.inj heq
    exact ⟨hfound, rfl⟩
  · rintro ⟨hmem, rfl⟩
    exact List.mem_map_of_mem hmem

/-- `object[key]` of an object whose own properties are listed. -/
theorem lookup_eq_some_iff {V : Type} [inst : BEq K] [LawfulBEq K] {object : List (K × V)}
    (h : (object.map Prod.fst).Nodup) {key : K} {value : V} :
    object.lookup key = some value ↔ (key, value) ∈ object := by
  obtain rfl : inst = instBEqOfDecidableEq := lawful_beq_subsingleton _ _
  exact OrdMap.lookup_eq_some_iff h

/-! ### Two maps compared -/

/-- What is said of the keys of the first map, by whether the second has them, and then of the keys
only the second has. -/
def diffMaps {V β : Type} (previous next : OrdMap K V) (removed : K → β)
    (changed : K → V → V → List β) (added : K → V → β) : List β :=
  (previous.entries.flatMap fun entry =>
    match next.get? entry.1 with
    | none => [removed entry.1]
    | some value => changed entry.1 entry.2 value) ++
  next.entries.flatMap fun entry =>
    if previous.has entry.1 then [] else [added entry.1 entry.2]

/-- Said of `key`, by what the two maps have there. -/
def diffAt {V β : Type} (removed : K → β) (changed : K → V → V → List β) (added : K → V → β) (key : K) :
    Option V → Option V → List β
  | some value, some value' => changed key value value'
  | some _, none => [removed key]
  | none, some value' => [added key value']
  | none, none => []

theorem mem_diffMaps {V β : Type} {previous next : OrdMap K V} {removed : K → β}
    {changed : K → V → V → List β} {added : K → V → β} {b : β} :
    b ∈ diffMaps previous next removed changed added ↔
      ∃ key, b ∈ diffAt removed changed added key (previous.get? key) (next.get? key) := by
  rw [diffMaps, List.mem_append, List.mem_flatMap, List.mem_flatMap]
  constructor
  · rintro (⟨⟨key, value⟩, hentry, hmem⟩ | ⟨⟨key, value⟩, hentry, hmem⟩)
    · refine ⟨key, ?_⟩
      rw [OrdMap.get?_eq_some_iff.2 hentry]
      dsimp only at hmem
      cases hnext : next.get? key <;> rw [hnext] at hmem <;> exact hmem
    · refine ⟨key, ?_⟩
      rw [OrdMap.get?_eq_some_iff.2 hentry]
      cases hprev : previous.get? key with
      | none => simpa [OrdMap.has, hprev, diffAt] using hmem
      | some found => simp [OrdMap.has, hprev] at hmem
  · rintro ⟨key, hmem⟩
    cases hprev : previous.get? key with
    | none =>
      cases hnext : next.get? key with
      | none =>
        rw [hprev, hnext] at hmem
        cases hmem
      | some value' =>
        rw [hprev, hnext] at hmem
        refine Or.inr ⟨(key, value'), OrdMap.get?_eq_some_iff.1 hnext, ?_⟩
        simpa [OrdMap.has, hprev, diffAt] using hmem
    | some value =>
      refine Or.inl ⟨(key, value), OrdMap.get?_eq_some_iff.1 hprev, ?_⟩
      cases hnext : next.get? key <;> rw [hprev, hnext] at hmem <;> exact hmem

/-! ### Sorted by key -/

/-- A stable sort by key. -/
def sortBy (key : α → L) (list : List α) : List α :=
  list.insertionSort fun a b => key a ≤ key b

theorem perm_sortBy (key : α → L) (list : List α) : (sortBy key list).Perm list :=
  List.perm_insertionSort _ list

theorem pairwise_sortBy (key : α → L) (list : List α) :
    (sortBy key list).Pairwise fun a b => key a ≤ key b := by
  have : Std.Total fun a b : α => key a ≤ key b := ⟨fun a b => le_total (key a) (key b)⟩
  have : IsTrans α fun a b => key a ≤ key b := ⟨fun _ _ _ => le_trans⟩
  exact List.pairwise_insertionSort _ list

/-- Two sorted listings of the same records are one, when no two records share a key. -/
theorem eq_of_perm_of_sorted (key : α → L) {list list' : List α} (hperm : list.Perm list')
    (hkeys : (list.map key).Nodup) (hsorted : list.Pairwise fun a b => key a ≤ key b)
    (hsorted' : list'.Pairwise fun a b => key a ≤ key b) : list = list' := by
  refine List.Perm.eq_of_pairwise (fun a b ha hb hab hba => ?_) hsorted hsorted' hperm
  exact List.inj_on_of_nodup_map hkeys ha (hperm.mem_iff.2 hb) (le_antisymm hab hba)

theorem sortBy_eq_of_perm {key : α → L} {list list' : List α} (hperm : list.Perm list')
    (hkeys : (list.map key).Nodup) : sortBy key list = sortBy key list' :=
  eq_of_perm_of_sorted key ((perm_sortBy key list).trans (hperm.trans (perm_sortBy key list').symm))
    (((perm_sortBy key list).map key).nodup_iff.2 hkeys) (pairwise_sortBy key list)
    (pairwise_sortBy key list')

/-- A listing sorted by the records themselves depends on the records alone. -/
theorem sortBy_id_eq_of_perm {key : α → L} (hinj : Function.Injective key) {list list' : List α}
    (hperm : list.Perm list') : sortBy key list = sortBy key list' := by
  refine List.Perm.eq_of_pairwise (fun a b _ _ hab hba => hinj (le_antisymm hab hba))
    (pairwise_sortBy key list) (pairwise_sortBy key list') ?_
  exact (perm_sortBy key list).trans (hperm.trans (perm_sortBy key list').symm)

end Keyed
