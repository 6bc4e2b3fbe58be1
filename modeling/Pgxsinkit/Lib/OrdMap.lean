/-
Insertion-ordered finite maps, as a JavaScript `Map` is.

`set` on a present key replaces the value in place, on an absent key it appends;
`delete` keeps the order of the rest.  The well-formedness (no key twice) is a
field of the structure, so every map that can be built has it.  Everything later
developments need is stated through `get?` and `sum`: two maps with the same
lookups have the same sums, whatever order their entries were inserted in.
-/
import Mathlib

/-- A finite map that remembers the order its keys were first inserted in. -/
structure OrdMap (K V : Type) where
  entries : List (K × V)
  nodup : (entries.map Prod.fst).Nodup

namespace OrdMap

variable {K V : Type}

/-- `new Map()` -/
def empty : OrdMap K V := ⟨[], by simp⟩

def keys (m : OrdMap K V) : List K := m.entries.map Prod.fst

def size (m : OrdMap K V) : Nat := m.entries.length

/-- Sum of a measure of the entries. -/
def sum (m : OrdMap K V) (f : K → V → Nat) : Nat :=
  (m.entries.map fun e => f e.1 e.2).sum

theorem size_eq_sum (m : OrdMap K V) : m.size = m.sum fun _ _ => 1 := by
  simp [size, sum]

@[simp] theorem length_keys (m : OrdMap K V) : m.keys.length = m.size := by
  simp [keys, size]

theorem keys_nodup (m : OrdMap K V) : m.keys.Nodup := m.nodup

@[simp] theorem size_empty : (empty : OrdMap K V).size = 0 := rfl

@[simp] theorem sum_empty (f : K → V → Nat) : (empty : OrdMap K V).sum f = 0 := rfl

theorem ext_entries {m m' : OrdMap K V} (h : m.entries = m'.entries) : m = m' := by
  cases m; cases m'; simpa using h

variable [DecidableEq K]

instance [DecidableEq V] : DecidableEq (OrdMap K V) := fun m m' =>
  decidable_of_iff (m.entries = m'.entries) ⟨ext_entries, fun h => by rw [h]⟩

def get? (m : OrdMap K V) (k : K) : Option V := m.entries.lookup k

def has (m : OrdMap K V) (k : K) : Bool := (m.get? k).isSome

/-- The entries that satisfy `p`, in their order. -/
def filter (m : OrdMap K V) (p : K → V → Bool) : OrdMap K V :=
  ⟨m.entries.filter fun e => p e.1 e.2, (m.entries.filter_sublist.map _).nodup m.nodup⟩

/-- The entries after `set`: in place when the key is there, at the end otherwise. -/
def setEntries (k : K) (v : V) : List (K × V) → List (K × V)
  | [] => [(k, v)]
  | e :: es => if e.1 = k then (k, v) :: es else e :: setEntries k v es

theorem mem_keys_setEntries {k x : K} {v : V} {es : List (K × V)} :
    x ∈ (setEntries k v es).map Prod.fst ↔ x = k ∨ x ∈ es.map Prod.fst := by
  induction es with
  | nil => simp [setEntries]
  | cons e es ih =>
    unfold setEntries
    by_cases h : e.1 = k
    · simp [h]
    · rw [if_neg h, List.map_cons, List.mem_cons, ih, List.map_cons, List.mem_cons]
      tauto

theorem nodup_setEntries {k : K} {v : V} {es : List (K × V)}
    (h : (es.map Prod.fst).Nodup) : ((setEntries k v es).map Prod.fst).Nodup := by
  induction es with
  | nil => simp [setEntries]
  | cons e es ih =>
    rw [List.map_cons, List.nodup_cons] at h
    unfold setEntries
    by_cases hk : e.1 = k
    · rw [if_pos hk, List.map_cons, List.nodup_cons]
      exact ⟨by rw [← hk]; exact h.1, h.2⟩
    · rw [if_neg hk, List.map_cons, List.nodup_cons, mem_keys_setEntries]
      exact ⟨fun hmem => hmem.elim hk h.1, ih h.2⟩

def set (m : OrdMap K V) (k : K) (v : V) : OrdMap K V :=
  ⟨setEntries k v m.entries, nodup_setEntries m.nodup⟩

def delete (m : OrdMap K V) (k : K) : OrdMap K V :=
  ⟨m.entries.filter fun e => !decide (e.1 = k), by
    refine List.Nodup.sublist (List.Sublist.map _ List.filter_sublist) m.nodup⟩

/-! ### Lookups -/

theorem lookup_cons_if (k x : K) (v : V) (es : List (K × V)) :
    ((k, v) :: es).lookup x = if x = k then some v else es.lookup x := by
  rw [List.lookup_cons]
  by_cases h : x = k
  · simp [h]
  · have : (x == k) = false := by simpa using h
    simp [h, this]

theorem lookup_eq_some_iff {es : List (K × V)} (h : (es.map Prod.fst).Nodup) {k : K} {v : V} :
    es.lookup k = some v ↔ (k, v) ∈ es := by
  induction es with
  | nil => simp
  | cons e es ih =>
    obtain ⟨k', v'⟩ := e
    rw [List.map_cons, List.nodup_cons] at h
    rw [lookup_cons_if, List.mem_cons]
    by_cases hk : k = k'
    · subst hk
      have : (k, v) ∉ es := fun hm => h.1 (List.mem_map.mpr ⟨_, hm, rfl⟩)
      simp [this, eq_comm]
    · simp [ih h.2, hk]

theorem get?_eq_some_iff {m : OrdMap K V} {k : K} {v : V} :
    m.get? k = some v ↔ (k, v) ∈ m.entries := lookup_eq_some_iff m.nodup

theorem mem_keys_iff {m : OrdMap K V} {k : K} : k ∈ m.keys ↔ ∃ v, m.get? k = some v := by
  simp only [keys, List.mem_map, get?_eq_some_iff]
  constructor
  · rintro ⟨⟨k', v⟩, hm, rfl⟩
    exact ⟨v, hm⟩
  · rintro ⟨v, hm⟩
    exact ⟨(k, v), hm, rfl⟩

theorem get?_eq_none_iff {m : OrdMap K V} {k : K} : m.get? k = none ↔ k ∉ m.keys := by
  rw [mem_keys_iff]
  cases h : m.get? k <;> simp

theorem get?_of_size_eq_zero {m : OrdMap K V} (h : m.size = 0) (k : K) : m.get? k = none := by
  have hkeys : m.keys = [] := by rw [← List.length_eq_zero_iff, length_keys, h]
  rw [get?_eq_none_iff, hkeys]
  exact List.not_mem_nil

@[simp] theorem has_eq_true {m : OrdMap K V} {k : K} :
    m.has k = true ↔ ∃ v, m.get? k = some v := by
  simp [has, Option.isSome_iff_exists]

@[simp] theorem has_eq_false {m : OrdMap K V} {k : K} :
    m.has k = false ↔ m.get? k = none := by
  simp [has]

@[simp] theorem get?_empty (k : K) : (empty : OrdMap K V).get? k = none := rfl

theorem get?_set (m : OrdMap K V) (k : K) (v : V) (x : K) :
    (m.set k v).get? x = if x = k then some v else m.get? x := by
  obtain ⟨es, h⟩ := m
  simp only [get?, set]
  clear h
  induction es with
  | nil => rw [setEntries, lookup_cons_if]
  | cons e es ih =>
    obtain ⟨k', v'⟩ := e
    unfold setEntries
    by_cases hk : k' = k
    · subst hk
      by_cases hx : x = k' <;> simp [lookup_cons_if, hx]
    · rw [if_neg hk, lookup_cons_if, lookup_cons_if, ih]
      by_cases hx : x = k'
      · simp [hx, hk]
      · simp [hx]

@[simp] theorem get?_set_self (m : OrdMap K V) (k : K) (v : V) :
    (m.set k v).get? k = some v := by simp [get?_set]

theorem get?_set_ne (m : OrdMap K V) {k x : K} (v : V) (h : x ≠ k) :
    (m.set k v).get? x = m.get? x := by simp [get?_set, h]

theorem get?_delete (m : OrdMap K V) (k x : K) :
    (m.delete k).get? x = if x = k then none else m.get? x := by
  obtain ⟨es, h⟩ := m
  simp only [get?, delete]
  clear h
  induction es with
  | nil => simp
  | cons e es ih =>
    obtain ⟨k', v'⟩ := e
    rw [List.filter_cons, lookup_cons_if]
    by_cases hk : k' = k
    · subst hk
      simp only [decide_true, Bool.not_true, Bool.false_eq_true, if_false, ih]
      by_cases hx : x = k' <;> simp [hx]
    · simp only [hk, decide_false, Bool.not_false, if_true, lookup_cons_if, ih]
      by_cases hx : x = k'
      · simp [hx, hk]
      · simp [hx]

@[simp] theorem get?_delete_self (m : OrdMap K V) (k : K) : (m.delete k).get? k = none := by
  simp [get?_delete]

theorem get?_filter (m : OrdMap K V) (p : K → V → Bool) (k : K) :
    (m.filter p).get? k = (m.get? k).filter (p k) := by
  ext v
  rw [get?_eq_some_iff, Option.filter_eq_some_iff, get?_eq_some_iff]
  exact List.mem_filter

theorem filter_delete (m : OrdMap K V) (p : K → V → Bool) (k : K) :
    (m.delete k).filter p = m.filter fun x v => p x v && x ≠ k := by
  refine ext_entries ?_
  show List.filter _ (List.filter _ m.entries) = List.filter _ m.entries
  rw [List.filter_filter]
  simp

theorem get?_delete_ne (m : OrdMap K V) {k x : K} (h : x ≠ k) :
    (m.delete k).get? x = m.get? x := by simp [get?_delete, h]

/-! ### Sums -/

theorem sum_set_of_none {m : OrdMap K V} {k : K} (h : m.get? k = none) (v : V)
    (f : K → V → Nat) : (m.set k v).sum f = m.sum f + f k v := by
  obtain ⟨es, hn⟩ := m
  rw [get?_eq_none_iff] at h
  simp only [keys, sum, set] at h ⊢
  clear hn
  induction es with
  | nil => simp [setEntries]
  | cons e es ih =>
    rw [List.map_cons, List.mem_cons, not_or] at h
    unfold setEntries
    rw [if_neg (Ne.symm h.1), List.map_cons, List.sum_cons, ih h.2, List.map_cons, List.sum_cons]
    omega

theorem sum_set_of_some {m : OrdMap K V} {k : K} {w : V} (h : m.get? k = some w) (v : V)
    (f : K → V → Nat) : (m.set k v).sum f + f k w = m.sum f + f k v := by
  obtain ⟨es, hn⟩ := m
  rw [get?_eq_some_iff] at h
  simp only [sum, set] at h ⊢
  induction es with
  | nil => simp at h
  | cons e es ih =>
    rw [List.map_cons, List.nodup_cons] at hn
    unfold setEntries
    rcases List.mem_cons.mp h with rfl | hm
    · rw [if_pos rfl]
      simp only [List.map_cons, List.sum_cons]
      omega
    · have hne : e.1 ≠ k := fun he =>
        hn.1 (List.mem_map.mpr ⟨(k, w), hm, he.symm⟩)
      rw [if_neg hne, List.map_cons, List.sum_cons, List.map_cons, List.sum_cons]
      have := ih hn.2 hm
      omega

theorem filter_key_of_not_mem {es : List (K × V)} {k : K} (h : k ∉ es.map Prod.fst) :
    es.filter (fun e => !decide (e.1 = k)) = es := by
  refine List.filter_eq_self.mpr fun e he => ?_
  have : e.1 ≠ k := fun hek => h (hek ▸ List.mem_map.mpr ⟨e, he, rfl⟩)
  simpa using this

theorem delete_of_none {m : OrdMap K V} {k : K} (h : m.get? k = none) : m.delete k = m := by
  rw [get?_eq_none_iff] at h
  exact ext_entries (filter_key_of_not_mem h)

theorem sum_delete_of_some {m : OrdMap K V} {k : K} {w : V} (h : m.get? k = some w)
    (f : K → V → Nat) : (m.delete k).sum f + f k w = m.sum f := by
  obtain ⟨es, hn⟩ := m
  rw [get?_eq_some_iff] at h
  simp only [sum, delete] at h ⊢
  induction es with
  | nil => simp at h
  | cons e es ih =>
    rw [List.map_cons, List.nodup_cons] at hn
    rw [List.filter_cons]
    rcases List.mem_cons.mp h with rfl | hm
    · simp only [decide_true, Bool.not_true, Bool.false_eq_true, if_false,
        filter_key_of_not_mem hn.1, List.map_cons, List.sum_cons]
      omega
    · have hne : e.1 ≠ k := fun he =>
        hn.1 (List.mem_map.mpr ⟨(k, w), hm, he.symm⟩)
      simp only [hne, decide_false, Bool.not_false, if_true, List.map_cons, List.sum_cons]
      have := ih hn.2 hm
      omega

theorem size_set_of_none {m : OrdMap K V} {k : K} (h : m.get? k = none) (v : V) :
    (m.set k v).size = m.size + 1 := by
  simp only [size_eq_sum, sum_set_of_none h]

theorem size_set_of_some {m : OrdMap K V} {k : K} {w : V} (h : m.get? k = some w) (v : V) :
    (m.set k v).size = m.size := by
  have := sum_set_of_some h v fun _ _ => 1
  rw [size_eq_sum, size_eq_sum]
  omega

theorem size_delete_of_some {m : OrdMap K V} {k : K} {w : V} (h : m.get? k = some w) :
    (m.delete k).size + 1 = m.size := by
  simpa [size_eq_sum] using sum_delete_of_some h fun _ _ => 1

theorem le_sum_of_get? {m : OrdMap K V} {k : K} {v : V} (h : m.get? k = some v)
    (f : K → V → Nat) : f k v ≤ m.sum f := by
  have := sum_delete_of_some h f
  omega

/-! ### Maps that agree on every lookup -/

theorem entries_perm_of_get? {m m' : OrdMap K V} (h : ∀ k, m.get? k = m'.get? k) :
    m.entries.Perm m'.entries := by
  refine (List.perm_ext_iff_of_nodup (List.Nodup.of_map _ m.nodup)
    (List.Nodup.of_map _ m'.nodup)).mpr fun ⟨k, v⟩ => ?_
  rw [← get?_eq_some_iff, ← get?_eq_some_iff, h]

theorem sum_congr {m m' : OrdMap K V} (h : ∀ k, m.get? k = m'.get? k) (f : K → V → Nat) :
    m.sum f = m'.sum f := ((entries_perm_of_get? h).map _).sum_eq

theorem size_congr {m m' : OrdMap K V} (h : ∀ k, m.get? k = m'.get? k) : m.size = m'.size := by
  rw [size_eq_sum, size_eq_sum, sum_congr h]

/-- A repetition-free listing of present keys that is as long as the map lists every key. -/
theorem perm_keys_of_length {m : OrdMap K V} {l : List K} (hl : l.Nodup)
    (hsub : ∀ k ∈ l, ∃ v, m.get? k = some v) (hlen : l.length = m.size) : l.Perm m.keys := by
  have hsp : l.Subperm m.keys :=
    List.subperm_of_subset hl fun k hk => mem_keys_iff.mpr (hsub k hk)
  exact hsp.perm_of_length_le (by rw [length_keys, hlen])

/-- Maps with the same keys have the same size. -/
theorem size_eq_of_keys {W : Type} {m : OrdMap K V} {m' : OrdMap K W}
    (h : ∀ k, (∃ v, m.get? k = some v) ↔ ∃ w, m'.get? k = some w) : m.size = m'.size := by
  rw [← length_keys, ← length_keys]
  refine ((List.perm_ext_iff_of_nodup m.keys_nodup m'.keys_nodup).mpr fun k => ?_).length_eq
  rw [mem_keys_iff, mem_keys_iff, h]

/-- A map whose keys are among those of a map no larger has the same keys. -/
theorem keys_eq_of_size_le {W : Type} {m : OrdMap K V} {m' : OrdMap K W}
    (h : ∀ k v, m.get? k = some v → ∃ w, m'.get? k = some w) (hsize : m'.size ≤ m.size)
    {k : K} {w : W} (hk : m'.get? k = some w) : ∃ v, m.get? k = some v := by
  have hsp : m.keys.Subperm m'.keys :=
    List.subperm_of_subset m.keys_nodup fun k hk => by
      obtain ⟨v, hv⟩ := mem_keys_iff.mp hk
      exact mem_keys_iff.mpr (h k v hv)
  have hp := hsp.perm_of_length_le (by rwa [length_keys, length_keys])
  exact mem_keys_iff.mp (hp.mem_iff.mpr (mem_keys_iff.mpr ⟨w, hk⟩))

/-- A listing of entries without a repeated key that is as long as the map is the map. -/
theorem perm_entries_of_length {m : OrdMap K V} {l : List (K × V)} (hl : (l.map Prod.fst).Nodup)
    (hsub : ∀ e ∈ l, m.get? e.1 = some e.2) (hlen : l.length = m.size) : l.Perm m.entries := by
  have hsp : l.Subperm m.entries :=
    List.subperm_of_subset (List.Nodup.of_map _ hl) fun e he => get?_eq_some_iff.mp (hsub e he)
  exact hsp.perm_of_length_le (Nat.le_of_eq hlen.symm)

/-- A listing of entries without a repeated key that misses no entry is the map. -/
theorem perm_entries_of_mem {m : OrdMap K V} {l : List (K × V)} (hl : (l.map Prod.fst).Nodup)
    (hsub : ∀ e ∈ l, m.get? e.1 = some e.2) (hall : ∀ k v, m.get? k = some v → (k, v) ∈ l) :
    l.Perm m.entries :=
  (List.perm_ext_iff_of_nodup (List.Nodup.of_map _ hl) (List.Nodup.of_map _ m.nodup)).mpr
    fun e => ⟨fun he => get?_eq_some_iff.mp (hsub e he),
      fun he => hall _ _ (get?_eq_some_iff.mpr he)⟩

/-- Maps of which the given functions show the same have the same sums of them. -/
theorem sum_eq_of_map {W : Type} {m : OrdMap K V} {m' : OrdMap K W} {f : K → V → Nat}
    {g : K → W → Nat} (h : ∀ k, (m.get? k).map (f k) = (m'.get? k).map (g k)) :
    m.sum f = m'.sum g := by
  have hkeys : ∀ k, (∃ v, m.get? k = some v) ↔ ∃ w, m'.get? k = some w := by
    intro k
    have hk := congrArg Option.isSome (h k)
    rw [Option.isSome_map, Option.isSome_map] at hk
    rw [← Option.isSome_iff_exists, ← Option.isSome_iff_exists, hk]
  have hsum : ∀ {X : Type} (m : OrdMap K X) (f : K → X → Nat),
      m.sum f = (m.keys.map fun k => ((m.get? k).map (f k)).getD 0).sum := by
    intro X m f
    rw [sum, keys, List.map_map]
    refine congrArg List.sum (List.map_congr_left fun e he => ?_)
    rw [Function.comp_apply, get?_eq_some_iff.mpr he, Option.map_some, Option.getD_some]
  have hperm : m.keys.Perm m'.keys :=
    (List.perm_ext_iff_of_nodup m.keys_nodup m'.keys_nodup).mpr fun k => by
      rw [mem_keys_iff, mem_keys_iff, hkeys]
  rw [hsum, hsum]
  simp only [h]
  exact (hperm.map _).sum_eq

/-! ### Maps built from a listing -/

theorem setEntries_of_not_mem {k : K} {v : V} {es : List (K × V)} (h : k ∉ es.map Prod.fst) :
    setEntries k v es = es ++ [(k, v)] := by
  induction es with
  | nil => rfl
  | cons e es ih =>
    rw [List.map_cons, List.mem_cons, not_or] at h
    rw [setEntries, if_neg (Ne.symm h.1), ih h.2, List.cons_append]

theorem entries_set_of_none {m : OrdMap K V} {k : K} (h : m.get? k = none) (v : V) :
    (m.set k v).entries = m.entries ++ [(k, v)] :=
  setEntries_of_not_mem (get?_eq_none_iff.mp h)

/-- Setting new keys one after the other appends the listing. -/
theorem entries_foldl_set {m : OrdMap K V} {l : List (K × V)}
    (h : ((m.entries ++ l).map Prod.fst).Nodup) :
    (l.foldl (fun m e => m.set e.1 e.2) m).entries = m.entries ++ l := by
  induction l generalizing m with
  | nil => exact (List.append_nil _).symm
  | cons e l ih =>
    have hnew : m.get? e.1 = none := by
      rw [get?_eq_none_iff]
      rw [List.map_append, List.map_cons] at h
      exact fun hmem => (List.nodup_append.mp h).2.2 _ hmem _ List.mem_cons_self rfl
    have hset := entries_set_of_none hnew e.2
    have happend : m.entries ++ e :: l = (m.set e.1 e.2).entries ++ l := by
      rw [hset, List.append_assoc, List.singleton_append]
    rw [List.foldl_cons, happend]
    exact ih (happend ▸ h)

theorem lookup_filter (m : OrdMap K V) (p : K × V → Bool) (k : K) :
    (m.entries.filter p).lookup k = (m.get? k).filter fun v => p (k, v) := by
  ext v
  have hnodup : ((m.entries.filter p).map Prod.fst).Nodup :=
    (List.filter_sublist.map _).nodup m.nodup
  rw [lookup_eq_some_iff hnodup, List.mem_filter, Option.filter_eq_some_iff, get?_eq_some_iff]

theorem get?_foldl_set {m : OrdMap K V} {l : List (K × V)} (h : (l.map Prod.fst).Nodup) (k : K) :
    (l.foldl (fun m e => m.set e.1 e.2) m).get? k = (l.lookup k).or (m.get? k) := by
  induction l generalizing m with
  | nil => rfl
  | cons e l ih =>
    obtain ⟨x, v⟩ := e
    rw [List.map_cons, List.nodup_cons] at h
    rw [List.foldl_cons, ih h.2, get?_set, lookup_cons_if]
    by_cases hx : k = x
    · subst hx
      have hrest : l.lookup k = none := by
        by_contra hne
        obtain ⟨w, hw⟩ := Option.ne_none_iff_exists'.mp hne
        exact h.1 (List.mem_map.mpr ⟨_, (lookup_eq_some_iff h.2).mp hw, rfl⟩)
      simp [hrest]
    · simp [hx]

theorem get?_foldl_delete {m : OrdMap K V} {l : List K} (k : K) :
    (l.foldl delete m).get? k = if k ∈ l then none else m.get? k := by
  induction l generalizing m with
  | nil => simp
  | cons x l ih =>
    rw [List.foldl_cons, ih, get?_delete]
    by_cases hx : k = x <;> by_cases hl : k ∈ l <;> simp [hx, hl]

/-- The entries of one key are its lookup. -/
theorem entries_filter_key (m : OrdMap K V) (k : K) :
    m.entries.filter (fun e => e.1 = k) = (m.get? k).toList.map fun v => (k, v) := by
  obtain ⟨es, hn⟩ := m
  unfold get?
  dsimp only
  induction es with
  | nil => rfl
  | cons e es ih =>
    obtain ⟨x, v⟩ := e
    rw [List.map_cons, List.nodup_cons] at hn
    have hih := ih hn.2
    rw [List.filter_cons, lookup_cons_if]
    by_cases hx : x = k
    · subst hx
      have hrest : es.lookup x = none := by
        by_contra h
        obtain ⟨w, hw⟩ := Option.ne_none_iff_exists'.mp h
        have hmem := (lookup_eq_some_iff hn.2).mp hw
        exact hn.1 (List.mem_map.mpr ⟨_, hmem, rfl⟩)
      rw [hrest] at hih
      simp [hih]
    · rw [if_neg (by simpa using hx), hih, if_neg (Ne.symm hx)]

end OrdMap
