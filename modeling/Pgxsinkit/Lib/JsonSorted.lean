/-
JSON values up to the order of the members of their objects.

Two texts denote one value when they differ in that order only.  A value whose objects have no key twice
is told by its sorted form.
-/
import Pgxsinkit.Lib.JsonRead
import Pgxsinkit.Lib.Keyed
import Mathlib.Data.List.Lex

namespace Json

/-- What JavaScript orders strings by. -/
def keyOrder (key : Text) : List ℕ := key.map UInt16.toNat

mutual

/-- The members of every object in the order of their keys. -/
def sorted : Json → Json
  | null => null
  | bool value => bool value
  | num digits => num digits
  | str units => str units
  | arr items => arr (sortedItems items)
  | obj fields => obj (Keyed.sortBy (fun field => keyOrder field.1) (sortedFields fields))

def sortedItems : List Json → List Json
  | [] => []
  | item :: rest => item.sorted :: sortedItems rest

def sortedFields : List (Text × Json) → List (Text × Json)
  | [] => []
  | (key, value) :: rest => (key, value.sorted) :: sortedFields rest

end

mutual

/-- The same value, its members in whatever order. -/
def Same : Json → Json → Prop
  | null, b => b = null
  | bool value, b => b = bool value
  | num digits, b => b = num digits
  | str units, b => b = str units
  | arr items, b => ∃ items', b = arr items' ∧ SameItems items items'
  | obj fields, b => ∃ fields', b = obj fields' ∧ (fields.map Prod.fst).Perm (fields'.map Prod.fst) ∧
      SameFields fields fields'

def SameItems : List Json → List Json → Prop
  | [], items' => items' = []
  | item :: items, items' => ∃ item' rest', items' = item' :: rest' ∧ item.Same item' ∧ SameItems items rest'

/-- Each member has the same value on the other side. -/
def SameFields : List (Text × Json) → List (Text × Json) → Prop
  | [], _ => True
  | (key, value) :: rest, fields' =>
    (∃ value', (key, value') ∈ fields' ∧ value.Same value') ∧ SameFields rest fields'

end

mutual

/-- No object has a key twice. -/
def Distinct : Json → Prop
  | null | bool _ | num _ | str _ => True
  | arr items => DistinctItems items
  | obj fields => (fields.map Prod.fst).Nodup ∧ DistinctFields fields

def DistinctItems : List Json → Prop
  | [] => True
  | item :: rest => item.Distinct ∧ DistinctItems rest

def DistinctFields : List (Text × Json) → Prop
  | [] => True
  | (_, value) :: rest => value.Distinct ∧ DistinctFields rest

end

theorem sortedFields_eq (fields : List (Text × Json)) :
    sortedFields fields = fields.map fun field => (field.1, field.2.sorted) := by
  induction fields with
  | nil => rfl
  | cons field fields ih => rw [sortedFields, ih, List.map_cons]

theorem keys_sortedFields (fields : List (Text × Json)) :
    (sortedFields fields).map Prod.fst = fields.map Prod.fst := by
  rw [sortedFields_eq, List.map_map]
  rfl

theorem keyOrder_injective : Function.Injective keyOrder :=
  List.map_injective_iff.mpr fun _ _ => UInt16.toNat_inj.mp

/-- Members of one order, for objects without a key twice. -/
theorem sortBy_fields_eq_iff {fields fields' : List (Text × Json)} (h : (fields.map Prod.fst).Nodup) :
    Keyed.sortBy (fun field => keyOrder field.1) fields = Keyed.sortBy (fun field => keyOrder field.1) fields' ↔
      fields.Perm fields' := by
  constructor
  · intro heq
    exact (Keyed.perm_sortBy _ fields).symm.trans (heq ▸ Keyed.perm_sortBy _ fields')
  · intro hperm
    refine Keyed.sortBy_eq_of_perm hperm ?_
    have hmap : (fields.map fun field => keyOrder field.1) = (fields.map Prod.fst).map keyOrder :=
      (List.map_map).symm
    rw [hmap]
    exact h.map keyOrder_injective

theorem DistinctFields.of_mem {fields : List (Text × Json)} (h : DistinctFields fields) {key : Text}
    {value : Json} (hmem : (key, value) ∈ fields) : value.Distinct := by
  induction fields with
  | nil => cases hmem
  | cons field fields ih =>
    obtain ⟨key', value'⟩ := field
    rcases List.mem_cons.mp hmem with heq | hmem
    · obtain ⟨rfl, rfl⟩ := Prod.mk.inj heq
      exact h.1
    · exact ih h.2 hmem

mutual

theorem sorted_eq_iff : ∀ (a : Json) {b : Json}, a.Distinct → b.Distinct → (a.sorted = b.sorted ↔ a.Same b)
  | null, b, _, _ => by
    cases b <;> simp [sorted, Same]
  | bool value, b, _, _ => by
    cases b <;> simp [sorted, Same, eq_comm]
  | num digits, b, _, _ => by
    cases b <;> simp [sorted, Same, eq_comm]
  | str units, b, _, _ => by
    cases b <;> simp [sorted, Same, eq_comm]
  | arr items, b, ha, hb => by
    cases b with
    | arr items' =>
      rw [sorted, sorted, arr.injEq, sortedItems_eq_iff items ha hb, Same]
      constructor
      · exact fun h => ⟨items', rfl, h⟩
      · rintro ⟨_, heq, h⟩
        obtain rfl := arr.inj heq
        exact h
    | _ => simp [sorted, Same]
  | obj fields, b, ha, hb => by
    cases b with
    | obj fields' =>
      have hnodup : ((sortedFields fields).map Prod.fst).Nodup := by
        rw [keys_sortedFields]
        exact ha.1
      rw [sorted, sorted, obj.injEq, sortBy_fields_eq_iff hnodup, Same]
      constructor
      · intro hperm
        refine ⟨fields', rfl, ?_, (sameFields_iff fields ha.2 hb.2).mp hperm.subset⟩
        have hkeys := hperm.map Prod.fst
        rwa [keys_sortedFields, keys_sortedFields] at hkeys
      · rintro ⟨_, heq, hkeys, h⟩
        obtain rfl := obj.inj heq
        have hlength : (sortedFields fields').length ≤ (sortedFields fields).length := by
          rw [sortedFields_eq, sortedFields_eq, List.length_map, List.length_map]
          have hlength := hkeys.length_eq
          rw [List.length_map, List.length_map] at hlength
          exact hlength.ge
        exact (List.subperm_of_subset hnodup.of_map ((sameFields_iff fields ha.2 hb.2).mpr h)).perm_of_length_le
          hlength
    | _ => simp [sorted, Same]

theorem sortedItems_eq_iff : ∀ (items : List Json) {items' : List Json}, DistinctItems items →
    DistinctItems items' → (sortedItems items = sortedItems items' ↔ SameItems items items')
  | [], items', _, _ => by
    cases items' <;> simp [sortedItems, SameItems]
  | item :: items, items', ha, hb => by
    cases items' with
    | nil => simp [sortedItems, SameItems]
    | cons item' items' =>
      rw [sortedItems, sortedItems, List.cons.injEq, sorted_eq_iff item ha.1 hb.1,
        sortedItems_eq_iff items ha.2 hb.2, SameItems]
      constructor
      · exact fun h => ⟨item', items', rfl, h⟩
      · rintro ⟨_, _, heq, h⟩
        obtain ⟨rfl, rfl⟩ := List.cons.inj heq
        exact h

theorem sameFields_iff : ∀ (fields : List (Text × Json)) {fields' : List (Text × Json)},
    DistinctFields fields → DistinctFields fields' →
      (sortedFields fields ⊆ sortedFields fields' ↔ SameFields fields fields')
  | [], _, _, _ => by simp [sortedFields, SameFields]
  | (key, value) :: rest, fields', ha, hb => by
    rw [sortedFields, List.cons_subset, sameFields_iff rest ha.2 hb, SameFields]
    refine and_congr_left fun _ => ?_
    rw [sortedFields_eq, List.mem_map]
    constructor
    · rintro ⟨⟨key', value'⟩, hmem, heq⟩
      obtain ⟨rfl, hvalue⟩ := Prod.mk.inj heq
      exact ⟨value', hmem, (sorted_eq_iff value ha.1 (hb.of_mem hmem)).mp hvalue.symm⟩
    · rintro ⟨value', hmem, hsame⟩
      exact ⟨(key, value'), hmem, Prod.ext rfl ((sorted_eq_iff value ha.1 (hb.of_mem hmem)).mpr hsame).symm⟩

end

/-! ### Texts -/

theorem numericFields_iff {fields : List (Text × Json)} :
    numericFields fields = true ↔ ∀ field ∈ fields, field.2.numeric = true := by
  induction fields with
  | nil => simp [numericFields]
  | cons field fields ih =>
    obtain ⟨key, value⟩ := field
    rw [numericFields, Bool.and_eq_true, ih, List.forall_mem_cons]

theorem numericFields_perm {fields fields' : List (Text × Json)} (h : fields.Perm fields') :
    numericFields fields = numericFields fields' := by
  rw [Bool.eq_iff_iff, numericFields_iff, numericFields_iff]
  exact ⟨fun hall field hin => hall field (h.mem_iff.mpr hin), fun hall field hin => hall field (h.mem_iff.mp hin)⟩

mutual

theorem numeric_sorted : ∀ value : Json, value.sorted.numeric = value.numeric
  | null | bool _ | num _ | str _ => rfl
  | arr items => numericItems_sorted items
  | obj fields => by
    rw [sorted, numeric, numeric, ← numericFields_sorted fields]
    exact numericFields_perm (Keyed.perm_sortBy _ _)

theorem numericItems_sorted : ∀ items : List Json, numericItems (sortedItems items) = numericItems items
  | [] => rfl
  | item :: rest => by
    rw [sortedItems, numericItems, numericItems, numeric_sorted item, numericItems_sorted rest]

theorem numericFields_sorted : ∀ fields : List (Text × Json),
    numericFields (sortedFields fields) = numericFields fields
  | [] => rfl
  | (key, value) :: rest => by
    rw [sortedFields, numericFields, numericFields, numeric_sorted value, numericFields_sorted rest]

end

/-- Sorted texts tell values apart. -/
theorem print_sorted_iff {a b : Json} (ha : a.Distinct) (hb : b.Distinct) (hna : a.numeric = true)
    (hnb : b.numeric = true) : a.sorted.print = b.sorted.print ↔ a.Same b := by
  rw [← sorted_eq_iff a ha hb]
  refine ⟨fun h => ?_, fun h => by rw [h]⟩
  have hread := congrArg read h
  rw [read_print (by rwa [numeric_sorted]), read_print (by rwa [numeric_sorted])] at hread
  exact Option.some.inj hread

end Json
