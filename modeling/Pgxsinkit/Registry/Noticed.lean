/-
What the registry diff looks at.

The canonical text tells canonical tables apart, and so does each text the diff compares.  Two
tables under one key get a change exactly when they differ in one of the fields the diff reads,
`Noticed`; the retention of a table is not among them, nor the default and the primary mark of a
column, and the three names of a shape are read as one text.
-/
import Pgxsinkit.Registry.Diff

namespace Registry

open Keyed Json

/-! ### Texts -/

theorem faithful_strings : Faithful strings := faithful_str.arr

theorem faithful_orNull_str : Faithful (orNull .str) :=
  faithful_str.orNull fun _ h => Json.noConfusion h

theorem faithful_orNull_strings : Faithful (orNull strings) :=
  faithful_strings.orNull fun _ h => Json.noConfusion h

theorem faithful_column : Faithful Column.toJson := by
  refine ⟨fun _ => rfl, fun a b h => ?_⟩
  cases a
  cases b
  simpa [Column.toJson] using h

theorem faithful_projection : Faithful CanonicalProjection.toJson := by
  refine ⟨fun a => ?_, fun a b h => ?_⟩
  · simp [CanonicalProjection.toJson, numberFree, numberFreeFields, faithful_orNull_str.numberFree,
      faithful_strings.numberFree]
  · cases a
    cases b
    simpa [CanonicalProjection.toJson, faithful_orNull_str.injective.eq_iff,
      faithful_strings.injective.eq_iff] using h

theorem faithful_rowFilter : Faithful CanonicalRowFilter.toJson := by
  refine ⟨fun a => ?_, fun a b h => ?_⟩
  · simp [CanonicalRowFilter.toJson, numberFree, numberFreeFields, faithful_orNull_str.numberFree,
      faithful_orNull_strings.numberFree]
  · cases a
    cases b
    simpa [CanonicalRowFilter.toJson, faithful_orNull_str.injective.eq_iff,
      faithful_orNull_strings.injective.eq_iff] using h

theorem faithful_orNull_rowFilter : Faithful (orNull CanonicalRowFilter.toJson) :=
  faithful_rowFilter.orNull fun _ h => Json.noConfusion h

theorem faithful_shape : Faithful CanonicalShape.toJson := by
  refine ⟨fun a => ?_, fun a b h => ?_⟩
  · simp [CanonicalShape.toJson, numberFree, numberFreeFields, faithful_orNull_str.numberFree,
      faithful_orNull_strings.numberFree, faithful_orNull_rowFilter.numberFree]
  · cases a
    cases b
    simpa [CanonicalShape.toJson, faithful_orNull_str.injective.eq_iff,
      faithful_orNull_strings.injective.eq_iff, faithful_orNull_rowFilter.injective.eq_iff] using h

theorem faithful_managedField : Faithful CanonicalManagedField.toJson := by
  refine ⟨fun a => ?_, fun a b h => ?_⟩
  · simp [CanonicalManagedField.toJson, numberFree, numberFreeFields, faithful_strings.numberFree]
  · cases a
    cases b
    simpa [CanonicalManagedField.toJson, faithful_strings.injective.eq_iff] using h

theorem faithful_table : Faithful CanonicalTable.toJson := by
  have hprojection : Faithful (orNull CanonicalProjection.toJson) :=
    faithful_projection.orNull fun _ h => Json.noConfusion h
  have hshape : Faithful (orNull CanonicalShape.toJson) :=
    faithful_shape.orNull fun _ h => Json.noConfusion h
  refine ⟨fun a => ?_, fun a b h => ?_⟩
  · have hcolumns := faithful_column.arr.numberFree a.columns
    have hmanaged := faithful_managedField.arr.numberFree a.managedFields
    simp [CanonicalTable.toJson, numberFree, numberFreeFields, faithful_orNull_str.numberFree,
      faithful_strings.numberFree, faithful_orNull_strings.numberFree, hprojection.numberFree,
      hshape.numberFree] at hcolumns hmanaged ⊢
    exact ⟨hcolumns, hmanaged⟩
  · cases a
    cases b
    simpa [CanonicalTable.toJson, faithful_orNull_str.injective.eq_iff,
      faithful_strings.injective.eq_iff, faithful_orNull_strings.injective.eq_iff,
      hprojection.injective.eq_iff, hshape.injective.eq_iff,
      (List.map_injective_iff.2 faithful_column.injective).eq_iff,
      (List.map_injective_iff.2 faithful_managedField.injective).eq_iff] using h

/-- The canonical string says what the canonical form is. -/
theorem canonicalRegistryString_eq_iff {previous next : SyncTableRegistry} :
    canonicalRegistryString previous = canonicalRegistryString next ↔
      canonicalizeRegistry previous = canonicalizeRegistry next :=
  faithful_table.arr.print_inj

/-! ### The fields that are read -/

theorem mem_pushIf {condition : Prop} [Decidable condition] {change change' : RegistryChange} :
    change' ∈ pushIf condition change ↔ condition ∧ change' = change := by
  rw [pushIf]
  split
  case isTrue h => simp [h]
  case isFalse h => simp [h]

theorem pushIf_ne_nil {condition : Prop} [Decidable condition] {change : RegistryChange} :
    pushIf condition change ≠ [] ↔ condition := by
  rw [pushIf]
  split
  case isTrue h => simp [h]
  case isFalse h => simp [h]

theorem append_ne_nil {α : Type} {xs ys : List α} : xs ++ ys ≠ [] ↔ xs ≠ [] ∨ ys ≠ [] := by
  rw [ne_eq, List.append_eq_nil_iff, not_and_or]

theorem exists_mem_iff {α : Type} {xs : List α} : (∃ x, x ∈ xs) ↔ xs ≠ [] :=
  ⟨fun ⟨_, h⟩ => List.ne_nil_of_mem h, List.exists_mem_of_ne_nil xs⟩

/-- What is read of the column of a name. -/
def columnAt (columns : List Column) (name : Text) : Option (Text × Bool) :=
  ((byKey Column.name columns).get? name).map fun column => (column.type, column.notNull)

/-- Two tables that differ in a field the diff reads. -/
def Noticed (previous next : CanonicalTable) : Prop :=
  (∃ name, columnAt previous.columns name ≠ columnAt next.columns name) ∨
  previous.primaryKey ≠ next.primaryKey ∨ previous.localPrimaryKey ≠ next.localPrimaryKey ∨
  previous.mode ≠ next.mode ∨ previous.projection ≠ next.projection ∨
  previous.shape.map (·.target) ≠ next.shape.map (·.target) ∨
  previous.shape.bind (·.rowFilter) ≠ next.shape.bind (·.rowFilter) ∨
  previous.shape.bind (·.scope) ≠ next.shape.bind (·.scope) ∨
  previous.shape.bind (·.filter) ≠ next.shape.bind (·.filter) ∨
  previous.consistencyGroup ≠ next.consistencyGroup ∨
  previous.managedFields ≠ next.managedFields

theorem diffColumn_ne_nil {table : Text} {previous next : Column} :
    diffColumn table previous next ≠ [] ↔
      (previous.type, previous.notNull) ≠ (next.type, next.notNull) := by
  rw [diffColumn, append_ne_nil, pushIf_ne_nil, ne_eq (Prod.mk _ _), Prod.mk.injEq, not_and_or]
  refine or_congr Iff.rfl ?_
  cases previous.notNull <;> cases next.notNull <;> simp [pushIf]

theorem diffColumns_ne_nil {table : Text} {previous next : List Column} :
    diffColumns table previous next ≠ [] ↔
      ∃ name, columnAt previous name ≠ columnAt next name := by
  rw [← exists_mem_iff, diffColumns]
  simp only [mem_diffMaps]
  rw [exists_comm]
  refine exists_congr fun name => ?_
  rw [exists_mem_iff, columnAt, columnAt]
  cases (byKey Column.name previous).get? name with
  | none => cases (byKey Column.name next).get? name <;> simp [diffAt]
  | some column =>
    cases (byKey Column.name next).get? name with
    | none => simp [diffAt]
    | some column' =>
      rw [Option.map_some, Option.map_some, ne_eq (some _), Option.some_inj]
      exact diffColumn_ne_nil

theorem diffProjection_ne_nil {table : Text} {previous next : Option CanonicalProjection} :
    diffProjection table previous next ≠ [] ↔ previous ≠ next := by
  rw [diffProjection]
  simp only [append_ne_nil, pushIf_ne_nil, ne_eq, faithful_orNull_strings.print_inj]
  cases previous with
  | none => cases next <;> simp
  | some previous =>
    cases next with
    | none => simp
    | some next =>
      cases previous
      cases next
      simp only [Option.bind_some, Option.map_some, Option.some_inj, CanonicalProjection.mk.injEq]
      tauto

theorem diffTable_ne_nil {table : Text} {previous next : CanonicalTable} :
    diffTable table previous next ≠ [] ↔ Noticed previous next := by
  rw [diffTable, Noticed]
  simp only [append_ne_nil, diffColumns_ne_nil, diffProjection_ne_nil, diffShape, pushIf_ne_nil,
    ne_eq, faithful_strings.print_inj, faithful_orNull_strings.print_inj,
    faithful_orNull_rowFilter.print_inj, faithful_managedField.arr.print_inj, or_assoc]

theorem diffRowClass_ne_nil {table : Text} {previous next : Option Text} :
    diffRowClass table previous next ≠ [] ↔ previous ≠ next := by
  unfold diffRowClass
  split
  case isTrue h => simp [h]
  case isFalse h => cases previous <;> cases next <;> simp at h ⊢ <;> exact h

end Registry
