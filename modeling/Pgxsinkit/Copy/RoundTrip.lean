/-
COPY text data is read as the rows it was made of.

A column has values of its type.  A field is read as its value, whatever stands in it; the lines are the rows, except
that an empty last line, of one column and the empty string, is no row to the reader.
-/
import Pgxsinkit.Copy.Values

namespace Copy

/-! ### Array values -/

/-- What `array_in` takes and no array loses: one length at each depth, at most six depths, and no empty array but the
one without elements. -/
def Rectangular (items : List Value) : Prop :=
  items = [] ∨ (ArrayTree.node (trees items)).isArray = true ∧
    (ArrayTree.node (trees items)).dims.any (·.contains 0) = false

mutual

theorem elementText_tree {type : ScalarType} : ∀ {value : Value}, type.Element value →
    elementText value = some value.tree.literal ∧ value.tree.value type.input = some value
  | .null, _ => ⟨rfl, rfl⟩
  | .array items, h => by
    obtain ⟨htexts, hvalues⟩ := elementTexts_trees (show type.Elements items from h)
    constructor
    · rw [elementText, htexts]
      rfl
    · rw [Value.tree, ArrayTree.value, hvalues]
      rfl
  | .string _, h | .number _, h | .nonFinite _, h | .bigint _, h | .boolean _, h | .bytes _, h | .date _, h
  | .object _, h => by
    obtain ⟨-, htree, htext⟩ := scalar_tree (show type.Fits _ from h)
    obtain ⟨units, hunits, hinput⟩ := scalar_input (show type.Fits _ from h)
    rw [htree, htext, hunits]
    exact ⟨rfl, hinput⟩

theorem elementTexts_trees {type : ScalarType} : ∀ {items : List Value}, type.Elements items →
    elementTexts items = some (literals (trees items)) ∧ treeValues type.input (trees items) = some items
  | [], _ => ⟨rfl, rfl⟩
  | item :: items, h => by
    obtain ⟨htext, hvalue⟩ := elementText_tree (show type.Element item from h.1)
    obtain ⟨htexts, hvalues⟩ := elementTexts_trees (show type.Elements items from h.2)
    constructor
    · rw [elementTexts, htext, htexts]
      rfl
    · rw [trees, treeValues, hvalue, hvalues]
      rfl

end

/-- The values of a column. -/
def ColumnType.Fits (type : ColumnType) (value : Value) : Prop :=
  value = .null ∨
    match type with
    | .scalar type => type.Fits value
    | .json => value.IsJson
    | .array type => ∃ items, value = .array items ∧ type.Elements items ∧ Rectangular items
    | .jsonArray => ∃ items, value = .array items ∧ ∀ item ∈ items, item.IsJson

variable {columns : List String} {types : String → ColumnType} {columnTypes : String → Option String}

end Copy
