/-
Fixed layouts: a byte string that is a row of fields of known widths.

An encoder allocates a zeroed buffer and overwrites one field after the other; a decoder
reads each field by its offset.  `overwrite_head` and `overwrite_tail` turn the writes into
a row of fields, and `eq_flatten_iff` turns the equation with a row into one equation for
each offset.
-/
import Pgxsinkit.Lib.Bytes

namespace Bytes

/-- `new Uint8Array(length)` -/
def zeros (length : Nat) : List UInt8 := List.replicate length 0

@[simp] theorem length_zeros (length : Nat) : (zeros length).length = length :=
  List.length_replicate

theorem zeros_add (m n : Nat) : zeros (m + n) = zeros m ++ zeros n := by
  rw [zeros, zeros, zeros, List.replicate_append_replicate]

/-- A zeroed buffer is a row of zeroed fields. -/
theorem zeros_sum (widths : List Nat) : zeros widths.sum = (widths.map zeros).flatten := by
  induction widths with
  | nil => rfl
  | cons width widths ih =>
    rw [List.sum_cons, zeros_add, ih, List.map_cons, List.flatten_cons]

theorem slice_eq_zeros {bytes : List UInt8} {start length : Nat} (h : start + length ≤ bytes.length) :
    (∀ b ∈ slice bytes start length, b = 0) ↔ slice bytes start length = zeros length := by
  rw [zeros, List.eq_replicate_iff, length_slice h]
  exact ⟨fun hall => ⟨rfl, hall⟩, And.right⟩

/-- A slice of the first `length` bytes. -/
theorem slice_slice {bytes : List UInt8} {length start width : Nat} (h : start + width ≤ length) :
    slice (slice bytes 0 length) start width = slice bytes start width := by
  rw [slice, slice, slice, List.drop_zero, List.drop_take, List.take_take]
  congr 1
  omega

/-- Writing the first field of a row. -/
theorem overwrite_head {field row value : List UInt8} (h : field.length = value.length) :
    overwrite (field ++ row) 0 value = value ++ row :=
  @overwrite_append [] field row value 0 rfl h

theorem overwrite_all {field value : List UInt8} (h : field.length = value.length) :
    overwrite field 0 value = value := by
  rw [← List.append_nil field, overwrite_head h, List.append_nil]

/-- Writing behind the first field of a row. -/
theorem overwrite_tail {field row value : List UInt8} {offset : Nat} (h : field.length ≤ offset) :
    overwrite (field ++ row) offset value =
      field ++ overwrite row (offset - field.length) value := by
  have hend : (field ++ row).drop (offset + value.length) =
      row.drop (offset - field.length + value.length) := by
    rw [List.drop_append, List.drop_eq_nil_of_le (by omega), List.nil_append]
    congr 1
    omega
  rw [overwrite, overwrite, hend, List.take_append, List.take_of_length_le h]
  simp only [List.append_assoc]

/-- The fields of the given widths, from an offset on. -/
def slices (bytes : List UInt8) : List Nat → Nat → List (List UInt8)
  | [], _ => []
  | width :: widths, offset => slice bytes offset width :: slices bytes widths (offset + width)

theorem flatten_slices_drop (bytes : List UInt8) (widths : List Nat) (offset : Nat) :
    (slices bytes widths offset).flatten ++ bytes.drop (offset + widths.sum) =
      bytes.drop offset := by
  induction widths generalizing offset with
  | nil => rfl
  | cons width widths ih =>
    rw [slices, List.flatten_cons, List.append_assoc, List.sum_cons, ← Nat.add_assoc, ih,
      slice_append_drop]

/-- A byte string of the right length is the row of its fields. -/
theorem flatten_slices {bytes : List UInt8} {widths : List Nat} (h : bytes.length = widths.sum) :
    (slices bytes widths 0).flatten = bytes := by
  have hrow := flatten_slices_drop bytes widths 0
  rw [Nat.zero_add, ← h, List.drop_length, List.append_nil, List.drop_zero] at hrow
  exact hrow

theorem slices_append_flatten (before : List UInt8) (fields : List (List UInt8)) :
    slices (before ++ fields.flatten) (fields.map List.length) before.length = fields := by
  induction fields generalizing before with
  | nil => rfl
  | cons field fields ih =>
    have hrest := ih (before ++ field)
    rw [List.length_append, List.append_assoc] at hrest
    rw [List.map_cons, slices, List.flatten_cons, hrest, slice_append_right (Nat.le_refl _),
      Nat.sub_self, slice_append_left (Nat.zero_add _).le, slice_all]

theorem slices_flatten (fields : List (List UInt8)) :
    slices fields.flatten (fields.map List.length) 0 = fields :=
  slices_append_flatten [] fields

/-- A byte string is a row of fields iff it has the length of the row and every field stands
at its offset. -/
theorem eq_flatten_iff {bytes : List UInt8} {fields : List (List UInt8)} :
    bytes = fields.flatten ↔ bytes.length = (fields.map List.length).sum ∧
      slices bytes (fields.map List.length) 0 = fields := by
  constructor
  · rintro rfl
    exact ⟨List.length_flatten, slices_flatten fields⟩
  · rintro ⟨hlen, hfields⟩
    rw [← flatten_slices hlen, hfields]

theorem slices_append (bytes : List UInt8) (widths widths' : List Nat) (offset : Nat) :
    slices bytes (widths ++ widths') offset =
      slices bytes widths offset ++ slices bytes widths' (offset + widths.sum) := by
  induction widths generalizing offset with
  | nil => rfl
  | cons width widths ih =>
    rw [List.cons_append, slices, ih, slices, List.sum_cons, List.cons_append, Nat.add_assoc]

theorem length_slices (bytes : List UInt8) (widths : List Nat) (offset : Nat) :
    (slices bytes widths offset).length = widths.length := by
  induction widths generalizing offset with
  | nil => rfl
  | cons width widths ih => rw [slices, List.length_cons, ih, List.length_cons]

/-- A byte string is two rows with a field between them iff all stand at their offsets. -/
theorem eq_row_iff {bytes field : List UInt8} {before after : List (List UInt8)} :
    bytes = before.flatten ++ (field ++ after.flatten) ↔
      bytes.length = before.flatten.length + field.length + after.flatten.length ∧
        slices bytes (before.map List.length) 0 = before ∧
        slice bytes before.flatten.length field.length = field ∧
        slices bytes (after.map List.length) (before.flatten.length + field.length) = after := by
  have hrow : before.flatten ++ (field ++ after.flatten) = (before ++ field :: after).flatten := by
    rw [List.flatten_append, List.flatten_cons]
  have hlen : ((before ++ field :: after).map List.length).sum =
      before.flatten.length + field.length + after.flatten.length := by
    rw [← List.length_flatten, List.flatten_append, List.flatten_cons, List.length_append,
      List.length_append, Nat.add_assoc]
  rw [hrow, eq_flatten_iff, hlen, List.map_append, List.map_cons, slices_append, slices,
    ← List.length_flatten, Nat.zero_add]
  refine and_congr_right fun _ => ?_
  constructor
  · intro heq
    obtain ⟨hbefore, hrest⟩ := List.append_inj heq (by rw [length_slices, List.length_map])
    rw [List.cons.injEq] at hrest
    exact ⟨hbefore, hrest⟩
  · rintro ⟨hbefore, hfield, hafter⟩
    rw [hbefore, hfield, hafter]

/-- A write inside a part of a byte string. -/
theorem overwrite_part {before row after value : List UInt8} {offset : ℕ}
    (h : offset + value.length ≤ row.length) :
    overwrite (before ++ (row ++ after)) (before.length + offset) value =
      before ++ (overwrite row offset value ++ after) := by
  rw [overwrite_tail (Nat.le_add_right _ _), Nat.add_sub_cancel_left, overwrite, overwrite,
    List.take_append_of_le_length (by omega), List.drop_append_of_le_length (by omega)]
  simp only [List.append_assoc]

theorem flatten_split {fields : List (List UInt8)} {i : ℕ} (hi : i < fields.length) :
    fields.flatten = (fields.take i).flatten ++ (fields[i] ++ (fields.drop (i + 1)).flatten) := by
  rw [← List.flatten_cons, List.getElem_cons_drop, ← List.flatten_append, List.take_append_drop]

/-- A write inside the field at a position of a row. -/
theorem overwrite_flatten {fields : List (List UInt8)} {value : List UInt8} {i offset k : ℕ}
    (hi : i < fields.length) (hoffset : ((fields.map List.length).take i).sum = offset)
    (h : k + value.length ≤ fields[i].length) :
    overwrite fields.flatten (offset + k) value =
      (fields.set i (overwrite fields[i] k value)).flatten := by
  have hbefore : (fields.take i).flatten.length = offset := by
    rw [List.length_flatten, List.map_take, hoffset]
  rw [flatten_split hi, ← hbefore, overwrite_part h, List.set_eq_take_append_cons_drop, if_pos hi,
    List.flatten_append, List.flatten_cons]

/-- The field at a position of a row. -/
theorem slice_flatten {fields : List (List UInt8)} {i offset width : ℕ}
    (hi : i < fields.length) (hoffset : ((fields.map List.length).take i).sum = offset)
    (hwidth : fields[i].length = width) : slice fields.flatten offset width = fields[i] := by
  have hbefore : (fields.take i).flatten.length = offset := by
    rw [List.length_flatten, List.map_take, hoffset]
  rw [flatten_split hi, ← hbefore, ← hwidth, slice_append_right (Nat.le_refl _), Nat.sub_self,
    slice_append_left (Nat.zero_add _).le, slice_all]

/-- Writing the start of a zeroed field. -/
theorem overwrite_zeros {width : ℕ} {value : List UInt8} :
    overwrite (zeros width) 0 value = value ++ zeros (width - value.length) := by
  rw [overwrite, List.take_zero, List.nil_append, Nat.zero_add, zeros, List.drop_replicate, zeros]

end Bytes
