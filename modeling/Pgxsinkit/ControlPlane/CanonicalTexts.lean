/-
What canonical texts tell apart.

Without holes the canonical text is the sorted text of the value that `JSON.stringify` writes, and each
hole is four characters short of it.  A canonical text has no half of a surrogate pair, so its UTF-8 tells
it from every other.
-/
import Pgxsinkit.ControlPlane.Canonical

namespace ControlPlane.Canonical

open Json

/-! ### Without holes -/

theorem printItems_eq (items : List Json) :
    printItems items = (text ",").intercalate (items.map print) := by
  induction items with
  | nil => rfl
  | cons item items ih =>
    cases items with
    | nil => rw [printItems, List.map_cons, List.map_nil, List.intercalate_singleton]
    | cons next items =>
      rw [printItems, ih]
      simp only [List.map_cons, List.intercalate_cons_cons]

theorem printFields_eq (fields : List (Text × Json)) :
    printFields fields = (text ",").intercalate (fields.map fun field => quote field.1 ++ text ":" ++ field.2.print) := by
  induction fields with
  | nil => rfl
  | cons field fields ih =>
    obtain ⟨key, value⟩ := field
    cases fields with
    | nil => rw [printFields, List.map_cons, List.map_nil, List.intercalate_singleton]
    | cons next fields =>
      rw [printFields, ih]
      simp only [List.map_cons, List.intercalate_cons_cons]

/-- Sorting goes by the keys alone. -/
theorem sortBy_map {α β : Type} (f : α → β) (fields : List (Text × α)) :
    Keyed.sortBy (fun field => keyOrder field.1) (fields.map fun field => (field.1, f field.2)) =
      (Keyed.sortBy (fun field => keyOrder field.1) fields).map fun field => (field.1, f field.2) :=
  (List.map_insertionSort _ _ (fun field : Text × α => (field.1, f field.2)) fields fun _ _ _ _ => Iff.rfl).symm

mutual

/-- The canonical text of a value without holes. -/
theorem canonicalJson_eq : ∀ value : JsData, value.holes = 0 →
    canonicalJson value = (stringify value).sorted.print
  | .undefined, _ | .null, _ | .nonFinite, _ | .bool _, _ | .num _, _ | .str _, _ => rfl
  | .arr items, h => by
    rw [canonicalJson, canonicalItems_eq items h, stringify, sorted, print, printItems_eq]
  | .obj fields, h => by
    have hfields := canonicalFields_eq fields h
    rw [canonicalJson, hfields, sortBy_map print, List.map_map, stringify, sorted, print, printFields_eq]
    rfl

theorem canonicalItems_eq : ∀ items : List (Option JsData), holesOfItems items = 0 →
    canonicalItems items = (sortedItems (stringifyItems items)).map print
  | [], _ => rfl
  | none :: _, h => absurd h (Nat.succ_ne_zero _)
  | some item :: rest, h => by
    rw [holesOfItems, Nat.add_eq_zero_iff] at h
    rw [canonicalItems, canonicalJson_eq item h.1, canonicalItems_eq rest h.2]
    rfl

theorem canonicalFields_eq : ∀ fields : List (Text × JsData), holesOfFields fields = 0 →
    canonicalFields fields = (sortedFields (stringifyFields fields)).map fun field => (field.1, field.2.print)
  | [], _ => rfl
  | (key, value) :: rest, h => by
    rw [holesOfFields, Nat.add_eq_zero_iff] at h
    rw [canonicalFields, stringifyFields, canonicalFields_eq rest h.2, canonicalJson_eq value h.1]
    split <;> rfl

end

/-! ### Holes -/

theorem length_intercalate (parts : List Text) :
    ((text ",").intercalate parts).length = (parts.map List.length).sum + (parts.length - 1) := by
  induction parts with
  | nil => rfl
  | cons part parts ih =>
    cases parts with
    | nil => simp
    | cons next parts =>
      have hcomma : (text ",").length = 1 := by decide
      rw [List.intercalate_cons_cons, List.length_append, List.length_append, ih, hcomma]
      simp only [List.map_cons, List.sum_cons, List.length_cons]
      omega

/-- The length of an object's text does not depend on the order of its members. -/
theorem length_members (fields : List (Text × Text)) :
    ((text ",").intercalate ((Keyed.sortBy (fun field => keyOrder field.1) fields).map fun field =>
      quote field.1 ++ text ":" ++ field.2)).length =
      (fields.map fun field => (quote field.1).length + 1 + field.2.length).sum + (fields.length - 1) := by
  have hperm := Keyed.perm_sortBy (fun field : Text × Text => keyOrder field.1) fields
  have hcolon : (text ":").length = 1 := by decide
  have hparts : ∀ list : List (Text × Text), (list.map fun field => quote field.1 ++ text ":" ++ field.2).map List.length =
      list.map fun field => (quote field.1).length + 1 + field.2.length := by
    intro list
    rw [List.map_map]
    refine List.map_congr_left fun field _ => ?_
    show (quote field.1 ++ text ":" ++ field.2).length = _
    rw [List.length_append, List.length_append, hcolon]
  rw [length_intercalate, hparts, List.length_map, (hperm.map _).sum_eq, hperm.length_eq]

mutual

/-- A hole is written with four characters less than `null`. -/
theorem length_fill : ∀ value : JsData,
    (canonicalJson value.fill).length = (canonicalJson value).length + 4 * value.holes
  | .undefined | .null | .nonFinite | .bool _ | .num _ | .str _ => rfl
  | .arr items => by
    obtain ⟨hsum, hlength⟩ := lengths_fillItems items
    rw [JsData.fill, canonicalJson, canonicalJson, JsData.holes]
    simp only [List.length_append, length_intercalate, hsum, hlength]
    omega
  | .obj fields => by
    obtain ⟨hsum, hlength⟩ := lengths_fillFields fields
    rw [JsData.fill, canonicalJson, canonicalJson, JsData.holes]
    simp only [List.length_append, length_members, hsum, hlength]
    omega

theorem lengths_fillItems : ∀ items : List (Option JsData),
    ((canonicalItems (fillItems items)).map List.length).sum =
        ((canonicalItems items).map List.length).sum + 4 * holesOfItems items ∧
      (canonicalItems (fillItems items)).length = (canonicalItems items).length
  | [] => ⟨rfl, rfl⟩
  | none :: rest => by
    obtain ⟨hsum, hlength⟩ := lengths_fillItems rest
    have hnull : (canonicalJson .null).length = 4 := by decide
    rw [fillItems, canonicalItems, canonicalItems, holesOfItems]
    simp only [List.map_cons, List.sum_cons, List.length_cons, List.length_nil, hnull, hsum, hlength]
    exact ⟨by omega, trivial⟩
  | some item :: rest => by
    obtain ⟨hsum, hlength⟩ := lengths_fillItems rest
    rw [fillItems, canonicalItems, canonicalItems, holesOfItems]
    simp only [List.map_cons, List.sum_cons, List.length_cons, length_fill item, hsum, hlength]
    exact ⟨by omega, trivial⟩

theorem lengths_fillFields : ∀ fields : List (Text × JsData),
    ((canonicalFields (fillFields fields)).map fun field => (quote field.1).length + 1 + field.2.length).sum =
        ((canonicalFields fields).map fun field => (quote field.1).length + 1 + field.2.length).sum +
          4 * holesOfFields fields ∧
      (canonicalFields (fillFields fields)).length = (canonicalFields fields).length
  | [] => ⟨rfl, rfl⟩
  | (key, value) :: rest => by
    obtain ⟨hsum, hlength⟩ := lengths_fillFields rest
    rw [fillFields, canonicalFields, canonicalFields, holesOfFields, isDefined_fill]
    cases hdefined : isDefined value with
    | true =>
      simp only [if_true, List.map_cons, List.sum_cons, List.length_cons, length_fill value, hsum, hlength]
      exact ⟨by omega, trivial⟩
    | false =>
      have hundefined : value.holes = 0 := by
        cases value <;> first | rfl | cases hdefined
      simp only [Bool.false_eq_true, if_false, hsum, hlength, hundefined]
      exact ⟨by omega, trivial⟩

end

/-! ### UTF-8 -/

/-- A text without half of a surrogate pair. -/
def Spelled (units : Text) : Prop := ∃ cs, units = Unicode.ofChars cs

theorem spelled_text (literal : String) : Spelled (text literal) := ⟨literal.toList, rfl⟩

theorem spelled_nil : Spelled [] := ⟨[], rfl⟩

theorem Spelled.append {units units' : Text} (h : Spelled units) (h' : Spelled units') :
    Spelled (units ++ units') := by
  obtain ⟨cs, rfl⟩ := h
  obtain ⟨cs', rfl⟩ := h'
  exact ⟨cs ++ cs', List.flatMap_append.symm⟩

theorem spelled_unit {unit : UInt16} (hhigh : Unicode.isHigh unit = false) (hlow : Unicode.isLow unit = false) :
    Spelled [unit] :=
  ⟨[Char.ofNat unit.toNat], by rw [Unicode.ofChars, List.flatMap_singleton, Unicode.units_one hhigh hlow]⟩

theorem spelled_of_units {units : Text}
    (h : ∀ unit ∈ units, Unicode.isHigh unit = false ∧ Unicode.isLow unit = false) : Spelled units := by
  induction units with
  | nil => exact spelled_nil
  | cons unit units ih =>
    obtain ⟨hhigh, hlow⟩ := h unit List.mem_cons_self
    exact (spelled_unit hhigh hlow).append (ih fun unit' hin => h unit' (List.mem_cons_of_mem _ hin))

/-- The UTF-8 of texts without half of a pair tells them apart. -/
theorem Spelled.textEncode_inj {units units' : Text} (h : Spelled units) (h' : Spelled units') :
    Unicode.textEncode units = Unicode.textEncode units' ↔ units = units' := by
  refine ⟨fun heq => ?_, fun heq => by rw [heq]⟩
  obtain ⟨cs, rfl⟩ := h
  obtain ⟨cs', rfl⟩ := h'
  rw [Unicode.textEncode_ofChars, Unicode.textEncode_ofChars] at heq
  rw [Unicode.utf8_injective heq]

theorem spelled_escape (unit : UInt16) : Spelled (escape unit) := by
  have hdigit : ∀ n < 16, Unicode.isHigh (hexDigit n) = false ∧ Unicode.isLow (hexDigit n) = false := by decide
  have hlt : unit.toNat < 65536 := unit.toNat_lt
  refine (spelled_text "\\u").append (spelled_of_units fun digit hin => ?_)
  simp only [List.mem_cons, List.not_mem_nil, or_false] at hin
  rcases hin with rfl | rfl | rfl | rfl
  · exact hdigit _ (by omega)
  · exact hdigit _ (by omega)
  · exact hdigit _ (by omega)
  · exact hdigit _ (by omega)

theorem spelled_quoteUnit (unit : UInt16) : Spelled (quoteUnit unit) := by
  unfold quoteUnit
  split_ifs with _ _ _ _ _ _ _ hescape
  case pos => exact spelled_text "\\b"
  case pos => exact spelled_text "\\t"
  case pos => exact spelled_text "\\n"
  case pos => exact spelled_text "\\f"
  case pos => exact spelled_text "\\r"
  case pos => exact spelled_text "\\\""
  case pos => exact spelled_text "\\\\"
  case pos => exact spelled_escape unit
  case neg =>
    rw [not_or, not_or] at hescape
    exact spelled_unit (Bool.eq_false_iff.mpr hescape.2.1) (Bool.eq_false_iff.mpr hescape.2.2)

theorem spelled_quoteUnits (units : Text) : Spelled (quoteUnits units) := by
  fun_induction quoteUnits units with
  | case1 => exact spelled_nil
  | case2 unit => exact spelled_quoteUnit unit
  | case3 high low units hpair ih =>
    obtain ⟨hhigh, hlow⟩ := Bool.and_eq_true_iff.mp hpair
    have hchar : Spelled [high, low] :=
      ⟨[_], by rw [Unicode.ofChars, List.flatMap_singleton, Unicode.units_pair hhigh hlow]⟩
    exact hchar.append ih
  | case4 high low units hpair ih => exact (spelled_quoteUnit high).append ih

theorem spelled_quote (units : Text) : Spelled (quote units) :=
  ((spelled_text "\"").append (spelled_quoteUnits units)).append (spelled_text "\"")

theorem spelled_number {digits : Text} (h : isNumber digits = true) : Spelled digits := by
  refine spelled_of_units fun unit hin => ?_
  rw [isNumber, Bool.and_eq_true] at h
  have hunit := List.all_eq_true.mp h.2 unit hin
  have hlow : unit.toNat < 0x80 := by
    simp only [isNumeric, Bool.or_eq_true, Bool.and_eq_true, decide_eq_true_eq, List.mem_cons,
      List.not_mem_nil, or_false] at hunit
    rcases hunit with ⟨-, hle⟩ | rfl | rfl | rfl | rfl | rfl
    · have := UInt16.le_iff_toNat_le.mp hle
      have hnine : (0x39 : UInt16).toNat = 0x39 := rfl
      omega
    all_goals decide
  constructor
  · rw [Bool.eq_false_iff, Ne, Unicode.isHigh_iff]
    omega
  · rw [Bool.eq_false_iff, Ne, Unicode.isLow_iff]
    omega

theorem spelled_intercalate {parts : List Text} (h : ∀ part ∈ parts, Spelled part) :
    Spelled ((text ",").intercalate parts) := by
  induction parts with
  | nil => exact spelled_nil
  | cons part parts ih =>
    have hrest := ih fun part' hin => h part' (List.mem_cons_of_mem _ hin)
    cases parts with
    | nil =>
      rw [List.intercalate_singleton]
      exact h part List.mem_cons_self
    | cons next parts =>
      rw [List.intercalate_cons_cons]
      exact ((h part List.mem_cons_self).append (spelled_text ",")).append hrest

mutual

theorem spelled_canonicalJson : ∀ value : JsData, value.legal = true → Spelled (canonicalJson value)
  | .undefined, _ | .null, _ | .nonFinite, _ => spelled_text "null"
  | .bool _, _ => spelled_text _
  | .num _, h => spelled_number h
  | .str units, _ => spelled_quote units
  | .arr items, h =>
    ((spelled_text "[").append (spelled_intercalate (spelled_canonicalItems items h))).append (spelled_text "]")
  | .obj fields, h => by
    have hfields := spelled_canonicalFields fields (Bool.and_eq_true_iff.mp h).2
    refine ((spelled_text _).append (spelled_intercalate fun part hpart => ?_)).append (spelled_text _)
    obtain ⟨field, hin, rfl⟩ := List.mem_map.mp hpart
    have hmem := (Keyed.perm_sortBy _ _).mem_iff.mp hin
    exact ((spelled_quote _).append (spelled_text ":")).append (hfields field hmem)

theorem spelled_canonicalItems : ∀ items : List (Option JsData), legalItems items = true →
    ∀ part ∈ canonicalItems items, Spelled part
  | [], _, _, hin => by cases hin
  | none :: rest, h, part, hin => by
    rcases List.mem_cons.mp hin with rfl | hin
    · exact spelled_nil
    · exact spelled_canonicalItems rest h part hin
  | some item :: rest, h, part, hin => by
    obtain ⟨hitem, hrest⟩ := Bool.and_eq_true_iff.mp h
    rcases List.mem_cons.mp hin with rfl | hin
    · exact spelled_canonicalJson item hitem
    · exact spelled_canonicalItems rest hrest part hin

theorem spelled_canonicalFields : ∀ fields : List (Text × JsData), legalFields fields = true →
    ∀ field ∈ canonicalFields fields, Spelled field.2
  | [], _, _, hin => by cases hin
  | (key, value) :: rest, h, field, hin => by
    obtain ⟨hvalue, hrest⟩ := Bool.and_eq_true_iff.mp h
    rw [canonicalFields] at hin
    split at hin
    · rcases List.mem_cons.mp hin with rfl | hin
      · exact spelled_canonicalJson value hvalue
      · exact spelled_canonicalFields rest hrest field hin
    · exact spelled_canonicalFields rest hrest field hin

end

/-! ### The values -/

theorem keys_stringifyFields (fields : List (Text × JsData)) :
    ((stringifyFields fields).map Prod.fst).Sublist (fields.map Prod.fst) := by
  induction fields with
  | nil => exact List.Sublist.refl _
  | cons field fields ih =>
    obtain ⟨key, value⟩ := field
    rw [stringifyFields]
    split
    · exact ih.cons_cons key
    · exact ih.cons key

mutual

theorem distinct_stringify : ∀ value : JsData, value.legal = true → (stringify value).Distinct
  | .undefined, _ | .null, _ | .nonFinite, _ | .bool _, _ | .num _, _ | .str _, _ => trivial
  | .arr items, h => distinct_stringifyItems items h
  | .obj fields, h => by
    obtain ⟨hkeys, hfields⟩ := Bool.and_eq_true_iff.mp h
    exact ⟨(keys_stringifyFields fields).nodup (of_decide_eq_true hkeys), distinct_stringifyFields fields hfields⟩

theorem distinct_stringifyItems : ∀ items : List (Option JsData), legalItems items = true →
    DistinctItems (stringifyItems items)
  | [], _ => trivial
  | none :: rest, h => ⟨trivial, distinct_stringifyItems rest h⟩
  | some item :: rest, h => by
    obtain ⟨hitem, hrest⟩ := Bool.and_eq_true_iff.mp h
    exact ⟨distinct_stringify item hitem, distinct_stringifyItems rest hrest⟩

theorem distinct_stringifyFields : ∀ fields : List (Text × JsData), legalFields fields = true →
    DistinctFields (stringifyFields fields)
  | [], _ => trivial
  | (key, value) :: rest, h => by
    obtain ⟨hvalue, hrest⟩ := Bool.and_eq_true_iff.mp h
    rw [stringifyFields]
    split
    · exact ⟨distinct_stringify value hvalue, distinct_stringifyFields rest hrest⟩
    · exact distinct_stringifyFields rest hrest

end

mutual

theorem numeric_stringify : ∀ value : JsData, value.legal = true → (stringify value).numeric = true
  | .undefined, _ | .null, _ | .nonFinite, _ | .bool _, _ | .str _, _ => rfl
  | .num _, h => h
  | .arr items, h => numeric_stringifyItems items h
  | .obj fields, h => numeric_stringifyFields fields (Bool.and_eq_true_iff.mp h).2

theorem numeric_stringifyItems : ∀ items : List (Option JsData), legalItems items = true →
    numericItems (stringifyItems items) = true
  | [], _ => rfl
  | none :: rest, h => numeric_stringifyItems rest h
  | some item :: rest, h => by
    obtain ⟨hitem, hrest⟩ := Bool.and_eq_true_iff.mp h
    exact Bool.and_eq_true_iff.mpr ⟨numeric_stringify item hitem, numeric_stringifyItems rest hrest⟩

theorem numeric_stringifyFields : ∀ fields : List (Text × JsData), legalFields fields = true →
    numericFields (stringifyFields fields) = true
  | [], _ => rfl
  | (key, value) :: rest, h => by
    obtain ⟨hvalue, hrest⟩ := Bool.and_eq_true_iff.mp h
    rw [stringifyFields]
    split
    · exact Bool.and_eq_true_iff.mpr ⟨numeric_stringify value hvalue, numeric_stringifyFields rest hrest⟩
    · exact numeric_stringifyFields rest hrest

end

/-- Without holes, one canonical text is one value. -/
theorem canonicalJson_iff {a b : JsData} (ha : a.legal = true) (hb : b.legal = true) (hfa : a.holes = 0)
    (hfb : b.holes = 0) : canonicalJson a = canonicalJson b ↔ (stringify a).Same (stringify b) := by
  rw [canonicalJson_eq a hfa, canonicalJson_eq b hfb]
  exact print_sorted_iff (distinct_stringify a ha) (distinct_stringify b hb) (numeric_stringify a ha)
    (numeric_stringify b hb)

end ControlPlane.Canonical
