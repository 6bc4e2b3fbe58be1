/-
Canonical JSON (`circuits/compile.ts`) beside `JSON.stringify`.

A value of a request is plain data; an array may have holes, which `map` leaves as they are and `join`
writes as nothing, where `JSON.stringify` writes `null`.  With the holes filled the canonical text is the
sorted text of the value that `JSON.stringify` writes.
-/
import Pgxsinkit.Lib.JsonSorted

namespace ControlPlane.Canonical

/-! ### Values -/

/-- Plain data; a number stands as the digits `JSON.stringify` writes for it. -/
inductive JsData
  | undefined
  | null
  | bool (value : Bool)
  | num (digits : Text)
  /-- a number that is infinite or not a number -/
  | nonFinite
  | str (units : Text)
  /-- `none` is a hole -/
  | arr (items : List (Option JsData))
  /-- the own properties, in the order `Object.entries` gives them -/
  | obj (fields : List (Text × JsData))

mutual

/-- Every number has the digits of one, and no object has a property twice. -/
def JsData.legal : JsData → Bool
  | .undefined | .null | .bool _ | .nonFinite | .str _ => true
  | .num digits => Json.isNumber digits
  | .arr items => legalItems items
  | .obj fields => decide (fields.map Prod.fst).Nodup && legalFields fields

def legalItems : List (Option JsData) → Bool
  | [] => true
  | none :: rest => legalItems rest
  | some item :: rest => item.legal && legalItems rest

def legalFields : List (Text × JsData) → Bool
  | [] => true
  | (_, value) :: rest => value.legal && legalFields rest

end

mutual

/-- The holes in a value. -/
def JsData.holes : JsData → ℕ
  | .undefined | .null | .bool _ | .num _ | .nonFinite | .str _ => 0
  | .arr items => holesOfItems items
  | .obj fields => holesOfFields fields

def holesOfItems : List (Option JsData) → ℕ
  | [] => 0
  | none :: rest => holesOfItems rest + 1
  | some item :: rest => item.holes + holesOfItems rest

def holesOfFields : List (Text × JsData) → ℕ
  | [] => 0
  | (_, value) :: rest => value.holes + holesOfFields rest

end

/-! ### The two texts -/

/-- Members whose value is not `undefined`. -/
def isDefined : JsData → Bool
  | .undefined => false
  | _ => true

mutual

/-- `canonicalJson`; the members are written before they are sorted, which their texts play no part in. -/
def canonicalJson : JsData → Text
  | .undefined | .null | .nonFinite => text "null"
  | .bool value => text (if value then "true" else "false")
  | .num digits => digits
  | .str units => Json.quote units
  | .arr items => text "[" ++ (text ",").intercalate (canonicalItems items) ++ text "]"
  | .obj fields =>
    text "\x7b" ++ (text ",").intercalate
      ((Keyed.sortBy (fun field => Json.keyOrder field.1) (canonicalFields fields)).map fun field =>
        Json.quote field.1 ++ text ":" ++ field.2) ++ text "\x7d"

/-- The elements as `map` and `join` have them: a hole stays one, and is written as nothing. -/
def canonicalItems : List (Option JsData) → List Text
  | [] => []
  | none :: rest => [] :: canonicalItems rest
  | some item :: rest => canonicalJson item :: canonicalItems rest

def canonicalFields : List (Text × JsData) → List (Text × Text)
  | [] => []
  | (key, value) :: rest =>
    if isDefined value then (key, canonicalJson value) :: canonicalFields rest else canonicalFields rest

end

mutual

/-- `JSON.stringify`, as the JSON value its text denotes, of a value inside an array. -/
def stringify : JsData → Json
  | .undefined | .null | .nonFinite => .null
  | .bool value => .bool value
  | .num digits => .num digits
  | .str units => .str units
  | .arr items => .arr (stringifyItems items)
  | .obj fields => .obj (stringifyFields fields)

def stringifyItems : List (Option JsData) → List Json
  | [] => []
  | none :: rest => .null :: stringifyItems rest
  | some item :: rest => stringify item :: stringifyItems rest

def stringifyFields : List (Text × JsData) → List (Text × Json)
  | [] => []
  | (key, value) :: rest =>
    if isDefined value then (key, stringify value) :: stringifyFields rest else stringifyFields rest

end

/-! ### Holes filled -/

mutual

/-- The value with `null` for each hole. -/
def JsData.fill : JsData → JsData
  | .arr items => .arr (fillItems items)
  | .obj fields => .obj (fillFields fields)
  | value => value

def fillItems : List (Option JsData) → List (Option JsData)
  | [] => []
  | none :: rest => some .null :: fillItems rest
  | some item :: rest => some item.fill :: fillItems rest

def fillFields : List (Text × JsData) → List (Text × JsData)
  | [] => []
  | (key, value) :: rest => (key, value.fill) :: fillFields rest

end

theorem isDefined_fill (value : JsData) : isDefined value.fill = isDefined value := by
  cases value <;> rfl

mutual

theorem fill_of_holes : ∀ value : JsData, value.holes = 0 → value.fill = value
  | .undefined, _ | .null, _ | .bool _, _ | .num _, _ | .nonFinite, _ | .str _, _ => rfl
  | .arr items, h => by rw [JsData.fill, fillItems_of_holes items h]
  | .obj fields, h => by rw [JsData.fill, fillFields_of_holes fields h]

theorem fillItems_of_holes : ∀ items : List (Option JsData), holesOfItems items = 0 → fillItems items = items
  | [], _ => rfl
  | none :: _, h => absurd h (Nat.succ_ne_zero _)
  | some item :: rest, h => by
    rw [holesOfItems, Nat.add_eq_zero_iff] at h
    rw [fillItems, fill_of_holes item h.1, fillItems_of_holes rest h.2]

theorem fillFields_of_holes : ∀ fields : List (Text × JsData), holesOfFields fields = 0 →
    fillFields fields = fields
  | [], _ => rfl
  | (key, value) :: rest, h => by
    rw [holesOfFields, Nat.add_eq_zero_iff] at h
    rw [fillFields, fill_of_holes value h.1, fillFields_of_holes rest h.2]

end

mutual

theorem holes_fill : ∀ value : JsData, value.fill.holes = 0
  | .undefined | .null | .bool _ | .num _ | .nonFinite | .str _ => rfl
  | .arr items => holes_fillItems items
  | .obj fields => holes_fillFields fields

theorem holes_fillItems : ∀ items : List (Option JsData), holesOfItems (fillItems items) = 0
  | [] => rfl
  | none :: rest => by
    rw [fillItems, holesOfItems, holes_fillItems rest]
    rfl
  | some item :: rest => by rw [fillItems, holesOfItems, holes_fill item, holes_fillItems rest]

theorem holes_fillFields : ∀ fields : List (Text × JsData), holesOfFields (fillFields fields) = 0
  | [] => rfl
  | (key, value) :: rest => by rw [fillFields, holesOfFields, holes_fill value, holes_fillFields rest]

end

mutual

/-- `JSON.stringify` has `null` for a hole already. -/
theorem stringify_fill : ∀ value : JsData, stringify value.fill = stringify value
  | .undefined | .null | .bool _ | .num _ | .nonFinite | .str _ => rfl
  | .arr items => by rw [JsData.fill, stringify, stringify, stringifyItems_fill items]
  | .obj fields => by rw [JsData.fill, stringify, stringify, stringifyFields_fill fields]

theorem stringifyItems_fill : ∀ items : List (Option JsData),
    stringifyItems (fillItems items) = stringifyItems items
  | [] => rfl
  | none :: rest => by
    rw [fillItems, stringifyItems, stringifyItems, stringifyItems_fill rest]
    rfl
  | some item :: rest => by
    rw [fillItems, stringifyItems, stringifyItems, stringify_fill item, stringifyItems_fill rest]

theorem stringifyFields_fill : ∀ fields : List (Text × JsData),
    stringifyFields (fillFields fields) = stringifyFields fields
  | [] => rfl
  | (key, value) :: rest => by
    rw [fillFields, stringifyFields, stringifyFields, isDefined_fill, stringify_fill value,
      stringifyFields_fill rest]

end

theorem keys_fillFields (fields : List (Text × JsData)) :
    (fillFields fields).map Prod.fst = fields.map Prod.fst := by
  induction fields with
  | nil => rfl
  | cons field fields ih => rw [fillFields, List.map_cons, ih, List.map_cons]

mutual

theorem legal_fill : ∀ value : JsData, value.fill.legal = value.legal
  | .undefined | .null | .bool _ | .num _ | .nonFinite | .str _ => rfl
  | .arr items => legalItems_fill items
  | .obj fields => by rw [JsData.fill, JsData.legal, JsData.legal, keys_fillFields, legalFields_fill fields]

theorem legalItems_fill : ∀ items : List (Option JsData), legalItems (fillItems items) = legalItems items
  | [] => rfl
  | none :: rest => by
    rw [fillItems, legalItems, legalItems, legalItems_fill rest]
    rfl
  | some item :: rest => by rw [fillItems, legalItems, legalItems, legal_fill item, legalItems_fill rest]

theorem legalFields_fill : ∀ fields : List (Text × JsData), legalFields (fillFields fields) = legalFields fields
  | [] => rfl
  | (key, value) :: rest => by
    rw [fillFields, legalFields, legalFields, legal_fill value, legalFields_fill rest]

end

end ControlPlane.Canonical
