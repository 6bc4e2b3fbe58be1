/-
The text of a value and the input function of its column's type.

A scalar and a JSON value are read from their text as they were.  An array is read as it was when
it is an array of the database: one length at each depth, at most six depths, and no empty array
but the array that has no elements at all (`IsArray`).
-/
import Pgxsinkit.Copy.ArrayLiteral
import Pgxsinkit.Copy.Framing

namespace Copy

/-! ### Scalars -/

/-- The values of a type that is no array. -/
def ScalarType.Fits : ScalarType → Value → Prop
  | text, .string _ => True
  | number, .number digits => Json.isNumber digits = true
  | number, .nonFinite _ => True
  | bigint, .bigint _ => True
  | boolean, .boolean _ => True
  | bytea, .bytes _ => True
  | _, _ => False

theorem numberIn_digits {digits : Text} (h : Json.isNumber digits = true) :
    numberIn digits = some (.number digits) := by
  have hword : ∀ word : Text, Json.isNumber word = false → digits ≠ word := by
    rintro word hword rfl
    rw [h] at hword
    cases hword
  rw [numberIn, if_neg (hword _ (by decide)), if_neg (hword _ (by decide)),
    if_neg (hword _ (by decide)), if_pos h]

theorem numberIn_nonFinite (value : NonFinite) : numberIn value.toText = some (.nonFinite value) := by
  cases value <;> rfl

theorem isDigit_decimal {n : ℕ} {c : Char} (h : c ∈ Nat.toDigits 10 n) : c.isDigit = true :=
  Nat.isDigit_of_mem_toDigits (by decide) (by decide) h

/-- The code unit of a digit. -/
theorem digit_unit {c : Char} (h : c.isDigit = true) :
    Char.ofNat (UInt16.ofNat c.toNat).toNat = c ∧ UInt16.ofNat c.toNat ≠ 0x2d := by
  rw [Char.isDigit, Bool.and_eq_true, decide_eq_true_eq, decide_eq_true_eq] at h
  have hlow : 48 ≤ c.toNat := h.1
  have hhigh : c.toNat ≤ 57 := h.2
  have hunit : (UInt16.ofNat c.toNat).toNat = c.toNat := Unicode.toNat_ofNat_of_lt (by omega)
  constructor
  · rw [hunit, Char.ofNat_toNat]
  · intro heq
    rw [heq] at hunit
    have hdash : (0x2d : UInt16).toNat = 45 := rfl
    omega

theorem naturalIn_decimal (n : ℕ) : naturalIn (decimal n) = some n := by
  have hchars : (decimal n).map (fun unit => Char.ofNat unit.toNat) = Nat.toDigits 10 n := by
    rw [decimal, List.map_map]
    exact (List.map_congr_left fun c hc => (digit_unit (isDigit_decimal hc)).1).trans (List.map_id _)
  have hne : decimal n ≠ [] := fun hnil => Nat.toDigits_ne_nil (List.map_eq_nil_iff.mp hnil)
  have hall : (Nat.toDigits 10 n).all Char.isDigit = true :=
    List.all_eq_true.mpr fun c hc => isDigit_decimal hc
  rw [naturalIn, hchars, if_pos ⟨hne, hall⟩, Nat.ofDigitChars_ten_toDigits]

theorem bigintIn_bigintText (value : ℤ) : bigintIn (bigintText value) = some (.bigint value) := by
  rw [bigintText]
  split
  · rename_i hneg
    have habs : -(value.natAbs : ℤ) = value := by omega
    show (naturalIn (decimal value.natAbs)).map (fun (n : ℕ) => Value.bigint (-n)) = _
    rw [naturalIn_decimal, Option.map_some, habs]
  · rename_i hpos
    have habs : (value.natAbs : ℤ) = value := by omega
    obtain ⟨unit, rest, hcons⟩ := List.exists_cons_of_ne_nil
      (fun hnil => Nat.toDigits_ne_nil (List.map_eq_nil_iff.mp hnil) : decimal value.natAbs ≠ [])
    have hunit : unit ≠ 0x2d := by
      have hmem : unit ∈ decimal value.natAbs := hcons ▸ List.mem_cons_self
      obtain ⟨c, hc, rfl⟩ := List.mem_map.mp hmem
      exact (digit_unit (isDigit_decimal hc)).2
    have hread : bigintIn (decimal value.natAbs) =
        (naturalIn (decimal value.natAbs)).map fun (n : ℕ) => Value.bigint n := by
      rw [hcons, bigintIn]
      rintro digits hdash
      exact hunit (List.cons.inj hdash).1
    rw [hread, naturalIn_decimal, Option.map_some, habs]

theorem hexBytes_hexByte (bytes : List UInt8) : hexBytes (bytes.flatMap hexByte) = some bytes := by
  have hdigit : ∀ n < 16, isHexDigit (Json.hexDigit n) = true := by decide
  induction bytes with
  | nil => rfl
  | cons byte bytes ih =>
    have hlt : byte.toNat < 256 := byte.toNat_lt
    rw [List.flatMap_cons]
    show (if isHexDigit (Json.hexDigit (byte.toNat / 0x10)) &&
        isHexDigit (Json.hexDigit (byte.toNat % 0x10)) then
      (hexBytes (bytes.flatMap hexByte)).map (UInt8.ofNat (Json.unhexDigit (Json.hexDigit (byte.toNat / 0x10)) * 0x10 +
        Json.unhexDigit (Json.hexDigit (byte.toNat % 0x10))) :: ·) else none) = _
    rw [hdigit _ (by omega), hdigit _ (by omega), ih, Json.unhexDigit_hexDigit _ (by omega),
      Json.unhexDigit_hexDigit _ (by omega)]
    have hbyte : UInt8.ofNat (byte.toNat / 0x10 * 0x10 + byte.toNat % 0x10) = byte := by
      rw [Nat.div_add_mod', UInt8.ofNat_toNat]
    rw [hbyte]
    rfl

/-- The text of a scalar, which its type reads. -/
theorem scalar_input {type : ScalarType} {value : Value} (h : type.Fits value) :
    ∃ units, scalarText value = some units ∧ type.input units = some value := by
  cases type <;> cases value <;> first | exact absurd h id | skip
  case text.string units => exact ⟨units, rfl, rfl⟩
  case number.number digits => exact ⟨digits, rfl, numberIn_digits h⟩
  case number.nonFinite value => exact ⟨_, rfl, numberIn_nonFinite value⟩
  case bigint.bigint value => exact ⟨_, rfl, bigintIn_bigintText value⟩
  case boolean.boolean value =>
    refine ⟨_, rfl, ?_⟩
    cases value <;> rfl
  case bytea.bytes bytes =>
    refine ⟨_, rfl, ?_⟩
    show (hexBytes (bytes.flatMap hexByte)).map Value.bytes = some (.bytes bytes)
    rw [hexBytes_hexByte]
    rfl

mutual

theorem stringify_ofJson : ∀ value : Json, (Value.ofJson value).stringify = some value
  | .null | .bool _ | .num _ | .str _ => rfl
  | .arr items => by
    rw [Value.ofJson, Value.stringify, stringifyItems_ofJson items]
    rfl
  | .obj fields => by
    rw [Value.ofJson, Value.stringify, stringifyFields_ofJson fields]
    rfl

theorem stringifyItems_ofJson : ∀ items : List Json, stringifyItems (ofJsonItems items) = some items
  | [] => rfl
  | item :: items => by
    rw [ofJsonItems, stringifyItems, stringify_ofJson item, stringifyItems_ofJson items]
    rfl

theorem stringifyFields_ofJson : ∀ fields : List (Text × Json),
    stringifyFields (ofJsonFields fields) = some fields
  | [] => rfl
  | (key, value) :: fields => by
    rw [ofJsonFields, stringifyFields, stringify_ofJson value, stringifyFields_ofJson fields]
    rfl

end

/-- A parsed JSON value. -/
def Value.IsJson (value : Value) : Prop := ∃ json : Json, json.numeric = true ∧ value = .ofJson json

mutual

/-- The nesting of an array, with the texts of its elements. -/
def Value.tree : Value → ArrayTree
  | .null => .leaf none
  | .array items => .node (trees items)
  | value => .leaf (scalarText value)

def trees : List Value → List ArrayTree
  | [] => []
  | item :: items => item.tree :: trees items

end

mutual

/-- An element of an array, or an array in it. -/
def ScalarType.Element (type : ScalarType) : Value → Prop
  | .null => True
  | .array items => type.Elements items
  | value => type.Fits value

def ScalarType.Elements (type : ScalarType) : List Value → Prop
  | [] => True
  | item :: items => type.Element item ∧ type.Elements items

end

theorem scalar_tree {type : ScalarType} {value : Value} (h : type.Fits value) :
    type.Element value ∧ value.tree = .leaf (scalarText value) ∧
      elementText value = (scalarText value).map quoteArrayElement := by
  cases type <;> cases value <;> first | exact absurd h id | exact ⟨h, rfl, rfl⟩

end Copy
