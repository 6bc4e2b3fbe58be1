/-
JSON values, what `JSON.stringify` makes of a JavaScript value, and what `jsonb` takes.

A string is the list of its UTF-16 code units, so one with an unpaired surrogate is a value too.
A number stands as the digits `JSON.stringify` writes for it.  An object is its own enumerable
properties, in their order.  `jsonb` stores text, and so refuses a string that has no text: one
with U+0000 in it, or with half of a surrogate pair.
-/
import Pgxsinkit.Lib.Unicode

/-- A JavaScript string. -/
abbrev Text := List UInt16

/-- Under a name of its own, which every membership test on texts shares. -/
instance lawfulBEq_text : LawfulBEq Text := inferInstance

/-- The string a literal of the source denotes. -/
def text (literal : String) : Text := Unicode.ofChars literal.toList

inductive Json where
  | null
  | bool (value : Bool)
  | num (digits : Text)
  | str (units : Text)
  | arr (items : List Json)
  | obj (fields : List (Text × Json))

/-- A JavaScript value, as far as `JSON.stringify` tells values apart. -/
inductive JsValue where
  /-- `undefined`, a function or a symbol: left out of objects, `null` in arrays -/
  | undefined
  | null
  | bool (value : Bool)
  | num (digits : Text)
  /-- a number that is infinite or not a number -/
  | nonFinite
  | str (units : Text)
  /-- a `Date`, with its ISO string when it is a valid one -/
  | date (iso : Option Text)
  /-- a bigint, a cycle, or a `toJSON` method that throws, with the message of what is thrown -/
  | throwing (message : Text)
  | arr (items : List JsValue)
  | obj (fields : List (Text × JsValue))

namespace JsValue

mutual

/-- `JSON.stringify`, as the JSON value its text denotes; `none` is the result `undefined`. -/
def stringify : JsValue → Except Text (Option Json)
  | undefined => .ok none
  | null => .ok (some .null)
  | bool value => .ok (some (.bool value))
  | num digits => .ok (some (.num digits))
  | nonFinite => .ok (some .null)
  | str units => .ok (some (.str units))
  | date iso => .ok (some (iso.elim .null .str))
  | throwing message => .error message
  | arr items => do return some (.arr (← stringifyItems items))
  | obj fields => do return some (.obj (← stringifyFields fields))

def stringifyItems : List JsValue → Except Text (List Json)
  | [] => .ok []
  | item :: rest => do
    let item ← item.stringify
    return item.getD .null :: (← stringifyItems rest)

def stringifyFields : List (Text × JsValue) → Except Text (List (Text × Json))
  | [] => .ok []
  | (key, value) :: rest => do
    let value ← value.stringify
    let rest ← stringifyFields rest
    return (value.map fun value => (key, value)).toList ++ rest

end

end JsValue

namespace Json

/-! ### The text of a value -/

def hexDigit (n : ℕ) : UInt16 := UInt16.ofNat (if n < 10 then 0x30 + n else 0x57 + n)

/-- `\uXXXX`, in lower case -/
def escape (unit : UInt16) : Text :=
  text "\\u" ++ [hexDigit (unit.toNat / 0x1000), hexDigit (unit.toNat / 0x100 % 0x10),
    hexDigit (unit.toNat / 0x10 % 0x10), hexDigit (unit.toNat % 0x10)]

/-- What stands in the quoted text for a code unit that is not half of a surrogate pair. -/
def quoteUnit (unit : UInt16) : Text :=
  if unit = 0x08 then text "\\b" else if unit = 0x09 then text "\\t"
  else if unit = 0x0a then text "\\n" else if unit = 0x0c then text "\\f"
  else if unit = 0x0d then text "\\r" else if unit = 0x22 then text "\\\""
  else if unit = 0x5c then text "\\\\"
  else if unit < 0x20 ∨ Unicode.isHigh unit ∨ Unicode.isLow unit then escape unit
  else [unit]

def quoteUnits : Text → Text
  | [] => []
  | [unit] => quoteUnit unit
  | high :: low :: rest =>
    if Unicode.isHigh high && Unicode.isLow low then high :: low :: quoteUnits rest
    else quoteUnit high ++ quoteUnits (low :: rest)

def quote (units : Text) : Text := text "\"" ++ quoteUnits units ++ text "\""

mutual

/-- The text `JSON.stringify` writes. -/
def print : Json → Text
  | null => text "null"
  | bool value => text (if value then "true" else "false")
  | num digits => digits
  | str units => quote units
  | arr items => text "[" ++ printItems items ++ text "]"
  | obj fields => text "\x7b" ++ printFields fields ++ text "\x7d"

def printItems : List Json → Text
  | [] => []
  | [item] => item.print
  | item :: next :: rest => item.print ++ text "," ++ printItems (next :: rest)

def printFields : List (Text × Json) → Text
  | [] => []
  | [(key, value)] => quote key ++ text ":" ++ value.print
  | (key, value) :: next :: rest =>
    quote key ++ text ":" ++ value.print ++ text "," ++ printFields (next :: rest)

end

/-! ### What `jsonb` takes -/

/-- A string that has a text: no U+0000, and every surrogate one half of a pair. -/
def storableUnits : Text → Bool
  | [] => true
  | [unit] => unit ≠ 0 && !Unicode.isHigh unit && !Unicode.isLow unit
  | high :: low :: rest =>
    if Unicode.isHigh high && Unicode.isLow low then storableUnits rest
    else high ≠ 0 && !Unicode.isHigh high && !Unicode.isLow high && storableUnits (low :: rest)

mutual

def storable : Json → Bool
  | null | bool _ | num _ => true
  | str units => storableUnits units
  | arr items => storableItems items
  | obj fields => storableFields fields

def storableItems : List Json → Bool
  | [] => true
  | item :: rest => item.storable && storableItems rest

def storableFields : List (Text × Json) → Bool
  | [] => true
  | (key, value) :: rest => storableUnits key && value.storable && storableFields rest

end

/-- `jsonb` takes an array exactly when it takes every item of it. -/
theorem storableItems_iff {items : List Json} :
    storableItems items = true ↔ ∀ item ∈ items, item.storable = true := by
  induction items with
  | nil => simp [storableItems]
  | cons item rest ih => simp [storableItems, ih]

end Json
