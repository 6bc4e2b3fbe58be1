/-
`COPY … WITH (FORMAT text)` data from JavaScript values.

A value is rendered as the text its column's type takes, an array as an array literal, JSON as its
text.  The text is escaped for COPY, fields are joined by tabs and rows by newlines.
-/
import Pgxsinkit.Lib.JsonRead

namespace Copy

/-! ### Values -/

inductive NonFinite
  | nan
  | infinity
  | negativeInfinity
  deriving DecidableEq

/-- A decoded value. -/
inductive Value
  /-- `null` or `undefined` -/
  | null
  | string (units : Text)
  /-- a finite number, by the digits `String(value)` writes for it -/
  | number (digits : Text)
  | nonFinite (value : NonFinite)
  | bigint (value : ℤ)
  | boolean (value : Bool)
  /-- a `Uint8Array` -/
  | bytes (bytes : List UInt8)
  | date (iso : Text)
  | array (items : List Value)
  | object (fields : List (Text × Value))

/-! ### COPY text -/

/-- `byte.toString(16).padStart(2, "0")` -/
def hexByte (byte : UInt8) : Text :=
  [Json.hexDigit (byte.toNat / 0x10), Json.hexDigit (byte.toNat % 0x10)]

def byteaToText (bytes : List UInt8) : Text := text "\\x" ++ bytes.flatMap hexByte

def NonFinite.toText : NonFinite → Text
  | nan => text "NaN"
  | infinity => text "Infinity"
  | negativeInfinity => text "-Infinity"

def decimal (n : ℕ) : Text := (Nat.toDigits 10 n).map fun c => UInt16.ofNat c.toNat

/-- `value.toString()` -/
def bigintText (value : ℤ) : Text :=
  if value < 0 then 0x2d :: decimal value.natAbs else decimal value.natAbs

/-! ### JSON -/

mutual

/-- `JSON.stringify`, as the JSON value its text denotes; it throws on a bigint. -/
def Value.stringify : Value → Option Json
  | .null | .nonFinite _ => some .null
  | .string units | .date units => some (.str units)
  | .number digits => some (.num digits)
  | .bigint _ => none
  | .boolean value => some (.bool value)
  | .bytes bytes => some (.obj (bytes.mapIdx fun i byte => (decimal i, .num (decimal byte.toNat))))
  | .array items => (stringifyItems items).map .arr
  | .object fields => (stringifyFields fields).map .obj

def stringifyItems : List Value → Option (List Json)
  | [] => some []
  | item :: rest => do
    let item ← item.stringify
    return item :: (← stringifyItems rest)

def stringifyFields : List (Text × Value) → Option (List (Text × Json))
  | [] => some []
  | (key, value) :: rest => do
    let value ← value.stringify
    return (key, value) :: (← stringifyFields rest)

end

def jsonToText (value : Value) : Option Text := value.stringify.map Json.print

/-! ### Array literals -/

def toLower (unit : UInt16) : UInt16 :=
  if 0x41 ≤ unit ∧ unit ≤ 0x5a then unit + 0x20 else unit

/-- No character but the letters themselves has one of these letters as its lower case. -/
def isNullWord (value : Text) : Bool := value.map toLower = text "null"

/-- `ARRAY_NEEDS_QUOTE_RE` -/
def needsQuote (unit : UInt16) : Bool :=
  unit ∈ [0x7b, 0x7d, 0x22, 0x2c, 0x5c, 0x20, 0x09, 0x0a, 0x0d, 0x0b, 0x0c]

def escapeElementUnit (unit : UInt16) : Text :=
  if unit = 0x22 ∨ unit = 0x5c then [0x5c, unit] else [unit]

def quoteArrayElement (value : Text) : Text :=
  if value = [] ∨ isNullWord value ∨ value.any needsQuote then
    0x22 :: (value.flatMap escapeElementUnit ++ [0x22])
  else value

/-- `"{" + elements.join(",") + "}"` -/
def braced (elements : List Text) : Text :=
  0x7b :: ((text ",").intercalate elements ++ [0x7d])

/-- The text of a value that is no array. -/
def scalarText : Value → Option Text
  | .null => some (text "null")
  | .string units => some units
  | .number digits => some digits
  | .nonFinite value => some value.toText
  | .bigint value => some (bigintText value)
  | .boolean value => some (text (if value then "t" else "f"))
  | .bytes bytes => some (byteaToText bytes)
  | .date iso => some iso
  | value => jsonToText value

mutual

/-- An element, of whatever depth. -/
def elementText : Value → Option Text
  | .null => some (text "NULL")
  | .array items => (elementTexts items).map braced
  | value => (scalarText value).map quoteArrayElement

def elementTexts : List Value → Option (List Text)
  | [] => some []
  | item :: rest => do
    let element ← elementText item
    return element :: (← elementTexts rest)

end

def NULL_MARKER : Text := text "\\N"

/-- A row, by column name. -/
abbrev Row := String → Value

end Copy
