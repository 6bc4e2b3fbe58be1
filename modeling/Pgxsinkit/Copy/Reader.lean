/-
PostgreSQL's reader of COPY text data.

The lines end at newlines, the last perhaps at the end of the data.  A line is cut at tabs, a
field's escapes are undone, and the text goes to the input function of the column's type.  An array
literal is read as tokens, then as a tree, which has to have one length at every depth.
-/
import Pgxsinkit.Copy.Serialize

namespace Copy

/-! ### Lines and fields -/

/-- Characters before the rest of the first line. -/
def prependLine (units : Text) : List Text → List Text
  | [] => [units]
  | line :: lines => (units ++ line) :: lines

/-- The lines of the data; a character after a backslash ends nothing, and `\.` on a line of its
own ends the data. -/
def copyLines : Bool → Text → Option (List Text)
  | atStart, [] => some (if atStart then [] else [[]])
  | _, [unit] =>
    if unit = 0x0d then none else if unit = 0x0a then some [[]] else some [[unit]]
  | atStart, unit :: next :: rest =>
    if unit = 0x0a then (copyLines true (next :: rest)).map ([] :: ·)
    else if unit = 0x0d then none
    else if unit ≠ 0x5c then (copyLines false (next :: rest)).map (prependLine [unit])
    else if next = 0x2e then
      if atStart ∧ (rest = [] ∨ rest.head? = some 0x0a) then some [] else none
    else (copyLines false rest).map (prependLine [unit, next])

/-- The fields of a line, as they stand. -/
def copyFields : Text → List Text
  | [] => [[]]
  | [unit] => if unit = 0x09 then [[], []] else [[unit]]
  | unit :: next :: rest =>
    if unit = 0x09 then [] :: copyFields (next :: rest)
    else if unit ≠ 0x5c then prependLine [unit] (copyFields (next :: rest))
    else prependLine [unit, next] (copyFields rest)

/-- The character a letter after a backslash stands for. -/
def unescapeCopyUnit (unit : UInt16) : UInt16 :=
  if unit = 0x62 then 0x08 else if unit = 0x66 then 0x0c else if unit = 0x6e then 0x0a
  else if unit = 0x72 then 0x0d else if unit = 0x74 then 0x09 else if unit = 0x76 then 0x0b else unit

/-- An escape that gives a byte in octal or hexadecimal digits, which has no character here. -/
def isNumericEscape (unit : UInt16) : Bool := (0x30 ≤ unit && unit ≤ 0x37) || unit = 0x78

def unescapeCopyText : Text → Option Text
  | [] => some []
  | [unit] => some [unit]
  | unit :: next :: rest =>
    if unit ≠ 0x5c then (unescapeCopyText (next :: rest)).map (unit :: ·)
    else if isNumericEscape next then none
    else (unescapeCopyText rest).map (unescapeCopyUnit next :: ·)

/-! ### Array literals -/

inductive ArrayToken
  | levelStart
  | levelEnd
  | delimiter
  | element (value : Text)
  | elementNull
  deriving DecidableEq

/-- Between tokens, or in an element: inside quotes, after a backslash there, or without quotes. -/
inductive TokenMode
  | between
  | quoted (element : Text)
  | escaped (element : Text)
  | bare (element : Text)

/-- `array_isspace` -/
def isArraySpace (unit : UInt16) : Bool := unit ∈ [0x20, 0x09, 0x0a, 0x0d, 0x0b, 0x0c]

/-- An element without quotes, less the white space after it. -/
def bareToken (element : Text) : ArrayToken :=
  let element := element.rdropWhile isArraySpace
  if isNullWord element then .elementNull else .element element

/-- `ReadArrayToken`; a backslash is read inside quotes only. -/
def arrayTokens : TokenMode → Text → Option (List ArrayToken)
  | .between, [] => some []
  | .quoted _, [] | .escaped _, [] => none
  | .bare element, [] => some [bareToken element]
  | .between, unit :: rest =>
    if isArraySpace unit then arrayTokens .between rest
    else if unit = 0x7b then (arrayTokens .between rest).map (.levelStart :: ·)
    else if unit = 0x7d then (arrayTokens .between rest).map (.levelEnd :: ·)
    else if unit = 0x2c then (arrayTokens .between rest).map (.delimiter :: ·)
    else if unit = 0x22 then arrayTokens (.quoted []) rest
    else if unit = 0x5c then none
    else arrayTokens (.bare [unit]) rest
  | .quoted element, unit :: rest =>
    if unit = 0x22 then (arrayTokens .between rest).map (.element element :: ·)
    else if unit = 0x5c then arrayTokens (.escaped element) rest
    else arrayTokens (.quoted (element ++ [unit])) rest
  | .escaped element, unit :: rest => arrayTokens (.quoted (element ++ [unit])) rest
  | .bare element, unit :: rest =>
    if unit = 0x2c then (arrayTokens .between rest).map (bareToken element :: .delimiter :: ·)
    else if unit = 0x7d then (arrayTokens .between rest).map (bareToken element :: .levelEnd :: ·)
    else if unit = 0x7b ∨ unit = 0x22 ∨ unit = 0x5c then none
    else arrayTokens (.bare (element ++ [unit])) rest

/-- An array literal: its elements by nesting. -/
inductive ArrayTree
  | leaf (element : Option Text)
  | node (items : List ArrayTree)

/-- What may come next inside braces. -/
inductive Expected
  | itemOrEnd
  | item
  | delimiterOrEnd
  deriving DecidableEq

/-- The tree of the tokens; the stack has the items read at each open brace, the innermost first. -/
def buildArray : List ArrayToken → List (List ArrayTree) → Expected → Option ArrayTree
  | .levelStart :: tokens, stack, expected =>
    if expected = .delimiterOrEnd then none else buildArray tokens ([] :: stack) .itemOrEnd
  | .levelEnd :: tokens, items :: outer, expected =>
    if expected = .item then none
    else
      match outer with
      | [] => if tokens = [] then some (.node items) else none
      | items' :: outer => buildArray tokens ((items' ++ [.node items]) :: outer) .delimiterOrEnd
  | .delimiter :: tokens, stack, expected =>
    if expected = .delimiterOrEnd then buildArray tokens stack .item else none
  | .element value :: tokens, items :: outer, expected =>
    if expected = .delimiterOrEnd then none
    else buildArray tokens ((items ++ [.leaf (some value)]) :: outer) .delimiterOrEnd
  | .elementNull :: tokens, items :: outer, expected =>
    if expected = .delimiterOrEnd then none
    else buildArray tokens ((items ++ [.leaf none]) :: outer) .delimiterOrEnd
  | _, _, _ => none

mutual

/-- The lengths of an array, the outermost first; none when the items of a level differ. -/
def ArrayTree.dims : ArrayTree → Option (List ℕ)
  | .leaf _ => some []
  | .node [] => some [0]
  | .node (item :: items) =>
    item.dims.bind fun dims =>
      if sameDims dims items then some ((items.length + 1) :: dims) else none

def sameDims (dims : List ℕ) : List ArrayTree → Bool
  | [] => true
  | item :: items => item.dims = some dims && sameDims dims items

end

def MAXDIM : ℕ := 6

/-- An array type has trees with one length at each depth, and not too many depths. -/
def ArrayTree.isArray (tree : ArrayTree) : Bool := tree.dims.any fun dims => dims.length ≤ MAXDIM

mutual

/-- The values of the elements. -/
def ArrayTree.value (elementIn : Text → Option Value) : ArrayTree → Option Value
  | .leaf none => some .null
  | .leaf (some element) => elementIn element
  | .node items => (treeValues elementIn items).map .array

def treeValues (elementIn : Text → Option Value) : List ArrayTree → Option (List Value)
  | [] => some []
  | item :: items => do
    let value ← item.value elementIn
    return value :: (← treeValues elementIn items)

end

/-- `array_in`; an array without elements has no dimensions. -/
def arrayIn (elementIn : Text → Option Value) (literal : Text) : Option Value := do
  let tokens ← arrayTokens .between literal
  let tree ← buildArray tokens [] .itemOrEnd
  if tree.isArray then
    if tree.dims.any (·.contains 0) then some (.array []) else tree.value elementIn
  else none

/-! ### Types -/

inductive ScalarType
  | text
  | number
  | bigint
  | boolean
  | bytea
  deriving DecidableEq

inductive ColumnType
  | scalar (type : ScalarType)
  | json
  | array (type : ScalarType)
  | jsonArray
  deriving DecidableEq

def numberIn (value : Text) : Option Value :=
  if value = text "NaN" then some (.nonFinite .nan)
  else if value = text "Infinity" then some (.nonFinite .infinity)
  else if value = text "-Infinity" then some (.nonFinite .negativeInfinity)
  else if Json.isNumber value then some (.number value)
  else none

def naturalIn (digits : Text) : Option ℕ :=
  let chars := digits.map fun unit => Char.ofNat unit.toNat
  if digits ≠ [] ∧ chars.all Char.isDigit then some (Nat.ofDigitChars 10 chars 0) else none

def bigintIn : Text → Option Value
  | 0x2d :: digits => (naturalIn digits).map fun (n : ℕ) => .bigint (-n)
  | digits => (naturalIn digits).map fun (n : ℕ) => .bigint n

def booleanIn (value : Text) : Option Value :=
  if value = text "t" then some (.boolean true)
  else if value = text "f" then some (.boolean false)
  else none

def isHexDigit (unit : UInt16) : Bool := (0x30 ≤ unit && unit ≤ 0x39) || (0x61 ≤ unit && unit ≤ 0x66)

def hexBytes : Text → Option (List UInt8)
  | [] => some []
  | [_] => none
  | high :: low :: rest =>
    if isHexDigit high && isHexDigit low then
      (hexBytes rest).map (UInt8.ofNat (Json.unhexDigit high * 0x10 + Json.unhexDigit low) :: ·)
    else none

def byteaIn : Text → Option Value
  | 0x5c :: 0x78 :: digits => (hexBytes digits).map .bytes
  | _ => none

def ScalarType.input : ScalarType → Text → Option Value
  | text, value => some (.string value)
  | number, value => numberIn value
  | bigint, value => bigintIn value
  | boolean, value => booleanIn value
  | bytea, value => byteaIn value

mutual

/-- `JSON.parse` -/
def Value.ofJson : Json → Value
  | .null => .null
  | .bool value => .boolean value
  | .num digits => .number digits
  | .str units => .string units
  | .arr items => .array (ofJsonItems items)
  | .obj fields => .object (ofJsonFields fields)

def ofJsonItems : List Json → List Value
  | [] => []
  | item :: items => Value.ofJson item :: ofJsonItems items

def ofJsonFields : List (Text × Json) → List (Text × Value)
  | [] => []
  | (key, value) :: fields => (key, Value.ofJson value) :: ofJsonFields fields

end

def jsonIn (value : Text) : Option Value := (Json.read value).map Value.ofJson

def ColumnType.input : ColumnType → Text → Option Value
  | scalar type, value => type.input value
  | json, value => jsonIn value
  | array type, value => arrayIn type.input value
  | jsonArray, value => arrayIn jsonIn value

/-! ### COPY FROM -/

def readField (type : ColumnType) (field : Text) : Option Value :=
  if field = NULL_MARKER then some .null else (unescapeCopyText field).bind type.input

/-- The fields of a line, one for each column. -/
def readFields : List ColumnType → List Text → Option (List Value)
  | [], [] => some []
  | type :: types, field :: fields => do
    let value ← readField type field
    return value :: (← readFields types fields)
  | _, _ => none

def copyIn (types : List ColumnType) (data : Text) : Option (List (List Value)) := do
  let lines ← copyLines true data
  lines.mapM fun line => readFields types (copyFields line)

end Copy
