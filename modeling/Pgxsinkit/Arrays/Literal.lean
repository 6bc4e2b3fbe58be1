/-
Array literals.

`array_out` and `array_in` are the database's, for the delimiter of the element type.  `array_out`
quotes an element where it has to and writes the bounds where one of them is not 1; `array_in` reads
tokens, then a tree with one length at every depth, of at most six depths.
-/
import Pgxsinkit.Copy.ArrayLiteral

namespace Arrays

open Copy

/-- Only `_box` (1020) has another delimiter than a comma. -/
def delimiterOf (typarray : ℕ) : UInt16 := if typarray = 1020 then 0x3b else 0x2c

theorem delimiterOf_cases (typarray : ℕ) : delimiterOf typarray = 0x3b ∨ delimiterOf typarray = 0x2c := by
  rw [delimiterOf]
  split
  · exact .inl rfl
  · exact .inr rfl

/-- The delimiter is no other mark of the syntax. -/
theorem delimiterOf_ne (typarray : ℕ) :
    delimiterOf typarray ≠ 0x22 ∧ delimiterOf typarray ≠ 0x5c ∧ delimiterOf typarray ≠ 0x7b ∧
      delimiterOf typarray ≠ 0x7d ∧ isArraySpace (delimiterOf typarray) = false := by
  rcases delimiterOf_cases typarray with h | h <;> rw [h] <;> decide

/-- Elements in braces. -/
def inBraces (delimiter : UInt16) (elements : List Text) : Text :=
  0x7b :: ([delimiter].intercalate elements ++ [0x7d])

def inQuotes (element : Text) : Text := 0x22 :: (element.flatMap escapeElementUnit ++ [0x22])

mutual

/-- The text of a tree, by the texts of its elements. -/
def treeText (delimiter : UInt16) (element : Option Text → Text) : ArrayTree → Text
  | .leaf value => element value
  | .node items => inBraces delimiter (treeTexts delimiter element items)

def treeTexts (delimiter : UInt16) (element : Option Text → Text) : List ArrayTree → List Text
  | [] => []
  | item :: items => treeText delimiter element item :: treeTexts delimiter element items

end

/-! ### `array_out` -/

def outNeedsQuote (delimiter unit : UInt16) : Bool :=
  unit ∈ [0x22, 0x5c, 0x7b, 0x7d, delimiter] || isArraySpace unit

def outElement (delimiter : UInt16) : Option Text → Text
  | none => text "NULL"
  | some element =>
    if element = [] ∨ isNullWord element ∨ element.any (outNeedsQuote delimiter) then inQuotes element
    else element

/-- `[lower:upper]` -/
def outBound (lower : ℤ) (length : ℕ) : Text :=
  0x5b :: (bigintText lower ++ 0x3a :: (bigintText (lower + length - 1) ++ [0x5d]))

/-- The bounds stand before the braces when some array index does not begin at 1. -/
def outBounds (lowers : List ℤ) (dims : List ℕ) : Text :=
  if lowers.any (· ≠ 1) then (List.zipWith outBound lowers dims).flatten ++ [0x3d] else []

/-- `array_out`, of an array with elements. -/
def arrayOut (typarray : ℕ) (lowers : List ℤ) (tree : ArrayTree) : Text :=
  outBounds lowers (tree.dims.getD []) ++
    treeText (delimiterOf typarray) (outElement (delimiterOf typarray)) tree

/-! ### `array_in` -/

/-- `ReadArrayToken`; a backslash is read inside quotes only. -/
def arrayTokens (delimiter : UInt16) : TokenMode → Text → Option (List ArrayToken)
  | .between, [] => some []
  | .quoted _, [] | .escaped _, [] => none
  | .bare element, [] => some [bareToken element]
  | .between, unit :: rest =>
    if isArraySpace unit then arrayTokens delimiter .between rest
    else if unit = 0x7b then (arrayTokens delimiter .between rest).map (.levelStart :: ·)
    else if unit = 0x7d then (arrayTokens delimiter .between rest).map (.levelEnd :: ·)
    else if unit = delimiter then (arrayTokens delimiter .between rest).map (.delimiter :: ·)
    else if unit = 0x22 then arrayTokens delimiter (.quoted []) rest
    else if unit = 0x5c then none
    else arrayTokens delimiter (.bare [unit]) rest
  | .quoted element, unit :: rest =>
    if unit = 0x22 then (arrayTokens delimiter .between rest).map (.element element :: ·)
    else if unit = 0x5c then arrayTokens delimiter (.escaped element) rest
    else arrayTokens delimiter (.quoted (element ++ [unit])) rest
  | .escaped element, unit :: rest => arrayTokens delimiter (.quoted (element ++ [unit])) rest
  | .bare element, unit :: rest =>
    if unit = delimiter then
      (arrayTokens delimiter .between rest).map (bareToken element :: .delimiter :: ·)
    else if unit = 0x7d then
      (arrayTokens delimiter .between rest).map (bareToken element :: .levelEnd :: ·)
    else if unit = 0x7b ∨ unit = 0x22 ∨ unit = 0x5c then none
    else arrayTokens delimiter (.bare (element ++ [unit])) rest

/-- `array_in`, of a literal without bounds; the elements are the texts. -/
def arrayIn (typarray : ℕ) (literal : Text) : Option ArrayTree := do
  let tokens ← arrayTokens (delimiterOf typarray) .between literal
  let tree ← buildArray tokens [] .itemOrEnd
  if tree.isArray then some tree else none

end Arrays
