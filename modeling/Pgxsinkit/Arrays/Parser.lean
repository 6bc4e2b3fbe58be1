/-
`arraySerializer` and `arrayParser`.

The parser is one loop that calls itself at an opening brace; all of its calls share one state.  A
text is a list of code units, and `x[i]` is one of them.
-/
import Pgxsinkit.Arrays.Literal

namespace Arrays

open Copy

variable {α : Type}

/-- A nested JavaScript array; no leaf is an array. -/
inductive Nested (α : Type)
  /-- a value, or `null` (`undefined` is as `null`) -/
  | leaf (value : Option α)
  | node (items : List (Nested α))

/-! ### `arraySerializer` -/

def arrayEscape (x : Text) : Text := x.flatMap escapeElementUnit

mutual

/-- An element as `Array.prototype.join` writes it. -/
def Nested.joined (textOf : α → Text) : Nested α → Text
  | .leaf none => []
  | .leaf (some value) => textOf value
  | .node items => (text ",").intercalate (joinedItems textOf items)

def joinedItems (textOf : α → Text) : List (Nested α) → List Text
  | [] => []
  | item :: items => item.joined textOf :: joinedItems textOf items

end

/-- `toText`, which throws on `null`; `textOf` is the `toString()` of the leaves. -/
def toText (textOf : α → Text) : Nested α → Option Text
  | .leaf none => none
  | .leaf (some value) => some (textOf value)
  | .node items => some ((Nested.node items).joined textOf)

/-- An element of a level whose first element is no array. -/
def serializedElement (textOf : α → Text) (serializer : Option (Nested α → Text)) :
    Nested α → Option Text
  | .leaf none => some (text "null")
  | x => do
    let value ← match serializer with
      | some serializer => some (serializer x)
      | none => toText textOf x
    return 0x22 :: (arrayEscape value ++ [0x22])

mutual

/-- `arraySerializer` -/
def arraySerializer (textOf : α → Text) (serializer : Option (Nested α → Text)) (typarray : ℕ) :
    Nested α → Option Text
  | .leaf value => toText textOf (.leaf value)
  | .node [] => some (text "\x7b\x7d")
  | .node (.node items :: rest) =>
    (serializedItems textOf serializer typarray (.node items :: rest)).map
      (inBraces (delimiterOf typarray))
  | .node (.leaf value :: rest) =>
    ((Nested.leaf value :: rest).mapM (serializedElement textOf serializer)).map
      (inBraces (delimiterOf typarray))

/-- The elements of a level whose first element is an array. -/
def serializedItems (textOf : α → Text) (serializer : Option (Nested α → Text)) (typarray : ℕ) :
    List (Nested α) → Option (List Text)
  | [] => some []
  | item :: items => do
    let item ← arraySerializer textOf serializer typarray item
    return item :: (← serializedItems textOf serializer typarray items)

end

/-! ### `arrayParser` -/

/-- `ArrayParserState` -/
structure ArrayParserState where
  i : ℕ := 0
  char : Option UInt16 := none
  str : Text := []
  quoted : Bool := false
  last : ℕ := 0
  p : Option UInt16 := none

/-- `x.slice(start, stop)` -/
def sliceText (x : Text) (start stop : ℕ) : Text := (x.take stop).drop start

/-- `parser ? parser(el) : el`; the parser is the identity where there is none. -/
def parsedElement (parser : Text → α) (el : Text) : Nested α := .leaf (some (parser el))

/-- An element up to the cursor, which is not in quotes. -/
def bareElement (parser : Text → α) (x : Text) (s : ArrayParserState) : Nested α :=
  let el := sliceText x s.last s.i
  if el = text "NULL" ∧ s.quoted = false then .leaf none else parsedElement parser el

/-- What one round of the loop comes to. -/
inductive Round (α : Type)
  /-- the loop goes on -/
  | again (s : ArrayParserState) (xs : List (Nested α))
  /-- the items of a nested array are read -/
  | nested (s : ArrayParserState)
  /-- the loop has ended -/
  | ended (s : ArrayParserState) (xs : List (Nested α))

/-- The body of the loop, at a character. -/
def arrayParserRound (x : Text) (parser : Text → α) (typarray : ℕ) (char : UInt16)
    (s : ArrayParserState) (xs : List (Nested α)) : Round α :=
  let s := { s with char := some char }
  if s.quoted then
    if char = 0x5c then
      .again { s with i := s.i + 1, str := s.str ++ (x[s.i + 1]?).toList } xs
    else if char = 0x22 then
      .again { s with str := [], quoted := x[s.i + 1]? = some 0x22, last := s.i + 2 }
        (xs ++ [parsedElement parser s.str])
    else .again { s with str := s.str ++ [char] } xs
  else if char = 0x22 then .again { s with quoted := true } xs
  else if char = 0x7b then .nested { s with i := s.i + 1, last := s.i + 1 }
  else if char = 0x7d then
    .ended { s with quoted := false, last := s.i + 1 }
      (if s.last < s.i then xs ++ [bareElement parser x s] else xs)
  else if char = delimiterOf typarray ∧ s.p ≠ some 0x7d ∧ s.p ≠ some 0x22 then
    .again { s with last := s.i + 1 } (xs ++ [bareElement parser x s])
  else .again s xs

/-- `s.p = s.char; s.i++` -/
def ArrayParserState.advance (s : ArrayParserState) : ArrayParserState :=
  { s with p := s.char, i := s.i + 1 }

/-- What follows the loop. -/
def afterLoop (x : Text) (parser : Text → α) (s : ArrayParserState) (xs : List (Nested α)) :
    List (Nested α) × ArrayParserState :=
  (if s.last < s.i then xs ++ [parsedElement parser (sliceText x s.last (s.i + 1))] else xs, s)

/-- `arrayParserLoop`, for a number of rounds and nested calls. -/
def arrayParserLoop (x : Text) (parser : Text → α) (typarray : ℕ) :
    ℕ → ArrayParserState → List (Nested α) → Option (List (Nested α) × ArrayParserState)
  | 0, _, _ => none
  | fuel + 1, s, xs =>
    match x[s.i]? with
    | none => some (afterLoop x parser s xs)
    | some char =>
      match arrayParserRound x parser typarray char s xs with
      | .again s xs => arrayParserLoop x parser typarray fuel s.advance xs
      | .nested s =>
        (arrayParserLoop x parser typarray fuel s []).bind fun (items, s) =>
          arrayParserLoop x parser typarray fuel s.advance (xs ++ [.node items])
      | .ended s xs => some (afterLoop x parser s xs)

/-- `arrayParserLoop(state, x, parser, typarray)[0]`; each round moves the cursor. -/
def arrayParser (x : Text) (parser : Text → α) (typarray : ℕ) : Option (Nested α) :=
  (arrayParserLoop x parser typarray (x.length + 1) {} []).bind fun (xs, _) => xs.head?

end Arrays
