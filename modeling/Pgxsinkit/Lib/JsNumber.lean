/-
Double precision numbers, and `Number(text)`.

A finite number is its sign and its magnitude.  Text is read exactly, and the exact value rounded
to the nearest double, a tie going to the even last place.
-/
import Pgxsinkit.Lib.Json

inductive JsNumber
  | nan
  | infinity (negative : Bool)
  | finite (negative : Bool) (magnitude : ℚ)
  deriving DecidableEq

namespace JsNumber

def ofNat (n : ℕ) : JsNumber := .finite false n

/-! ### Integers -/

/-- `Math.floor(value)` -/
def floor : JsNumber → JsNumber
  | finite false magnitude => finite false ⌊magnitude⌋
  | finite true magnitude => finite true ⌈magnitude⌉
  | value => value

/-- `Math.max(0, value)` -/
def atLeastZero : JsNumber → JsNumber
  | nan => nan
  | infinity false => infinity false
  | finite false magnitude => finite false magnitude
  | _ => finite false 0

/-- A number that is an integer of at most 53 bits, which is what `Number.isSafeInteger` asks. -/
def safeInteger? : JsNumber → Option ℤ
  | finite negative magnitude =>
    let value := if negative then -magnitude else magnitude
    if value.den = 1 ∧ value.num.natAbs ≤ 2 ^ 53 - 1 then some value.num else none
  | _ => none

/-- The operand of a bitwise operator. -/
def toInt32 : JsNumber → BitVec 32
  | finite negative magnitude => BitVec.ofInt 32 (if negative then -⌊magnitude⌋ else ⌊magnitude⌋)
  | _ => 0

theorem safeInteger?_ofNat {n m : ℕ} :
    (ofNat n).safeInteger? = some (m : ℤ) ↔ n = m ∧ n ≤ 2 ^ 53 - 1 := by
  have hnum : ((n : ℚ).num).natAbs = n := by rw [Rat.num_natCast, Int.natAbs_natCast]
  rw [ofNat, safeInteger?]
  show (if (n : ℚ).den = 1 ∧ (n : ℚ).num.natAbs ≤ 2 ^ 53 - 1 then some (n : ℚ).num else none) = _ ↔ _
  rw [hnum, Rat.num_natCast, Option.ite_none_right_eq_some, Option.some.injEq, Nat.cast_inj]
  constructor
  · rintro ⟨⟨-, hle⟩, heq⟩
    exact ⟨heq, hle⟩
  · rintro ⟨heq, hle⟩
    exact ⟨⟨Rat.den_natCast n, hle⟩, heq⟩

/-! ### Rounding -/

/-- The nearest integer, the even one of two. -/
def roundHalfEven (q : ℚ) : ℤ :=
  if q - ⌊q⌋ < 1 / 2 ∨ (q - ⌊q⌋ = 1 / 2 ∧ ⌊q⌋ % 2 = 0) then ⌊q⌋ else ⌊q⌋ + 1

/-- The exponent of the last of the 53 binary places, which subnormal numbers have not all of. -/
def lastPlace (q : ℚ) : ℤ := max (Int.log 2 q - 52) (-1074)

/-- The double nearest to a magnitude. -/
def nearest (negative : Bool) (q : ℚ) : JsNumber :=
  let rounded := roundHalfEven (q / 2 ^ lastPlace q) * (2 : ℚ) ^ lastPlace q
  if 2 ^ 1024 ≤ rounded then .infinity negative else .finite negative rounded

/-! ### Numeric text -/

def isDigit (unit : UInt16) : Bool := 0x30 ≤ unit && unit ≤ 0x39

/-- White space and line terminators. -/
def isSpace (unit : UInt16) : Bool :=
  (0x09 ≤ unit && unit ≤ 0x0d) || (0x2000 ≤ unit && unit ≤ 0x200a) ||
    unit ∈ [0x20, 0xa0, 0x1680, 0x2028, 0x2029, 0x202f, 0x205f, 0x3000, 0xfeff]

def trim (value : Text) : Text :=
  ((value.dropWhile isSpace).reverse.dropWhile isSpace).reverse

def ofDigits (base : ℕ) (digits : List ℕ) : ℕ := digits.foldl (fun n d => base * n + d) 0

/-- The value of a digit of a base up to sixteen. -/
def digitValue (base : ℕ) (unit : UInt16) : Option ℕ :=
  let value := if isDigit unit then unit.toNat - 0x30
    else if 0x41 ≤ unit ∧ unit ≤ 0x46 then unit.toNat - 0x37
    else if 0x61 ≤ unit ∧ unit ≤ 0x66 then unit.toNat - 0x57
    else base
  if value < base then some value else none

def decimalValue (digits : Text) : ℕ := ofDigits 10 (digits.map fun unit => unit.toNat - 0x30)

/-- An optional sign. -/
def sign : Text → Bool × Text
  | unit :: rest =>
    if unit = 0x2d then (true, rest) else if unit = 0x2b then (false, rest) else (false, unit :: rest)
  | [] => (false, [])

def exponentPart : Text → Option ℤ
  | [] => some 0
  | unit :: rest =>
    if unit = 0x65 ∨ unit = 0x45 then
      let (negative, digits) := sign rest
      if digits ≠ [] ∧ digits.all isDigit then
        some (if negative then -decimalValue digits else decimalValue digits)
      else none
    else none

/-- Digits, a fraction and an exponent. -/
def decimalLiteral (value : Text) : Option ℚ :=
  let (whole, rest) := value.span isDigit
  let (fraction, rest) :=
    match rest with
    | 0x2e :: rest => rest.span isDigit
    | rest => ([], rest)
  if whole = [] ∧ fraction = [] then none
  else (exponentPart rest).map fun (exponent : ℤ) =>
    decimalValue (whole ++ fraction) * (10 : ℚ) ^ (exponent - (fraction.length : ℤ))

/-- `0b1`, `0o7`, `0xf` -/
def radixLiteral : Text → Option ℚ
  | 0x30 :: letter :: digits =>
    let base := if letter = 0x62 ∨ letter = 0x42 then 2 else if letter = 0x6f ∨ letter = 0x4f then 8
      else if letter = 0x78 ∨ letter = 0x58 then 16 else 0
    if digits = [] then none else (digits.mapM (digitValue base)).map fun ds => (ofDigits base ds : ℚ)
  | _ => none

/-- `Number(value)` for a string. -/
def ofText (value : Text) : JsNumber :=
  let value := trim value
  if value = [] then .finite false 0
  else
    match radixLiteral value with
    | some magnitude => nearest false magnitude
    | none =>
      let (negative, digits) := sign value
      if digits = text "Infinity" then .infinity negative
      else (decimalLiteral digits).elim .nan (nearest negative)

end JsNumber
