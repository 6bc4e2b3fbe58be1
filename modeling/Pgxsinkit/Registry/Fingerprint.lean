/-
`hashString` (`fingerprint.ts`), with the double precision numbers it computes.

The 64-bit state is in two 32-bit lanes.  Every number of a round is an integer that a double holds
exactly, but for the quotient whose floor is the carry: that one has a fraction, and is exact too.
So the lanes are the halves of the FNV-1a state (`lanes_eq`), and the text is that of the hash.
-/
import Pgxsinkit.Lib.JsArith
import Pgxsinkit.Lib.Digits
import Pgxsinkit.Registry.Canonical

namespace Registry.Fingerprint

open JsNumber

/-! ### The numbers of a round -/

def TWO_32 : JsNumber := ofNat 4294967296
def PRIME_LOW : JsNumber := ofNat 0x1b3
def PRIME_HIGH : JsNumber := ofNat 0x100

/-- What one byte computes, in the order it is computed. -/
structure Round where
  /-- `low ^ bytes[index]!` -/
  xored : JsNumber
  /-- `low`, with the byte in it -/
  low : JsNumber
  lowProduct : JsNumber
  /-- `lowProduct / TWO_32` -/
  quotient : JsNumber
  carry : JsNumber
  /-- `high * PRIME_LOW` -/
  highByLow : JsNumber
  /-- `low * PRIME_HIGH` -/
  lowByHigh : JsNumber
  /-- the sum of the last two -/
  crossSum : JsNumber
  /-- the sum with the carry -/
  carrySum : JsNumber
  nextHigh : JsNumber
  /-- `carry * TWO_32` -/
  carried : JsNumber
  nextLow : JsNumber

def hashRound (high low byte : JsNumber) : Round :=
  let xored := bitXor low byte
  let low := shr xored 0
  let lowProduct := mul low PRIME_LOW
  let quotient := div lowProduct TWO_32
  let carry := floor quotient
  let highByLow := mul high PRIME_LOW
  let lowByHigh := mul low PRIME_HIGH
  let crossSum := add highByLow lowByHigh
  let carrySum := add crossSum carry
  let nextHigh := rem carrySum TWO_32
  let carried := mul carry TWO_32
  let nextLow := sub lowProduct carried
  { xored, low, lowProduct, quotient, carry, highByLow, lowByHigh, crossSum, carrySum, nextHigh,
    carried, nextLow }

/-- The rounds of the bytes, from the given lanes on. -/
def rounds (high low : JsNumber) : List UInt8 → List Round
  | [] => []
  | byte :: bytes =>
    let round := hashRound high low (ofNat byte.toNat)
    round :: rounds round.nextHigh round.nextLow bytes

/-- The lanes after the bytes. -/
def lanes (high low : JsNumber) : List UInt8 → JsNumber × JsNumber
  | [] => (high, low)
  | byte :: bytes =>
    let round := hashRound high low (ofNat byte.toNat)
    lanes round.nextHigh round.nextLow bytes

/-- The FNV-1a 64-bit offset basis, in its two halves. -/
def initialHigh : ℕ := 0xcbf29ce4
def initialLow : ℕ := 0x84222325

def hexDigits (n : ℕ) : Text := (Nat.toDigits 16 n).map fun c => UInt16.ofNat c.toNat

/-- `value.toString(16)` of an integer -/
def toString16 (value : JsNumber) : Text :=
  match value.safeInteger? with
  | some (.ofNat n) => hexDigits n
  | some (.negSucc n) => text "-" ++ hexDigits (n + 1)
  | none => []

/-- `value.padStart(length, "0")` -/
def padStart (length : ℕ) (value : Text) : Text :=
  List.replicate (length - value.length) 0x30 ++ value

def hashString (input : Text) : Text :=
  let (high, low) := lanes (ofNat initialHigh) (ofNat initialLow) (Unicode.textEncode input)
  padStart 8 (toString16 high) ++ padStart 8 (toString16 low)

/-- The rounds of a string. -/
def hashRounds (input : Text) : List Round :=
  rounds (ofNat initialHigh) (ofNat initialLow) (Unicode.textEncode input)

/-! ### The hash -/

/-- FNV-1a, of 64 bits. -/
def fnv1a (bytes : List UInt8) : UInt64 :=
  bytes.foldl (fun hash byte => (hash ^^^ byte.toUInt64) * 0x100000001b3) 0xcbf29ce484222325

/-- The hexadecimal form in 16 digits. -/
def hex16 (n : ℕ) : Text := (Digits.padded 16 16 n).map fun c => UInt16.ofNat c.toNat

/-! ### Rounds are exact -/

/-- An integer below 2^53, of either sign. -/
def IsInteger (value : JsNumber) : Prop := ∃ n : ℤ, n.natAbs < 2 ^ 53 ∧ value = ofInt n

theorem ofInt_natCast (n : ℕ) : ofInt n = ofNat n := by
  rw [ofInt, ofNat, Int.natAbs_natCast, decide_eq_false (not_lt.mpr (Int.natCast_nonneg n))]

theorem isInteger_ofNat {n : ℕ} (h : n < 2 ^ 53) : IsInteger (ofNat n) :=
  ⟨n, by rwa [Int.natAbs_natCast], (ofInt_natCast n).symm⟩

theorem isInteger_bitXor (a b : JsNumber) : IsInteger (bitXor a b) := by
  refine ⟨_, ?_, rfl⟩
  have hlow := BitVec.le_toInt (a.toInt32 ^^^ b.toInt32)
  have hhigh := BitVec.toInt_lt (x := a.toInt32 ^^^ b.toInt32)
  omega

theorem hashRound_ofNat {high low byte : ℕ} (hhigh : high < 2 ^ 32) (hlow : low < 2 ^ 32)
    (hbyte : byte < 256) :
    let x := low ^^^ byte
    let carry := x * 0x1b3 / 2 ^ 32
    hashRound (ofNat high) (ofNat low) (ofNat byte) =
      { xored := bitXor (ofNat low) (ofNat byte)
        low := ofNat x
        lowProduct := ofNat (x * 0x1b3)
        quotient := .finite false ((x * 0x1b3 : ℕ) / 2 ^ 32)
        carry := ofNat carry
        highByLow := ofNat (high * 0x1b3)
        lowByHigh := ofNat (x * 0x100)
        crossSum := ofNat (high * 0x1b3 + x * 0x100)
        carrySum := ofNat (high * 0x1b3 + x * 0x100 + carry)
        nextHigh := ofNat ((high * 0x1b3 + x * 0x100 + carry) % 2 ^ 32)
        carried := ofNat (carry * 2 ^ 32)
        nextLow := ofNat (x * 0x1b3 - carry * 2 ^ 32) } := by
  intro x carry
  have hx : x < 2 ^ 32 := Nat.xor_lt_two_pow hlow (hbyte.trans (by norm_num))
  have hcarry : carry * 2 ^ 32 ≤ x * 0x1b3 := Nat.div_mul_le_self _ _
  have hbase : TWO_32 = ofNat (2 ^ 32) := rfl
  have hxor : shr (bitXor (ofNat low) (ofNat byte)) 0 = ofNat x :=
    shr_bitXor_ofNat hlow (hbyte.trans (by norm_num))
  have hquotient : div (ofNat (x * 0x1b3)) TWO_32 = .finite false ((x * 0x1b3 : ℕ) / 2 ^ 32) :=
    div_ofNat_pow (show x * 0x1b3 < 2 ^ 53 by omega) (show 32 ≤ 971 by norm_num)
  have hfloor : floor (.finite false ((x * 0x1b3 : ℕ) / 2 ^ 32)) = ofNat carry := by
    have := floor_div (x * 0x1b3) (2 ^ 32)
    rwa [Nat.cast_pow, Nat.cast_two] at this
  unfold hashRound
  simp only [hxor]
  rw [PRIME_LOW, PRIME_HIGH, mul_ofNat (show x * 0x1b3 < 2 ^ 53 by omega), hquotient, hfloor,
    mul_ofNat (show high * 0x1b3 < 2 ^ 53 by omega), mul_ofNat (show x * 0x100 < 2 ^ 53 by omega),
    add_ofNat (by omega), add_ofNat (by omega), hbase, rem_ofNat (by norm_num),
    mul_ofNat (by omega), sub_ofNat hcarry (by omega)]

/-- What is exact about a round: every number is an integer below 2^53, the quotient is not rounded,
and the lanes it leaves have 32 bits. -/
structure Round.Exact (round : Round) : Prop where
  integers : ∀ value ∈ [round.xored, round.low, round.lowProduct, round.carry, round.highByLow,
    round.lowByHigh, round.crossSum, round.carrySum, round.nextHigh, round.carried, round.nextLow],
    IsInteger value
  quotient : ∃ n < 2 ^ 53, round.lowProduct = ofNat n ∧ round.quotient = .finite false (n / 2 ^ 32)
  high : ∃ n < 2 ^ 32, round.nextHigh = ofNat n
  low : ∃ n < 2 ^ 32, round.nextLow = ofNat n

theorem hashRound_exact {high low byte : ℕ} (hhigh : high < 2 ^ 32) (hlow : low < 2 ^ 32)
    (hbyte : byte < 256) : (hashRound (ofNat high) (ofNat low) (ofNat byte)).Exact := by
  have hx : low ^^^ byte < 2 ^ 32 := Nat.xor_lt_two_pow hlow (hbyte.trans (by norm_num))
  rw [hashRound_ofNat hhigh hlow hbyte]
  generalize low ^^^ byte = x at hx
  constructor
  case integers =>
    simp only [List.forall_mem_cons]
    refine ⟨isInteger_bitXor .., ?_, ?_, ?_, ?_, ?_, ?_, ?_, ?_, ?_, ?_, by simp⟩ <;>
      exact isInteger_ofNat (by omega)
  case quotient => exact ⟨x * 0x1b3, by omega, rfl, rfl⟩
  case high => exact ⟨_, Nat.mod_lt _ (by norm_num), rfl⟩
  case low => exact ⟨x * 0x1b3 - x * 0x1b3 / 2 ^ 32 * 2 ^ 32, by omega, rfl⟩

/-! ### Rounds are steps of the hash -/

theorem nextLanes_eq {high low : ℕ} (hhigh : high < 2 ^ 32) (hlow : low < 2 ^ 32) (byte : UInt8) :
    (hashRound (ofNat high) (ofNat low) (ofNat byte.toNat)).nextHigh =
        ofNat (hashByte (high, low) byte).1 ∧
      (hashRound (ofNat high) (ofNat low) (ofNat byte.toNat)).nextLow =
        ofNat (hashByte (high, low) byte).2 := by
  rw [hashRound_ofNat hhigh hlow byte.toNat_lt]
  exact ⟨rfl, rfl⟩

theorem hashByte_lt (lanes : ℕ × ℕ) (byte : UInt8) :
    (hashByte lanes byte).1 < 2 ^ 32 ∧ (hashByte lanes byte).2 < 2 ^ 32 := by
  refine ⟨Nat.mod_lt _ (by norm_num), ?_⟩
  show (lanes.2 ^^^ byte.toNat) * 0x1b3 - (lanes.2 ^^^ byte.toNat) * 0x1b3 / 0x100000000 * 0x100000000 <
    2 ^ 32
  omega

/-- The number of two lanes. -/
def joined (lanes : ℕ × ℕ) : ℕ := lanes.1 * 2 ^ 32 + lanes.2

/-- A byte only touches the low lane. -/
theorem joined_xor {high low byte : ℕ} (hlow : low < 2 ^ 32) (hbyte : byte < 256) :
    joined (high, low) ^^^ byte = joined (high, low ^^^ byte) := by
  have hx : low ^^^ byte < 2 ^ 32 := Nat.xor_lt_two_pow hlow (hbyte.trans (by norm_num))
  apply Nat.eq_of_testBit_eq
  intro i
  simp only [joined]
  rw [Nat.testBit_xor, Nat.mul_comm high, Nat.testBit_two_pow_mul_add _ hlow,
    Nat.testBit_two_pow_mul_add _ hx]
  split
  · rw [Nat.testBit_xor]
  · have hzero : byte.testBit i = false := by
      apply Nat.testBit_lt_two_pow
      exact (show byte < 2 ^ 32 by omega).trans_le (Nat.pow_le_pow_right (by norm_num) (not_lt.mp ‹_›))
    rw [hzero, Bool.xor_false]

/-- A round is a step of FNV-1a. -/
theorem joined_hashByte {lanes : ℕ × ℕ} (hlow : lanes.2 < 2 ^ 32) (byte : UInt8) :
    joined (hashByte lanes byte) = (joined lanes ^^^ byte.toNat) * 0x100000001b3 % 2 ^ 64 := by
  obtain ⟨high, low⟩ := lanes
  rw [joined_xor hlow byte.toNat_lt]
  have hx : low ^^^ byte.toNat < 2 ^ 32 :=
    Nat.xor_lt_two_pow hlow ((byte.toNat_lt).trans (by norm_num))
  simp only [joined, hashByte]
  generalize low ^^^ byte.toNat = x at hx
  omega

theorem foldl_hashByte {lanes : ℕ × ℕ} (hhigh : lanes.1 < 2 ^ 32) (hlow : lanes.2 < 2 ^ 32)
    {hash : UInt64} (h : joined lanes = hash.toNat) (bytes : List UInt8) :
    (bytes.foldl hashByte lanes).1 < 2 ^ 32 ∧ (bytes.foldl hashByte lanes).2 < 2 ^ 32 ∧
      joined (bytes.foldl hashByte lanes) =
        (bytes.foldl (fun hash byte => (hash ^^^ byte.toUInt64) * 0x100000001b3) hash).toNat := by
  induction bytes generalizing lanes hash with
  | nil => exact ⟨hhigh, hlow, h⟩
  | cons byte bytes ih =>
    obtain ⟨hhigh', hlow'⟩ := hashByte_lt lanes byte
    refine ih hhigh' hlow' ?_
    rw [joined_hashByte hlow, h, UInt64.toNat_mul, UInt64.toNat_xor]
    rfl

/-- The lanes, and the rounds on the way to them. -/
theorem lanes_eq {high low : ℕ} (hhigh : high < 2 ^ 32) (hlow : low < 2 ^ 32) (bytes : List UInt8) :
    lanes (ofNat high) (ofNat low) bytes =
        (ofNat (bytes.foldl hashByte (high, low)).1, ofNat (bytes.foldl hashByte (high, low)).2) ∧
      ∀ round ∈ rounds (ofNat high) (ofNat low) bytes, round.Exact := by
  induction bytes generalizing high low with
  | nil => exact ⟨rfl, by simp [rounds]⟩
  | cons byte bytes ih =>
    obtain ⟨hnextHigh, hnextLow⟩ := nextLanes_eq hhigh hlow byte
    obtain ⟨hhigh', hlow'⟩ := hashByte_lt (high, low) byte
    obtain ⟨hlanes, hrounds⟩ := ih hhigh' hlow'
    rw [lanes, rounds, hnextHigh, hnextLow]
    exact ⟨hlanes, List.forall_mem_cons.mpr ⟨hashRound_exact hhigh hlow byte.toNat_lt, hrounds⟩⟩

/-! ### The text -/

theorem padStart_toString16 (n : ℕ) (h : n < 2 ^ 53) (width : ℕ) :
    padStart width (toString16 (ofNat n)) =
      (Digits.padded 16 width n).map fun c => UInt16.ofNat c.toNat := by
  have hsafe : (ofNat n).safeInteger? = some (n : ℤ) := safeInteger?_ofNat.mpr ⟨rfl, by omega⟩
  have htext : toString16 (ofNat n) = hexDigits n := by
    rw [toString16, hsafe]
  rw [htext, padStart, hexDigits, List.length_map, Digits.padded, List.map_append,
    List.map_replicate]
  rfl

theorem hexLane_eq {lane : ℕ} (h : lane < 2 ^ 32) :
    hexLane lane = (Digits.padded 16 8 lane).map fun c => UInt16.ofNat c.toNat := by
  have hdigit : ∀ d < 16, UInt16.ofNat d.digitChar.toNat = Json.hexDigit d := by decide
  rw [Digits.padded_eq_fixed (by norm_num) (by omega), Digits.fixed_eq_map, List.map_map]
  refine List.map_congr_left fun i _ => ?_
  exact (hdigit _ (Nat.mod_lt _ (by norm_num))).symm

/-- The text of the integers that the registry hashes with. -/
theorem hashString_eq (input : Text) : hashString input = Registry.hashString input := by
  have hhigh : initialHigh < 2 ^ 32 := by decide
  have hlow : initialLow < 2 ^ 32 := by decide
  have hbasis : joined (initialHigh, initialLow) = (0xcbf29ce484222325 : UInt64).toNat := by decide
  obtain ⟨hhigh', hlow', -⟩ := foldl_hashByte hhigh hlow hbasis (Unicode.textEncode input)
  rw [hashString, (lanes_eq hhigh hlow _).1]
  dsimp only
  rw [padStart_toString16 _ (by omega), padStart_toString16 _ (by omega), ← hexLane_eq hhigh',
    ← hexLane_eq hlow']
  rfl

/-- The text is the hash in 16 hexadecimal digits, and every number on the way is exact. -/
theorem hashString_fnv1a (input : Text) :
    hashString input = hex16 (fnv1a (Unicode.textEncode input)).toNat ∧
      ∀ round ∈ hashRounds input, round.Exact := by
  have hhigh : initialHigh < 2 ^ 32 := by decide
  have hlow : initialLow < 2 ^ 32 := by decide
  have hbasis : joined (initialHigh, initialLow) = (0xcbf29ce484222325 : UInt64).toNat := by decide
  refine ⟨?_, (lanes_eq hhigh hlow _).2⟩
  obtain ⟨hhigh', hlow', hjoined⟩ := foldl_hashByte hhigh hlow hbasis (Unicode.textEncode input)
  have hlanes : hashString input =
      hexLane ((Unicode.textEncode input).foldl hashByte (initialHigh, initialLow)).1 ++
        hexLane ((Unicode.textEncode input).foldl hashByte (initialHigh, initialLow)).2 :=
    hashString_eq input
  rw [hlanes, hexLane_eq hhigh', hexLane_eq hlow', ← List.map_append,
    Digits.padded_append (by norm_num) (v := 7) (w := 7) (by omega) (by omega), hex16, fnv1a,
    ← hjoined]
  rfl

/-- The quotient of the only round of "a" has a fraction. -/
theorem hashString_quotient_fraction :
    ∃ round ∈ hashRounds (text "a"), ¬ IsInteger round.quotient := by
  have hbytes : Unicode.textEncode (text "a") = [0x61] := by decide
  have hround := hashRound_ofNat (show initialHigh < 2 ^ 32 by decide)
    (show initialLow < 2 ^ 32 by decide) (show 0x61 < 256 by decide)
  dsimp only at hround
  refine ⟨hashRound (ofNat initialHigh) (ofNat initialLow) (ofNat 0x61), ?_, ?_⟩
  · rw [hashRounds, hbytes]
    exact List.mem_cons_self
  · rw [hround]
    rintro ⟨n, -, hn⟩
    have hx : (initialLow ^^^ 0x61) * 0x1b3 = 964320947340 := by decide
    dsimp only at hn
    rw [hx, ofInt] at hn
    have hq : ((964320947340 : ℕ) : ℚ) / 2 ^ 32 = n.natAbs := (JsNumber.finite.inj hn).2
    rw [div_eq_iff (by norm_num)] at hq
    have hnat : 964320947340 = n.natAbs * 2 ^ 32 := by exact_mod_cast hq
    omega

end Registry.Fingerprint
