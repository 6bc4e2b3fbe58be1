/-
Arithmetic on double precision numbers.

Every operation rounds its exact result once.  A result that is an integer of at most 53 bits, or
one divided by a power of two, has a double and is not rounded (`nearest_dyadic`).
-/
import Pgxsinkit.Lib.JsNumber

namespace JsNumber

def ofInt (n : ℤ) : JsNumber := .finite (n < 0) n.natAbs

/-! ### The operations -/

/-- The value of a finite number. -/
def signed (negative : Bool) (magnitude : ℚ) : ℚ := if negative then -magnitude else magnitude

/-- `a * b` -/
def mul : JsNumber → JsNumber → JsNumber
  | finite s a, finite t b => nearest (s != t) (a * b)
  | infinity s, finite t b | finite t b, infinity s => if b = 0 then nan else infinity (s != t)
  | infinity s, infinity t => infinity (s != t)
  | nan, _ | _, nan => nan

/-- `a + b` -/
def add : JsNumber → JsNumber → JsNumber
  | finite s a, finite t b =>
    let sum := signed s a + signed t b
    if sum = 0 then finite (s && t) 0 else nearest (sum < 0) |sum|
  | infinity s, infinity t => if s = t then infinity s else nan
  | infinity s, finite _ _ | finite _ _, infinity s => infinity s
  | nan, _ | _, nan => nan

def neg : JsNumber → JsNumber
  | nan => nan
  | infinity s => infinity !s
  | finite s a => finite (!s) a

/-- `a - b` -/
def sub (a b : JsNumber) : JsNumber := add a (neg b)

/-- `a / b` -/
def div : JsNumber → JsNumber → JsNumber
  | finite s a, finite t b =>
    if b = 0 then if a = 0 then nan else infinity (s != t) else nearest (s != t) (a / b)
  | infinity s, finite t _ => infinity (s != t)
  | finite s _, infinity t => finite (s != t) 0
  | infinity _, infinity _ => nan
  | nan, _ | _, nan => nan

/-- `a % b`, of the sign of `a`; its exact value is a double. -/
def rem : JsNumber → JsNumber → JsNumber
  | finite s a, finite _ b => if b = 0 then nan else finite s (a - b * ⌊a / b⌋)
  | finite s a, infinity _ => finite s a
  | infinity _, _ => nan
  | nan, _ | _, nan => nan

/-- `a ^ b` -/
def bitXor (a b : JsNumber) : JsNumber := ofInt (a.toInt32 ^^^ b.toInt32).toInt

/-- `a >>> n` -/
def shr (a : JsNumber) (n : ℕ) : JsNumber := ofNat (a.toInt32 >>> n).toNat

/-! ### What is not rounded -/

theorem roundHalfEven_intCast (n : ℤ) : roundHalfEven n = n := by
  rw [roundHalfEven, Int.floor_intCast, sub_self, if_pos (.inl (by norm_num))]

/-- The last of the 53 places of a number is not above the place the number ends at. -/
theorem lastPlace_le {m : ℕ} (hpos : 0 < m) (hm : m < 2 ^ 53) {e : ℤ} (he : -1074 ≤ e) :
    lastPlace (m * (2 : ℚ) ^ e) ≤ e := by
  rw [lastPlace, max_le_iff]
  refine ⟨?_, he⟩
  have hlt : (m : ℚ) * 2 ^ e < ((2 : ℕ) : ℚ) ^ (53 + e) := by
    rw [Nat.cast_two, zpow_add₀ (by norm_num)]
    gcongr
    exact_mod_cast hm
  have hlog := (Int.lt_zpow_iff_log_lt (by norm_num) (by positivity)).mp hlt
  omega

/-- Nothing is rounded away below the place a number ends at. -/
theorem round_place (m : ℕ) {e place : ℤ} (h : place ≤ e) :
    (roundHalfEven (m * (2 : ℚ) ^ e / 2 ^ place) : ℚ) * 2 ^ place = m * 2 ^ e := by
  obtain ⟨k, hk⟩ := Int.eq_ofNat_of_zero_le (sub_nonneg.mpr h)
  have hint : (m : ℚ) * 2 ^ e / 2 ^ place = (((m * 2 ^ k : ℕ) : ℤ) : ℚ) := by
    rw [mul_div_assoc, ← zpow_sub₀ (by norm_num), hk]
    push_cast
    rfl
  rw [hint, roundHalfEven_intCast, ← hint, div_mul_cancel₀ _ (by positivity)]

/-- A number of 53 binary places is a double. -/
theorem nearest_dyadic (negative : Bool) {m : ℕ} (hm : m < 2 ^ 53) {e : ℤ} (he : -1074 ≤ e)
    (hmax : e ≤ 971) : nearest negative (m * (2 : ℚ) ^ e) = .finite negative (m * (2 : ℚ) ^ e) := by
  rcases Nat.eq_zero_or_pos m with rfl | hpos
  · have hround := roundHalfEven_intCast 0
    rw [Int.cast_zero] at hround
    rw [Nat.cast_zero, zero_mul, nearest, zero_div, hround, Int.cast_zero, zero_mul,
      if_neg (by norm_num)]
  have hlt : ¬ (2 : ℚ) ^ 1024 ≤ m * 2 ^ e := by
    rw [not_le]
    calc (m : ℚ) * 2 ^ e < 2 ^ 53 * 2 ^ e := by
          gcongr
          exact_mod_cast hm
      _ = (2 : ℚ) ^ (53 + e) := by rw [zpow_add₀ (by norm_num)]; rfl
      _ ≤ (2 : ℚ) ^ (1024 : ℤ) := zpow_le_zpow_right₀ (by norm_num) (by omega)
  rw [nearest, round_place m (lastPlace_le hpos hm he), if_neg hlt]

theorem nearest_natCast (negative : Bool) {n : ℕ} (h : n < 2 ^ 53) :
    nearest negative n = .finite negative n := by
  have hexact := nearest_dyadic negative h (e := 0) (by norm_num) (by norm_num)
  rwa [zpow_zero, mul_one] at hexact

/-! ### Natural numbers -/

theorem mul_ofNat {a b : ℕ} (h : a * b < 2 ^ 53) : mul (ofNat a) (ofNat b) = ofNat (a * b) := by
  have hexact := nearest_natCast false h
  rw [Nat.cast_mul] at hexact
  show nearest false (a * b) = _
  rw [hexact, ofNat, Nat.cast_mul]

theorem add_ofNat {a b : ℕ} (h : a + b < 2 ^ 53) : add (ofNat a) (ofNat b) = ofNat (a + b) := by
  have hsum : signed false a + signed false b = ((a + b : ℕ) : ℚ) := by
    push_cast
    rfl
  show (if signed false a + signed false b = 0 then finite (false && false) 0 else
    nearest (signed false a + signed false b < 0) |signed false a + signed false b|) = _
  rw [hsum, Nat.abs_cast, decide_eq_false (not_lt.mpr (Nat.cast_nonneg _)), nearest_natCast _ h]
  split
  · rename_i hzero
    rw [ofNat, hzero]
    rfl
  · rfl

theorem sub_ofNat {a b : ℕ} (hle : b ≤ a) (h : a < 2 ^ 53) :
    sub (ofNat a) (ofNat b) = ofNat (a - b) := by
  have hdiff : signed false a + signed true b = ((a - b : ℕ) : ℚ) := by
    rw [Nat.cast_sub hle, sub_eq_add_neg]
    rfl
  show (if signed false a + signed true b = 0 then finite (false && true) 0 else
    nearest (signed false a + signed true b < 0) |signed false a + signed true b|) = _
  rw [hdiff, Nat.abs_cast, decide_eq_false (not_lt.mpr (Nat.cast_nonneg _)),
    nearest_natCast _ (by omega)]
  split
  · rename_i hzero
    rw [ofNat, hzero]
    rfl
  · rfl

/-- A quotient by a power of two. -/
theorem div_ofNat_pow {n k : ℕ} (h : n < 2 ^ 53) (hk : k ≤ 971) :
    div (ofNat n) (ofNat (2 ^ k)) = .finite false (n / 2 ^ k) := by
  have hexact := nearest_dyadic false h (e := -k) (by omega) (by omega)
  have hpow : (n : ℚ) * 2 ^ (-(k : ℤ)) = n / 2 ^ k := by
    rw [zpow_neg, zpow_natCast, div_eq_mul_inv]
  rw [hpow] at hexact
  show (if ((2 ^ k : ℕ) : ℚ) = 0 then _ else nearest false ((n : ℚ) / ((2 ^ k : ℕ) : ℚ))) = _
  rw [if_neg (by positivity), Nat.cast_pow, Nat.cast_two, hexact]

theorem floor_div (n d : ℕ) : floor (.finite false (n / d)) = ofNat (n / d) := by
  show JsNumber.finite false ((⌊(n : ℚ) / d⌋ : ℤ) : ℚ) = .finite false ((n / d : ℕ) : ℚ)
  rw [Rat.floor_natCast_div_natCast]
  rfl

theorem rem_ofNat {a b : ℕ} (hb : b ≠ 0) : rem (ofNat a) (ofNat b) = ofNat (a % b) := by
  show (if ((b : ℕ) : ℚ) = 0 then nan else .finite false ((a : ℚ) - b * ⌊(a : ℚ) / b⌋)) = _
  rw [if_neg (by exact_mod_cast hb), Rat.floor_natCast_div_natCast, ofNat, ← Int.natCast_div,
    Int.cast_natCast]
  congr 1
  have hmod := Nat.div_add_mod a b
  have hcast : ((b * (a / b) + a % b : ℕ) : ℚ) = a := by rw [hmod]
  push_cast at hcast ⊢
  linarith

theorem toInt32_ofNat (n : ℕ) : (ofNat n).toInt32 = BitVec.ofNat 32 n := by
  show BitVec.ofInt 32 (if false then -⌊(n : ℚ)⌋ else ⌊(n : ℚ)⌋) = _
  rw [if_neg Bool.false_ne_true, Int.floor_natCast, BitVec.ofInt_natCast]

theorem toInt32_ofInt (n : ℤ) : (ofInt n).toInt32 = BitVec.ofInt 32 n := by
  show BitVec.ofInt 32 (if decide (n < 0) then -⌊(n.natAbs : ℚ)⌋ else ⌊(n.natAbs : ℚ)⌋) = _
  rw [Int.floor_natCast]
  congr 1
  split
  · rename_i hneg
    rw [decide_eq_true_eq] at hneg
    omega
  · rename_i hpos
    rw [decide_eq_true_eq] at hpos
    omega

/-- `(a ^ b) >>> 0` of two 32-bit numbers -/
theorem shr_bitXor_ofNat {a b : ℕ} (ha : a < 2 ^ 32) (hb : b < 2 ^ 32) :
    shr (bitXor (ofNat a) (ofNat b)) 0 = ofNat (a ^^^ b) := by
  rw [shr, bitXor, toInt32_ofInt, BitVec.ofInt_toInt, BitVec.ushiftRight_zero, toInt32_ofNat,
    toInt32_ofNat, BitVec.toNat_xor, BitVec.toNat_ofNat, BitVec.toNat_ofNat, Nat.mod_eq_of_lt ha,
    Nat.mod_eq_of_lt hb]

end JsNumber
