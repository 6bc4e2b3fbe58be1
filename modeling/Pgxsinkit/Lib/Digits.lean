/-
Digits in a fixed width.

Padded with zeros in front, the digits of a number are its digits in that width, and the digits of
two halves are those of the whole.
-/
import Mathlib

namespace Digits

/-- The last `w` digits of a number. -/
def fixed (b : ℕ) : ℕ → ℕ → List Char
  | 0, _ => []
  | w + 1, n => fixed b w (n / b) ++ [(n % b).digitChar]

theorem fixed_zero (b w : ℕ) : fixed b w 0 = List.replicate w '0' := by
  induction w with
  | zero => rfl
  | succ w ih =>
    rw [fixed, Nat.zero_div, Nat.zero_mod, ih, List.replicate_succ']
    rfl

theorem fixed_eq_map (b w n : ℕ) :
    fixed b w n = (List.range w).reverse.map fun i => (n / b ^ i % b).digitChar := by
  induction w generalizing n with
  | zero => rfl
  | succ w ih =>
    rw [fixed, ih, List.range_succ_eq_map, List.reverse_cons, List.map_append, ← List.map_reverse,
      List.map_map, List.map_singleton, Nat.pow_zero, Nat.div_one]
    congr 1
    refine List.map_congr_left fun i _ => ?_
    rw [Function.comp_apply, Nat.pow_succ', Nat.div_div_eq_div_mul]

/-- The digits of a number, with zeros in front up to a width. -/
def padded (b w n : ℕ) : List Char :=
  List.replicate (w - (Nat.toDigits b n).length) '0' ++ Nat.toDigits b n

theorem padded_eq_fixed {b : ℕ} (hb : 1 < b) {w n : ℕ} (h : n < b ^ (w + 1)) :
    padded b (w + 1) n = fixed b (w + 1) n := by
  induction w generalizing n with
  | zero =>
    have hlt : n < b := by rwa [Nat.zero_add, Nat.pow_one] at h
    rw [padded, Nat.toDigits_of_lt_base hlt, fixed, Nat.mod_eq_of_lt hlt]
    rfl
  | succ w ih =>
    by_cases hlt : n < b
    · rw [padded, Nat.toDigits_of_lt_base hlt, fixed, Nat.div_eq_of_lt hlt, Nat.mod_eq_of_lt hlt,
        fixed_zero]
      rfl
    · have hdiv : n / b < b ^ (w + 1) := by
        rw [Nat.div_lt_iff_lt_mul (by omega), ← Nat.pow_succ]
        exact h
      rw [fixed, ← ih hdiv, padded, padded, Nat.toDigits_eq_if hb, if_neg hlt, List.length_append,
        List.length_singleton, Nat.add_sub_add_right, List.append_assoc]

theorem fixed_add {b : ℕ} (v w m : ℕ) {n : ℕ} (h : n < b ^ w) :
    fixed b (v + w) (m * b ^ w + n) = fixed b v m ++ fixed b w n := by
  induction w generalizing n with
  | zero =>
    rw [Nat.pow_zero, Nat.lt_one_iff] at h
    rw [h, Nat.pow_zero, Nat.mul_one, Nat.add_zero, Nat.add_zero, fixed, List.append_nil]
  | succ w ih =>
    have hb : 0 < b := by
      rcases Nat.eq_zero_or_pos b with rfl | hb
      · rw [Nat.pow_succ, Nat.mul_zero] at h
        exact absurd h (Nat.not_lt_zero n)
      · exact hb
    have hdiv : n / b < b ^ w := by
      rw [Nat.div_lt_iff_lt_mul hb, ← Nat.pow_succ]
      exact h
    have hsplit : m * b ^ (w + 1) + n = b * (m * b ^ w) + n := by ring
    rw [← Nat.add_assoc, fixed, fixed, hsplit, Nat.mul_add_div hb, Nat.mul_add_mod, ih hdiv,
      List.append_assoc]

/-- Two halves, each with its zeros in front, are the whole with its zeros. -/
theorem padded_append {b : ℕ} (hb : 1 < b) {v w m n : ℕ} (hm : m < b ^ (v + 1))
    (hn : n < b ^ (w + 1)) :
    padded b (v + 1) m ++ padded b (w + 1) n =
      padded b (v + 1 + (w + 1)) (m * b ^ (w + 1) + n) := by
  have hwhole : m * b ^ (w + 1) + n < b ^ (v + 1 + w + 1) := by
    calc m * b ^ (w + 1) + n < m * b ^ (w + 1) + b ^ (w + 1) := Nat.add_lt_add_left hn _
      _ = (m + 1) * b ^ (w + 1) := by ring
      _ ≤ b ^ (v + 1) * b ^ (w + 1) := Nat.mul_le_mul_right _ hm
      _ = b ^ (v + 1 + w + 1) := by ring
  rw [padded_eq_fixed hb hm, padded_eq_fixed hb hn, ← Nat.add_assoc, padded_eq_fixed hb hwhole,
    Nat.add_assoc, fixed_add _ _ _ hn]

end Digits
