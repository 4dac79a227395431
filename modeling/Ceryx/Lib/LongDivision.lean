import Mathlib.Tactic.Ring
import Mathlib.Tactic.Common

/-!
# Ceryx.Lib.LongDivision — division in steps

Two ways to divide a large number with smaller operations.

* `DivAt n d k q r`: a shift-and-subtract division of `n` by `d` with `k` digits to
  go. A turn compares `r` with `d * 2 ^ k` and doubles `q`: `DivAt.zero` and
  `DivAt.one` keep the relation, and with no digit to go it is the division
  (`DivAt.done`).
* `div_two_digits`: the division of two digits of any base, each with the remainder
  of the one before.
-/

namespace Ceryx.Lib

/-! ## Shift and subtract -/

/-- `q` are the digits of `n / d` that are found, and `r` is left; `k` digits to go. -/
structure DivAt (n d k q r : Nat) : Prop where
  eq : n = q * 2 ^ k * d + r
  lt : r < d * 2 ^ k

variable {n d k q r : Nat}

theorem DivAt.start (h : n < d * 2 ^ k) : DivAt n d k 0 n where
  eq := by rw [Nat.zero_mul, Nat.zero_mul, Nat.zero_add]
  lt := h

/-- The next digit is 0. -/
theorem DivAt.zero (h : DivAt n d (k + 1) q r) (hlt : r < d * 2 ^ k) : DivAt n d k (2 * q) r where
  eq := by
    have heq := h.eq
    rw [Nat.pow_succ] at heq
    calc n = q * (2 ^ k * 2) * d + r := heq
      _ = 2 * q * 2 ^ k * d + r := by ring
  lt := hlt

/-- The next digit is 1. -/
theorem DivAt.one (h : DivAt n d (k + 1) q r) (hle : d * 2 ^ k ≤ r) :
    DivAt n d k (2 * q + 1) (r - d * 2 ^ k) where
  eq := by
    have heq := h.eq
    rw [Nat.pow_succ] at heq
    calc n = q * (2 ^ k * 2) * d + r := heq
      _ = q * (2 ^ k * 2) * d + (d * 2 ^ k + (r - d * 2 ^ k)) := by rw [Nat.add_sub_cancel' hle]
      _ = (2 * q + 1) * 2 ^ k * d + (r - d * 2 ^ k) := by ring
  lt := by
    have hlt := h.lt
    have hdouble : d * 2 ^ (k + 1) = d * 2 ^ k + d * 2 ^ k := by ring
    omega

theorem DivAt.done (h : DivAt n d 0 q r) : n = q * d + r ∧ r < d := by
  have heq := h.eq
  have hlt := h.lt
  rw [Nat.pow_zero, Nat.mul_one] at heq hlt
  exact ⟨heq, hlt⟩

/-- The quotient that is found stays below the power of its digits. -/
theorem DivAt.lt_quotient (h : DivAt n d k q r) {bound : Nat} (hn : n < bound) (hd : 0 < d) :
    q * 2 ^ k < bound := by
  have heq := h.eq
  have hle : q * 2 ^ k ≤ q * 2 ^ k * d := Nat.le_mul_of_pos_right _ hd
  omega

/-! ## Two digits -/

/-- The digit of a number below the divisor, followed by another, is below the base. -/
theorem digit_lt {base hi lo : Nat} (hhi : hi < d) (hlo : lo < base) :
    (hi * base + lo) / d < base := by
  apply Nat.div_lt_of_lt_mul
  calc hi * base + lo < hi * base + base := Nat.add_lt_add_left hlo _
    _ = (hi + 1) * base := by ring
    _ ≤ d * base := Nat.mul_le_mul_right base hhi

/-- The division of two digits: the second is divided behind the remainder of the
first. -/
theorem div_two_digits (base hi lo d : Nat) :
    hi * base + lo =
      (hi / d * base + (hi % d * base + lo) / d) * d + (hi % d * base + lo) % d := by
  have hfirst := Nat.div_add_mod hi d
  have hsecond := Nat.div_add_mod (hi % d * base + lo) d
  calc hi * base + lo = (d * (hi / d) + hi % d) * base + lo := by rw [hfirst]
    _ = hi / d * base * d + (hi % d * base + lo) := by ring
    _ = hi / d * base * d +
        (d * ((hi % d * base + lo) / d) + (hi % d * base + lo) % d) := by rw [hsecond]
    _ = _ := by ring

end Ceryx.Lib
