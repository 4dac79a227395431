import Mathlib.Algebra.Group.Nat.Defs

/-!
# Ceryx.Lib.LittleEndian — unsigned integers as bytes

Fields of `n` bytes, the least significant byte first.
-/

namespace Ceryx.Lib

/-- The `n` bytes of `x`; what does not fit is cut off. -/
def toLE : Nat → Nat → List UInt8
  | 0, _ => []
  | n + 1, x => UInt8.ofNat x :: toLE n (x / 256)

def ofLE : List UInt8 → Nat
  | [] => 0
  | b :: bs => b.toNat + 256 * ofLE bs

@[simp] theorem toLE_length (n x : Nat) : (toLE n x).length = n := by
  induction n generalizing x with
  | zero => rfl
  | succ n ih => rw [toLE, List.length_cons, ih]

theorem ofLE_toLE (n x : Nat) : ofLE (toLE n x) = x % 256 ^ n := by
  induction n generalizing x with
  | zero => rw [toLE, ofLE, Nat.pow_zero, Nat.mod_one]
  | succ n ih =>
      have hbyte : (UInt8.ofNat x).toNat = x % 256 := UInt8.toNat_ofNat'
      rw [toLE, ofLE, ih, hbyte, Nat.pow_succ', Nat.mod_mul]

/-- A field reads back its number exactly when it is wide enough. -/
theorem ofLE_toLE_iff {n x : Nat} : ofLE (toLE n x) = x ↔ x < 256 ^ n := by
  rw [ofLE_toLE]
  constructor
  · intro h
    rw [← h]
    exact Nat.mod_lt _ (Nat.pow_pos (by decide))
  · exact Nat.mod_eq_of_lt

end Ceryx.Lib
