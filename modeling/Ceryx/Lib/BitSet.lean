import Mathlib.Data.Set.Insert
import Mathlib.Tactic.Common

/-!
# Ceryx.Lib.BitSet — machine words as sets of bit numbers

A word stands for the set of the numbers of its one bits. `|||` with a single
bit inserts, `&&& ~~~` removes, and a test `w &&& bit = 0` asks for membership.
-/

namespace Ceryx.Lib

variable {n : Nat}

/-- The numbers of the one bits of a word. -/
def bits (w : BitVec n) : Set Nat := {i | w.getLsbD i = true}

theorem mem_bits {w : BitVec n} {i : Nat} : i ∈ bits w ↔ w.getLsbD i = true := Iff.rfl

@[simp] theorem bits_zero : bits (0#n) = ∅ := by
  ext i
  simp [bits]

@[simp] theorem bits_or (v w : BitVec n) : bits (v ||| w) = bits v ∪ bits w := by
  ext i
  simp [bits]

theorem bits_andNot (v w : BitVec n) : bits (v &&& ~~~w) = bits v \ bits w := by
  ext i
  simp only [mem_bits, Set.mem_sdiff, BitVec.getLsbD_and, BitVec.getLsbD_not,
    Bool.and_eq_true, Bool.not_eq_true', decide_eq_true_eq]
  constructor
  · rintro ⟨hv, -, hw⟩
    simp [hv, hw]
  · rintro ⟨hv, hw⟩
    exact ⟨hv, BitVec.lt_of_getLsbD hv, by simpa using hw⟩

/-- A single bit. -/
theorem bits_twoPow {k : Nat} (hk : k < n) : bits (BitVec.twoPow n k) = {k} := by
  ext i
  simp only [mem_bits, Set.mem_singleton_iff, BitVec.getLsbD_twoPow,
    Bool.and_eq_true, decide_eq_true_eq]
  constructor
  · rintro ⟨-, h⟩
    exact h.symm
  · intro h
    exact ⟨hk, h.symm⟩

/-- The test for one bit. -/
theorem and_twoPow_eq_zero {w : BitVec n} {k : Nat} (hk : k < n) :
    w &&& BitVec.twoPow n k = 0#n ↔ k ∉ bits w := by
  rw [BitVec.and_twoPow]
  split
  · rename_i h
    constructor
    · intro hzero
      have hk' : k ∈ bits (BitVec.twoPow n k) := by
        rw [bits_twoPow hk]
        exact rfl
      rw [hzero, bits_zero] at hk'
      exact absurd hk' (Set.notMem_empty k)
    · intro hnot
      exact absurd h hnot
  · rename_i h
    exact iff_of_true rfl h

end Ceryx.Lib
