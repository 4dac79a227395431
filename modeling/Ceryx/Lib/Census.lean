import Mathlib.Data.List.Range
import Mathlib.Tactic.Common

/-!
# Ceryx.Lib.Census — counting named objects

Objects are named by natural numbers in the order of their making, `n` of them
so far. `census n f` is how many of them have the property `f`. The lemmas say
how it changes when an object is made, when one object gains or loses the
property, and when no object does.
-/

namespace Ceryx.Lib

/-- How many of the names below `n` have the property. -/
def census (n : Nat) (f : Nat → Bool) : Nat := (List.range n).countP f

theorem census_succ (n : Nat) (f : Nat → Bool) :
    census (n + 1) f = census n f + if f n then 1 else 0 := by
  unfold census
  rw [List.range_succ, List.countP_append, List.countP_singleton]

theorem census_congr {n : Nat} {f g : Nat → Bool} (h : ∀ d, d < n → f d = g d) :
    census n f = census n g := by
  induction n with
  | zero => rfl
  | succ n ih =>
      rw [census_succ, census_succ, ih fun d hd => h d (Nat.lt_succ_of_lt hd),
        h n (Nat.lt_succ_self n)]

/-- A new object. -/
theorem census_new {n : Nat} {f g : Nat → Bool} (h : ∀ d, d < n → g d = f d) :
    census (n + 1) g = census n f + if g n then 1 else 0 := by
  rw [census_succ, census_congr h]

/-- One object loses the property. -/
theorem census_lose {n d : Nat} {f g : Nat → Bool} (hd : d < n) (hf : f d = true)
    (hg : g d = false) (h : ∀ e, e ≠ d → g e = f e) : census n g + 1 = census n f := by
  induction n with
  | zero => exact absurd hd (Nat.not_lt_zero d)
  | succ n ih =>
      rw [census_succ, census_succ]
      by_cases hdn : d = n
      · subst hdn
        rw [hf, hg, census_congr fun e he => h e (Nat.ne_of_lt he)]
        simp
      · have hlt : d < n := Nat.lt_of_le_of_ne (Nat.le_of_lt_succ hd) hdn
        rw [h n (Ne.symm hdn), ← ih hlt]
        omega

theorem census_eq_zero {n : Nat} {f : Nat → Bool} :
    census n f = 0 ↔ ∀ d, d < n → f d = false := by
  unfold census
  rw [List.countP_eq_zero]
  simp only [List.mem_range, Bool.not_eq_true]

end Ceryx.Lib
