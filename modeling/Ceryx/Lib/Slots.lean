import Mathlib.Algebra.Group.Nat.Defs
import Mathlib.Tactic.Common

/-!
# Ceryx.Lib.Slots — partial maps from the numbers below a bound

`Slots α n` maps some of the numbers `0 .. n - 1` to values of `α`; the field
`bounded` says that it maps no others. A table of descriptors, of handles or of
page frames is one of these, whatever it is stored in.

* `insert`, `erase` and `empty`, with what they map a number to.
* `LeastFree`, `Full`: what an allocator looks for, and when it finds nothing.
-/

namespace Ceryx.Lib

universe u

/-- A partial map from `[0, n)` to `α`. -/
structure Slots (α : Type u) (n : Nat) where
  get : Nat → Option α
  bounded : ∀ i, n ≤ i → get i = none

namespace Slots

variable {α : Type u} {n : Nat}

@[ext] theorem ext {m m' : Slots α n} (h : ∀ i, m.get i = m'.get i) : m = m' := by
  cases m
  cases m'
  congr
  exact funext h

def empty : Slots α n := ⟨fun _ => none, fun _ _ => rfl⟩

/-- Map `i` to `a`. -/
def insert (m : Slots α n) (i : Nat) (h : i < n) (a : α) : Slots α n where
  get j := if j = i then some a else m.get j
  bounded j hj := by
    rw [if_neg (by omega)]
    exact m.bounded j hj

/-- Map `i` to nothing. -/
def erase (m : Slots α n) (i : Nat) : Slots α n where
  get j := if j = i then none else m.get j
  bounded j hj := by
    split
    · rfl
    · exact m.bounded j hj

@[simp] theorem get_empty (i : Nat) : (empty : Slots α n).get i = none := rfl

@[simp] theorem get_insert (m : Slots α n) {i : Nat} (h : i < n) (a : α) (j : Nat) :
    (m.insert i h a).get j = if j = i then some a else m.get j := rfl

@[simp] theorem get_erase (m : Slots α n) (i j : Nat) :
    (m.erase i).get j = if j = i then none else m.get j := rfl

/-- `i` is the least number that is not mapped. -/
structure LeastFree (m : Slots α n) (i : Nat) : Prop where
  lt : i < n
  free : m.get i = none
  taken : ∀ j, j < i → m.get j ≠ none

/-- All numbers below the bound are mapped. -/
def Full (m : Slots α n) : Prop := ∀ i, i < n → m.get i ≠ none

end Slots

end Ceryx.Lib
