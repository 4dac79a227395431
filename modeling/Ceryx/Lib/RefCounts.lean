import Mathlib.Data.List.Basic
import Mathlib.Logic.Function.Basic
import Mathlib.Tactic.Common

/-!
# Ceryx.Lib.RefCounts — counted references

A count for each object, and the objects whose count has gone from one to zero.
`acquire` and `release` are one reference more and one less. What is acquired
for a list and released for a list of the same objects is as before, for every
object that had a reference to begin with (`releaseAll_acquireAll`).
-/

namespace Ceryx.Lib

/-- How many references each object has. -/
structure RefCounts (α : Type) where
  count : α → Nat
  /-- The objects that have lost their last reference, in order. -/
  freed : List α

namespace RefCounts

variable {α : Type} [DecidableEq α]

/-- One reference more. -/
def acquire (r : RefCounts α) (a : α) : RefCounts α :=
  { r with count := Function.update r.count a (r.count a + 1) }

/-- One less; with the last one the object is freed. -/
def release (r : RefCounts α) (a : α) : RefCounts α where
  count := Function.update r.count a (r.count a - 1)
  freed := if r.count a = 1 then r.freed ++ [a] else r.freed

/-- Only the count of the object changes, up -/
theorem acquire_self (r : RefCounts α) (a : α) : (r.acquire a).count a = r.count a + 1 :=
  Function.update_self _ _ _

/-- for itself alone, -/
theorem acquire_ne (r : RefCounts α) {a b : α} (h : a ≠ b) :
    (r.acquire b).count a = r.count a :=
  Function.update_of_ne h _ _

/-- or down -/
theorem release_self (r : RefCounts α) (a : α) : (r.release a).count a = r.count a - 1 :=
  Function.update_self _ _ _

/-- for itself alone. -/
theorem release_ne (r : RefCounts α) {a b : α} (h : a ≠ b) :
    (r.release b).count a = r.count a :=
  Function.update_of_ne h _ _

/-- One reference less of another object, or not the last one. -/
theorem release_freed (r : RefCounts α) {a b : α} (h : a = b → r.count b ≠ 1) :
    (r.release b).freed.count a = r.freed.count a := by
  unfold release
  dsimp only
  split
  · rename_i hlast
    have hne : b ≠ a := fun hba => h hba.symm hlast
    rw [List.count_append, List.count_singleton]
    simp [hne]
  · rfl

/-- A reference for each entry of a list, -/
def acquireAll (r : RefCounts α) (l : List α) : RefCounts α := l.foldl acquire r

/-- and each of them given back. -/
def releaseAll (r : RefCounts α) (l : List α) : RefCounts α := l.foldl release r

/-- Two lists are acquired one after the other. -/
theorem acquireAll_append (r : RefCounts α) (l l' : List α) :
    r.acquireAll (l ++ l') = (r.acquireAll l).acquireAll l' :=
  List.foldl_append

/-- Acquiring frees nothing; -/
theorem acquireAll_freed (r : RefCounts α) (l : List α) : (r.acquireAll l).freed = r.freed := by
  induction l generalizing r with
  | nil => rfl
  | cons a l ih => exact ih (r.acquire a)

/-- it adds the entries of the object, -/
theorem acquireAll_count (r : RefCounts α) (l : List α) (a : α) :
    (r.acquireAll l).count a = r.count a + l.count a := by
  induction l generalizing r with
  | nil => rfl
  | cons b l ih =>
      have hrest : (r.acquireAll (b :: l)).count a = ((r.acquire b).acquireAll l).count a := rfl
      rw [hrest, ih]
      by_cases hab : a = b
      · subst hab
        rw [List.count_cons_self, acquire_self]
        omega
      · rw [List.count_cons_of_ne (Ne.symm hab), acquire_ne r hab]

/-- which releasing takes off. -/
theorem releaseAll_count (r : RefCounts α) (l : List α) (a : α) :
    (r.releaseAll l).count a = r.count a - l.count a := by
  induction l generalizing r with
  | nil => rfl
  | cons b l ih =>
      have hrest : (r.releaseAll (b :: l)).count a = ((r.release b).releaseAll l).count a := rfl
      rw [hrest, ih]
      by_cases hab : a = b
      · subst hab
        rw [List.count_cons_self, release_self]
        omega
      · rw [List.count_cons_of_ne (Ne.symm hab), release_ne r hab]

/-- An object that keeps a reference is not freed on the way. -/
theorem releaseAll_freed (r : RefCounts α) (l : List α) {a : α} (h : l.count a < r.count a) :
    (r.releaseAll l).freed.count a = r.freed.count a := by
  induction l generalizing r with
  | nil => rfl
  | cons b l ih =>
      have hrest : r.releaseAll (b :: l) = (r.release b).releaseAll l := rfl
      rw [hrest]
      by_cases hab : a = b
      · -- one reference fewer, and still one left
        subst hab
        rw [List.count_cons_self] at h
        rw [ih, release_freed]
        · intro _
          omega
        · rw [release_self]
          omega
      · rw [List.count_cons_of_ne (Ne.symm hab)] at h
        rw [ih, release_freed]
        · intro heq
          exact absurd heq hab
        · rw [release_ne r hab]
          exact h

theorem releaseAll_acquireAll (r : RefCounts α) (l : List α) {a : α} (h : 0 < r.count a) :
    ((r.acquireAll l).releaseAll l).count a = r.count a ∧
      ((r.acquireAll l).releaseAll l).freed.count a = r.freed.count a := by
  constructor
  · rw [releaseAll_count, acquireAll_count]
    omega
  · rw [releaseAll_freed, acquireAll_freed]
    rw [acquireAll_count]
    omega

end RefCounts

end Ceryx.Lib
