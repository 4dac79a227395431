import Mathlib.Data.List.Basic

/-!
# Ceryx.Lib.StringView — searching and cutting strings

A string is the list of its characters. `find`, `rFind` and `subView` work by
positions; the pieces between separators (`List.splitOn`) are what a loop over
them sees.

* `find_none`, `find_some`: the first separator from a position on cuts the
  rest of the string in two.
* `rFind_none`, `rFind_some`: the last separator cuts the string in two.
-/

namespace Ceryx.Lib

section StringView
variable {α : Type} [DecidableEq α]

/-- The first position from `offset` on that holds `c`. -/
def find (s : List α) (c : α) (offset : Nat) : Option Nat :=
  ((s.drop offset).findIdx? (· = c)).map (offset + ·)

/-- The last position that holds `c`. -/
def rFind (s : List α) (c : α) : Option Nat :=
  (s.reverse.findIdx? (· = c)).map (s.length - 1 - ·)

/-- The `count` characters from `offset` on. -/
def subView (s : List α) (offset count : Nat) : List α := (s.drop offset).take count

theorem find_none {s : List α} {c : α} {offset : Nat} (h : find s c offset = none) :
    c ∉ s.drop offset := by
  unfold find at h
  rw [Option.map_eq_none_iff, List.findIdx?_eq_none_iff] at h
  intro hmem
  have hne := h c hmem
  simp only [decide_true, Bool.true_eq_false] at hne

theorem find_some {s : List α} {c : α} {offset k : Nat} (h : find s c offset = some k) :
    offset ≤ k ∧ k < s.length ∧ c ∉ subView s offset (k - offset) ∧
      s.drop offset = subView s offset (k - offset) ++ c :: s.drop (k + 1) := by
  unfold find at h
  rcases Option.map_eq_some_iff.mp h with ⟨i, hi, hk⟩
  subst hk
  rw [List.findIdx?_eq_some_iff_getElem] at hi
  rcases hi with ⟨hlt, hat, hbefore⟩
  rw [List.length_drop] at hlt
  rw [List.getElem_drop, decide_eq_true_eq] at hat
  have hcut : offset + i - offset = i := Nat.add_sub_cancel_left offset i
  rw [hcut]
  refine ⟨Nat.le_add_right _ _, Nat.add_lt_of_lt_sub' hlt, ?_, ?_⟩
  · -- none before the first
    intro hmem
    rcases List.mem_take_iff_getElem.mp hmem with ⟨j, hj, hjc⟩
    have hji : j < i := Nat.lt_of_lt_of_le hj (Nat.min_le_left _ _)
    have hne := hbefore j hji
    rw [hjc] at hne
    exact hne (decide_eq_true rfl)
  · -- and there it is
    have hlen : i < (s.drop offset).length := by
      rw [List.length_drop]
      exact hlt
    have hsplit := (List.take_append_drop i (s.drop offset)).symm
    rw [List.drop_eq_getElem_cons hlen, List.getElem_drop, hat, List.drop_drop] at hsplit
    exact hsplit

/-- The first separator, by what is before and behind it. -/
theorem find_append {s xs ys : List α} {c : α} {offset : Nat} (h : s.drop offset = xs ++ c :: ys)
    (hout : c ∉ xs) : find s c offset = some (offset + xs.length) ∧ subView s offset xs.length = xs ∧
      s.drop (offset + xs.length + 1) = ys := by
  -- it is not in the part that comes before
  have hbefore : xs.findIdx? (· = c) = none := by
    rw [List.findIdx?_eq_none_iff]
    intro x hx
    rw [decide_eq_false_iff_not]
    intro heq
    rw [heq] at hx
    exact hout hx
  refine ⟨?_, ?_, ?_⟩
  · unfold find
    rw [h, List.findIdx?_append, hbefore, List.findIdx?_cons, if_pos (decide_eq_true rfl)]
    simp only [Option.map_some, Nat.zero_add, Option.none_or]
  · unfold subView
    rw [h, List.take_left]
  · have hdrop : s.drop (offset + (xs.length + 1)) = ys := by
      rw [← List.drop_drop, h, List.drop_append, List.drop_of_length_le (Nat.le_succ _),
        Nat.add_sub_cancel_left]
      rfl
    exact hdrop

theorem rFind_none {s : List α} {c : α} (h : rFind s c = none) : c ∉ s := by
  unfold rFind at h
  rw [Option.map_eq_none_iff, List.findIdx?_eq_none_iff] at h
  intro hmem
  have hne := h c (List.mem_reverse.mpr hmem)
  simp only [decide_true, Bool.true_eq_false] at hne

theorem rFind_some {s : List α} {c : α} {k : Nat} (h : rFind s c = some k) :
    k < s.length ∧ c ∉ s.drop (k + 1) ∧ s = s.take k ++ c :: s.drop (k + 1) := by
  unfold rFind at h
  rcases Option.map_eq_some_iff.mp h with ⟨i, hi, hk⟩
  rw [List.findIdx?_eq_some_iff_getElem] at hi
  rcases hi with ⟨hlt, hat, hbefore⟩
  rw [List.length_reverse] at hlt
  rw [List.getElem_reverse, decide_eq_true_eq] at hat
  have hks : k < s.length := by omega
  refine ⟨hks, ?_, ?_⟩
  · -- none behind the last
    intro hmem
    rcases List.mem_iff_getElem.mp hmem with ⟨j, hj, hjc⟩
    rw [List.length_drop] at hj
    have hji : s.length - 1 - (k + 1 + j) < i := by omega
    have hne := hbefore _ hji
    rw [List.getElem_reverse, decide_eq_true_eq] at hne
    rw [List.getElem_drop] at hjc
    apply hne
    rw [← hjc]
    congr 1
    omega
  · have hsplit := (List.take_append_drop k s).symm
    rw [List.drop_eq_getElem_cons hks] at hsplit
    have hc : s[k] = c := by
      rw [← hat]
      congr 1
      exact hk.symm
    rw [hc] at hsplit
    exact hsplit

end StringView

end Ceryx.Lib
