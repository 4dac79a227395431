import Mathlib.Data.List.Pairwise
import Mathlib.Order.CompletePartialOrder
import Mathlib.Order.Interval.Set.Disjoint
import Mathlib.Order.Interval.Set.LinearOrder

/-!
# Ceryx.Lib.Tiling — sets that are cut into pieces

`Tiles cells s`: the sets of a list are pairwise disjoint and their union is `s`.
Tilings of disjoint sets are put together (`Tiles.append`, `tiles_flatMap`), and a
range of a linear order is tiled by its first part and a tiling of the rest
(`Tiles.cons_Ico`).
-/

namespace Ceryx.Lib

variable {α ι : Type*}

/-- The sets of the list are pairwise disjoint, and their union is `s`. -/
structure Tiles (cells : List (Set α)) (s : Set α) : Prop where
  disjoint : cells.Pairwise Disjoint
  mem_iff : ∀ a, a ∈ s ↔ ∃ c ∈ cells, a ∈ c

theorem tiles_empty : Tiles ([] : List (Set α)) ∅ where
  disjoint := List.Pairwise.nil
  mem_iff a := by simp

theorem Tiles.subset {cells : List (Set α)} {s c : Set α} (h : Tiles cells s) (hc : c ∈ cells) :
    c ⊆ s := fun a ha => (h.mem_iff a).mpr ⟨c, hc, ha⟩

theorem Tiles.append {cells cells' : List (Set α)} {s t : Set α} (h : Tiles cells s)
    (h' : Tiles cells' t) (hd : Disjoint s t) : Tiles (cells ++ cells') (s ∪ t) where
  disjoint := by
    refine List.pairwise_append.mpr ⟨h.disjoint, h'.disjoint, ?_⟩
    intro c hc d hd'
    exact hd.mono (h.subset hc) (h'.subset hd')
  mem_iff a := by
    rw [Set.mem_union, h.mem_iff, h'.mem_iff]
    constructor
    · rintro (⟨c, hc, ha⟩ | ⟨c, hc, ha⟩)
      · exact ⟨c, List.mem_append_left _ hc, ha⟩
      · exact ⟨c, List.mem_append_right _ hc, ha⟩
    · rintro ⟨c, hc, ha⟩
      rcases List.mem_append.mp hc with hleft | hright
      · exact .inl ⟨c, hleft, ha⟩
      · exact .inr ⟨c, hright, ha⟩

theorem Tiles.cons {cells : List (Set α)} {s c : Set α} (h : Tiles cells s) (hd : Disjoint c s) :
    Tiles (c :: cells) (c ∪ s) := by
  have hone : Tiles [c] c := ⟨List.pairwise_singleton _ _, by simp⟩
  exact hone.append h hd

/-- The first part of a range, and a tiling of the rest. -/
theorem Tiles.cons_Ico [LinearOrder α] {cells : List (Set α)} {a b c : α} (hab : a ≤ b)
    (hbc : b ≤ c) (h : Tiles cells (Set.Ico b c)) :
    Tiles (Set.Ico a b :: cells) (Set.Ico a c) := by
  have hcons : Tiles (Set.Ico a b :: cells) (Set.Ico a b ∪ Set.Ico b c) :=
    h.cons Set.Ico_disjoint_Ico_same
  rw [Set.Ico_union_Ico_eq_Ico hab hbc] at hcons
  exact hcons

/-- Each part is tiled, and the parts are pairwise disjoint. -/
theorem tiles_flatMap {xs : List ι} {cells : ι → List (Set α)} {part : ι → Set α}
    (h : ∀ x ∈ xs, Tiles (cells x) (part x))
    (hd : xs.Pairwise fun x y => Disjoint (part x) (part y)) :
    Tiles (xs.flatMap cells) {a | ∃ x ∈ xs, a ∈ part x} := by
  induction xs with
  | nil =>
      have hnone : {a | ∃ x ∈ ([] : List ι), a ∈ part x} = ∅ := by simp
      rw [hnone]
      exact tiles_empty
  -- the tiles of one part, and those of all the others beside it
  | cons x xs ih =>
      rw [List.pairwise_cons] at hd
      have hrest := ih (fun y hy => h y (List.mem_cons_of_mem _ hy)) hd.2
      have hunion : {a | ∃ y ∈ x :: xs, a ∈ part y} = part x ∪ {a | ∃ y ∈ xs, a ∈ part y} := by
        ext a
        simp
      rw [List.flatMap_cons, hunion]
      apply (h x List.mem_cons_self).append hrest
      rw [Set.disjoint_right]
      rintro a ⟨y, hy, ha⟩
      exact Set.disjoint_right.mp (hd.1 y hy) ha

end Ceryx.Lib
