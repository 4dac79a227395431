import Mathlib.Data.Set.BooleanAlgebra
import Mathlib.Data.Set.Disjoint
import Mathlib.Order.CompletePartialOrder

/-!
# Ceryx.Lib.Overlay — writes to disjoint regions

* `Overlays f region content`: `f` leaves `content` on the region of a memory,
  whatever was there, and does not touch the rest.
* `Overlays.foldl`: writes inside the region do not change this.
* `foldl_inside`, `foldl_outside`: after writes to disjoint regions each region
  has its own content, and outside of them all is as before.
-/

namespace Ceryx.Lib

variable {ι α κ : Type}

structure Overlays (f : (ι → α) → ι → α) (region : Set ι) (content : ι → α) : Prop where
  inside : ∀ m a, a ∈ region → f m a = content a
  outside : ∀ m a, a ∉ region → f m a = m a

/-- A write inside the region of an earlier one. -/
theorem Overlays.comp {f g : (ι → α) → ι → α} {region part : Set ι} {c d : ι → α}
    (hf : Overlays f region c) (hg : Overlays g part d) (hpart : part ⊆ region) :
    Overlays (fun m => g (f m)) region (g c) where
  inside m a ha := by
    by_cases hin : a ∈ part
    · rw [hg.inside _ a hin, hg.inside _ a hin]
    · rw [hg.outside _ a hin, hg.outside _ a hin]
      exact hf.inside m a ha
  outside m a ha := by
    have hout : a ∉ part := fun hin => ha (hpart hin)
    rw [hg.outside _ a hout]
    exact hf.outside m a ha

/-- Writes inside the region of the first one, one after the other. -/
theorem Overlays.foldl {f : (ι → α) → ι → α} {region : Set ι} {c : ι → α}
    (hf : Overlays f region c) {step : (ι → α) → κ → ι → α} {xs : List κ}
    (hxs : ∀ x ∈ xs, ∃ part d, part ⊆ region ∧ Overlays (step · x) part d) :
    Overlays (fun m => xs.foldl step (f m)) region (xs.foldl step c) := by
  induction xs generalizing f c with
  | nil => exact hf
  | cons x xs ih =>
      rcases hxs x List.mem_cons_self with ⟨part, d, hpart, hx⟩
      exact ih (hf.comp hx hpart) fun y hy => hxs y (List.mem_cons_of_mem x hy)

section
variable {step : (ι → α) → κ → ι → α} {region : κ → Set ι} {content : κ → ι → α} {xs : List κ}

theorem foldl_outside (hxs : ∀ x ∈ xs, Overlays (step · x) (region x) (content x)) (m : ι → α)
    {a : ι} (ha : ∀ x ∈ xs, a ∉ region x) : xs.foldl step m a = m a := by
  induction xs generalizing m with
  | nil => rfl
  | cons x xs ih =>
      rw [List.foldl_cons]
      have hrest := ih (fun y hy => hxs y (List.mem_cons_of_mem x hy)) (step m x)
        fun y hy => ha y (List.mem_cons_of_mem x hy)
      rw [hrest]
      exact (hxs x List.mem_cons_self).outside m a (ha x List.mem_cons_self)

/-- Later writes leave a region as it is. -/
theorem foldl_inside (hxs : ∀ x ∈ xs, Overlays (step · x) (region x) (content x))
    (hdisjoint : xs.Pairwise fun x y => Disjoint (region x) (region y)) (m : ι → α) {x : κ}
    (hx : x ∈ xs) {a : ι} (ha : a ∈ region x) : xs.foldl step m a = content x a := by
  induction xs generalizing m with
  | nil => exact absurd hx List.not_mem_nil
  | cons y xs ih =>
      rw [List.foldl_cons]
      rcases List.pairwise_cons.mp hdisjoint with ⟨hfirst, hrest⟩
      rcases List.mem_cons.mp hx with heq | hmem
      · -- the others are outside of this region
        rw [← heq] at hfirst ⊢
        rw [foldl_outside fun z hz => hxs z (List.mem_cons_of_mem y hz)]
        · exact (hxs x (heq ▸ List.mem_cons_self)).inside m a ha
        · intro z hz hin
          exact Set.disjoint_left.mp (hfirst z hz) ha hin
      · exact ih (fun z hz => hxs z (List.mem_cons_of_mem y hz)) hrest (step m y) hmem

end

end Ceryx.Lib
