import Mathlib.Data.Set.Basic
import Mathlib.Logic.Function.Basic
import Ceryx.Lib.ByteMem
import Ceryx.Lib.Overlay
import Ceryx.Lib.Simulation

/-!
# Ceryx.Lib.Raster — a picture in a memory of bytes

A raster is `height` lines of `width` pixels with `depth` bytes each. A line starts
`pitch` bytes after the line above it, and what is between the lines is nobody's.

* `r.Shows m pic`: in memory `m` each pixel has the bytes that the picture `pic` says.
* `shows_plot`: a pixel that is stored changes this point of the picture only.
* `shows_paint`: two nested loops paint some points of a rectangle.
* `shows_shiftUp`: a move of whole lines moves the picture.
* `forRange`: a counting loop. `forRange_rel` relates two of them, and
  `overlays_forRange` collects what the turns paint.
-/

namespace Ceryx.Lib

/-! ## Counting loops -/

section
variable {σ τ : Type}

/-- `for (i = lo; i < hi; ++i)`. -/
def forRange (lo hi : Nat) (body : Nat → σ → σ) (s : σ) : σ :=
  (List.range' lo (hi - lo)).foldl (fun s i => body i s) s

/-- Two loops whose turns keep a relation. -/
theorem forRange_rel {R : σ → τ → Prop} {lo hi : Nat} {body : Nat → σ → σ} {body' : Nat → τ → τ}
    (h : ∀ i, lo ≤ i → i < hi → ∀ s t, R s t → R (body i s) (body' i t)) {s : σ} {t : τ}
    (hR : R s t) : R (forRange lo hi body s) (forRange lo hi body' t) := by
  apply foldl_related _ hR
  intro i hi
  rcases List.mem_range'_1.mp hi with ⟨hlo, hlt⟩
  exact h i hlo (by omega)

/-- What every turn keeps. -/
theorem forRange_keeps {P : σ → Prop} {lo hi : Nat} {body : Nat → σ → σ}
    (h : ∀ i s, P s → P (body i s)) {s : σ} (hP : P s) : P (forRange lo hi body s) :=
  @forRange_rel σ σ (fun s _ => P s) lo hi body body (fun i _ _ s _ hs => h i s hs) s s hP

variable {ι α : Type}

/-- Turns that paint with one content, over their regions together. -/
theorem overlays_forRange {body : Nat → (ι → α) → ι → α} {region : Nat → Set ι} {content : ι → α}
    (h : ∀ i, Overlays (body i) (region i) content) (lo hi : Nat) :
    Overlays (forRange lo hi body) {a | ∃ i, lo ≤ i ∧ i < hi ∧ a ∈ region i} content := by
  have hlist : ∀ is : List Nat, Overlays (fun m => is.foldl (fun m i => body i m) m)
      {a | ∃ i ∈ is, a ∈ region i} content := by
    intro is
    induction is with
    | nil => exact ⟨fun m a ⟨i, hi, _⟩ => absurd hi List.not_mem_nil, fun m a _ => rfl⟩
    | cons i is ih =>
        constructor
        · rintro m a ⟨j, hj, ha⟩
          rw [List.foldl_cons]
          by_cases hrest : ∃ k ∈ is, a ∈ region k
          · exact ih.inside _ a hrest
          · -- only the first turn paints here
            have hji : j = i := by
              rcases List.mem_cons.mp hj with heq | hmem
              · exact heq
              · exact absurd ⟨j, hmem, ha⟩ hrest
            have hout := ih.outside (body i m) a hrest
            rw [hout]
            exact (h i).inside m a (hji ▸ ha)
        · intro m a ha
          rw [List.foldl_cons]
          have hrest : ¬ ∃ k ∈ is, a ∈ region k := by
            rintro ⟨k, hk, hin⟩
            exact ha ⟨k, List.mem_cons_of_mem i hk, hin⟩
          have hout := ih.outside (body i m) a hrest
          rw [hout]
          exact (h i).outside m a fun hin => ha ⟨i, List.mem_cons_self, hin⟩
  have hset : {a | ∃ i, lo ≤ i ∧ i < hi ∧ a ∈ region i} =
      {a | ∃ i ∈ List.range' lo (hi - lo), a ∈ region i} := by
    ext a
    constructor
    · rintro ⟨i, hlo, hhi, ha⟩
      exact ⟨i, List.mem_range'_1.mpr ⟨hlo, by omega⟩, ha⟩
    · rintro ⟨i, hi, ha⟩
      rcases List.mem_range'_1.mp hi with ⟨hlo, hlt⟩
      exact ⟨i, hlo, by omega, ha⟩
  rw [hset]
  exact hlist _

end

/-! ## Rasters -/

structure Raster where
  base : Word
  width : Nat
  height : Nat
  pitch : Nat
  depth : Nat
  line : width * depth ≤ pitch
  span : pitch * height ≤ 2 ^ 64

namespace Raster

/-- The bytes of each pixel. -/
abbrev Picture := Nat × Nat → List UInt8

variable (r : Raster) {m : ByteMem} {pic : Picture}

/-- Where a pixel is. -/
def pixel (x y : Nat) : Word := r.base + BitVec.ofNat 64 (y * r.pitch + x * r.depth)

/-- The bytes of the raster. -/
def region : Set Word := {a | ∃ k, k < r.pitch * r.height ∧ a = r.base + BitVec.ofNat 64 k}

/-- The memory shows the picture. -/
def Shows (m : ByteMem) (pic : Picture) : Prop :=
  ∀ x y, x < r.width → y < r.height → m.load (r.pixel x y) r.depth = pic (x, y)

/-- Every memory shows a picture. -/
theorem shows_self (m : ByteMem) : r.Shows m fun p => m.load (r.pixel p.1 p.2) r.depth :=
  fun _ _ _ _ => rfl

theorem Shows.congr {r : Raster} {pic' : Picture} (h : r.Shows m pic)
    (heq : ∀ x y, x < r.width → y < r.height → pic (x, y) = pic' (x, y)) : r.Shows m pic' :=
  fun x y hx hy => (h x y hx hy).trans (heq x y hx hy)

/-- Store a pixel, when there is one. -/
def plot (m : ByteMem) (x y : Nat) (bs : List UInt8) : ByteMem :=
  if x < r.width ∧ y < r.height then m.store (r.pixel x y) bs else m

variable {r}

/-- A byte of a line is before the next line. -/
theorem inLine {x i : Nat} (hx : x < r.width) (hi : i < r.depth) : x * r.depth + i < r.pitch := by
  have hnext : (x + 1) * r.depth ≤ r.width * r.depth := Nat.mul_le_mul_right _ hx
  have hsplit : (x + 1) * r.depth = x * r.depth + r.depth := Nat.succ_mul _ _
  have hline := r.line
  omega

/-- A byte of a line is a byte of the raster. -/
theorem inSpan {y j : Nat} (hy : y < r.height) (hj : j < r.pitch) :
    y * r.pitch + j < r.pitch * r.height := by
  have hnext : (y + 1) * r.pitch ≤ r.height * r.pitch := Nat.mul_le_mul_right _ hy
  have hsplit : (y + 1) * r.pitch = y * r.pitch + r.pitch := Nat.succ_mul _ _
  have hcomm : r.height * r.pitch = r.pitch * r.height := Nat.mul_comm _ _
  omega

theorem pixel_add (x y i : Nat) :
    r.pixel x y + BitVec.ofNat 64 i =
      r.base + BitVec.ofNat 64 (y * r.pitch + (x * r.depth + i)) := by
  rw [pixel, BitVec.add_assoc, ← BitVec.ofNat_add, Nat.add_assoc]

/-- Different offsets within the raster are different addresses. -/
theorem offset_inj {j k : Nat} (hj : j < r.pitch * r.height) (hk : k < r.pitch * r.height)
    (h : r.base + BitVec.ofNat 64 j = r.base + BitVec.ofNat 64 k) : j = k := by
  have hspan := r.span
  bv_omega

/-- A line, and a place in it, from an offset. -/
theorem line_inj {y y' j j' : Nat} (hj : j < r.pitch) (hj' : j' < r.pitch)
    (h : y * r.pitch + j = y' * r.pitch + j') : y = y' ∧ j = j' := by
  have hpos : 0 < r.pitch := Nat.zero_lt_of_lt hj
  have hdiv : ∀ y j, j < r.pitch → (y * r.pitch + j) / r.pitch = y := by
    intro y j hj
    rw [Nat.mul_comm, Nat.mul_add_div hpos, Nat.div_eq_of_lt hj, Nat.add_zero]
  have hy : y = y' := by
    rw [← hdiv y j hj, h, hdiv y' j' hj']
  subst hy
  exact ⟨rfl, Nat.add_left_cancel h⟩

/-- Different pixels have no byte in common. -/
theorem pixel_apart {x y x' y' : Nat} (hx : x < r.width) (hy : y < r.height) (hx' : x' < r.width)
    (hy' : y' < r.height) (hne : (x, y) ≠ (x', y')) :
    ByteMem.Apart (r.pixel x y) r.depth (r.pixel x' y') r.depth := by
  intro i hi j hj heq
  rw [pixel_add, pixel_add] at heq
  have hoff := offset_inj (inSpan hy (inLine hx hi)) (inSpan hy' (inLine hx' hj)) heq
  rcases line_inj (inLine hx hi) (inLine hx' hj) hoff with ⟨hline, hplace⟩
  -- within a line the bytes of a pixel are consecutive
  have hcol : x = x' := by
    have hpos : 0 < r.depth := Nat.zero_lt_of_lt hi
    have hdiv : ∀ x i, i < r.depth → (x * r.depth + i) / r.depth = x := by
      intro x i hi
      rw [Nat.mul_comm, Nat.mul_add_div hpos, Nat.div_eq_of_lt hi, Nat.add_zero]
    rw [← hdiv x i hi, hplace, hdiv x' j hj]
  exact hne (by rw [hline, hcol])

theorem pixel_mem_region {x y i : Nat} (hx : x < r.width) (hy : y < r.height) (hi : i < r.depth) :
    r.pixel x y + BitVec.ofNat 64 i ∈ r.region :=
  ⟨y * r.pitch + (x * r.depth + i), inSpan hy (inLine hx hi), pixel_add x y i⟩

/-- A pixel has no more bytes than there are addresses. -/
theorem depth_le {x y : Nat} (hx : x < r.width) (hy : y < r.height) : r.depth ≤ 2 ^ 64 := by
  have hspan := r.span
  by_cases hzero : r.depth = 0
  · omega
  · have hlast := inSpan hy (inLine (i := r.depth - 1) hx (by omega))
    omega

/-! ## Pixels -/

theorem shows_plot {bs : List UInt8} (hbs : bs.length = r.depth) (h : r.Shows m pic) (x y : Nat) :
    r.Shows (r.plot m x y bs) (Function.update pic (x, y) bs) := by
  intro x' y' hx' hy'
  unfold plot
  by_cases hin : x < r.width ∧ y < r.height
  · rw [if_pos hin]
    by_cases hp : (x', y') = (x, y)
    · -- this pixel
      cases hp
      rw [Function.update_self]
      have hfits : bs.length ≤ 2 ^ 64 := by
        rw [hbs]
        exact depth_le hx' hy'
      have hload := ByteMem.load_store m (r.pixel x y) hfits
      rw [hbs] at hload
      exact hload
    · rw [Function.update_of_ne hp, ← h x' y' hx' hy']
      apply ByteMem.load_congr
      intro i hi
      apply ByteMem.store_ne
      intro j hj
      rw [hbs] at hj
      exact pixel_apart hx' hy' hin.1 hin.2 hp i hi j hj
  · -- off the raster nothing is shown
    have hp : (x', y') ≠ (x, y) := by
      intro hp
      cases hp
      exact hin ⟨hx', hy'⟩
    rw [if_neg hin, Function.update_of_ne hp]
    exact h x' y' hx' hy'

theorem plot_outside (m : ByteMem) {x y : Nat} {bs : List UInt8} (hbs : bs.length = r.depth)
    {a : Word} (ha : a ∉ r.region) : r.plot m x y bs a = m a := by
  unfold plot
  by_cases hin : x < r.width ∧ y < r.height
  · rw [if_pos hin]
    apply ByteMem.store_ne
    intro i hi heq
    rw [hbs] at hi
    apply ha
    rw [heq]
    exact pixel_mem_region hin.1 hin.2 hi
  · rw [if_neg hin]

/-- Nested loops that give some points the bytes `bs`. -/
theorem shows_paint {lo hi w : Nat} {on : Nat → Nat → Prop} {point : Nat → Nat → Nat × Nat}
    {body : Nat → Nat → ByteMem → ByteMem} {bs : List UInt8} {pic' : Picture}
    (hon : ∀ row col m pic, row < hi → col < w → r.Shows m pic → on row col →
      r.Shows (body row col m) (Function.update pic (point row col) bs))
    (hoff : ∀ row col m, ¬ on row col → body row col m = m)
    (hin : ∀ row col, lo ≤ row → row < hi → col < w → on row col → pic' (point row col) = bs)
    (hout : ∀ p, (∀ row col, lo ≤ row → row < hi → col < w → on row col → p ≠ point row col) →
      pic' p = pic p)
    (h : r.Shows m pic) : r.Shows (forRange lo hi (fun row => forRange 0 w (body row)) m) pic' := by
  classical
  -- the same loops on the picture
  let turn (row col : Nat) (pic : Picture) : Picture :=
    if on row col then Function.update pic (point row col) bs else pic
  have hloops : r.Shows (forRange lo hi (fun row => forRange 0 w (body row)) m)
      (forRange lo hi (fun row => forRange 0 w (turn row)) pic) := by
    apply forRange_rel _ h
    intro row _ hrow m pic hm
    apply forRange_rel _ hm
    intro col _ hcol m pic hm
    show r.Shows (body row col m)
      (if on row col then Function.update pic (point row col) bs else pic)
    by_cases hbit : on row col
    · rw [if_pos hbit]
      exact hon row col m pic hrow hcol hm hbit
    · rw [if_neg hbit, hoff row col m hbit]
      exact hm
  have hturn : ∀ row col,
      Overlays (turn row col) {p | on row col ∧ p = point row col} fun _ => bs := by
    intro row col
    constructor
    · rintro pic p ⟨hbit, rfl⟩
      show (if on row col then Function.update pic (point row col) bs else pic) _ = bs
      rw [if_pos hbit, Function.update_self]
    · intro pic p hp
      show (if on row col then Function.update pic (point row col) bs else pic) p = pic p
      by_cases hbit : on row col
      · rw [if_pos hbit]
        exact Function.update_of_ne (fun heq => hp ⟨hbit, heq⟩) _ _
      · rw [if_neg hbit]
  have hall := overlays_forRange (fun row => overlays_forRange (hturn row) 0 w) lo hi
  apply hloops.congr
  intro x y _ _
  by_cases hp : (x, y) ∈ {p | ∃ row, lo ≤ row ∧ row < hi ∧
      p ∈ {p | ∃ col, 0 ≤ col ∧ col < w ∧ p ∈ {p | on row col ∧ p = point row col}}}
  · have hpaint := hall.inside pic (x, y) hp
    rcases hp with ⟨row, hlo, hhi, col, _, hcol, hbit, hpoint⟩
    rw [hpaint, hpoint]
    exact (hin row col hlo hhi hcol hbit).symm
  · have hkeep := hall.outside pic (x, y) hp
    rw [hkeep]
    apply (hout (x, y) _).symm
    intro row col hlo hhi hcol hbit hpoint
    exact hp ⟨row, hlo, hhi, col, Nat.zero_le col, hcol, hbit, hpoint⟩

/-! ## Lines -/

/-- Move `n` lines, from line `k` on, to the top. -/
def shiftUp (r : Raster) (m : ByteMem) (k n : Nat) : ByteMem :=
  m.store r.base (m.load (r.base + BitVec.ofNat 64 (r.pitch * k)) (r.pitch * n))

/-- A byte after a move of lines. -/
theorem shiftUp_byte {k n : Nat} (hfits : n + k ≤ r.height) {o : Nat} (ho : o < r.pitch * n) :
    (r.shiftUp m k n) (r.base + BitVec.ofNat 64 o) =
      m (r.base + BitVec.ofNat 64 (r.pitch * k + o)) := by
  have hn : r.pitch * n ≤ r.pitch * r.height := Nat.mul_le_mul_left _ (by omega)
  have hlen := ByteMem.load_length m (r.base + BitVec.ofNat 64 (r.pitch * k)) (r.pitch * n)
  have hspan := r.span
  have hget := @ByteMem.store_getElem? m r.base
    (m.load (r.base + BitVec.ofNat 64 (r.pitch * k)) (r.pitch * n)) (by omega) o (by omega)
  have hsrc := ByteMem.load_getElem? m (r.base + BitVec.ofNat 64 (r.pitch * k)) ho
  rw [hsrc, BitVec.add_assoc, ← BitVec.ofNat_add] at hget
  exact (Option.some.inj hget).symm

theorem shiftUp_outside (m : ByteMem) {k n : Nat} {a : Word}
    (ha : ∀ o, o < r.pitch * n → a ≠ r.base + BitVec.ofNat 64 o) : (r.shiftUp m k n) a = m a := by
  apply ByteMem.store_ne
  intro o ho
  rw [ByteMem.load_length] at ho
  exact ha o ho

theorem shiftUp_outside_region (m : ByteMem) {k n : Nat} (hfits : n + k ≤ r.height) {a : Word}
    (ha : a ∉ r.region) : (r.shiftUp m k n) a = m a := by
  apply shiftUp_outside
  intro o ho heq
  have hn : r.pitch * n ≤ r.pitch * r.height := Nat.mul_le_mul_left _ (by omega)
  exact ha ⟨o, Nat.lt_of_lt_of_le ho hn, heq⟩

theorem shows_shiftUp (h : r.Shows m pic) {k n : Nat} (hfits : n + k ≤ r.height) :
    r.Shows (r.shiftUp m k n) fun p => if p.2 < n then pic (p.1, p.2 + k) else pic p := by
  intro x y hx hy
  by_cases hmoved : y < n
  · -- the line was `k` lines below
    show (r.shiftUp m k n).load (r.pixel x y) r.depth =
      if y < n then pic (x, y + k) else pic (x, y)
    have hsrc := h x (y + k) hx (by omega)
    rw [if_pos hmoved, ← hsrc]
    apply List.ext_getElem?
    intro i
    by_cases hi : i < r.depth
    · have hline := inLine hx hi
      have ho : y * r.pitch + (x * r.depth + i) < r.pitch * n := by
        have hnext : (y + 1) * r.pitch ≤ n * r.pitch := Nat.mul_le_mul_right _ hmoved
        have hsplit : (y + 1) * r.pitch = y * r.pitch + r.pitch := Nat.succ_mul _ _
        have hcomm : n * r.pitch = r.pitch * n := Nat.mul_comm _ _
        omega
      have hoff : r.pitch * k + (y * r.pitch + (x * r.depth + i)) =
          (y + k) * r.pitch + (x * r.depth + i) := by
        rw [Nat.add_mul, Nat.mul_comm r.pitch k]
        omega
      rw [ByteMem.load_getElem? _ _ hi, ByteMem.load_getElem? _ _ hi, pixel_add, pixel_add,
        shiftUp_byte hfits ho, hoff]
    · rw [List.getElem?_eq_none (by rw [ByteMem.load_length]; omega),
        List.getElem?_eq_none (by rw [ByteMem.load_length]; omega)]
  · show (r.shiftUp m k n).load (r.pixel x y) r.depth =
      if y < n then pic (x, y + k) else pic (x, y)
    rw [if_neg hmoved, ← h x y hx hy]
    apply ByteMem.load_congr
    intro i hi
    apply shiftUp_outside
    intro o ho heq
    rw [pixel_add] at heq
    have hn : r.pitch * n ≤ r.pitch * r.height := Nat.mul_le_mul_left _ (by omega)
    have hsame := offset_inj (inSpan hy (inLine hx hi)) (Nat.lt_of_lt_of_le ho hn) heq
    have hlow : n * r.pitch ≤ y * r.pitch := Nat.mul_le_mul_right _ (by omega)
    have hcomm : n * r.pitch = r.pitch * n := Nat.mul_comm _ _
    omega

end Raster

end Ceryx.Lib
