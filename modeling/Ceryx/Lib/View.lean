import Mathlib.Data.List.Basic

/-!
# Ceryx.Lib.View — views into memory

A view is an address and a length; what it shows is what lies there when it is
read. A memory is what a load from an address finds, `none` where the access
faults.

* `Spaces`: memory as programs see it, through the page tables of the current
  address space; the addresses from `top` on are the same in all of them.
* `View.eq_of_read`: a comparison compares what the view shows.
* `View.eq_congr`: it sees no other address.
* `View.read_drop`: a part of a view shows a part.
-/

namespace Ceryx.Lib

variable {α : Type}

/-! ## Memory -/

/-- Page tables byte by byte, over shared frames. -/
structure Spaces (α : Type) where
  top : Nat
  kernel : Nat → Option α
  frame : Nat → α
  table : Nat → Nat → Option Nat
  current : Nat

namespace Spaces

/-- A load from an address. -/
def load (m : Spaces α) (a : Nat) : Option α :=
  if a < m.top then (m.table m.current a).map m.frame else m.kernel a

/-- What happens below `top`. -/
inductive Op (α : Type) where
  /-- A store of the program that runs. -/
  | store (a : Nat) (x : α)
  /-- A page table gets an entry for a frame with this content. -/
  | map (space a frame : Nat) (x : α)
  /-- A range of addresses loses its entries. -/
  | unmap (space a size : Nat)
  | switch (space : Nat)

/-- A store where nothing is mapped has no effect. -/
def step (m : Spaces α) : Op α → Spaces α
  | .store a x =>
      if a < m.top then
        match m.table m.current a with
        | none => m
        | some f => { m with frame := fun g => if g = f then x else m.frame g }
      else m
  | .map space a f x =>
      { m with
        frame := fun g => if g = f then x else m.frame g
        table := fun s b => if s = space ∧ b = a then some f else m.table s b }
  | .unmap space a size =>
      { m with
        table := fun s b => if s = space ∧ a ≤ b ∧ b < a + size then none else m.table s b }
  | .switch space => { m with current := space }

@[simp] theorem step_top (m : Spaces α) (op : Op α) : (m.step op).top = m.top := by
  cases op with
  | store a x =>
      unfold step
      dsimp only
      split
      · split <;> rfl
      · rfl
  | map space a f x => rfl
  | unmap space a size => rfl
  | switch space => rfl

@[simp] theorem step_kernel (m : Spaces α) (op : Op α) : (m.step op).kernel = m.kernel := by
  cases op with
  | store a x =>
      unfold step
      dsimp only
      split
      · split <;> rfl
      · rfl
  | map space a f x => rfl
  | unmap space a size => rfl
  | switch space => rfl

/-- From `top` on nothing happens. -/
theorem load_step {m : Spaces α} {a : Nat} (h : m.top ≤ a) (op : Op α) :
    (m.step op).load a = m.load a := by
  unfold load
  rw [step_top, step_kernel, if_neg (Nat.not_lt.mpr h), if_neg (Nat.not_lt.mpr h)]

end Spaces

/-! ## Views -/

structure View where
  addr : Nat := 0
  size : Nat := 0
deriving DecidableEq, Repr

namespace View

/-- The addresses of a view. -/
def Covers (v : View) (a : Nat) : Prop := v.addr ≤ a ∧ a < v.addr + v.size

/-- All but the first `k` characters, at most all. -/
def drop (v : View) (k : Nat) : View := ⟨v.addr + min k v.size, v.size - k⟩

section
variable (load : Nat → Option α)

def readFrom : Nat → Nat → Option (List α)
  | _, 0 => some []
  | a, n + 1 => (load a).bind fun x => (readFrom (a + 1) n).map (x :: ·)

/-- What the view shows. -/
def read (v : View) : Option (List α) := readFrom load v.addr v.size

variable [DecidableEq α]

/-- Character by character, up to the first that differs. -/
def eqFrom : Nat → List α → Option Bool
  | _, [] => some true
  | a, x :: xs =>
      match load a with
      | none => none
      | some y => if y = x then eqFrom (a + 1) xs else some false

/-- `operator==`: first the sizes, then the characters. -/
def eq (v : View) (xs : List α) : Option Bool :=
  if v.size ≠ xs.length then some false else eqFrom load v.addr xs

end

/-! ## Reading -/

variable {load load' : Nat → Option α}

theorem readFrom_length {a n : Nat} {xs : List α} (h : readFrom load a n = some xs) :
    xs.length = n := by
  induction n generalizing a xs with
  | zero =>
      cases h
      rfl
  | succ n ih =>
      rcases Option.bind_eq_some_iff.mp h with ⟨x, _, hmap⟩
      rcases Option.map_eq_some_iff.mp hmap with ⟨ys, hys, rfl⟩
      rw [List.length_cons, ih hys]

theorem readFrom_drop {a n : Nat} {xs : List α} (h : readFrom load a n = some xs) (k : Nat) :
    readFrom load (a + min k n) (n - k) = some (xs.drop k) := by
  induction n generalizing a xs k with
  | zero =>
      cases h
      rw [Nat.zero_sub, List.drop_nil]
      rfl
  | succ n ih =>
      cases k with
      | zero => exact h
      | succ k =>
          rcases Option.bind_eq_some_iff.mp h with ⟨x, _, hmap⟩
          rcases Option.map_eq_some_iff.mp hmap with ⟨ys, hys, rfl⟩
          rw [List.drop_succ_cons, ← ih hys k, Nat.add_sub_add_right, Nat.succ_min_succ]
          congr 1
          omega

/-- A part of a view shows a part. -/
theorem read_drop {v : View} {xs : List α} (h : v.read load = some xs) (k : Nat) :
    (v.drop k).read load = some (xs.drop k) := readFrom_drop h k

/-- Two memories in which the view shows the same have the same there. -/
theorem readFrom_inj {a n : Nat} {xs : List α} (h : readFrom load a n = some xs)
    (h' : readFrom load' a n = some xs) {b : Nat} (hb : a ≤ b) (hlt : b < a + n) :
    load' b = load b := by
  induction n generalizing a xs with
  | zero => omega
  | succ n ih =>
      rcases Option.bind_eq_some_iff.mp h with ⟨x, hx, hmap⟩
      rcases Option.map_eq_some_iff.mp hmap with ⟨ys, hys, rfl⟩
      rcases Option.bind_eq_some_iff.mp h' with ⟨x', hx', hmap'⟩
      rcases Option.map_eq_some_iff.mp hmap' with ⟨ys', hys', heq⟩
      rcases List.cons_eq_cons.mp heq with ⟨rfl, rfl⟩
      by_cases hfirst : b = a
      · rw [hfirst, hx, hx']
      · exact ih hys hys' (by omega) (by omega)

theorem read_inj {v : View} {xs : List α} (h : v.read load = some xs)
    (h' : v.read load' = some xs) {a : Nat} (ha : v.Covers a) : load' a = load a :=
  readFrom_inj h h' ha.1 ha.2

/-! ## Comparing -/

variable [DecidableEq α]

theorem eqFrom_of_read {a : Nat} {xs ys : List α} (h : readFrom load a xs.length = some ys) :
    eqFrom load a xs = some (decide (ys = xs)) := by
  -- the comparison stops at the first difference, where the lists differ too
  induction xs generalizing a ys with
  | nil =>
      cases h
      rfl
  | cons x xs ih =>
      rcases Option.bind_eq_some_iff.mp h with ⟨y, hy, hmap⟩
      rcases Option.map_eq_some_iff.mp hmap with ⟨zs, hzs, rfl⟩
      unfold eqFrom
      rw [hy]
      dsimp only
      split
      · rename_i hsame
        rw [ih hzs, hsame]
        simp
      · rename_i hdiff
        simp [hdiff]

/-- A comparison compares what the view shows. -/
theorem eq_of_read {v : View} {xs ys : List α} (h : v.read load = some ys) :
    v.eq load xs = some (decide (ys = xs)) := by
  have hlength := readFrom_length h
  unfold eq
  split
  · rename_i hsize
    have hne : ys ≠ xs := by
      rintro rfl
      exact hsize hlength.symm
    rw [decide_eq_false hne]
  · rename_i hsize
    rw [Decidable.not_not] at hsize
    unfold read at h
    rw [hsize] at h
    exact eqFrom_of_read h

theorem readFrom_of_eqFrom {a : Nat} {xs : List α} (h : eqFrom load a xs = some true) :
    readFrom load a xs.length = some xs := by
  -- a comparison that comes out equal has read each element
  induction xs generalizing a with
  | nil => rfl
  | cons x xs ih =>
      unfold eqFrom at h
      cases hx : load a with
      | none =>
          rw [hx] at h
          cases h
      | some y =>
          rw [hx] at h
          dsimp only at h
          split at h
          · rename_i hsame
            rw [List.length_cons, readFrom, hx, ih h, hsame]
            rfl
          · cases h

/-- What compares as equal is what the view shows. -/
theorem read_of_eq {v : View} {xs : List α} (h : v.eq load xs = some true) :
    v.read load = some xs := by
  unfold eq at h
  split at h
  · cases h
  · rename_i hsize
    rw [Decidable.not_not] at hsize
    unfold read
    rw [hsize]
    exact readFrom_of_eqFrom h

theorem eqFrom_congr {a : Nat} {xs : List α}
    (h : ∀ b, a ≤ b → b < a + xs.length → load' b = load b) :
    eqFrom load' a xs = eqFrom load a xs := by
  induction xs generalizing a with
  | nil => rfl
  | cons x xs ih =>
      rw [List.length_cons] at h
      have hrest : eqFrom load' (a + 1) xs = eqFrom load (a + 1) xs := by
        apply ih
        intro b hb hlt
        exact h b (by omega) (by omega)
      unfold eqFrom
      rw [h a (Nat.le_refl a) (by omega), hrest]

/-- A comparison sees the addresses of the view and no other. -/
theorem eq_congr {v : View} (h : ∀ a, v.Covers a → load' a = load a) (xs : List α) :
    v.eq load' xs = v.eq load xs := by
  unfold eq
  split
  · rfl
  · rename_i hsize
    rw [Decidable.not_not] at hsize
    apply eqFrom_congr
    intro b hb hlt
    exact h b ⟨hb, by omega⟩

end View

end Ceryx.Lib
