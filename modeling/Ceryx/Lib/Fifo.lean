import Mathlib.Data.List.Basic

/-!
# Ceryx.Lib.Fifo — a bounded first-in first-out buffer

A buffer that never holds more than its capacity, with a push that fails
exactly when it is full and a pop that fails exactly when it is empty.

* `pushMany` and `popMany` repeat them until they fail or nothing is left to do.
* `popMany_items`, `pushMany_items`: what is taken comes off the front and what
  is pushed goes behind the rest, in order.
* `ofTag`: what one party has put into a log that many write to.
-/

namespace Ceryx.Lib

universe u

structure Fifo (α : Type u) (capacity : Nat) where
  items : List α
  fits : items.length ≤ capacity

namespace Fifo

variable {α : Type u} {capacity : Nat}

/-- The buffer without elements. -/
def empty : Fifo α capacity := ⟨[], Nat.zero_le _⟩

def push? (q : Fifo α capacity) (a : α) : Option (Fifo α capacity) :=
  if h : q.items.length < capacity then
    some ⟨q.items ++ [a], by rw [List.length_append]; exact h⟩
  else none

def pop? : Fifo α capacity → Option (α × Fifo α capacity)
  | ⟨[], _⟩ => none
  | ⟨a :: rest, h⟩ => some (a, ⟨rest, Nat.le_of_succ_le h⟩)

/-- Push the elements of a list until one does not fit; how many did. -/
def pushMany : List α → Fifo α capacity → Nat × Fifo α capacity
  | [], q => (0, q)
  | a :: as, q =>
      match q.push? a with
      | none => (0, q)
      | some q' => ((pushMany as q').1 + 1, (pushMany as q').2)

/-- Pop up to `n` elements. -/
def popMany : Nat → Fifo α capacity → List α × Fifo α capacity
  | 0, q => ([], q)
  | n + 1, q =>
      match q.pop? with
      | none => ([], q)
      | some (a, q') => (a :: (popMany n q').1, (popMany n q').2)

/-! ## One element -/

/-- `push?` fails exactly when the buffer is full. -/
theorem push?_eq_none {q : Fifo α capacity} {a : α} :
    q.push? a = none ↔ q.items.length = capacity := by
  unfold push?
  split
  · rename_i h
    exact iff_of_false (by simp) (Nat.ne_of_lt h)
  · rename_i h
    exact iff_of_true rfl (Nat.le_antisymm q.fits (Nat.le_of_not_lt h))

theorem push?_items {q q' : Fifo α capacity} {a : α} (h : q.push? a = some q') :
    q'.items = q.items ++ [a] := by
  unfold push? at h
  split at h
  · cases h
    rfl
  · cases h

/-- `pop?` fails exactly when the buffer is empty. -/
theorem pop?_eq_none {q : Fifo α capacity} : q.pop? = none ↔ q.items = [] := by
  rcases q with ⟨_ | ⟨a, rest⟩, h⟩
  · exact iff_of_true rfl rfl
  · exact iff_of_false (by simp [pop?]) (by simp)

theorem pop?_items {q q' : Fifo α capacity} {a : α} (h : q.pop? = some (a, q')) :
    q.items = a :: q'.items := by
  rcases q with ⟨_ | ⟨b, rest⟩, hfits⟩
  · cases h
  · cases h
    rfl

/-! ## Many elements -/

theorem popMany_items (n : Nat) (q : Fifo α capacity) :
    (popMany n q).1 ++ (popMany n q).2.items = q.items := by
  induction n generalizing q with
  | zero => rfl
  | succ n ih =>
      unfold popMany
      cases hpop : q.pop? with
      | none => rfl
      | some res =>
          rw [pop?_items hpop]
          exact congrArg (res.1 :: ·) (ih res.2)

/-- What is taken and what is left. -/
theorem popMany_eq (n : Nat) (q : Fifo α capacity) :
    (popMany n q).1 = q.items.take n ∧ (popMany n q).2.items = q.items.drop n := by
  induction n generalizing q with
  | zero => exact ⟨rfl, rfl⟩
  | succ n ih =>
      unfold popMany
      cases hpop : q.pop? with
      | none =>
          rw [pop?_eq_none.mp hpop]
          exact ⟨rfl, rfl⟩
      | some res =>
          obtain ⟨htake, hdrop⟩ := ih res.2
          rw [pop?_items hpop]
          exact ⟨congrArg (res.1 :: ·) htake, hdrop⟩

theorem popMany_length_le (n : Nat) (q : Fifo α capacity) : (popMany n q).1.length ≤ n := by
  induction n generalizing q with
  | zero => exact Nat.le_refl 0
  | succ n ih =>
      unfold popMany
      cases q.pop? with
      | none => exact Nat.zero_le _
      | some res => exact Nat.succ_le_succ (ih res.2)

/-- A nonempty buffer gives something up to a nonzero request. -/
theorem popMany_ne_nil {n : Nat} {q : Fifo α capacity} (hn : n ≠ 0) (hq : q.items ≠ []) :
    (popMany n q).1 ≠ [] := by
  cases n with
  | zero => contradiction
  | succ n =>
      unfold popMany
      cases hpop : q.pop? with
      | none => exact absurd (pop?_eq_none.mp hpop) hq
      | some res => simp

theorem pushMany_le (as : List α) (q : Fifo α capacity) : (pushMany as q).1 ≤ as.length := by
  induction as generalizing q with
  | nil => exact Nat.le_refl 0
  | cons a as ih =>
      unfold pushMany
      cases q.push? a with
      | none => exact Nat.zero_le _
      | some q' => exact Nat.succ_le_succ (ih q')

theorem pushMany_items (as : List α) (q : Fifo α capacity) :
    (pushMany as q).2.items = q.items ++ as.take (pushMany as q).1 := by
  induction as generalizing q with
  | nil => simp [pushMany]
  | cons a as ih =>
      unfold pushMany
      cases hpush : q.push? a with
      | none => simp
      | some q' =>
          dsimp only
          rw [ih, push?_items hpush, List.take_succ_cons, List.append_assoc]
          rfl

/-- Something is pushed when there is room for it. -/
theorem pushMany_pos {as : List α} {q : Fifo α capacity} (has : as ≠ [])
    (hroom : q.items.length < capacity) : 0 < (pushMany as q).1 := by
  cases as with
  | nil => contradiction
  | cons a as =>
      unfold pushMany
      cases hpush : q.push? a with
      | none => exact absurd (push?_eq_none.mp hpush) (Nat.ne_of_lt hroom)
      | some q' => exact Nat.succ_pos _

end Fifo

/-! ## Logs that many write to -/

variable {α : Type u}

/-- The entries with the tag `i`, in order. -/
def ofTag (i : Nat) (log : List (Nat × α)) : List α :=
  (log.filter fun e => e.1 = i).map Prod.snd

/-- Elements as entries of `i`. -/
def tagged (i : Nat) (as : List α) : List (Nat × α) := as.map fun a => (i, a)

@[simp] theorem tagged_snd (i : Nat) (as : List α) : (tagged i as).map Prod.snd = as := by
  simp [tagged, Function.comp_def]

@[simp] theorem ofTag_tagged (i : Nat) (as : List α) : ofTag i (tagged i as) = as := by
  induction as with
  | nil => rfl
  | cons a as ih =>
      have hcons : ofTag i (tagged i (a :: as)) = a :: ofTag i (tagged i as) := by
        simp [ofTag, tagged]
      rw [hcons, ih]

theorem ofTag_tagged_ne {i j : Nat} (h : j ≠ i) (as : List α) : ofTag j (tagged i as) = [] := by
  simp [ofTag, tagged, Ne.symm h]

theorem ofTag_append (i : Nat) (log log' : List (Nat × α)) :
    ofTag i (log ++ log') = ofTag i log ++ ofTag i log' := by
  simp [ofTag]

end Ceryx.Lib
