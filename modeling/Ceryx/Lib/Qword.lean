import Mathlib.Algebra.Group.Nat.Defs
import Mathlib.Logic.Function.Basic
import Mathlib.Tactic.Common

/-!
# Ceryx.Lib.Qword — a memory of quadwords and a stack that grows down

Memory as a map from addresses to the quadword stored there, for programs that
access it only in aligned quadwords. `slot top i` is the address `i` quadwords
below `top`; `pushAll top vs` is the memory after `vs` has been pushed on a
stack whose pointer was `top`. Everything is modulo `2^64`, and the slots of one
stack are distinct as long as there are fewer than `2^61` of them.
`toNat_and_not_mask`: to clear the low bits is to round down.
-/

namespace Ceryx.Lib

/-- A 64-bit machine word. -/
abbrev Word := BitVec 64

/-- The quadword stored at each aligned address. -/
abbrev Mem := Word → Word

/-- Store one quadword. -/
def Mem.write (mem : Mem) (a v : Word) : Mem := Function.update mem a v

@[simp] theorem Mem.write_self (mem : Mem) (a v : Word) : mem.write a v a = v := by
  simp [Mem.write]

theorem Mem.write_ne (mem : Mem) {a b : Word} (v : Word) (h : b ≠ a) : mem.write a v b = mem b := by
  simp [Mem.write, h]

/-! ## Slots -/

/-- The address `i` quadwords below `top`. -/
def slot (top : Word) (i : Nat) : Word := top - BitVec.ofNat 64 (8 * i)

@[simp] theorem slot_zero (top : Word) : slot top 0 = top := by simp [slot]

theorem slot_sub (top : Word) (i : Nat) : slot top i - 8 = slot top (i + 1) := by
  unfold slot
  bv_omega

theorem slot_slot (top : Word) (i j : Nat) : slot (slot top i) j = slot top (i + j) := by
  unfold slot
  bv_omega

/-- Two slots of one stack are the same only if they have the same index. -/
theorem slot_inj {top : Word} {i j : Nat} (hi : i < 2 ^ 61) (hj : j < 2 ^ 61)
    (h : slot top i = slot top j) : i = j := by
  unfold slot at h
  bv_omega

theorem slot_ne {top : Word} {i j : Nat} (hi : i < 2 ^ 61) (hj : j < 2 ^ 61) (h : i ≠ j) :
    slot top i ≠ slot top j := fun he => h (slot_inj hi hj he)

theorem slot_add {top : Word} {i j : Nat} (h : j ≤ i) :
    slot top i + BitVec.ofNat 64 (8 * j) = slot top (i - j) := by
  unfold slot
  have hsplit : 8 * i = 8 * (i - j) + 8 * j := by omega
  rw [hsplit, BitVec.ofNat_add]
  bv_omega

/-! ## Pushing several values -/

/-- The memory after `vs` has been pushed, in order, on the stack at `top`. -/
def pushAll : Word → List Word → Mem → Mem
  | _, [], mem => mem
  | top, v :: vs, mem => pushAll (top - 8) vs (mem.write (top - 8) v)

theorem slot_succ (top : Word) (i : Nat) : slot (top - 8) i = slot top (i + 1) := by
  unfold slot
  bv_omega

theorem pushAll_append (vs ws : List Word) (top : Word) (mem : Mem) :
    pushAll top (vs ++ ws) mem = pushAll (slot top vs.length) ws (pushAll top vs mem) := by
  induction vs generalizing top mem with
  | nil => simp [pushAll]
  | cons v vs ih =>
      rw [List.cons_append, pushAll, ih, slot_succ]
      rfl

/-- Addresses that are none of the slots keep their contents. -/
theorem pushAll_frame {vs : List Word} {top : Word} {mem : Mem} {a : Word}
    (h : ∀ k, k < vs.length → a ≠ slot top (k + 1)) : pushAll top vs mem a = mem a := by
  induction vs generalizing top mem with
  | nil => rfl
  | cons v vs ih =>
      have h0 : a ≠ top - 8 := by
        have := h 0 (Nat.zero_lt_succ _)
        rwa [← slot_sub, slot_zero] at this
      rw [pushAll, ih, Mem.write_ne mem v h0]
      intro k hk
      rw [slot_succ]
      exact h (k + 1) (Nat.succ_lt_succ hk)

/-- The value pushed as number `k` is found `k + 1` slots below the top. -/
theorem pushAll_slot {vs : List Word} {top : Word} {mem : Mem} {k : Nat} (hk : k < vs.length)
    (hlen : vs.length < 2 ^ 61) : pushAll top vs mem (slot top (k + 1)) = vs[k] := by
  induction vs generalizing top mem k with
  | nil => exact absurd hk (Nat.not_lt_zero k)
  | cons v vs ih =>
      have hlen' : vs.length + 1 < 2 ^ 61 := hlen
      cases k with
      | zero =>
          rw [pushAll, pushAll_frame, ← slot_sub, slot_zero, Mem.write_self]
          · rfl
          · intro k hk'
            have hk'' : k < vs.length := hk'
            rw [slot_succ]
            exact slot_ne (by omega) (by omega) (by omega)
      | succ k =>
          rw [pushAll, ← slot_succ, ih (Nat.lt_of_succ_lt_succ hk) (Nat.lt_of_succ_lt hlen)]
          rfl

/-! ## Writing the fields of a structure -/

/-- Store fields at offsets from `base`, one after the other. -/
def Mem.writeFields (mem : Mem) (base : Word) : List (Word × Word) → Mem
  | [] => mem
  | (off, v) :: fs => (mem.write (base + off) v).writeFields base fs

theorem Mem.writeFields_frame {fs : List (Word × Word)} {mem : Mem} {base a : Word}
    (h : ∀ f ∈ fs, a ≠ base + f.1) : mem.writeFields base fs a = mem a := by
  induction fs generalizing mem with
  | nil => rfl
  | cons f fs ih =>
      obtain ⟨off, v⟩ := f
      rw [writeFields, ih fun g hg => h g (List.mem_cons_of_mem _ hg)]
      exact Mem.write_ne _ _ (h (off, v) List.mem_cons_self)

/-- Fields at distinct offsets are read back as written. -/
theorem Mem.writeFields_get {fs : List (Word × Word)} {mem : Mem} {base off v : Word}
    (hnd : (fs.map Prod.fst).Nodup) (hmem : (off, v) ∈ fs) :
    mem.writeFields base fs (base + off) = v := by
  induction fs generalizing mem with
  | nil => exact absurd hmem List.not_mem_nil
  | cons f fs ih =>
      obtain ⟨off', v'⟩ := f
      obtain ⟨hnot, hnd'⟩ := List.nodup_cons.mp hnd
      rw [writeFields]
      rcases List.mem_cons.mp hmem with heq | htail
      · cases heq
        rw [writeFields_frame, Mem.write_self]
        intro g hg he
        have hoff : off = g.1 := by bv_omega
        exact hnot (List.mem_map.mpr ⟨g, hg, hoff.symm⟩)
      · exact ih hnd' htail

/-- What is at an address afterwards depends only on what was there. -/
theorem Mem.writeFields_congr (fs : List (Word × Word)) {mem mem' : Mem} {base a : Word}
    (h : mem a = mem' a) : mem.writeFields base fs a = mem'.writeFields base fs a := by
  induction fs generalizing mem mem' with
  | nil => exact h
  | cons f fs ih =>
      obtain ⟨off, v⟩ := f
      apply ih
      by_cases ha : a = base + off
      · rw [ha, write_self, write_self]
      · rw [write_ne _ _ ha, write_ne _ _ ha, h]

/-- Zero `n` quadwords from `base` on. -/
def Mem.zero (mem : Mem) (base : Word) : Nat → Mem
  | 0 => mem
  | n + 1 => (mem.zero base n).write (base + BitVec.ofNat 64 (8 * n)) 0

theorem Mem.zero_get {mem : Mem} {base : Word} {n k : Nat} (hk : k < n) :
    mem.zero base n (base + BitVec.ofNat 64 (8 * k)) = 0 := by
  induction n with
  | zero => exact absurd hk (Nat.not_lt_zero k)
  | succ n ih =>
      rw [zero]
      by_cases heq : base + BitVec.ofNat 64 (8 * k) = base + BitVec.ofNat 64 (8 * n)
      · rw [heq, Mem.write_self]
      · rw [Mem.write_ne _ _ heq]
        apply ih
        have hne : k ≠ n := by
          rintro rfl
          exact heq rfl
        omega

theorem Mem.zero_frame {mem : Mem} {base a : Word} {n : Nat}
    (h : ∀ k, k < n → a ≠ base + BitVec.ofNat 64 (8 * k)) : mem.zero base n a = mem a := by
  induction n with
  | zero => rfl
  | succ n ih =>
      have hrest := ih fun k hk => h k (Nat.lt_succ_of_lt hk)
      rw [zero, write_ne _ _ (h n (Nat.lt_succ_self n)), hrest]

/-! ## Alignment -/

theorem getLsbD_mask (k i : Nat) (hi : i < 64) :
    (BitVec.ofNat 64 (2 ^ k - 1)).getLsbD i = decide (i < k) := by
  rw [BitVec.getLsbD_ofNat, Nat.testBit_two_pow_sub_one]
  simp [hi]

/-- Clearing the low `k` bits rounds down to a multiple of `2 ^ k`. -/
theorem toNat_and_not_mask (x : Word) (k : Nat) :
    (x &&& ~~~BitVec.ofNat 64 (2 ^ k - 1)).toNat = x.toNat / 2 ^ k * 2 ^ k := by
  have hbits : x &&& ~~~BitVec.ofNat 64 (2 ^ k - 1) = x >>> k <<< k := by
    apply BitVec.eq_of_getLsbD_eq
    intro i hi
    rw [BitVec.getLsbD_and, BitVec.getLsbD_not, getLsbD_mask k i hi, BitVec.getLsbD_shiftLeft,
      BitVec.getLsbD_ushiftRight]
    by_cases hik : i < k
    · simp [hik]
    · have hsum : k + (i - k) = i := by omega
      simp [hi, hik, hsum]
  have hle : x.toNat / 2 ^ k * 2 ^ k ≤ x.toNat := Nat.div_mul_le_self _ _
  rw [hbits, BitVec.toNat_shiftLeft, BitVec.toNat_ushiftRight, Nat.shiftLeft_eq,
    Nat.shiftRight_eq_div_pow]
  exact Nat.mod_eq_of_lt (Nat.lt_of_le_of_lt hle x.isLt)

end Ceryx.Lib
