import Mathlib.Algebra.Order.Group.Nat
import Ceryx.Lib.ByteMem

/-!
# Ceryx.Lib.Records — records and bit fields in a memory of bytes

* `bitField v lo n`: the `n` bits of a number from bit `lo` on. `bitField_eq` reads a
  field of a packed number, `bitField_add` puts two neighbours together.
* `ofLE_append`: the number of two byte strings, one behind the other.
* `load_part`: a part of the bytes that a load gives.
* `load_store_splice`: what is stored inside of a byte string replaces a part of it.
* `drop_flatMap`: in a table of records of one size, a record is at the multiple of
  the size that its index says.
-/

namespace Ceryx.Lib

/-- The `n` bits from bit `lo` on. -/
def bitField (v lo n : Nat) : Nat := v / 2 ^ lo % 2 ^ n

/-- What is between the bits below and the bits above. -/
theorem bitField_eq {v a x b lo n : Nat} (hv : v = a + 2 ^ lo * (x + 2 ^ n * b))
    (ha : a < 2 ^ lo) (hx : x < 2 ^ n) : bitField v lo n = x := by
  rw [bitField, hv, Nat.add_mul_div_left _ _ (Nat.two_pow_pos lo), Nat.div_eq_of_lt ha,
    Nat.zero_add, Nat.add_mul_mod_self_left, Nat.mod_eq_of_lt hx]

theorem bitField_zero (v n : Nat) : bitField v 0 n = v % 2 ^ n := by
  rw [bitField, Nat.pow_zero, Nat.div_one]

theorem bitField_lt (v lo n : Nat) : bitField v lo n < 2 ^ n := Nat.mod_lt _ (Nat.two_pow_pos n)

/-- Two neighbouring fields. -/
theorem bitField_add (v lo n k : Nat) :
    bitField v lo n + 2 ^ n * bitField v (lo + n) k = bitField v lo (n + k) := by
  rw [bitField, bitField, bitField, Nat.pow_add, Nat.pow_add, ← Nat.div_div_eq_div_mul, Nat.mod_mul]

theorem ofLE_append (xs ys : List UInt8) :
    ofLE (xs ++ ys) = ofLE xs + 256 ^ xs.length * ofLE ys := by
  induction xs with
  | nil =>
      rw [List.nil_append, ofLE, List.length_nil, Nat.pow_zero, Nat.one_mul, Nat.zero_add]
  | cons x xs ih =>
      rw [List.cons_append, ofLE, ofLE, ih, List.length_cons, Nat.pow_succ', Nat.mul_add,
        Nat.mul_assoc, Nat.add_assoc]

theorem ofLE_lt (xs : List UInt8) : ofLE xs < 256 ^ xs.length := by
  induction xs with
  | nil => exact Nat.one_pos
  | cons x xs ih =>
      have hx := x.toNat_lt
      rw [ofLE, List.length_cons, Nat.pow_succ']
      omega

namespace ByteMem

/-- A part of what is loaded. -/
theorem load_part (m : ByteMem) (a : Word) {k n len : Nat} (h : k + n ≤ len) :
    m.load (a + BitVec.ofNat 64 k) n = ((m.load a len).drop k).take n := by
  apply List.ext_getElem?
  intro i
  by_cases hi : i < n
  · have hadd : a + BitVec.ofNat 64 k + BitVec.ofNat 64 i = a + BitVec.ofNat 64 (k + i) := by
      rw [BitVec.add_assoc, BitVec.ofNat_add]
    rw [load_getElem? _ _ hi, List.getElem?_take_of_lt hi, List.getElem?_drop,
      load_getElem? _ _ (show k + i < len by omega), hadd]
  · have hout : (((m.load a len).drop k).take n).length ≤ i := by
      rw [List.length_take]
      omega
    rw [List.getElem?_eq_none hout, List.getElem?_eq_none (by rw [load_length]; omega)]

/-- A store inside of the `n` bytes from `a`. -/
theorem load_store_splice (m : ByteMem) (a : Word) {bs : List UInt8} {k n : Nat}
    (h : k + bs.length ≤ n) (hn : n ≤ 2 ^ 64) :
    (m.store (a + BitVec.ofNat 64 k) bs).load a n =
      (m.load a n).take k ++ bs ++ (m.load a n).drop (k + bs.length) := by
  have hk : ((m.load a n).take k).length = k := by
    rw [List.length_take, load_length]
    omega
  apply List.ext_getElem?
  intro i
  by_cases hi : i < n
  · rw [load_getElem? _ _ hi]
    by_cases hin : k ≤ i ∧ i < k + bs.length
    · -- a byte that is stored
      have hbyte := @store_getElem? m (a + BitVec.ofNat 64 k) bs (by omega) (i - k) (by omega)
      have haddr : a + BitVec.ofNat 64 k + BitVec.ofNat 64 (i - k) = a + BitVec.ofNat 64 i := by
        rw [BitVec.add_assoc, ← BitVec.ofNat_add, Nat.add_sub_cancel' hin.1]
      rw [haddr] at hbyte
      rw [List.append_assoc, List.getElem?_append_right (by omega), hk,
        List.getElem?_append_left (by omega), hbyte]
    · have hsame : (m.store (a + BitVec.ofNat 64 k) bs) (a + BitVec.ofNat 64 i) =
          m (a + BitVec.ofNat 64 i) := by
        apply store_ne
        intro j hj heq
        bv_omega
      rw [hsame]
      by_cases hbefore : i < k
      · rw [List.append_assoc, List.getElem?_append_left (by omega),
          List.getElem?_take_of_lt hbefore, load_getElem? _ _ hi]
      · have hbehind : k + bs.length + (i - (k + bs.length)) = i := by omega
        rw [List.getElem?_append_right (by rw [List.length_append]; omega), List.getElem?_drop,
          List.length_append, hk, hbehind, load_getElem? _ _ hi]
  · have hlen : ((m.load a n).take k ++ bs ++ (m.load a n).drop (k + bs.length)).length = n := by
      rw [List.length_append, List.length_append, hk, List.length_drop, load_length]
      omega
    rw [List.getElem?_eq_none (by rw [load_length]; omega),
      List.getElem?_eq_none (by rw [hlen]; omega)]

end ByteMem

/-! ## Tables -/

section
variable {α β : Type}

/-- A part that is in the first of two strings. -/
theorem part_append {xs ys : List β} {k n : Nat} (h : k + n ≤ xs.length) :
    ((xs ++ ys).drop k).take n = (xs.drop k).take n := by
  have hlen : n ≤ (xs.drop k).length := by
    rw [List.length_drop]
    omega
  rw [List.drop_append_of_le_length (by omega), List.take_append_of_le_length hlen]

/-- The second of two strings. -/
theorem part_right {xs ys : List β} {k n : Nat} (hk : xs.length = k) (hn : ys.length = n) :
    ((xs ++ ys).drop k).take n = ys := by
  rw [List.drop_left' hk, ← hn, List.take_length]

/-- Record `i` of a table. -/
theorem drop_flatMap {f : α → List β} {n : Nat} {xs : List α} (hn : ∀ x ∈ xs, (f x).length = n)
    {i : Nat} {x : α} (hx : xs[i]? = some x) : ((xs.flatMap f).drop (n * i)).take n = f x := by
  -- over the records, the skipped length going down by one record a time
  induction xs generalizing i with
  | nil => cases hx
  | cons y ys ih =>
      have hy := hn y List.mem_cons_self
      rw [List.flatMap_cons]
      cases i with
      | zero =>
          cases hx
          rw [Nat.mul_zero, List.drop_zero, ← hy, List.take_left]
      | succ i =>
          have hrest := ih (fun z hz => hn z (List.mem_cons_of_mem y hz)) hx
          have hoff : n * (i + 1) = (f y).length + n * i := by
            rw [hy, Nat.mul_succ, Nat.add_comm]
          rw [hoff, List.drop_append, Nat.add_sub_cancel_left, hrest.symm]
          have hdrop : List.drop ((f y).length + n * i) (f y) = [] :=
            List.drop_eq_nil_of_le (Nat.le_add_right _ _)
          rw [hdrop, List.nil_append]

theorem flatMap_length {f : α → List β} {n : Nat} {xs : List α} (hn : ∀ x ∈ xs, (f x).length = n) :
    (xs.flatMap f).length = n * xs.length := by
  induction xs with
  | nil => rfl
  | cons y ys ih =>
      have hy := hn y List.mem_cons_self
      have hys := ih fun z hz => hn z (List.mem_cons_of_mem y hz)
      rw [List.flatMap_cons, List.length_append, hy, hys, List.length_cons, Nat.mul_succ,
        Nat.add_comm]

end

end Ceryx.Lib
