import Ceryx.Lib.LongDivision
import Ceryx.Lib.Qword

/-!
# Ceryx.Rt.CompilerRt — arithmetic on 128 bits

`compiler_rt.cpp`: the unsigned division with its four paths, the signed division
around it, and the product.

* `divq` and `mulq` are the instructions; `divq` traps unless the high half of the
  dividend is below the divisor.
* `divLoop_spec`: the shift-and-subtract loop is a division in the sense of
  `Ceryx.Lib.LongDivision`.
* `uDivMod128_divides`: on all paths the result is quotient and remainder, and no
  `divq` traps.
* `signed_coherent`: the signed division truncates, and product and remainder give
  the dividend back.
-/

namespace Ceryx.Rt

open Lib

abbrev U128 := BitVec 128

/-- Why a function does not return. -/
inductive Stop where
  /-- `FK_BUG_ON`. -/
  | bug
  /-- `#DE`. -/
  | divideError
deriving DecidableEq, Repr

/-! ## Unsigned division -/

/-- `U128Parts`. -/
structure U128Parts where
  lo : Word
  hi : Word

/-- `Split`. -/
def split (v : U128) : U128Parts := ⟨v.setWidth 64, (v >>> 64).setWidth 64⟩

/-- `Join`. -/
def join (hi lo : Word) : U128 := (hi.setWidth 128 <<< 64) ||| lo.setWidth 128

/-- `divq` with the dividend in rdx and rax: the quotient and the remainder. -/
def divq (rdx rax divisor : Word) : Except Stop (Word × Word) :=
  if rdx < divisor then
    .ok
      (((join rdx rax) / divisor.setWidth 128).setWidth 64,
        ((join rdx rax) % divisor.setWidth 128).setWidth 64)
  else .error .divideError

/-- The loop of the general case, for the turns left: `q`, `r` and `d_shifted`. -/
def divLoop : Nat → U128 → U128 → U128 → U128 × U128
  | 0, q, r, _ => (q, r)
  | turns + 1, q, r, dShifted =>
      let q := q <<< 1
      if dShifted ≤ r then divLoop turns (q ||| 1) (r - dShifted) (dShifted >>> 1)
      else divLoop turns q r (dShifted >>> 1)

/-- `UDivMod128`, with the quotient and the remainder. -/
def uDivMod128 (n d : U128) : Except Stop (U128 × U128) :=
  if d = 0 then .error .bug
  else
    let n' := split n
    let d' := split d
    if n'.hi = 0 ∧ d'.hi = 0 then
      .ok ((n'.lo / d'.lo).setWidth 128, (n'.lo % d'.lo).setWidth 128)
    else if d'.hi = 0 ∧ n'.hi < d'.lo then
      (divq n'.hi n'.lo d'.lo).map fun (q, r) => (q.setWidth 128, r.setWidth 128)
    else if d'.hi = 0 then
      (divq 0 n'.hi d'.lo).bind fun (qHi, rHi) =>
        (divq rHi n'.lo d'.lo).map fun (qLo, rLo) => (join qHi qLo, rLo.setWidth 128)
    else if n < d then .ok (0, n)
    else
      let shift := d'.hi.clz.toNat
      .ok (divLoop (shift + 1) 0 n (d <<< shift))

/-- `__udivti3`. -/
def udivti3 (n d : U128) : Except Stop U128 := (uDivMod128 n d).map Prod.fst

/-- `__umodti3`. -/
def umodti3 (n d : U128) : Except Stop U128 := (uDivMod128 n d).map Prod.snd

/-- `__udivmodti4`. -/
def udivmodti4 (n d : U128) : Except Stop (U128 × U128) := uDivMod128 n d

/-! ## Signed arithmetic -/

/-- `__divti3`. -/
def divti3 (n d : BitVec 128) : Except Stop (BitVec 128) :=
  if d = 0 then .error .bug
  else
    let neg := n.slt 0 != d.slt 0
    let un := if n.slt 0 then -n else n
    let ud := if d.slt 0 then -d else d
    (uDivMod128 un ud).map fun (uq, _) => if neg then -uq else uq

/-- `__modti3`. -/
def modti3 (n d : BitVec 128) : Except Stop (BitVec 128) :=
  if d = 0 then .error .bug
  else
    let neg := n.slt 0
    let un := if n.slt 0 then -n else n
    let ud := if d.slt 0 then -d else d
    (uDivMod128 un ud).map fun (_, rem) => if neg then -rem else rem

/-- `mulq` of rax: rdx and rax. -/
def mulq (rax v : Word) : Word × Word :=
  let product : U128 := rax.setWidth 128 * v.setWidth 128
  ((product >>> 64).setWidth 64, product.setWidth 64)

/-- `__multi3`. -/
def multi3 (a b : BitVec 128) : BitVec 128 :=
  let a' := split a
  let b' := split b
  let (carry, resultLo) := mulq a'.lo b'.lo
  join (carry + a'.lo * b'.hi + a'.hi * b'.lo) resultLo

/-! ## Halves -/

theorem split_lo_toNat (v : U128) : (split v).lo.toNat = v.toNat % 2 ^ 64 :=
  BitVec.toNat_setWidth 64 v

theorem split_hi_toNat (v : U128) : (split v).hi.toNat = v.toNat / 2 ^ 64 := by
  have hlt := v.isLt
  unfold split
  rw [BitVec.toNat_setWidth, BitVec.toNat_ushiftRight, Nat.shiftRight_eq_div_pow,
    Nat.mod_eq_of_lt]
  omega

theorem split_toNat (v : U128) : v.toNat = (split v).hi.toNat * 2 ^ 64 + (split v).lo.toNat := by
  rw [split_lo_toNat, split_hi_toNat]
  omega

theorem join_toNat (hi lo : Word) : (join hi lo).toNat = hi.toNat * 2 ^ 64 + lo.toNat := by
  have hhi := hi.isLt
  have hlo := lo.isLt
  unfold join
  rw [BitVec.toNat_or, BitVec.toNat_shiftLeft, BitVec.toNat_setWidth_of_le (by decide),
    BitVec.toNat_setWidth_of_le (by decide), Nat.shiftLeft_eq, Nat.mod_eq_of_lt (by omega),
    Nat.mul_comm, Nat.two_pow_add_eq_or_of_lt hlo]

/-- Below the guard, `divq` divides. -/
theorem divq_ok {rdx rax divisor : Word} (h : rdx < divisor) :
    ∃ q r, divq rdx rax divisor = .ok (q, r) ∧
      q.toNat = (rdx.toNat * 2 ^ 64 + rax.toNat) / divisor.toNat ∧
      r.toNat = (rdx.toNat * 2 ^ 64 + rax.toNat) % divisor.toNat := by
  have hlt : rdx.toNat < divisor.toNat := h
  have hdigit := digit_lt hlt rax.isLt
  have hmod := Nat.mod_lt (rdx.toNat * 2 ^ 64 + rax.toNat) (Nat.zero_lt_of_lt hlt)
  have hdivisor := divisor.isLt
  refine ⟨_, _, if_pos h, ?_, ?_⟩
  · rw [BitVec.toNat_setWidth, BitVec.toNat_udiv, join_toNat,
      BitVec.toNat_setWidth_of_le (by decide), Nat.mod_eq_of_lt hdigit]
  · rw [BitVec.toNat_setWidth, BitVec.toNat_umod, join_toNat,
      BitVec.toNat_setWidth_of_le (by decide), Nat.mod_eq_of_lt (hmod.trans hdivisor)]

/-! ## The loop -/

theorem shiftLeft_one_toNat {q : U128} (h : 2 * q.toNat < 2 ^ 128) : (q <<< 1).toNat = 2 * q.toNat := by
  rw [BitVec.toNat_shiftLeft, Nat.shiftLeft_eq, Nat.pow_one, Nat.mul_comm, Nat.mod_eq_of_lt h]

theorem shiftLeft_or_one_toNat {q : U128} (h : 2 * q.toNat < 2 ^ 128) :
    (q <<< 1 ||| 1).toNat = 2 * q.toNat + 1 := by
  have hone : (1 : U128).toNat = 1 := rfl
  rw [BitVec.toNat_or, shiftLeft_one_toNat h, hone]
  exact (Nat.two_pow_add_eq_or_of_lt (by decide : 1 < 2 ^ 1) q.toNat).symm

/-- The loop is a shift-and-subtract division. -/
theorem divLoop_spec {n d turns : Nat} {q r dShifted : U128} (hn : n < 2 ^ 128) (hd : 0 < d)
    (h : DivAt n d turns q.toNat r.toNat)
    (hshift : ∀ k, turns = k + 1 → dShifted.toNat = d * 2 ^ k) :
    DivAt n d 0 (divLoop turns q r dShifted).1.toNat (divLoop turns q r dShifted).2.toNat := by
  induction turns generalizing q r dShifted with
  | zero => exact h
  | succ k ih =>
      have hds := hshift k rfl
      have hbound : 2 * q.toNat < 2 ^ 128 := by
        have hq := h.lt_quotient hn hd
        have hle : q.toNat * 2 ≤ q.toNat * 2 ^ (k + 1) :=
          Nat.mul_le_mul_left _ (Nat.le_self_pow (Nat.succ_ne_zero k) 2)
        omega
      have hnext : ∀ k', k = k' + 1 → (dShifted >>> 1).toNat = d * 2 ^ k' := by
        rintro k' rfl
        rw [BitVec.toNat_ushiftRight, Nat.shiftRight_eq_div_pow, hds, Nat.pow_succ, ← Nat.mul_assoc]
        exact Nat.mul_div_cancel _ (by decide)
      unfold divLoop
      dsimp only
      split
      · -- the digit is 1
        rename_i hle
        have hle' : d * 2 ^ k ≤ r.toNat := by
          rw [← hds]
          exact hle
        apply ih _ hnext
        rw [shiftLeft_or_one_toNat hbound, BitVec.toNat_sub_of_le hle, hds]
        exact h.one hle'
      · rename_i hgt
        have hlt : r.toNat < d * 2 ^ k := by
          rw [← hds]
          exact BitVec.not_le.mp hgt
        apply ih _ hnext
        rw [shiftLeft_one_toNat hbound]
        exact h.zero hlt

/-! ## The four paths -/

/-- `q` and `r` are quotient and remainder. -/
def Divides (n d : U128) (res : Except Stop (U128 × U128)) : Prop :=
  ∃ q r, res = .ok (q, r) ∧ n.toNat = q.toNat * d.toNat + r.toNat ∧ r.toNat < d.toNat

section
variable {n d : U128}

theorem toNat_pos (hd : d ≠ 0) : 0 < d.toNat := by
  rcases Nat.eq_zero_or_pos d.toNat with hzero | hpos
  · exact absurd (BitVec.eq_of_toNat_eq hzero) hd
  · exact hpos

/-- A divisor of one half. -/
theorem toNat_of_hi_zero (h : (split d).hi = 0) : d.toNat = (split d).lo.toNat := by
  have hsplit := split_toNat d
  rw [h] at hsplit
  have hzero : (0 : Word).toNat = 0 := rfl
  omega

theorem narrow_divides (hd : 0 < d.toNat) (hn : (split n).hi = 0) (hdhi : (split d).hi = 0) :
    Divides n d
      (.ok (((split n).lo / (split d).lo).setWidth 128, ((split n).lo % (split d).lo).setWidth 128)) := by
  refine ⟨_, _, rfl, ?_⟩
  rw [BitVec.toNat_setWidth_of_le (by decide), BitVec.toNat_setWidth_of_le (by decide),
    BitVec.toNat_udiv, BitVec.toNat_umod, ← toNat_of_hi_zero hn, ← toNat_of_hi_zero hdhi]
  exact ⟨(Nat.div_add_mod' _ _).symm, Nat.mod_lt _ hd⟩

/-- One `divq`: the guard is its condition. -/
theorem oneStep_divides (hdhi : (split d).hi = 0) (hlt : (split n).hi < (split d).lo) :
    Divides n d
      ((divq (split n).hi (split n).lo (split d).lo).map
        fun (q, r) => (q.setWidth 128, r.setWidth 128)) := by
  obtain ⟨q, r, hdiv, hq, hr⟩ := @divq_ok _ (split n).lo _ hlt
  have hpos : 0 < (split d).lo.toNat := Nat.zero_lt_of_lt hlt
  refine ⟨q.setWidth 128, r.setWidth 128, ?_, ?_⟩
  · rw [hdiv]
    rfl
  · rw [BitVec.toNat_setWidth_of_le (by decide), BitVec.toNat_setWidth_of_le (by decide), hq, hr,
      ← split_toNat, toNat_of_hi_zero hdhi]
    exact ⟨(Nat.div_add_mod' _ _).symm, Nat.mod_lt _ hpos⟩

/-- Two `divq`: the remainder of the first is below the divisor. -/
theorem twoSteps_divides (hd : 0 < d.toNat) (hdhi : (split d).hi = 0) :
    Divides n d
      ((divq 0 (split n).hi (split d).lo).bind fun (qHi, rHi) =>
        (divq rHi (split n).lo (split d).lo).map fun (qLo, rLo) =>
          (join qHi qLo, rLo.setWidth 128)) := by
  have hlo := toNat_of_hi_zero hdhi
  have hpos : (0 : Word) < (split d).lo := by
    rw [hlo] at hd
    exact hd
  obtain ⟨qHi, rHi, hfirst, hqHi, hrHi⟩ := @divq_ok _ (split n).hi _ hpos
  have hzero : (0 : Word).toNat * 2 ^ 64 + (split n).hi.toNat = (split n).hi.toNat := by
    have hnat : (0 : Word).toNat = 0 := rfl
    rw [hnat, Nat.zero_mul, Nat.zero_add]
  rw [hzero, ← hlo] at hqHi hrHi
  -- the first remainder is below the divisor, so the second `divq` does not overflow
  have hcarry : rHi < (split d).lo := by
    rw [BitVec.lt_def, hrHi, ← hlo]
    exact Nat.mod_lt _ hd
  obtain ⟨qLo, rLo, hsecond, hqLo, hrLo⟩ := @divq_ok _ (split n).lo _ hcarry
  rw [hrHi, ← hlo] at hqLo hrLo
  refine ⟨join qHi qLo, rLo.setWidth 128, ?_, ?_, ?_⟩
  · rw [hfirst]
    show (divq rHi (split n).lo (split d).lo).map _ = _
    rw [hsecond]
    rfl
  · -- two digits to the base 2^64
    rw [BitVec.toNat_setWidth_of_le (by decide), join_toNat, hqHi, hqLo, hrLo, split_toNat n]
    exact div_two_digits _ _ _ _
  · rw [BitVec.toNat_setWidth_of_le (by decide), hrLo]
    exact Nat.mod_lt _ hd

/-- The general case: the divisor is shifted up to the highest bit. -/
theorem loop_divides (hdhi : (split d).hi ≠ 0) :
    Divides n d
      (.ok (divLoop ((split d).hi.clz.toNat + 1) 0 n (d <<< (split d).hi.clz.toNat))) := by
  have hclz := (BitVec.clz_lt_iff_ne_zero).mpr hdhi
  have hshift : (split d).hi.clz.toNat < 64 := hclz
  have hlow := BitVec.two_pow_sub_clz_le_toNat_of_ne_zero (by decide) hdhi
  have hhigh := @BitVec.toNat_lt_two_pow_sub_clz 64 (split d).hi
  generalize (split d).hi.clz.toNat = shift at *
  have hsplit := split_toNat d
  have hloBound := (split d).lo.isLt
  generalize (split d).hi.toNat = hi at *
  generalize (split d).lo.toNat = lo at *
  -- the highest bit of `d` is bit `127 - shift`
  have hbelow : n.toNat < d.toNat * 2 ^ (shift + 1) := by
    have hpow : 2 ^ (64 - 1 - shift) * 2 ^ (shift + 1) = 2 ^ 64 := by
      rw [← Nat.pow_add]
      congr 1
      omega
    calc n.toNat < 2 ^ 64 * 2 ^ 64 := n.isLt
      _ = 2 ^ (64 - 1 - shift) * 2 ^ 64 * 2 ^ (shift + 1) := by
          rw [Nat.mul_right_comm, hpow]
      _ ≤ d.toNat * 2 ^ (shift + 1) := by
          apply Nat.mul_le_mul_right
          rw [hsplit]
          exact (Nat.mul_le_mul_right _ hlow).trans (Nat.le_add_right _ _)
  have hfits : d.toNat * 2 ^ shift < 2 ^ 128 := by
    have hpow : 2 ^ (64 - shift) * 2 ^ shift = 2 ^ 64 := by
      rw [← Nat.pow_add]
      congr 1
      omega
    have hd : d.toNat < 2 ^ (64 - shift) * 2 ^ 64 := by
      rw [hsplit]
      have hle : (hi + 1) * 2 ^ 64 ≤ 2 ^ (64 - shift) * 2 ^ 64 := Nat.mul_le_mul_right _ hhigh
      omega
    calc d.toNat * 2 ^ shift < 2 ^ (64 - shift) * 2 ^ 64 * 2 ^ shift :=
          Nat.mul_lt_mul_of_pos_right hd (Nat.two_pow_pos shift)
      _ = 2 ^ 64 * 2 ^ 64 := by rw [Nat.mul_right_comm, hpow]
      _ = 2 ^ 128 := by rfl
  have hpos : 0 < d.toNat := by
    rcases Nat.eq_zero_or_pos d.toNat with hzero | hpos
    · rw [hzero, Nat.zero_mul] at hbelow
      exact absurd hbelow (Nat.not_lt_zero _)
    · exact hpos
  have hend := @divLoop_spec n.toNat d.toNat (shift + 1) 0 n (d <<< shift) n.isLt hpos
    (DivAt.start hbelow) (by
      intro k hk
      obtain rfl : shift = k := Nat.succ.inj hk
      rw [BitVec.toNat_shiftLeft, Nat.shiftLeft_eq, Nat.mod_eq_of_lt hfits])
  exact ⟨_, _, rfl, hend.done⟩

/-- The unsigned division is correct on all four paths, and does not stop. -/
theorem uDivMod128_divides (hd : d ≠ 0) : Divides n d (uDivMod128 n d) := by
  have hpos := toNat_pos hd
  unfold uDivMod128
  rw [if_neg hd]
  dsimp only
  split
  · rename_i hnarrow
    exact narrow_divides hpos hnarrow.1 hnarrow.2
  · split
    · rename_i hone
      exact oneStep_divides hone.1 hone.2
    · split
      · rename_i htwo
        exact twoSteps_divides hpos htwo
      · rename_i hwide
        split
        · -- the divisor is larger
          rename_i hlt
          refine ⟨0, n, rfl, ?_, hlt⟩
          have hzero : (0 : U128).toNat = 0 := rfl
          rw [hzero, Nat.zero_mul, Nat.zero_add]
        · exact loop_divides hwide

end

/-- For all dividends and all divisors but zero, the functions return quotient and
remainder, and no `divq` traps. -/
theorem unsigned_division (n d : U128) (hd : d ≠ 0) :
    ∃ q r, uDivMod128 n d = .ok (q, r) ∧ udivti3 n d = .ok q ∧ umodti3 n d = .ok r ∧
      udivmodti4 n d = .ok (q, r) ∧ n.toNat = q.toNat * d.toNat + r.toNat ∧ r.toNat < d.toNat := by
  obtain ⟨q, r, hdiv, heq, hlt⟩ := @uDivMod128_divides n d hd
  refine ⟨q, r, hdiv, ?_, ?_, hdiv, heq, hlt⟩
  · unfold udivti3
    rw [hdiv]
    rfl
  · unfold umodti3
    rw [hdiv]
    rfl

/-- The general case, with 64 turns of the loop. -/
theorem wide_division :
    ∃ q r, uDivMod128 0x80000000000000000000000000000005 0x10000000000000000 = .ok (q, r) ∧
      udivti3 0x80000000000000000000000000000005 0x10000000000000000 = .ok q ∧
      umodti3 0x80000000000000000000000000000005 0x10000000000000000 = .ok r ∧
      udivmodti4 0x80000000000000000000000000000005 0x10000000000000000 = .ok (q, r) ∧
      (0x80000000000000000000000000000005 : U128).toNat =
        q.toNat * (0x10000000000000000 : U128).toNat + r.toNat ∧
      r.toNat < (0x10000000000000000 : U128).toNat :=
  unsigned_division 0x80000000000000000000000000000005 0x10000000000000000 (by decide)

/-! ## The product -/

/-- The high half of a product, modulo its base. -/
theorem mul_high_mod (base al ah bl bh : Nat) :
    (al * bl / base + al * bh + ah * bl) % base * base + al * bl % base =
      (ah * base + al) * (bh * base + bl) % (base * base) := by
  have hlow := Nat.div_add_mod (al * bl) base
  have hsplit : (ah * base + al) * (bh * base + bl) =
      al * bl % base + base * (al * bl / base + al * bh + ah * bl + base * (ah * bh)) := by
    calc (ah * base + al) * (bh * base + bl) =
          al * bl + base * (al * bh + ah * bl + base * (ah * bh)) := by ring
      _ = base * (al * bl / base) + al * bl % base +
            base * (al * bh + ah * bl + base * (ah * bh)) := by rw [hlow]
      _ = _ := by ring
  rw [hsplit, Nat.mod_mul, Nat.add_mul_mod_self_left, Nat.mod_mod]
  rcases Nat.eq_zero_or_pos base with rfl | hpos
  · simp
  · rw [Nat.add_mul_div_left _ _ hpos, Nat.div_eq_of_lt (Nat.mod_lt _ hpos), Nat.zero_add,
      Nat.add_mul_mod_self_left]
    ring

/-- `mulq` has the whole product. -/
theorem mulq_toNat (v w : Word) :
    (mulq v w).1.toNat = v.toNat * w.toNat / 2 ^ 64 ∧ (mulq v w).2.toNat = v.toNat * w.toNat % 2 ^ 64 := by
  have hlt : v.toNat * w.toNat < 2 ^ 64 * 2 ^ 64 := Nat.mul_lt_mul'' v.isLt w.isLt
  have hproduct : (v.setWidth 128 * w.setWidth 128 : U128).toNat = v.toNat * w.toNat := by
    rw [BitVec.toNat_mul, BitVec.toNat_setWidth_of_le (by decide),
      BitVec.toNat_setWidth_of_le (by decide)]
    exact Nat.mod_eq_of_lt hlt
  have hhigh := split_hi_toNat (v.setWidth 128 * w.setWidth 128)
  have hlow := split_lo_toNat (v.setWidth 128 * w.setWidth 128)
  rw [hproduct] at hhigh hlow
  exact ⟨hhigh, hlow⟩

/-- `__multi3` is the product modulo 2^128. -/
theorem multi3_eq (a b : BitVec 128) : multi3 a b = a * b := by
  apply BitVec.eq_of_toNat_eq
  obtain ⟨hcarry, hlow⟩ := mulq_toNat (split a).lo (split b).lo
  unfold multi3
  dsimp only
  rw [join_toNat, BitVec.toNat_add, BitVec.toNat_add, BitVec.toNat_mul, BitVec.toNat_mul, hcarry,
    hlow, BitVec.toNat_mul, split_toNat a, split_toNat b]
  simp only [Nat.add_mod_mod, Nat.mod_add_mod]
  exact mul_high_mod (2 ^ 64) _ _ _ _

/-! ## Signed division -/

theorem uDivMod128_eq {n d : U128} (hd : d ≠ 0) : uDivMod128 n d = .ok (n / d, n % d) := by
  obtain ⟨q, r, hdiv, heq, hlt⟩ := @uDivMod128_divides n d hd
  have hpos : 0 < d := toNat_pos hd
  rw [Nat.mul_comm] at heq
  rw [hdiv, BitVec.udiv_eq_of_mul_add_toNat hpos hlt heq.symm,
    BitVec.umod_eq_of_mul_add_toNat hlt heq.symm]

section
variable {n d : BitVec 128}

theorem abs_ne_zero (hd : d ≠ 0) : (if d.slt 0 then -d else d) ≠ 0 := by
  split
  · intro h
    exact hd (BitVec.neg_eq_zero_iff.mp h)
  · exact hd

/-- The signs are stripped and put back as in the truncating division. -/
theorem divti3_eq (hd : d ≠ 0) : divti3 n d = .ok (n.sdiv d) := by
  unfold divti3
  rw [if_neg hd]
  dsimp only
  rw [uDivMod128_eq (abs_ne_zero hd), BitVec.sdiv_eq]
  have hn : n.slt 0 = n.msb := BitVec.slt_zero_eq_msb
  have hd' : d.slt 0 = d.msb := BitVec.slt_zero_eq_msb
  rw [hn, hd']
  cases n.msb <;> cases d.msb <;> rfl

theorem modti3_eq (hd : d ≠ 0) : modti3 n d = .ok (n.srem d) := by
  unfold modti3
  rw [if_neg hd]
  dsimp only
  rw [uDivMod128_eq (abs_ne_zero hd), BitVec.srem_eq]
  have hn : n.slt 0 = n.msb := BitVec.slt_zero_eq_msb
  have hd' : d.slt 0 = d.msb := BitVec.slt_zero_eq_msb
  rw [hn, hd']
  cases n.msb <;> cases d.msb <;> rfl

/-- Quotient and remainder of a signed division. -/
structure Coherent (n d q r : BitVec 128) : Prop where
  /-- Truncated toward zero. -/
  quotient : q.toInt = n.toInt.tdiv d.toInt
  small : r.toInt.natAbs < d.toInt.natAbs
  sign : r.toInt = 0 ∨ r.toInt.sign = n.toInt.sign
  restores : multi3 q d + r = n

theorem sdiv_srem_coherent (hd : d ≠ 0) (hmin : ¬ (n = BitVec.intMin 128 ∧ d = -1)) :
    Coherent n d (n.sdiv d) (n.srem d) := by
  have hdInt : d.toInt ≠ 0 := by
    intro h
    apply hd
    apply BitVec.eq_of_toInt_eq
    rw [h]
    rfl
  -- the one overflow is the one excluded
  have hquot : (n.sdiv d).toInt = n.toInt.tdiv d.toInt := by
    apply BitVec.toInt_sdiv_of_ne_or_ne
    by_contra hboth
    rw [not_or, not_not, not_not] at hboth
    exact hmin hboth
  have hrem := BitVec.toInt_srem n d
  constructor
  case quotient => exact hquot
  case small =>
    rw [hrem, Int.natAbs_tmod]
    exact Nat.mod_lt _ (Int.natAbs_pos.mpr hdInt)
  case sign =>
    rw [hrem]
    have hsign := Int.sign_tmod n.toInt d.toInt
    split at hsign
    · exact .inl (Int.sign_eq_zero_iff_zero.mp hsign)
    · exact .inr hsign
  case restores =>
    apply BitVec.eq_of_toInt_eq
    rw [multi3_eq, BitVec.toInt_add, BitVec.toInt_mul, hquot, hrem, Int.bmod_add_bmod,
      Int.tdiv_mul_add_tmod]
    exact BitVec.toInt_bmod_cancel n

end

/-- Signed arithmetic is coherent: division and remainder for all operands but a
zero divisor and the one overflow, the product for all. -/
theorem signed_coherent (n d : BitVec 128) (hd : d ≠ 0)
    (hmin : ¬ (n = BitVec.intMin 128 ∧ d = -1)) :
    (∃ q r, divti3 n d = .ok q ∧ modti3 n d = .ok r ∧ Coherent n d q r) ∧
      ∀ a b : BitVec 128, (multi3 a b).toInt = (a.toInt * b.toInt).bmod (2 ^ 128) := by
  constructor
  · exact ⟨_, _, divti3_eq hd, modti3_eq hd, sdiv_srem_coherent hd hmin⟩
  · intro a b
    rw [multi3_eq, BitVec.toInt_mul]

/-- The most negative number, divided by 3. -/
theorem intMin_coherent :
    (∃ q r, divti3 (BitVec.intMin 128) 3 = .ok q ∧ modti3 (BitVec.intMin 128) 3 = .ok r ∧
      Coherent (BitVec.intMin 128) 3 q r) ∧
      ∀ a b : BitVec 128, (multi3 a b).toInt = (a.toInt * b.toInt).bmod (2 ^ 128) :=
  signed_coherent (BitVec.intMin 128) 3 (by decide) (fun h => absurd h.2 (by decide))

end Ceryx.Rt
