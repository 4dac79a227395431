import Ceryx.Lib.LittleEndian
import Ceryx.Lib.Qword

/-!
# Ceryx.Lib.ByteMem — a memory of bytes

Memory as a map from addresses to bytes, with stores of byte strings and of
little-endian quadwords at any address. A quadword is read back as it was stored
(`loadWord_storeWord`), and what is read next to a store is as before
(`loadWord_store_ne`). `storeFields` stores quadwords at offsets of a multiple of
eight from a base: a structure that lies in memory. `Mem.store` is the store of a
byte string in a memory that is only read by quadwords.
-/

namespace Ceryx.Lib

abbrev ByteMem := Word → UInt8

namespace ByteMem

/-- Store a byte string at `a`. -/
def store (m : ByteMem) (a : Word) : List UInt8 → ByteMem
  | [] => m
  | b :: bs => store (Function.update m a b) (a + 1) bs

/-- The `n` bytes from `a` on. -/
def load (m : ByteMem) (a : Word) : Nat → List UInt8
  | 0 => []
  | n + 1 => m a :: load m (a + 1) n

def loadNat (m : ByteMem) (a : Word) (n : Nat) : Nat := ofLE (m.load a n)

def loadWord (m : ByteMem) (a : Word) : Word := BitVec.ofNat 64 (m.loadNat a 8)

def storeWord (m : ByteMem) (a v : Word) : ByteMem := m.store a (toLE 8 v.toNat)

theorem store_ne (m : ByteMem) {a b : Word} {bs : List UInt8}
    (h : ∀ i, i < bs.length → b ≠ a + BitVec.ofNat 64 i) : m.store a bs b = m b := by
  induction bs generalizing m a with
  | nil => rfl
  | cons c bs ih =>
      have hfirst : b ≠ a := by
        intro hba
        apply h 0 (Nat.zero_lt_succ _)
        rw [hba]
        exact (BitVec.add_zero a).symm
      rw [store, ih]
      · exact Function.update_of_ne hfirst _ _
      · intro i hi
        have hnext : a + 1 + BitVec.ofNat 64 i = a + BitVec.ofNat 64 (i + 1) := by bv_omega
        rw [hnext]
        exact h (i + 1) (Nat.succ_lt_succ hi)

theorem load_congr {m m' : ByteMem} {a : Word} {n : Nat}
    (h : ∀ i, i < n → m' (a + BitVec.ofNat 64 i) = m (a + BitVec.ofNat 64 i)) :
    m'.load a n = m.load a n := by
  induction n generalizing a with
  | zero => rfl
  | succ n ih =>
      have hfirst := h 0 (Nat.zero_lt_succ n)
      rw [BitVec.add_zero] at hfirst
      rw [load, load, hfirst, ih]
      intro i hi
      have hnext : a + 1 + BitVec.ofNat 64 i = a + BitVec.ofNat 64 (i + 1) := by bv_omega
      rw [hnext]
      exact h (i + 1) (Nat.succ_lt_succ hi)

theorem load_length (m : ByteMem) (a : Word) (n : Nat) : (m.load a n).length = n := by
  induction n generalizing a with
  | zero => rfl
  | succ n ih => rw [load, List.length_cons, ih]

/-- A byte string is read back as it was stored. -/
theorem load_store (m : ByteMem) (a : Word) {bs : List UInt8} (hlen : bs.length ≤ 2 ^ 64) :
    (m.store a bs).load a bs.length = bs := by
  induction bs generalizing m a with
  | nil => rfl
  | cons b bs ih =>
      have hlen' : bs.length + 1 ≤ 2 ^ 64 := hlen
      have hself : (m.store a (b :: bs)) a = b := by
        rw [store, store_ne]
        · exact Function.update_self _ _ _
        · intro i hi hai
          bv_omega
      rw [List.length_cons, load, hself, store, ih _ _ (Nat.le_of_succ_le hlen')]

theorem load_getElem? (m : ByteMem) (a : Word) {n i : Nat} (h : i < n) :
    (m.load a n)[i]? = some (m (a + BitVec.ofNat 64 i)) := by
  induction n generalizing a i with
  | zero => exact absurd h (Nat.not_lt_zero i)
  | succ n ih =>
      rw [load]
      cases i with
      | zero =>
          have hself : a + BitVec.ofNat 64 0 = a := BitVec.add_zero a
          rw [hself]
          rfl
      | succ i =>
          have hnext : a + 1 + BitVec.ofNat 64 i = a + BitVec.ofNat 64 (i + 1) := by bv_omega
          rw [List.getElem?_cons_succ, ih (a + 1) (Nat.lt_of_succ_lt_succ h), hnext]

/-- Each byte of a byte string is at its place. -/
theorem store_getElem? (m : ByteMem) (a : Word) {bs : List UInt8} (hlen : bs.length ≤ 2 ^ 64)
    {i : Nat} (hi : i < bs.length) :
    bs[i]? = some ((m.store a bs) (a + BitVec.ofNat 64 i)) := by
  have hbyte := load_getElem? (m.store a bs) a hi
  rw [load_store m a hlen] at hbyte
  exact hbyte

theorem loadWord_storeWord (m : ByteMem) (a v : Word) : (m.storeWord a v).loadWord a = v := by
  have hbytes : (m.storeWord a v).load a 8 = toLE 8 v.toNat := by
    have hload := @load_store m a (toLE 8 v.toNat) (by rw [toLE_length]; decide)
    rw [toLE_length] at hload
    exact hload
  have hfits : ofLE (toLE 8 v.toNat) = v.toNat := ofLE_toLE_iff.mpr v.isLt
  rw [loadWord, loadNat, hbytes, hfits, BitVec.ofNat_toNat, BitVec.setWidth_eq]

/-- The `n` bytes from `a` and the `k` bytes from `b` are different ones. -/
def Apart (a : Word) (n : Nat) (b : Word) (k : Nat) : Prop :=
  ∀ i, i < n → ∀ j, j < k → a + BitVec.ofNat 64 i ≠ b + BitVec.ofNat 64 j

instance (a : Word) (n : Nat) (b : Word) (k : Nat) : Decidable (Apart a n b k) :=
  inferInstanceAs (Decidable (∀ i, i < n → ∀ j, j < k →
    a + BitVec.ofNat 64 i ≠ b + BitVec.ofNat 64 j))

theorem Apart.symm {a b : Word} {n k : Nat} (h : Apart a n b k) : Apart b k a n :=
  fun i hi j hj he => h j hj i hi he.symm

/-- The `n` bytes from `a` are among the `k` bytes from `b`. -/
def Within (a : Word) (n : Nat) (b : Word) (k : Nat) : Prop :=
  ∀ i, i < n → ∃ j, j < k ∧ a + BitVec.ofNat 64 i = b + BitVec.ofNat 64 j

theorem within_of_le (a : Word) {n k : Nat} (h : n ≤ k) : Within a n a k :=
  fun i hi => ⟨i, Nat.lt_of_lt_of_le hi h, rfl⟩

theorem within_add (a : Word) {off n k : Nat} (h : off + n ≤ k) :
    Within (a + BitVec.ofNat 64 off) n a k := by
  intro i hi
  refine ⟨off + i, by omega, ?_⟩
  rw [BitVec.add_assoc, BitVec.ofNat_add]

theorem Apart.within {a b c : Word} {n k m : Nat} (h : Apart a n b k) (hin : Within c m b k) :
    Apart a n c m := by
  intro i hi j hj
  obtain ⟨l, hl, heq⟩ := hin j hj
  rw [heq]
  exact h i hi l hl

/-- A part is apart from what the whole is apart from. -/
theorem Apart.part {a b c : Word} {n k m : Nat} (h : Apart a n b k) (hin : Within c m a n) :
    Apart c m b k := (h.symm.within hin).symm

theorem loadWord_store_ne (m : ByteMem) {a b : Word} {bs : List UInt8}
    (h : Apart a 8 b bs.length) : (m.store b bs).loadWord a = m.loadWord a := by
  unfold loadWord loadNat
  rw [load_congr]
  intro i hi
  exact store_ne m fun j hj => h i hi j hj

theorem loadWord_storeWord_ne (m : ByteMem) {a b v : Word} (h : Apart a 8 b 8) :
    (m.storeWord b v).loadWord a = m.loadWord a := by
  apply loadWord_store_ne
  rw [toLE_length]
  exact h

/-! ## Structures -/

/-- Store fields at offsets from `base`, one after the other. -/
def storeFields (m : ByteMem) (base : Word) : List (Word × Word) → ByteMem
  | [] => m
  | (off, v) :: fs => (m.storeWord (base + off) v).storeFields base fs

/-- Distinct multiples of eight are apart. -/
theorem apart_fields (base : Word) {off off' : Word} (h : off.toNat % 8 = 0)
    (h' : off'.toNat % 8 = 0) (hne : off ≠ off') : Apart (base + off) 8 (base + off') 8 := by
  intro i hi j hj he
  have hnat : off.toNat ≠ off'.toNat := fun heq => hne (BitVec.eq_of_toNat_eq heq)
  bv_omega

theorem storeFields_ne (m : ByteMem) {base off : Word} {fs : List (Word × Word)}
    (hoff : off.toNat % 8 = 0) (hfs : ∀ f ∈ fs, f.1.toNat % 8 = 0) (hne : ∀ f ∈ fs, off ≠ f.1) :
    (m.storeFields base fs).loadWord (base + off) = m.loadWord (base + off) := by
  induction fs generalizing m with
  | nil => rfl
  | cons f fs ih =>
      obtain ⟨off', v⟩ := f
      rw [storeFields, ih]
      · apply loadWord_storeWord_ne
        exact apart_fields base hoff (hfs _ List.mem_cons_self) (hne _ List.mem_cons_self)
      · exact fun g hg => hfs g (List.mem_cons_of_mem _ hg)
      · exact fun g hg => hne g (List.mem_cons_of_mem _ hg)

/-- The fields are read back as they were stored. -/
theorem loadWord_storeFields (m : ByteMem) {base off v : Word} {fs : List (Word × Word)}
    (hfs : ∀ f ∈ fs, f.1.toNat % 8 = 0) (hnd : (fs.map Prod.fst).Nodup) (hmem : (off, v) ∈ fs) :
    (m.storeFields base fs).loadWord (base + off) = v := by
  -- over the fields: the later ones are stored elsewhere
  induction fs generalizing m with
  | nil => exact absurd hmem List.not_mem_nil
  | cons f fs ih =>
      obtain ⟨off', v'⟩ := f
      rw [List.map_cons, List.nodup_cons] at hnd
      rw [storeFields]
      rcases List.mem_cons.mp hmem with heq | htail
      · cases heq
        rw [storeFields_ne, loadWord_storeWord]
        · exact hfs _ List.mem_cons_self
        · exact fun g hg => hfs g (List.mem_cons_of_mem _ hg)
        · intro g hg hoff
          exact hnd.1 (List.mem_map.mpr ⟨g, hg, hoff.symm⟩)
      · exact ih (m.storeWord (base + off') v') (fun g hg => hfs g (List.mem_cons_of_mem _ hg))
          hnd.2 htail

end ByteMem

/-! ## Bytes of a memory of quadwords -/

/-- Store a byte string at `a`, aligned or not: the quadword at each address gets the
bytes that are stored over its own. -/
def Mem.store (mem : Mem) (a : Word) (bs : List UInt8) : Mem := fun b =>
  ((ByteMem.storeWord (fun _ => 0) b (mem b)).store a bs).loadWord b

/-- A quadword is read back as it was stored. -/
theorem Mem.store_word (mem : Mem) (a v : Word) : mem.store a (toLE 8 v.toNat) a = v :=
  ByteMem.loadWord_storeWord _ a v

/-- A quadword that a store does not overlap is as before. -/
theorem Mem.store_apart (mem : Mem) {a b : Word} {bs : List UInt8}
    (h : ByteMem.Apart b 8 a bs.length) : mem.store a bs b = mem b := by
  rw [Mem.store, ByteMem.loadWord_store_ne _ h, ByteMem.loadWord_storeWord]

-- from here on a store is what the two lemmas say
attribute [irreducible] Mem.store

end Ceryx.Lib
