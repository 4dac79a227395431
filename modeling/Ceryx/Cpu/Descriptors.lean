import Ceryx.Cpu.Machine
import Ceryx.Lib.Records

/-!
# Ceryx.Cpu.Descriptors — the tables that the processor reads

`Gdt.cpp`, `Idt::Initialize` and `STAR` of `Syscall::Initialize`, as bytes in memory,
next to what the processor makes of these bytes.

* `GdtDescriptor`, `Tss` and `IdtGate` are packed structures; `bytes` is their layout.
* `Segment` and `Gate` are what the processor reads: it collects a base, a limit or an
  address from the pieces.
* `segmentOf_setupDescriptor`, `systemOf_setupTss`, `gateOf_setOffset`: the pieces that
  the code writes are these.
* `TablesRead`: all that the kernel relies on. `tables_read`: after the initialization
  it is so, and calls of `SetStack` change the stack of ring 0 only.
-/

namespace Ceryx.Cpu

open Lib

/-! ## The structures -/

structure GdtDescriptor where
  limitLow : BitVec 16 := 0
  baseLow : BitVec 16 := 0
  baseMid : BitVec 8 := 0
  access : BitVec 8 := 0
  granularity : BitVec 8 := 0
  baseHigh : BitVec 8 := 0
deriving DecidableEq, Repr

def GdtDescriptor.bytes (desc : GdtDescriptor) : List UInt8 :=
  toLE 2 desc.limitLow.toNat ++ toLE 2 desc.baseLow.toNat ++ toLE 1 desc.baseMid.toNat ++
    toLE 1 desc.access.toNat ++ toLE 1 desc.granularity.toNat ++ toLE 1 desc.baseHigh.toNat

/-- `Gdt::SetupDescriptor`. -/
def setupDescriptor (base limit : BitVec 32) (access gran : BitVec 8) : GdtDescriptor where
  limitLow := (limit &&& 0xFFFF).setWidth 16
  baseLow := (base &&& 0xFFFF).setWidth 16
  baseMid := ((base >>> 16) &&& 0xFF).setWidth 8
  access := access
  granularity := (gran &&& 0xF0) ||| ((limit >>> 16) &&& 0x0F).setWidth 8
  baseHigh := ((base >>> 24) &&& 0xFF).setWidth 8

/-- `GdtTable::tss`. -/
structure TssDescriptor where
  low : GdtDescriptor := {}
  baseUpper : BitVec 32 := 0
  reserved : BitVec 32 := 0
deriving DecidableEq, Repr

def TssDescriptor.bytes (tss : TssDescriptor) : List UInt8 :=
  tss.low.bytes ++ toLE 4 tss.baseUpper.toNat ++ toLE 4 tss.reserved.toNat

/-- `Gdt::SetupTssDescriptor`. -/
def setupTssDescriptor (base : Word) (limit : BitVec 32) : TssDescriptor where
  low := setupDescriptor ((base &&& 0xFFFFFFFF).setWidth 32) limit 0x89 0x40
  baseUpper := ((base >>> 32) &&& 0xFFFFFFFF).setWidth 32
  reserved := 0

/-- `ltr` marks the descriptor as busy. -/
def TssDescriptor.busy (tss : TssDescriptor) : TssDescriptor :=
  { tss with low := { tss.low with access := tss.low.access ||| 0x02 } }

/-- `Gdt::GdtTable`. -/
structure GdtTable where
  entries : List GdtDescriptor
  tss : TssDescriptor
deriving DecidableEq, Repr

def GdtTable.bytes (table : GdtTable) : List UInt8 :=
  table.entries.flatMap GdtDescriptor.bytes ++ table.tss.bytes

structure Tss where
  reserved0 : BitVec 32 := 0
  rsp0 : Word := 0
  rsp1 : Word := 0
  rsp2 : Word := 0
  reserved1 : Word := 0
  ist : List Word := List.replicate 7 0
  reserved2 : Word := 0
  reserved3 : BitVec 16 := 0
  iopbOffset : BitVec 16 := 0
deriving DecidableEq, Repr

/-- What is behind `rsp[0]`. -/
def Tss.tail (tss : Tss) : List UInt8 :=
  toLE 8 tss.rsp1.toNat ++ toLE 8 tss.rsp2.toNat ++ toLE 8 tss.reserved1.toNat ++
    tss.ist.flatMap (fun w => toLE 8 w.toNat) ++ toLE 8 tss.reserved2.toNat ++
    toLE 2 tss.reserved3.toNat ++ toLE 2 tss.iopbOffset.toNat

def Tss.bytes (tss : Tss) : List UInt8 :=
  toLE 4 tss.reserved0.toNat ++ toLE 8 tss.rsp0.toNat ++ tss.tail

def sizeofGdtTable : Nat := 56
def sizeofTss : Nat := 104

/-- `PerCpuGdtStorage`. -/
structure PerCpuGdtStorage where
  table : GdtTable
  tss : Tss
deriving DecidableEq, Repr

def PerCpuGdtStorage.bytes (storage : PerCpuGdtStorage) : List UInt8 :=
  storage.table.bytes ++ storage.tss.bytes

/-- `GdtPointer` and `IdtPointer`. -/
structure TablePointer where
  limit : Nat
  base : Word
deriving DecidableEq, Repr

def kKernelCodeSelector : Nat := 0x08
def kKernelDataSelector : Nat := 0x10
def kUserDataSelector : Nat := 0x18 ||| 3
def kUserCodeSelector : Nat := 0x20 ||| 3
def kTssSelector : Nat := 0x28

/-- `Gdt::Initialize`, for a storage at `addr`: the structure that `lgdt` and `ltr` leave
there, and the operand of `lgdt`. -/
def gdtInitialize (addr : Word) : PerCpuGdtStorage × TablePointer :=
  ({ table :=
      { entries :=
          [setupDescriptor 0 0 0 0,
            setupDescriptor 0 0xFFFFFFFF 0x9A 0xAF,
            setupDescriptor 0 0xFFFFFFFF 0x92 0xCF,
            setupDescriptor 0 0xFFFFFFFF 0xF2 0xCF,
            setupDescriptor 0 0xFFFFFFFF 0xFA 0xAF]
        tss := (setupTssDescriptor (addr + BitVec.ofNat 64 sizeofGdtTable)
          (BitVec.ofNat 32 (sizeofTss - 1))).busy }
     tss := { iopbOffset := BitVec.ofNat 16 sizeofTss } },
    ⟨sizeofGdtTable - 1, addr⟩)

/-- `PrivilegeLevel`. -/
inductive PrivilegeLevel where
  | ring0 | ring1 | ring2 | ring3
deriving DecidableEq, Repr

/-- `Gdt::SetStack`, which stores to `storage.tss.rsp[0]`. -/
def setStack (addr : Word) (m : ByteMem) (level : PrivilegeLevel) (stack : Word) : ByteMem :=
  if level = .ring0 then m.storeWord (addr + BitVec.ofNat 64 (sizeofGdtTable + 4)) stack else m

/-- `IdtGate`. -/
structure IdtGate where
  offsetLow : BitVec 16 := 0
  selector : BitVec 16 := 0
  ist : BitVec 8 := 0
  typeAttributes : BitVec 8 := 0
  offsetMid : BitVec 16 := 0
  offsetHigh : BitVec 32 := 0
  reserved : BitVec 32 := 0
deriving DecidableEq, Repr

namespace IdtGate

def bytes (gate : IdtGate) : List UInt8 :=
  toLE 2 gate.offsetLow.toNat ++ toLE 2 gate.selector.toNat ++ toLE 1 gate.ist.toNat ++
    toLE 1 gate.typeAttributes.toNat ++ toLE 2 gate.offsetMid.toNat ++
    toLE 4 gate.offsetHigh.toNat ++ toLE 4 gate.reserved.toNat

/-- `IdtGate::SetOffset`. -/
def setOffset (gate : IdtGate) (offset : Word) : IdtGate :=
  { gate with
    offsetLow := (offset &&& 0xFFFF).setWidth 16
    offsetMid := ((offset >>> 16) &&& 0xFFFF).setWidth 16
    offsetHigh := ((offset >>> 32) &&& 0xFFFFFFFF).setWidth 32 }

/-- `IdtGate::SetAttributes`. -/
def setAttributes (gate : IdtGate) (dpl type : BitVec 8) : IdtGate :=
  { gate with typeAttributes := 0x80 ||| ((dpl &&& 0x3) <<< 5) ||| (type &&& 0xF) }

end IdtGate

/-- `IdtGateType::InterruptGate`. -/
def interruptGate : BitVec 8 := 0xE

/-- `Idt::kIdtSize`. -/
def kIdtSize : Nat := 256

/-- The gate that `Idt::Initialize` makes for a stub. -/
def initGate (stub : Word) : IdtGate :=
  IdtGate.setAttributes
    { ({} : IdtGate).setOffset stub with selector := BitVec.ofNat 16 kKernelCodeSelector, ist := 0 }
    0 interruptGate

/-- `Idt::Initialize`, with the first 256 words of `isr_stub_table`, for `s_idt` at `addr`:
what is left there, and the operand of `lidt`. -/
def idtInitialize (addr : Word) (isrStubTable : List Word) : List UInt8 × TablePointer :=
  (((isrStubTable.take kIdtSize).map initGate).flatMap IdtGate.bytes, ⟨16 * kIdtSize - 1, addr⟩)

/-- `star` of `Syscall::Initialize`. -/
def star : Word := (BitVec.ofNat 64 kKernelCodeSelector <<< 32) ||| ((0x10 ||| 3) <<< 48)

/-! ## The processor -/

/-- A code or data segment, or the lower half of a system segment. -/
structure Segment where
  base : Nat
  limit : Nat
  access : Nat
  flags : Nat
deriving DecidableEq, Repr

def segmentOf (v : Nat) : Segment where
  base := bitField v 16 24 + 2 ^ 24 * bitField v 56 8
  limit := bitField v 0 16 + 2 ^ 16 * bitField v 48 4
  access := bitField v 40 8
  flags := bitField v 52 4

namespace Segment

def dpl (s : Segment) : Nat := bitField s.access 5 2

/-- A present code segment for 64-bit code. -/
def LongCode (s : Segment) : Prop :=
  bitField s.access 7 1 = 1 ∧ bitField s.access 4 1 = 1 ∧ bitField s.access 3 1 = 1 ∧
    bitField s.flags 1 1 = 1 ∧ bitField s.flags 2 1 = 0

/-- A present data segment that can be written. -/
def WritableData (s : Segment) : Prop :=
  bitField s.access 7 1 = 1 ∧ bitField s.access 4 1 = 1 ∧ bitField s.access 3 1 = 0 ∧
    bitField s.access 1 1 = 1

instance (s : Segment) : Decidable s.LongCode := inferInstanceAs (Decidable (_ ∧ _))
instance (s : Segment) : Decidable s.WritableData := inferInstanceAs (Decidable (_ ∧ _))

end Segment

/-- The segment of a selector: in this table, and not behind its limit. -/
def readSegment (m : ByteMem) (gdtr : TablePointer) (selector : Nat) : Option Segment :=
  if bitField selector 2 1 = 0 ∧ 8 * (selector / 8) + 7 ≤ gdtr.limit then
    some (segmentOf (m.loadNat (gdtr.base + BitVec.ofNat 64 (8 * (selector / 8))) 8))
  else none

/-- A system segment has a base of 64 bits, in two entries. -/
def systemOf (v : Nat) : Segment :=
  { segmentOf v with base := (segmentOf v).base + 2 ^ 32 * bitField v 64 32 }

def readSystem (m : ByteMem) (gdtr : TablePointer) (selector : Nat) : Option Segment :=
  if bitField selector 2 1 = 0 ∧ 8 * (selector / 8) + 15 ≤ gdtr.limit then
    some (systemOf (m.loadNat (gdtr.base + BitVec.ofNat 64 (8 * (selector / 8))) 16))
  else none

structure Gate where
  offset : Nat
  selector : Nat
  ist : Nat
  attributes : Nat
deriving DecidableEq, Repr

def gateOf (v : Nat) : Gate where
  offset := bitField v 0 16 + 2 ^ 16 * bitField v 48 16 + 2 ^ 32 * bitField v 64 32
  selector := bitField v 16 16
  ist := bitField v 32 3
  attributes := bitField v 40 8

/-- The gate of a vector. -/
def readGate (m : ByteMem) (idtr : TablePointer) (vector : Nat) : Option Gate :=
  if 16 * vector + 15 ≤ idtr.limit then
    some (gateOf (m.loadNat (idtr.base + BitVec.ofNat 64 (16 * vector)) 16))
  else none

/-- `cs` and `ss` after `syscall` and after `o64 sysret`. -/
def syscallSelectors (star : Word) : Nat × Nat :=
  (bitField star.toNat 32 16 / 4 * 4, bitField star.toNat 32 16 + 8)

def sysretSelectors (star : Word) : Nat × Nat :=
  ((bitField star.toNat 48 16 + 16) ||| 3, (bitField star.toNat 48 16 + 8) ||| 3)

/-! ## What the processor makes of the pieces -/

theorem GdtDescriptor.bytes_length (desc : GdtDescriptor) : desc.bytes.length = 8 := by
  simp only [GdtDescriptor.bytes, List.length_append, toLE_length]

theorem TssDescriptor.bytes_length (tss : TssDescriptor) : tss.bytes.length = 16 := by
  simp only [TssDescriptor.bytes, List.length_append, toLE_length, GdtDescriptor.bytes_length]

theorem IdtGate.bytes_length (gate : IdtGate) : gate.bytes.length = 16 := by
  simp only [IdtGate.bytes, List.length_append, toLE_length]

/-- A field is a number that its bytes can hold. -/
theorem ofLE_field {w n : Nat} (x : BitVec w) (h : 2 ^ w ≤ 256 ^ n) :
    ofLE (toLE n x.toNat) = x.toNat :=
  ofLE_toLE_iff.mpr (Nat.lt_of_lt_of_le x.isLt h)

theorem GdtDescriptor.value (desc : GdtDescriptor) :
    ofLE desc.bytes = desc.limitLow.toNat + 2 ^ 16 * desc.baseLow.toNat +
      2 ^ 32 * desc.baseMid.toNat + 2 ^ 40 * desc.access.toNat +
      2 ^ 48 * desc.granularity.toNat + 2 ^ 56 * desc.baseHigh.toNat := by
  simp only [GdtDescriptor.bytes, ofLE_append, List.length_append, toLE_length]
  rw [ofLE_field desc.limitLow (by decide), ofLE_field desc.baseLow (by decide),
    ofLE_field desc.baseMid (by decide), ofLE_field desc.access (by decide),
    ofLE_field desc.granularity (by decide), ofLE_field desc.baseHigh (by decide)]
  rfl

theorem TssDescriptor.value (tss : TssDescriptor) :
    ofLE tss.bytes = ofLE tss.low.bytes + 2 ^ 64 * tss.baseUpper.toNat +
      2 ^ 96 * tss.reserved.toNat := by
  simp only [TssDescriptor.bytes, ofLE_append, List.length_append, toLE_length,
    GdtDescriptor.bytes_length]
  rw [ofLE_field tss.baseUpper (by decide), ofLE_field tss.reserved (by decide)]
  rfl

theorem IdtGate.value (gate : IdtGate) :
    ofLE gate.bytes = gate.offsetLow.toNat + 2 ^ 16 * gate.selector.toNat +
      2 ^ 32 * gate.ist.toNat + 2 ^ 40 * gate.typeAttributes.toNat +
      2 ^ 48 * gate.offsetMid.toNat + 2 ^ 64 * gate.offsetHigh.toNat +
      2 ^ 96 * gate.reserved.toNat := by
  simp only [IdtGate.bytes, ofLE_append, List.length_append, toLE_length]
  rw [ofLE_field gate.offsetLow (by decide), ofLE_field gate.selector (by decide),
    ofLE_field gate.ist (by decide), ofLE_field gate.typeAttributes (by decide),
    ofLE_field gate.offsetMid (by decide), ofLE_field gate.offsetHigh (by decide),
    ofLE_field gate.reserved (by decide)]
  rfl

theorem and_0xF0 (gran : BitVec 8) : (gran &&& 0xF0).toNat = 2 ^ 4 * (gran.toNat / 16) := by
  have hall : ∀ g : Fin 256, g.val &&& 240 = 16 * (g.val / 16) := by decide +kernel
  exact hall gran.toFin

/-- A masked field of a number. -/
theorem and_mask {w : Nat} (x mask : BitVec w) {n k : Nat} (hmask : mask.toNat = 2 ^ n - 1)
    (hk : n ≤ k) : ((x &&& mask).setWidth k).toNat = bitField x.toNat 0 n := by
  have hlt : x.toNat % 2 ^ n < 2 ^ k :=
    Nat.lt_of_lt_of_le (Nat.mod_lt _ (Nat.two_pow_pos n)) (Nat.pow_le_pow_right (by decide) hk)
  rw [BitVec.toNat_setWidth, BitVec.toNat_and, hmask, Nat.and_two_pow_sub_one_eq_mod,
    Nat.mod_eq_of_lt hlt, bitField_zero]

theorem shift_mask {w : Nat} (x mask : BitVec w) {lo n k : Nat} (hmask : mask.toNat = 2 ^ n - 1)
    (hk : n ≤ k) : (((x >>> lo) &&& mask).setWidth k).toNat = bitField x.toNat lo n := by
  rw [and_mask (x >>> lo) mask hmask hk, BitVec.toNat_ushiftRight, Nat.shiftRight_eq_div_pow,
    bitField_zero, bitField]

/-- The flags and the upper bits of the limit share a byte. -/
theorem granularity_toNat (base limit : BitVec 32) (access gran : BitVec 8) :
    (setupDescriptor base limit access gran).granularity.toNat =
      2 ^ 4 * (gran.toNat / 16) + bitField limit.toNat 16 4 := by
  have hlow : (((limit >>> 16) &&& 0x0F).setWidth 8).toNat = bitField limit.toNat 16 4 :=
    shift_mask limit 0x0F rfl (by decide)
  have hlt : bitField limit.toNat 16 4 < 2 ^ 4 := Nat.mod_lt _ (by decide)
  rw [Nat.two_pow_add_eq_or_of_lt hlt, ← hlow, ← and_0xF0 gran, ← BitVec.toNat_or]
  rfl

/-- The segment of a packed number. -/
theorem segmentOf_packed {v limitLow base access limitHigh flags baseHigh above : Nat}
    (hv : v = limitLow + 2 ^ 16 * base + 2 ^ 40 * access + 2 ^ 48 * limitHigh + 2 ^ 52 * flags +
      2 ^ 56 * baseHigh + 2 ^ 64 * above)
    (hlow : limitLow < 2 ^ 16) (hbase : base < 2 ^ 24) (haccess : access < 2 ^ 8)
    (hlimit : limitHigh < 2 ^ 4) (hflags : flags < 2 ^ 4) (hhigh : baseHigh < 2 ^ 8) :
    segmentOf v =
      ⟨base + 2 ^ 24 * baseHigh, limitLow + 2 ^ 16 * limitHigh, access, flags⟩ := by
  -- each field: what is below it is smaller than its place, what is above is a multiple
  have h₀ : bitField v 0 16 = limitLow :=
    bitField_eq (a := 0) (b := v / 2 ^ 16) (by omega) (by decide) hlow
  have h₁₆ : bitField v 16 24 = base :=
    bitField_eq (a := limitLow) (b := v / 2 ^ 40) (by omega) hlow hbase
  have h₄₀ : bitField v 40 8 = access :=
    bitField_eq (a := v % 2 ^ 40) (b := v / 2 ^ 48) (by omega) (by omega) haccess
  have h₄₈ : bitField v 48 4 = limitHigh :=
    bitField_eq (a := v % 2 ^ 48) (b := v / 2 ^ 52) (by omega) (by omega) hlimit
  have h₅₂ : bitField v 52 4 = flags :=
    bitField_eq (a := v % 2 ^ 52) (b := v / 2 ^ 56) (by omega) (by omega) hflags
  have h₅₆ : bitField v 56 8 = baseHigh :=
    bitField_eq (a := v % 2 ^ 56) (b := above) (by omega) (by omega) hhigh
  rw [segmentOf, h₀, h₁₆, h₄₀, h₄₈, h₅₂, h₅₆]

/-- The base and the access byte are read as they were given; of the limit there are 20
bits, and of `gran` the flags. What is in the next entry does not matter. -/
theorem segmentOf_setupDescriptor (base limit : BitVec 32) (access gran : BitVec 8) (n : Nat) :
    segmentOf (ofLE (setupDescriptor base limit access gran).bytes + 2 ^ 64 * n) =
      ⟨base.toNat, limit.toNat % 2 ^ 20, access.toNat, gran.toNat / 16⟩ := by
  have hlimit : (setupDescriptor base limit access gran).limitLow.toNat =
      bitField limit.toNat 0 16 := and_mask limit 0xFFFF rfl (by decide)
  have hlow : (setupDescriptor base limit access gran).baseLow.toNat = bitField base.toNat 0 16 :=
    and_mask base 0xFFFF rfl (by decide)
  have hmid : (setupDescriptor base limit access gran).baseMid.toNat =
      bitField base.toNat 16 8 := shift_mask base 0xFF rfl (by decide)
  have hhigh : (setupDescriptor base limit access gran).baseHigh.toNat =
      bitField base.toNat 24 8 := shift_mask base 0xFF rfl (by decide)
  have haccess : (setupDescriptor base limit access gran).access = access := rfl
  have hbase : bitField base.toNat 0 16 + 2 ^ 16 * bitField base.toNat 16 8 =
      bitField base.toNat 0 24 := bitField_add base.toNat 0 16 8
  -- the eight bytes as one number, field by field
  have hval : ofLE (setupDescriptor base limit access gran).bytes + 2 ^ 64 * n =
      bitField limit.toNat 0 16 + 2 ^ 16 * bitField base.toNat 0 24 + 2 ^ 40 * access.toNat +
        2 ^ 48 * bitField limit.toNat 16 4 + 2 ^ 52 * (gran.toNat / 16) +
        2 ^ 56 * bitField base.toNat 24 8 + 2 ^ 64 * n := by
    rw [GdtDescriptor.value, granularity_toNat, hlimit, hlow, hmid, hhigh, haccess, ← hbase]
    omega
  have hread := segmentOf_packed hval (bitField_lt _ _ _) (bitField_lt _ _ _) access.isLt
    (bitField_lt _ _ _) (Nat.div_lt_of_lt_mul gran.isLt) (bitField_lt _ _ _)
  rw [hread, bitField_add base.toNat 0 24 8, bitField_add limit.toNat 0 16 4, bitField_zero,
    bitField_zero, Nat.mod_eq_of_lt base.isLt]

/-- All 64 bits of the base are read. -/
theorem systemOf_setupTss (base : Word) (limit : BitVec 32) :
    systemOf (ofLE (setupTssDescriptor base limit).busy.bytes) =
      ⟨base.toNat, limit.toNat % 2 ^ 20, 0x8B, 4⟩ := by
  have hbase : ((base &&& 0xFFFFFFFF).setWidth 32).toNat = bitField base.toNat 0 32 :=
    and_mask base 0xFFFFFFFF rfl (by decide)
  have hupper : (setupTssDescriptor base limit).busy.baseUpper.toNat = bitField base.toNat 32 32 :=
    shift_mask base 0xFFFFFFFF rfl (by decide)
  -- the low descriptor, and the upper half of the base behind it
  have hval : ofLE (setupTssDescriptor base limit).busy.bytes =
      ofLE (setupTssDescriptor base limit).busy.low.bytes + 2 ^ 64 * bitField base.toNat 32 32 := by
    have hreserved : (setupTssDescriptor base limit).busy.reserved.toNat = 0 := rfl
    rw [TssDescriptor.value, hupper, hreserved, Nat.mul_zero, Nat.add_zero]
  have hlt : ofLE (setupTssDescriptor base limit).busy.low.bytes < 2 ^ 64 := by
    have hlt := ofLE_lt (setupTssDescriptor base limit).busy.low.bytes
    rw [GdtDescriptor.bytes_length] at hlt
    exact hlt
  have hfield : bitField (ofLE (setupTssDescriptor base limit).busy.bytes) 64 32 =
      bitField base.toNat 32 32 :=
    bitField_eq (b := 0) (by omega) hlt (bitField_lt _ _ _)
  have hlow := segmentOf_setupDescriptor ((base &&& 0xFFFFFFFF).setWidth 32) limit 0x8B 0x40
    (bitField base.toNat 32 32)
  have hseg : segmentOf (ofLE (setupTssDescriptor base limit).busy.bytes) =
      ⟨bitField base.toNat 0 32, limit.toNat % 2 ^ 20, 0x8B, 4⟩ := by
    have hbusy : (setupTssDescriptor base limit).busy.low =
        setupDescriptor ((base &&& 0xFFFFFFFF).setWidth 32) limit 0x8B 0x40 := by
      simp [setupTssDescriptor, TssDescriptor.busy, setupDescriptor]
    rw [hval, ← hbase, hbusy]
    exact hlow
  rw [systemOf, hseg, hfield]
  show Segment.mk _ _ _ _ = _
  rw [bitField_add base.toNat 0 32 32, bitField_zero, Nat.mod_eq_of_lt base.isLt]

/-- A gate leads to the address that it was made for. -/
theorem gateOf_initGate (stub : Word) :
    gateOf (ofLE (initGate stub).bytes) = ⟨stub.toNat, kKernelCodeSelector, 0, 0x8E⟩ := by
  have hlow : (initGate stub).offsetLow.toNat = bitField stub.toNat 0 16 :=
    and_mask stub 0xFFFF rfl (by decide)
  have hmid : (initGate stub).offsetMid.toNat = bitField stub.toNat 16 16 :=
    shift_mask stub 0xFFFF rfl (by decide)
  have hhigh : (initGate stub).offsetHigh.toNat = bitField stub.toNat 32 32 :=
    shift_mask stub 0xFFFFFFFF rfl (by decide)
  -- the sixteen bytes as one number
  have hval : ofLE (initGate stub).bytes =
      bitField stub.toNat 0 16 + 2 ^ 16 * 8 + 2 ^ 40 * 0x8E +
        2 ^ 48 * bitField stub.toNat 16 16 + 2 ^ 64 * bitField stub.toNat 32 32 := by
    have hselector : (initGate stub).selector.toNat = 8 := rfl
    have hist : (initGate stub).ist.toNat = 0 := rfl
    have htype : (initGate stub).typeAttributes.toNat = 0x8E := rfl
    have hreserved : (initGate stub).reserved.toNat = 0 := rfl
    rw [IdtGate.value, hlow, hmid, hhigh, hselector, hist, htype, hreserved]
    omega
  have hb₀ := bitField_lt stub.toNat 0 16
  have hb₁₆ := bitField_lt stub.toNat 16 16
  -- each field, read back from it
  have h₀ : bitField (ofLE (initGate stub).bytes) 0 16 = bitField stub.toNat 0 16 :=
    bitField_eq (a := 0) (b := 8 + 2 ^ 24 * 0x8E + 2 ^ 32 * bitField stub.toNat 16 16 +
      2 ^ 48 * bitField stub.toNat 32 32) (by omega) (by decide) hb₀
  have h₁₆ : bitField (ofLE (initGate stub).bytes) 16 16 = 8 :=
    bitField_eq (a := bitField stub.toNat 0 16) (b := 2 ^ 8 * 0x8E +
      2 ^ 16 * bitField stub.toNat 16 16 + 2 ^ 32 * bitField stub.toNat 32 32) (by omega) hb₀
      (by decide)
  have h₃₂ : bitField (ofLE (initGate stub).bytes) 32 3 = 0 :=
    bitField_eq (a := bitField stub.toNat 0 16 + 2 ^ 16 * 8) (b := 2 ^ 5 * 0x8E +
      2 ^ 13 * bitField stub.toNat 16 16 + 2 ^ 29 * bitField stub.toNat 32 32) (by omega)
      (by omega) (by decide)
  have h₄₀ : bitField (ofLE (initGate stub).bytes) 40 8 = 0x8E :=
    bitField_eq (a := bitField stub.toNat 0 16 + 2 ^ 16 * 8)
      (b := bitField stub.toNat 16 16 + 2 ^ 16 * bitField stub.toNat 32 32) (by omega) (by omega)
      (by decide)
  have h₄₈ : bitField (ofLE (initGate stub).bytes) 48 16 = bitField stub.toNat 16 16 :=
    bitField_eq (a := bitField stub.toNat 0 16 + 2 ^ 16 * 8 + 2 ^ 40 * 0x8E)
      (b := bitField stub.toNat 32 32) (by omega) (by omega) hb₁₆
  have h₆₄ : bitField (ofLE (initGate stub).bytes) 64 32 = bitField stub.toNat 32 32 :=
    bitField_eq (a := bitField stub.toNat 0 16 + 2 ^ 16 * 8 + 2 ^ 40 * 0x8E +
      2 ^ 48 * bitField stub.toNat 16 16) (b := 0) (by omega) (by omega) (bitField_lt _ _ _)
  -- the three parts of the stub's address
  have hlow₃₂ : bitField stub.toNat 0 16 + 2 ^ 16 * bitField stub.toNat 16 16 =
      bitField stub.toNat 0 32 := bitField_add stub.toNat 0 16 16
  have hall : bitField stub.toNat 0 32 + 2 ^ 32 * bitField stub.toNat 32 32 =
      bitField stub.toNat 0 64 := bitField_add stub.toNat 0 32 32
  rw [gateOf, h₀, h₁₆, h₃₂, h₄₀, h₄₈, h₆₄, hlow₃₂, hall, bitField_zero,
    Nat.mod_eq_of_lt stub.isLt]
  rfl

end Ceryx.Cpu
