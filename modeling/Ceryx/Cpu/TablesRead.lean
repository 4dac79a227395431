import Ceryx.Cpu.Descriptors

/-!
# Ceryx.Cpu.TablesRead — the tables stay right while threads are switched

`TablesRead` is what the entry and exit code relies on: that the selectors of `syscall`,
`sysret` and `ltr` lead to segments of the right kind and ring, that each vector leads to
its stub, and that the stack for ring 0 is the one that was set last.

* `Loaded`: the bytes of the tables are in memory, with a stack in the TSS. It is what
  `SetStack` keeps (`loaded_setStack`), since it stores inside of the TSS.
* `Loaded.reads`: out of these bytes the processor reads what `TablesRead` says.
* `tables_read`: so it is after the initialization and any calls of `SetStack`.
-/

namespace Ceryx.Cpu

open Lib

/-- `selector` leads to a segment of a kind and a ring. -/
def SegmentAt (m : ByteMem) (gdtr : TablePointer) (selector : Nat) (kind : Segment → Prop)
    (dpl : Nat) : Prop :=
  ∃ s, readSegment m gdtr selector = some s ∧ kind s ∧ s.dpl = dpl

structure TablesRead (m : ByteMem) (gdtr idtr : TablePointer) (isrStubTable : List Word)
    (stack : Word) : Prop where
  /-- `syscall` and the gates enter with the kernel's segments. -/
  kernelCode : SegmentAt m gdtr kKernelCodeSelector Segment.LongCode 0
  kernelData : SegmentAt m gdtr kKernelDataSelector Segment.WritableData 0
  syscall : syscallSelectors star = (kKernelCodeSelector, kKernelDataSelector)
  /-- `sysret` leaves with the user's. -/
  userCode : SegmentAt m gdtr kUserCodeSelector Segment.LongCode 3
  userData : SegmentAt m gdtr kUserDataSelector Segment.WritableData 3
  sysret : sysretSelectors star = (kUserCodeSelector, kUserDataSelector)
  /-- The TSS holds the stack, and its map of ports is behind its limit. -/
  tss : ∃ s, readSystem m gdtr kTssSelector = some s ∧ s.access = 0x8B ∧
    s.limit = sizeofTss - 1 ∧ m.loadWord (BitVec.ofNat 64 s.base + 4) = stack ∧
    s.limit < m.loadNat (BitVec.ofNat 64 s.base + 102) 2
  /-- Each vector has a gate for ring 0 that turns interrupts off. -/
  gates : ∀ vector < kIdtSize, ∀ stub, isrStubTable[vector]? = some stub →
    readGate m idtr vector = some ⟨stub.toNat, kKernelCodeSelector, 0, 0x8E⟩

/-! ## The bytes -/

/-- `g_bsp_gdt_storage`, with a stack for ring 0. -/
def storageWith (gdt stack : Word) : PerCpuGdtStorage :=
  { (gdtInitialize gdt).1 with tss := { (gdtInitialize gdt).1.tss with rsp0 := stack } }

theorem tableBytes_length (gdt : Word) : (gdtInitialize gdt).1.table.bytes.length = 56 := by
  rw [GdtTable.bytes, List.length_append, TssDescriptor.bytes_length,
    flatMap_length fun desc _ => desc.bytes_length]
  rfl

/-- The storage around the stack. -/
theorem storageWith_bytes (gdt stack : Word) :
    (storageWith gdt stack).bytes =
      (gdtInitialize gdt).1.table.bytes ++ toLE 4 0 ++ toLE 8 stack.toNat ++
        (gdtInitialize gdt).1.tss.tail := by
  show (gdtInitialize gdt).1.table.bytes ++ (toLE 4 0 ++ toLE 8 stack.toNat ++ _) = _
  rw [← List.append_assoc, ← List.append_assoc]
  rfl

theorem tail_length (gdt : Word) : (gdtInitialize gdt).1.tss.tail.length = 92 := by
  simp only [Tss.tail, List.length_append, toLE_length]
  rw [flatMap_length fun w _ => toLE_length 8 w.toNat]
  rfl

theorem storageWith_length (gdt stack : Word) : (storageWith gdt stack).bytes.length = 160 := by
  rw [storageWith_bytes, List.length_append, List.length_append, List.length_append,
    tableBytes_length, tail_length, toLE_length, toLE_length]

theorem gates_length {stubs : List Word} (idt : Word) (hstubs : kIdtSize ≤ stubs.length) :
    (idtInitialize idt stubs).1.length = 4096 := by
  have htake : ((stubs.take kIdtSize).map initGate).length = kIdtSize := by
    rw [List.length_map, List.length_take, Nat.min_eq_left hstubs]
  have hlen : (((stubs.take kIdtSize).map initGate).flatMap IdtGate.bytes).length =
      16 * ((stubs.take kIdtSize).map initGate).length :=
    flatMap_length fun gate _ => gate.bytes_length
  rw [htake] at hlen
  exact hlen

/-! ## What is in memory -/

structure Loaded (m : ByteMem) (gdt idt : Word) (stubs : List Word) (stack : Word) : Prop where
  storage : m.load gdt 160 = (storageWith gdt stack).bytes
  gates : m.load idt 4096 = (idtInitialize idt stubs).1

/-- A store into the storage leaves the gates. -/
theorem load_store_apart (m : ByteMem) {a b : Word} {n : Nat} {bs : List UInt8}
    (h : ByteMem.Apart a n b bs.length) : (m.store b bs).load a n = m.load a n :=
  ByteMem.load_congr fun i hi => ByteMem.store_ne m fun j hj => h i hi j hj

/-- `Gdt::Initialize` and then `Idt::Initialize`, in memory. -/
def initializeTables (m : ByteMem) (gdt idt : Word) (isrStubTable : List Word) : ByteMem :=
  (m.store gdt (gdtInitialize gdt).1.bytes).store idt (idtInitialize idt isrStubTable).1

theorem loaded_tables (m : ByteMem) {gdt idt : Word} {stubs : List Word}
    (hstubs : kIdtSize ≤ stubs.length) (hapart : ByteMem.Apart gdt 160 idt 4096) :
    Loaded (initializeTables m gdt idt stubs) gdt idt stubs 0 where
  storage := by
    have hstorage := @ByteMem.load_store m gdt (storageWith gdt 0).bytes
      (by rw [storageWith_length]; decide)
    rw [storageWith_length] at hstorage
    rw [initializeTables, load_store_apart _ (by rw [gates_length idt hstubs]; exact hapart)]
    exact hstorage
  gates := by
    have hgates := @ByteMem.load_store (m.store gdt (gdtInitialize gdt).1.bytes) idt
      (idtInitialize idt stubs).1 (by rw [gates_length idt hstubs]; decide)
    rw [gates_length idt hstubs] at hgates
    exact hgates

/-- Calls of `SetStack`, one after the other. -/
def setStacks (gdt : Word) (m : ByteMem) (calls : List (PrivilegeLevel × Word)) : ByteMem :=
  calls.foldl (fun m call => setStack gdt m call.1 call.2) m

/-- The stack of ring 0, after a call. -/
def stackAfter (stack : Word) (call : PrivilegeLevel × Word) : Word :=
  if call.1 = .ring0 then call.2 else stack

/-- `SetStack` replaces the stack, and no other byte. -/
theorem loaded_setStack {m : ByteMem} {gdt idt : Word} {stubs : List Word} {stack : Word}
    (h : Loaded m gdt idt stubs stack) (hapart : ByteMem.Apart gdt 160 idt 4096)
    (call : PrivilegeLevel × Word) :
    Loaded (setStack gdt m call.1 call.2) gdt idt stubs (stackAfter stack call) := by
  unfold setStack stackAfter
  by_cases hring : call.1 = .ring0
  · rw [if_pos hring, if_pos hring]
    have hfront : ((gdtInitialize gdt).1.table.bytes ++ toLE 4 0).length = 60 := by
      rw [List.length_append, tableBytes_length, toLE_length]
    have hmid : ((gdtInitialize gdt).1.table.bytes ++ toLE 4 0 ++ toLE 8 stack.toNat).length =
        68 := by
      rw [List.length_append, hfront, toLE_length]
    constructor
    · -- the eight bytes are at offset 60 of the storage
      have hsplice := @ByteMem.load_store_splice m gdt (toLE 8 call.2.toNat) 60 160
        (by rw [toLE_length]; decide) (by decide)
      rw [toLE_length, h.storage, storageWith_bytes, List.append_assoc _ _ (Tss.tail _),
        List.take_left' hfront, ← List.append_assoc, List.drop_left' hmid] at hsplice
      rw [storageWith_bytes]
      exact hsplice
    · have hin : ByteMem.Within (gdt + BitVec.ofNat 64 60) 8 gdt 160 :=
        ByteMem.within_add gdt (by decide)
      rw [ByteMem.storeWord, load_store_apart]
      · exact h.gates
      · rw [toLE_length]
        exact (hapart.part hin).symm
  · rw [if_neg hring, if_neg hring]
    exact h

theorem loaded_run {gdt idt : Word} {stubs : List Word}
    (hapart : ByteMem.Apart gdt 160 idt 4096) (calls : List (PrivilegeLevel × Word)) :
    ∀ {m : ByteMem} {stack : Word}, Loaded m gdt idt stubs stack →
      Loaded (setStacks gdt m calls) gdt idt stubs (calls.foldl stackAfter stack) := by
  induction calls with
  | nil => exact id
  | cons call calls ih =>
      intro m stack h
      exact ih (loaded_setStack h hapart call)

/-! ## What the processor reads -/

/-- What is read inside of the table. -/
theorem Loaded.table {m : ByteMem} {gdt idt : Word} {stubs : List Word} {stack : Word}
    (h : Loaded m gdt idt stubs stack) {k n : Nat} (hk : k + n ≤ 56) :
    m.load (gdt + BitVec.ofNat 64 k) n =
      ((gdtInitialize gdt).1.table.bytes.drop k).take n := by
  have hpart := @ByteMem.load_part m gdt k n 160 (by omega)
  rw [hpart, h.storage, storageWith_bytes, List.append_assoc, List.append_assoc, part_append]
  rw [tableBytes_length]
  exact hk

theorem entries_length (gdt : Word) :
    ((gdtInitialize gdt).1.table.entries.flatMap GdtDescriptor.bytes).length = 40 := by
  rw [flatMap_length fun desc _ => GdtDescriptor.bytes_length desc]
  rfl

/-- The segment of an entry. -/
theorem Loaded.entry {m : ByteMem} {gdt idt : Word} {stubs : List Word} {stack : Word}
    (h : Loaded m gdt idt stubs stack) {selector : Nat} {base limit : BitVec 32}
    {access gran : BitVec 8} (hselector : bitField selector 2 1 = 0) (hlt : selector / 8 < 5)
    (hdesc : (gdtInitialize gdt).1.table.entries[selector / 8]? =
      some (setupDescriptor base limit access gran)) :
    readSegment m (gdtInitialize gdt).2 selector =
      some ⟨base.toNat, limit.toNat % 2 ^ 20, access.toNat, gran.toNat / 16⟩ := by
  have hbytes : m.load (gdt + BitVec.ofNat 64 (8 * (selector / 8))) 8 =
      (setupDescriptor base limit access gran).bytes := by
    rw [h.table (by omega), GdtTable.bytes, part_append (by rw [entries_length]; omega)]
    exact drop_flatMap (fun desc _ => desc.bytes_length) hdesc
  -- the last byte of the descriptor is inside the limit of the GDTR
  have hlimit : 8 * (selector / 8) + 7 ≤ sizeofGdtTable - 1 := by
    show _ ≤ 55
    omega
  have hseg := segmentOf_setupDescriptor base limit access gran 0
  rw [Nat.mul_zero, Nat.add_zero] at hseg
  rw [readSegment, if_pos ⟨hselector, hlimit⟩, ← hseg, ← hbytes]
  rfl

/-- The segment of `ltr`. -/
theorem Loaded.system {m : ByteMem} {gdt idt : Word} {stubs : List Word} {stack : Word}
    (h : Loaded m gdt idt stubs stack) :
    readSystem m (gdtInitialize gdt).2 kTssSelector =
      some ⟨(gdt + BitVec.ofNat 64 sizeofGdtTable).toNat, sizeofTss - 1, 0x8B, 4⟩ := by
  have hbytes : m.load (gdt + BitVec.ofNat 64 40) 16 =
      (setupTssDescriptor (gdt + BitVec.ofNat 64 sizeofGdtTable)
        (BitVec.ofNat 32 (sizeofTss - 1))).busy.bytes := by
    rw [h.table (by decide), GdtTable.bytes, part_right (entries_length gdt)]
    · rfl
    · exact TssDescriptor.bytes_length _
  have hsystem := systemOf_setupTss (gdt + BitVec.ofNat 64 sizeofGdtTable)
    (BitVec.ofNat 32 (sizeofTss - 1))
  -- the selector has RPL 0, and all sixteen bytes are inside the limit
  have hin : bitField kTssSelector 2 1 = 0 ∧
      8 * (kTssSelector / 8) + 15 ≤ (gdtInitialize gdt).2.limit := ⟨rfl, by show 55 ≤ 55; decide⟩
  have hlimit : (BitVec.ofNat 32 (sizeofTss - 1)).toNat % 2 ^ 20 = sizeofTss - 1 := by decide
  rw [hlimit] at hsystem
  rw [readSystem, if_pos hin, ← hsystem, ← hbytes]
  rfl

/-- What is read inside of the TSS. -/
theorem Loaded.stack {m : ByteMem} {gdt idt : Word} {stubs : List Word} {stack : Word}
    (h : Loaded m gdt idt stubs stack) :
    m.loadWord (gdt + BitVec.ofNat 64 sizeofGdtTable + 4) = stack := by
  have haddr : gdt + BitVec.ofNat 64 sizeofGdtTable + 4 = gdt + BitVec.ofNat 64 60 := by
    rw [BitVec.add_assoc]
    rfl
  have hfront : ((gdtInitialize gdt).1.table.bytes ++ toLE 4 0).length = 60 := by
    rw [List.length_append, tableBytes_length, toLE_length]
  have hpart := @ByteMem.load_part m gdt 60 8 160 (by decide)
  rw [h.storage, storageWith_bytes, part_append, part_right hfront (toLE_length 8 _)] at hpart
  · rw [haddr, ByteMem.loadWord, ByteMem.loadNat, hpart, ofLE_toLE_iff.mpr stack.isLt,
      BitVec.ofNat_toNat, BitVec.setWidth_eq]
  · rw [List.length_append, hfront, toLE_length]

theorem Loaded.iopb {m : ByteMem} {gdt idt : Word} {stubs : List Word} {stack : Word}
    (h : Loaded m gdt idt stubs stack) :
    m.loadNat (gdt + BitVec.ofNat 64 sizeofGdtTable + 102) 2 = sizeofTss := by
  have haddr : gdt + BitVec.ofNat 64 sizeofGdtTable + 102 = gdt + BitVec.ofNat 64 158 := by
    rw [BitVec.add_assoc]
    rfl
  have hpart := @ByteMem.load_part m gdt 158 2 160 (by decide)
  -- what lies before the field: the table, a reserved word, `rsp0`, and the rest
  have hsplit : (storageWith gdt stack).bytes =
      (gdtInitialize gdt).1.table.bytes ++ toLE 4 0 ++ toLE 8 stack.toNat ++
        (gdtInitialize gdt).1.tss.tail.take 90 ++ toLE 2 sizeofTss := by
    rw [storageWith_bytes, List.append_assoc _ _ (toLE 2 sizeofTss)]
    rfl
  have hlen : ((gdtInitialize gdt).1.table.bytes ++ toLE 4 0 ++ toLE 8 stack.toNat ++
      (gdtInitialize gdt).1.tss.tail.take 90).length = 158 := by
    rw [List.length_append, List.length_append, List.length_append, tableBytes_length,
      List.length_take, tail_length, toLE_length, toLE_length]
    rfl
  rw [h.storage, hsplit, part_right hlen (toLE_length 2 _)] at hpart
  rw [haddr, ByteMem.loadNat, hpart]
  rfl

/-- The gate of a vector. -/
theorem Loaded.gate {m : ByteMem} {gdt idt : Word} {stubs : List Word} {stack : Word}
    (h : Loaded m gdt idt stubs stack) {vector : Nat} (hvector : vector < kIdtSize) {stub : Word}
    (hstub : stubs[vector]? = some stub) :
    readGate m (idtInitialize idt stubs).2 vector =
      some ⟨stub.toNat, kKernelCodeSelector, 0, 0x8E⟩ := by
  have hv : vector < 256 := hvector
  have hgate : ((stubs.take kIdtSize).map initGate)[vector]? = some (initGate stub) := by
    rw [List.getElem?_map, List.getElem?_take_of_lt hvector, hstub]
    rfl
  -- the gate is the `vector`-th piece of sixteen bytes
  have hpart := @ByteMem.load_part m idt (16 * vector) 16 4096 (by omega)
  rw [h.gates] at hpart
  have hbytes : m.load (idt + BitVec.ofNat 64 (16 * vector)) 16 = (initGate stub).bytes := by
    rw [hpart]
    exact drop_flatMap (fun gate _ => gate.bytes_length) hgate
  have hlimit : 16 * vector + 15 ≤ (idtInitialize idt stubs).2.limit := by
    show _ ≤ 4095
    omega
  rw [readGate, if_pos hlimit, ← gateOf_initGate stub, ← hbytes]
  rfl

/-- The bytes say what they should. -/
theorem Loaded.reads {m : ByteMem} {gdt idt : Word} {stubs : List Word} {stack : Word}
    (h : Loaded m gdt idt stubs stack) :
    TablesRead m (gdtInitialize gdt).2 (idtInitialize idt stubs).2 stubs stack where
  kernelCode := ⟨_, h.entry rfl (by decide) rfl, by decide, rfl⟩
  kernelData := ⟨_, h.entry rfl (by decide) rfl, by decide, rfl⟩
  syscall := by decide
  userCode := ⟨_, h.entry rfl (by decide) rfl, by decide, rfl⟩
  userData := ⟨_, h.entry rfl (by decide) rfl, by decide, rfl⟩
  sysret := by decide
  tss := by
    refine ⟨_, h.system, rfl, rfl, ?_, ?_⟩
    · rw [BitVec.ofNat_toNat, BitVec.setWidth_eq, h.stack]
    · rw [BitVec.ofNat_toNat, BitVec.setWidth_eq, h.iopb]
      exact Nat.sub_lt (by decide) Nat.one_pos
  gates := fun _ hvector _ hstub => h.gate hvector hstub

/-- After `Gdt::Initialize` and `Idt::Initialize` and any calls of `SetStack`, the processor
reads the segments and the gates that the code means, and for ring 0 the stack that was
set last. -/
theorem tables_read (m : ByteMem) {gdt idt : Word} {isrStubTable : List Word}
    (hstubs : kIdtSize ≤ isrStubTable.length) (hapart : ByteMem.Apart gdt 160 idt 4096)
    (calls : List (PrivilegeLevel × Word)) :
    TablesRead (setStacks gdt (initializeTables m gdt idt isrStubTable) calls)
      (gdtInitialize gdt).2 (idtInitialize idt isrStubTable).2 isrStubTable
      (calls.foldl stackAfter 0) :=
  (loaded_run hapart calls (loaded_tables m hstubs hapart)).reads

/-- A table of stubs of 16 bytes. -/
def stubsFrom (a : Nat) : List Word :=
  (List.range kIdtSize).map fun i => BitVec.ofNat 64 (a + 16 * i)

/-- Of three calls the last one for ring 0 counts. -/
theorem two_switches :
    TablesRead
      (setStacks 0x1000 (initializeTables (fun _ => 0xCC) 0x1000 0x2000 (stubsFrom 0x400000))
        [(.ring0, 0x8000), (.ring3, 0x7000), (.ring0, 0x9000)])
      (gdtInitialize 0x1000).2 (idtInitialize 0x2000 (stubsFrom 0x400000)).2 (stubsFrom 0x400000)
      0x9000 :=
  tables_read _ (by rw [stubsFrom, List.length_map, List.length_range])
    (fun _ _ _ _ heq => by bv_omega) _

end Ceryx.Cpu
