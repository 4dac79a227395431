import Ceryx.Cpu.Entry

/-!
# Ceryx.Cpu.FramePointer — is the signal code's frame the saved one?

`InterruptFrame` names 22 quadwords; both entry paths push 22 quadwords and
hand a pointer to `SignalCheckPending`. `FrameFaithful` says for one path that
every field the signal code touches lies, through that pointer, in the slot the
entry code saved that register in, and in the slot the exit code restores it
from. It holds of `isr_common`, and on `SyscallEntry` of no field at all: the
pointer is taken after `push rax`, one quadword too low.
-/

namespace Ceryx.Cpu

open Lib Machine

/-- The fields of `InterruptFrame`, in the order of the struct. -/
inductive Field where
  | r15 | r14 | r13 | r12 | r11 | r10 | r9 | r8
  | rbp | rdi | rsi | rdx | rcx | rbx | rax
  | interruptNumber | errorCode
  | rip | cs | rflags | rsp | ss
deriving DecidableEq, Repr

/-- The position of a field in the packed struct, in quadwords. -/
def Field.index : Field → Nat
  | .r15 => 0 | .r14 => 1 | .r13 => 2 | .r12 => 3 | .r11 => 4 | .r10 => 5 | .r9 => 6 | .r8 => 7
  | .rbp => 8 | .rdi => 9 | .rsi => 10 | .rdx => 11 | .rcx => 12 | .rbx => 13 | .rax => 14
  | .interruptNumber => 15 | .errorCode => 16
  | .rip => 17 | .cs => 18 | .rflags => 19 | .rsp => 20 | .ss => 21

/-- The byte offset of a field. -/
def Field.offset (f : Field) : Word := BitVec.ofNat 64 (8 * f.index)

/-- The fields `DoPendingSignals` and `SetupFrame` read or write. -/
def signalFields : List Field :=
  [.r15, .r14, .r13, .r12, .r11, .r10, .r9, .r8, .rbp, .rdi, .rsi, .rdx, .rcx, .rbx, .rax,
    .rip, .cs, .rflags, .rsp]

/-- The register of the running context that a field is named after. -/
def contextField (m : Machine) : Field → Word
  | .r15 => m.regs .r15 | .r14 => m.regs .r14 | .r13 => m.regs .r13 | .r12 => m.regs .r12
  | .r11 => m.regs .r11 | .r10 => m.regs .r10 | .r9 => m.regs .r9 | .r8 => m.regs .r8
  | .rbp => m.regs .rbp | .rdi => m.regs .rdi | .rsi => m.regs .rsi | .rdx => m.regs .rdx
  | .rcx => m.regs .rcx | .rbx => m.regs .rbx | .rax => m.regs .rax
  | .interruptNumber => 0 | .errorCode => 0
  | .rip => m.rip | .cs => m.cs | .rflags => m.rflags | .rsp => m.regs .rsp | .ss => m.ss

/-! ## The two paths -/

/-- The two exit paths that call `SignalCheckPending`. -/
inductive Path where
  | syscallEntry | isrCommon
deriving DecidableEq, Repr

/-- The user context at kernel entry. `SYSCALL` has put the return address into
`rcx` and the flags into `r11`, and the user segments are fixed. -/
def userContext : Path → Machine → Machine
  | .syscallEntry, m => { m with rip := m.regs .rcx, rflags := m.regs .r11, cs := 0x23, ss := 0x1B }
  | .isrCommon, m => m

/-- The kernel stack the path saves the context on. -/
def stackTop : Path → Machine → Word
  | .syscallEntry, m => syscallTop m
  | .isrCommon, m => m.interruptTop

/-- From kernel entry to the call of the dispatcher. -/
def entered : Path → Event → Machine → Machine
  | .syscallEntry, _, m => m.exec syscallSave
  | .isrCommon, ev, m => isrEntry ev m

/-- From the dispatcher's return to the call of `SignalCheckPending`, if there
is one. -/
def atSignalCheck : Path → Machine → Option Machine
  | .syscallEntry, m => some (m.exec syscallCheck)
  | .isrCommon, m => isrCheck m

/-- From the return of `SignalCheckPending` to user mode. -/
def leave : Path → Machine → Machine
  | .syscallEntry, m => syscallExit m
  | .isrCommon, m => isrExit m

/-- The interrupted context runs in ring 3. -/
def UserMode (p : Path) (m : Machine) : Prop := (userContext p m).cs &&& 3 ≠ 0

/-! ## The property -/

/-- Whatever the registers, entries that use the stack of `m` save the register
of field `f` at address `a`. -/
def FieldSaved (p : Path) (m : Machine) (a : Word) (f : Field) : Prop :=
  ∀ ev m', UserMode p m' → stackTop p m' = stackTop p m →
    (entered p ev m').mem a = contextField (userContext p m') f

/-- Whatever `SignalCheckPending` leaves in memory, the exit code restores the
register of field `f` from address `a`. -/
def FieldRestored (p : Path) (c : Machine) (a : Word) (f : Field) : Prop :=
  ∀ e, contextField (leave p (c.afterCall e)) f = e.mem a

/-- The pointer handed to `SignalCheckPending` designates the saved frame. -/
def FrameFaithful (p : Path) : Prop :=
  ∀ ev m e c, UserMode p m → atSignalCheck p ((entered p ev m).afterCall e) = some c →
    ∀ f ∈ signalFields,
      FieldSaved p m (c.regs .rdi + f.offset) f ∧
        (¬ (p = .syscallEntry ∧ f = .rax) → FieldRestored p c (c.regs .rdi + f.offset) f)

/-! ## isr_common -/

/-- A field of the saved frame lies as many quadwords below the stack top as
its position in the struct says. -/
theorem slot_offset {top : Word} {n : Nat} (f : Field) (hn : f.index ≤ n) :
    slot top n + f.offset = slot top (n - f.index) := slot_add hn

theorem index_le (f : Field) : f.index ≤ 21 := by
  cases f <;> decide

theorem isrFrame_get (ev : Event) (m : Machine) {f : Field} (hf : f ∈ signalFields) :
    (isrFrame ev m)[21 - f.index]? = some (contextField m f) := by
  cases f
  case interruptNumber => exact absurd hf (by decide)
  case errorCode => exact absurd hf (by decide)
  case ss => exact absurd hf (by decide)
  all_goals rfl

theorem isr_saved (ev : Event) (m : Machine) {f : Field} (hf : f ∈ signalFields) :
    (isrEntry ev m).mem (slot m.interruptTop (22 - f.index)) = contextField m f := by
  have hlen : (isrFrame ev m).length = 22 := rfl
  have hidx := index_le f
  obtain ⟨hk, hval⟩ := List.getElem?_eq_some_iff.mp (isrFrame_get ev m hf)
  have hpos : 22 - f.index = (21 - f.index) + 1 := by omega
  rw [(isrEntry_spec ev m).mem, hpos, pushAll_slot hk (by rw [hlen]; decide), hval]

theorem isr_restored (m : Machine) {f : Field} (hf : f ∈ signalFields) :
    contextField (isrExit m) f = m.mem (m.regs .rsp + 8 + f.offset) := by
  have h := isrExit_spec m
  generalize isrExit m = m' at h
  cases f
  -- three fields that signals do not use
  case interruptNumber => exact absurd hf (by decide)
  case errorCode => exact absurd hf (by decide)
  case ss => exact absurd hf (by decide)
  -- what `iretq` loads
  case rip => exact h.rip
  case cs => exact h.cs
  case rflags => exact h.rflags
  case rsp => exact h.rsp
  -- the pops, in their order
  case r15 => exact h.reg 0 (by decide)
  case r14 => exact h.reg 1 (by decide)
  case r13 => exact h.reg 2 (by decide)
  case r12 => exact h.reg 3 (by decide)
  case r11 => exact h.reg 4 (by decide)
  case r10 => exact h.reg 5 (by decide)
  case r9 => exact h.reg 6 (by decide)
  case r8 => exact h.reg 7 (by decide)
  case rbp => exact h.reg 8 (by decide)
  case rdi => exact h.reg 9 (by decide)
  case rsi => exact h.reg 10 (by decide)
  case rdx => exact h.reg 11 (by decide)
  case rcx => exact h.reg 12 (by decide)
  case rbx => exact h.reg 13 (by decide)
  case rax => exact h.reg 14 (by decide)

theorem isr_frameFaithful : FrameFaithful .isrCommon := by
  intro ev m e c _ hcheck f hf
  simp only [atSignalCheck, entered] at hcheck
  obtain ⟨hrdi, hrsp⟩ := isrCheck_some hcheck
  rw [afterCall_rsp] at hrdi hrsp
  have hbase : c.regs .rdi = slot m.interruptTop 22 := hrdi.trans (isrEntry_spec ev m).rsp
  constructor
  · -- saved: the pointer is the lowest slot of the frame just pushed
    intro ev' m' _ htop
    have hidx := index_le f
    simp only [stackTop] at htop
    simp only [entered, userContext]
    rw [hbase, slot_offset f (by omega), ← htop]
    exact isr_saved ev' m' hf
  · -- restored: the exit code drops the `rax` pushed for the call first
    intro _ e'
    have h := isr_restored (c.afterCall e') hf
    have haddr : c.regs .rsp + 8 = c.regs .rdi := by
      rw [hrsp, hrdi]
      bv_omega
    rw [afterCall_rsp, afterCall_mem, haddr] at h
    simpa only [leave] using h

/-! ## SyscallEntry -/

theorem userMode_syscall (m : Machine) : UserMode .syscallEntry m := by
  simp only [UserMode, userContext]
  decide

/-- Where the pointer of the syscall path points. -/
theorem syscall_pointer (m : Machine) (hlay : m.kernelGsBase + 24 ≠ syscallTop m - 8)
    (e : CallEffect) :
    (((m.exec syscallSave).afterCall e).exec syscallCheck).regs .rdi = slot (syscallTop m) 23 := by
  rw [syscallCheck_rdi, afterCall_rsp, (syscallSave_spec m hlay).rsp, slot_sub]

/-- A register file with pairwise different values, the kernel stack at `top`
and zeros everywhere else. -/
def probe (top : Word) : Machine where
  regs
    | .rax => 1 | .rbx => 2 | .rcx => 3 | .rdx => 4 | .rsi => 5 | .rdi => 6 | .rbp => 7 | .rsp => 8
    | .r8 => 9 | .r9 => 10 | .r10 => 11 | .r11 => 12 | .r12 => 13 | .r13 => 14 | .r14 => 15
    | .r15 => 16
  rip := 0
  cs := 0x23
  rflags := 0
  ss := 0x1B
  mem := Mem.write (fun _ => 0) (top + 0x1010) top
  gsBase := 0
  kernelGsBase := top + 0x1000
  tssRsp0 := 0

theorem probe_top (top : Word) : syscallTop (probe top) = top := by
  have haddr : (probe top).kernelGsBase + 16 = top + 0x1010 := by
    simp only [probe]
    bv_omega
  have hmem : (probe top).mem = Mem.write (fun _ => 0) (top + 0x1010) top := rfl
  rw [syscallTop, haddr, hmem, Mem.write_self]

theorem probe_layout (top : Word) :
    (probe top).kernelGsBase + 24 ≠ syscallTop (probe top) - 8 := by
  have hgs : (probe top).kernelGsBase = top + 0x1000 := rfl
  rw [probe_top, hgs]
  bv_omega

/-- In the pushed frame the value after a field's own is another one. -/
theorem probe_frame (top : Word) {f : Field} (hf : f ∈ signalFields) (h15 : f ≠ .r15) :
    ∃ v, (syscallFrame (probe top))[22 - f.index]? = some v ∧
      v ≠ contextField (userContext .syscallEntry (probe top)) f := by
  cases f
  case r15 => exact absurd rfl h15
  case interruptNumber => exact absurd hf (by decide)
  case errorCode => exact absurd hf (by decide)
  case ss => exact absurd hf (by decide)
  all_goals
    refine ⟨_, rfl, ?_⟩
    simp [probe, contextField, userContext]

/-- One quadword below the slot of each field lies something else. -/
theorem probe_shifted (top : Word) {f : Field} (hf : f ∈ signalFields) :
    ((probe top).exec syscallSave).mem (slot top (23 - f.index)) ≠
      contextField (userContext .syscallEntry (probe top)) f := by
  have hmem := (syscallSave_spec (probe top) (probe_layout top)).mem
  rw [probe_top] at hmem
  have hlen : (syscallFrame (probe top)).length = 22 := rfl
  have hidx := index_le f
  rw [hmem]
  by_cases h15 : f = .r15
  · -- below the frame: what the stack held before
    subst h15
    have hframe : ∀ k, k < (syscallFrame (probe top)).length → slot top 23 ≠ slot top (k + 1) :=
      fun k hk => slot_ne (by decide) (by omega) (by omega)
    have hgs : slot top 23 ≠ (probe top).kernelGsBase + 24 := by
      show slot top 23 ≠ top + 0x1000 + 24
      unfold slot
      bv_omega
    have htop : slot top 23 ≠ top + 0x1010 := by
      unfold slot
      bv_omega
    show pushAll top _ _ (slot top 23) ≠ 16
    rw [pushAll_frame hframe, Mem.write_ne _ _ hgs]
    show Mem.write (fun _ => 0) (top + 0x1010) top (slot top 23) ≠ 16
    rw [Mem.write_ne _ _ htop]
    decide
  · have hpos : f.index ≠ 0 := by
      cases f
      case r15 => exact absurd rfl h15
      all_goals decide
    obtain ⟨v, hv, hne⟩ := probe_frame top hf h15
    obtain ⟨hk, hval⟩ := List.getElem?_eq_some_iff.mp hv
    have hslot : 23 - f.index = (22 - f.index) + 1 := by omega
    rw [hslot, pushAll_slot hk (by rw [hlen]; decide), hval]
    exact hne

/-- On the syscall path no field of the signal code's frame is the slot its
register was saved in. -/
theorem syscall_no_field_saved (m : Machine) (hlay : m.kernelGsBase + 24 ≠ syscallTop m - 8)
    (e : CallEffect) {f : Field} (hf : f ∈ signalFields) :
    ¬ FieldSaved .syscallEntry m
      ((((m.exec syscallSave).afterCall e).exec syscallCheck).regs .rdi + f.offset) f := by
  intro hsaved
  have hidx := index_le f
  have h := hsaved ⟨0, none⟩ (probe (syscallTop m)) (userMode_syscall _) (probe_top _)
  rw [syscall_pointer m hlay e, slot_offset f (by omega)] at h
  exact probe_shifted (syscallTop m) hf h

/-- The signal code gets the frame that was saved exactly on the `isr_common`
path. -/
theorem frameFaithful_iff (p : Path) : FrameFaithful p ↔ p = .isrCommon := by
  constructor
  · intro h
    cases p with
    | isrCommon => rfl
    | syscallEntry =>
        exfalso
        have hsaved := (h ⟨0, none⟩ (probe 0x100000) ⟨0, fun _ => 0, fun _ => 0⟩ _
          (userMode_syscall _) rfl .cs (by decide)).1
        exact syscall_no_field_saved (probe 0x100000) (probe_layout _) _ (by decide) hsaved
  · rintro rfl
    exact isr_frameFaithful

theorem syscall_dispatched (ev : Event) (m : Machine) (hlay : m.kernelGsBase + 24 ≠ syscallTop m - 8)
    (ret : Word) (scratch : Reg → Word) :
    ∃ c, atSignalCheck .syscallEntry ((entered .syscallEntry ev m).afterCall
        ⟨ret, scratch, (entered .syscallEntry ev m).mem⟩) = some c ∧
      c.mem (c.regs .rdi + Field.cs.offset) = m.regs .rcx := by
  refine ⟨_, rfl, ?_⟩
  have hsaved := syscallSave_spec m hlay
  have hlen : (syscallFrame m).length = 22 := rfl
  have hcell : slot (syscallTop m) (4 + 1) ≠ slot (syscallTop m) (22 + 1) :=
    slot_ne (by decide) (by decide) (by decide)
  have hidx : 23 - Field.cs.index = 4 + 1 := rfl
  simp only [entered]
  rw [syscall_pointer m hlay, slot_offset .cs (by decide)]
  have hpush : ∀ m' : Machine, (m'.exec syscallCheck).mem =
      m'.mem.write (m'.regs .rsp - 8) (m'.regs .rax) := fun _ => rfl
  rw [hpush, afterCall_rsp, hsaved.rsp, slot_sub, hidx, Mem.write_ne _ _ hcell, afterCall_mem, hsaved.mem]
  exact pushAll_slot (k := 4) (by rw [hlen]; decide) (by rw [hlen]; decide)

/-- A system call from user address `0x401000`: through the pointer its `cs` is
the return address, which reads as ring 0. -/
theorem syscall_cs_is_return_address :
    ∃ c, atSignalCheck .syscallEntry
        ((entered .syscallEntry ⟨0, none⟩ ((probe 0x100000).setReg .rcx 0x401000)).afterCall
          ⟨39, fun _ => 0, (entered .syscallEntry ⟨0, none⟩
            ((probe 0x100000).setReg .rcx 0x401000)).mem⟩) = some c ∧
      c.mem (c.regs .rdi + Field.cs.offset) = 0x401000 ∧
      contextField (userContext .syscallEntry ((probe 0x100000).setReg .rcx 0x401000)) .cs = 0x23 ∧
      ¬ FrameFaithful .syscallEntry := by
  obtain ⟨c, hc, hcs⟩ := syscall_dispatched ⟨0, none⟩ ((probe 0x100000).setReg .rcx 0x401000)
    (by decide) 39 fun _ => 0
  refine ⟨c, hc, hcs.trans (by decide), rfl, fun h => ?_⟩
  have hsaved := (h ⟨0, none⟩ (probe 0x100000) ⟨0, fun _ => 0, fun _ => 0⟩ _ (userMode_syscall _)
    rfl .cs (by decide)).1
  exact syscall_no_field_saved (probe 0x100000) (probe_layout _) _ (by decide) hsaved

end Ceryx.Cpu
