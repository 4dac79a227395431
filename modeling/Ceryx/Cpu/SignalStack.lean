import Ceryx.Cpu.ContextSwitch
import Ceryx.Cpu.Rings

/-!
# Ceryx.Cpu.SignalStack — the signal frame on the user stack

`SetupFrame` computes the address of the signal frame from the interrupted stack
pointer. Nobody passes it on: `rt_sigreturn` takes it from the stack pointer
that `SyscallEntry` records when the restorer enters the kernel.

* `storesByte_iff`: the bytes that `SetupFrame` writes are the 272 of the frame
  and the eight of the return address below it.
* `frameAgrees`: the frame and the handler's stack are aligned, and the recorded
  stack pointer is the address of the frame.
* `signalStack_never`: the frame reaches into the last sixteen bytes below the
  interrupted stack pointer, and so always into the red zone.
-/

namespace Ceryx.Cpu

open Lib Proc Machine

/-! ## The bytes that are written -/

/-- `SetupFrame` stores at this quadword: what is there afterwards does not
depend on what was there. -/
def StoresAt (frame : InterruptFrame) (sig : Nat) (action : SigAction) (a : Word) : Prop :=
  ∀ mem mem', (setupFrame frame mem sig action).2 a = (setupFrame frame mem' sig action).2 a

/-- `SetupFrame` stores at this byte address. -/
def StoresByte (frame : InterruptFrame) (sig : Nat) (action : SigAction) (b : Nat) : Prop :=
  ∃ a, StoresAt frame sig action a ∧ a.toNat ≤ b ∧ b < a.toNat + 8

/-- The quadwords stored: those of the frame, and the one below it. -/
theorem storesAt_iff (frame : InterruptFrame) (sig : Nat) (action : SigAction) (a : Word) :
    StoresAt frame sig action a ↔
      a = sigframeAddr frame - 8 ∨
        ∃ k, k < sigframeQwords ∧ a = sigframeAddr frame + BitVec.ofNat 64 (8 * k) := by
  constructor
  · intro h
    by_contra hnot
    rw [not_or] at hnot
    rcases hnot with ⟨hslot, hframe⟩
    have hne : ∀ k, k < sigframeQwords → a ≠ sigframeAddr frame + BitVec.ofNat 64 (8 * k) :=
      fun k hk he => hframe ⟨k, hk, he⟩
    -- elsewhere memory is as it was, whatever that is
    have hkeeps : ∀ mem : Mem, (setupFrame frame mem sig action).2 a = mem a := by
      intro mem
      have hfields : ∀ f ∈ (infoOffset, BitVec.ofNat 64 sig) :: mcontextFields frame,
          a ≠ sigframeAddr frame + f.1 := by
        intro f hf he
        have hoff : InSigframe f.1 := by
          rcases List.mem_cons.mp hf with rfl | hf
          · change InSigframe infoOffset
            decide
          · exact (setupFrame_field frame mem sig action hf).1
        rcases hoff.index with ⟨k, hk, hfk⟩
        rw [hfk] at he
        exact hne k hk he
      unfold setupFrame
      dsimp only
      rw [Mem.write_ne _ _ hslot, Mem.writeFields_frame hfields, Mem.zero_frame hne]
    have hsame := h (fun _ => 0) (fun _ => 1)
    rw [hkeeps, hkeeps] at hsame
    exact absurd hsame (by decide)
  · intro h mem mem'
    unfold setupFrame
    dsimp only
    by_cases hslot : a = sigframeAddr frame - 8
    · rw [hslot, Mem.write_self, Mem.write_self]
    · rw [Mem.write_ne _ _ hslot, Mem.write_ne _ _ hslot]
      rcases h.resolve_left hslot with ⟨k, hk, rfl⟩
      -- the frame has been zeroed before its fields are assigned
      apply Mem.writeFields_congr
      rw [Mem.zero_get hk, Mem.zero_get hk]

/-- The address is rounded down from 272 bytes below the stack pointer. -/
theorem sigframeAddr_toNat (frame : InterruptFrame) (h : 272 ≤ frame.rsp.toNat) :
    (sigframeAddr frame).toNat = (frame.rsp.toNat - 272) / 16 * 16 := by
  have hsub : (frame.rsp - sigframeSize).toNat = frame.rsp.toNat - 272 := by
    unfold sigframeSize
    bv_omega
  have hround := toNat_and_not_mask (frame.rsp - sigframeSize) 4
  rw [hsub] at hround
  exact hround

/-- The bytes of the frame and of the return address. -/
theorem storesByte_iff {frame : InterruptFrame} (hrsp : 288 ≤ frame.rsp.toNat) (sig : Nat)
    (action : SigAction) (b : Nat) :
    StoresByte frame sig action b ↔
      (sigframeAddr frame).toNat ≤ b + 8 ∧ b < (sigframeAddr frame).toNat + 272 := by
  have haddr := sigframeAddr_toNat frame (by omega)
  have hlt := frame.rsp.isLt
  have hslot : (sigframeAddr frame - 8).toNat = (sigframeAddr frame).toNat - 8 := by
    have hle : 8 ≤ (sigframeAddr frame).toNat := by omega
    bv_omega
  have hqword : ∀ k, k < sigframeQwords →
      (sigframeAddr frame + BitVec.ofNat 64 (8 * k)).toNat =
        (sigframeAddr frame).toNat + 8 * k := by
    intro k hk
    unfold sigframeQwords at hk
    have hsum : (sigframeAddr frame).toNat + 8 * k < 2 ^ 64 := by omega
    rw [BitVec.toNat_add, BitVec.toNat_ofNat, Nat.mod_eq_of_lt (by omega : 8 * k < 2 ^ 64),
      Nat.mod_eq_of_lt hsum]
  constructor
  · rintro ⟨a, ha, hle, hb⟩
    rcases (storesAt_iff frame sig action a).mp ha with rfl | ⟨k, hk, rfl⟩
    · omega
    · rw [hqword k hk] at hle hb
      unfold sigframeQwords at hk
      omega
  · rintro ⟨hlow, hhigh⟩
    by_cases hb : b < (sigframeAddr frame).toNat
    · -- a byte of the return address
      refine ⟨sigframeAddr frame - 8, ?_, by omega, by omega⟩
      exact (storesAt_iff frame sig action _).mpr (Or.inl rfl)
    · -- a byte of the frame: its quadword by the distance from the start
      have hk : (b - (sigframeAddr frame).toNat) / 8 < sigframeQwords := by
        unfold sigframeQwords
        omega
      refine ⟨sigframeAddr frame + BitVec.ofNat 64 (8 * ((b - (sigframeAddr frame).toNat) / 8)),
        ?_, ?_, ?_⟩
      · exact (storesAt_iff frame sig action _).mpr (Or.inr ⟨_, hk, rfl⟩)
      · rw [hqword _ hk]
        omega
      · rw [hqword _ hk]
        omega

/-! ## The way back -/

theorem ret_rsp (m : Machine) : m.ret.regs .rsp = m.regs .rsp + 8 := by simp [Machine.ret]

/-- `sig_restorer` up to `call SyscallDispatch`: `mov rax, 15`, `syscall`, and
`SyscallEntry`. -/
def sigRestorer (m : Machine) : Machine := (m.setReg .rax 15).syscallInstr.exec syscallSave

/-- The stack pointer that `rt_sigreturn` reads: `mov %%gs:24, %0`. -/
def recordedRsp (m : Machine) : Word := m.mem (m.gsBase + 24)

/-- The kernel stack does not overlap `CpuData.user_rsp`. -/
def StackClear (m : Machine) : Prop :=
  ∀ k, k < 22 → m.kernelGsBase + 24 ≠ slot (syscallTop m) (k + 1)

instance (m : Machine) : Decidable (StackClear m) := Nat.decidableBallLT _ _

/-- What the entry code records is the stack pointer at the `SYSCALL`. -/
theorem recordedRsp_sigRestorer {m : Machine} (h : StackClear m) :
    recordedRsp (sigRestorer m) = m.regs .rsp := by
  have htop : syscallTop (m.setReg .rax 15).syscallInstr = syscallTop m := rfl
  have hgs : (m.setReg .rax 15).syscallInstr.kernelGsBase = m.kernelGsBase := rfl
  have hrsp : (m.setReg .rax 15).syscallInstr.regs .rsp = m.regs .rsp := by
    simp [syscallInstr, setReg]
  have hfirst : (m.setReg .rax 15).syscallInstr.kernelGsBase + 24 ≠
      syscallTop (m.setReg .rax 15).syscallInstr - 8 := by
    have hzero := h 0 (by decide)
    rw [← slot_sub, slot_zero] at hzero
    exact hzero
  have hsaved := syscallSave_spec (m.setReg .rax 15).syscallInstr hfirst
  unfold recordedRsp sigRestorer
  rw [hsaved.gsBase, hsaved.mem, htop, hgs, hrsp]
  -- the pushes of the entry code stay on the kernel stack
  have hmiss : pushAll (syscallTop m) (syscallFrame (m.setReg .rax 15).syscallInstr)
      (m.mem.write (m.kernelGsBase + 24) (m.regs .rsp)) (m.kernelGsBase + 24) =
      (m.mem.write (m.kernelGsBase + 24) (m.regs .rsp)) (m.kernelGsBase + 24) := pushAll_frame h
  exact hmiss.trans (Mem.write_self _ _ _)

/-! ## SetupFrame and rt_sigreturn -/

/-- The size of the red zone of the x86-64 ABI. -/
def redZone : Nat := 128

/-- What the handler and `rt_sigreturn` rely on. -/
structure FrameAgrees (frame : InterruptFrame) (sig : Nat) (action : SigAction) : Prop where
  aligned : (sigframeAddr frame).toNat % 16 = 0
  handler : ∀ mem, (setupFrame frame mem sig action).1.rsp.toNat % 16 = 8
  /-- The handler returns with the stack pointer it started with, through the
  return address it was given. -/
  sigreturn : ∀ mem m, m.regs .rsp = (setupFrame frame mem sig action).1.rsp →
    m.mem (m.regs .rsp) = (setupFrame frame mem sig action).2 (m.regs .rsp) → StackClear m →
    m.ret.rip = action.saRestorer ∧ recordedRsp (sigRestorer m.ret) = sigframeAddr frame

/-- In addition, the red zone below the interrupted stack pointer is left
alone. -/
structure SignalStack (frame : InterruptFrame) (sig : Nat) (action : SigAction) : Prop
    extends FrameAgrees frame sig action where
  untouched : ∀ b, StoresByte frame sig action b → b + redZone < frame.rsp.toNat

theorem frameAgrees {frame : InterruptFrame} (hrsp : 288 ≤ frame.rsp.toNat) (sig : Nat)
    (action : SigAction) : FrameAgrees frame sig action := by
  have haddr := sigframeAddr_toNat frame (by omega)
  have hstart : ∀ mem, (setupFrame frame mem sig action).1.rsp = sigframeAddr frame - 8 :=
    fun _ => rfl
  constructor
  · omega
  · intro mem
    rw [hstart mem]
    -- the return address is pushed below a frame that is aligned to 16
    have hle : 8 ≤ (sigframeAddr frame).toNat := by omega
    have hslot : (sigframeAddr frame - 8).toNat = (sigframeAddr frame).toNat - 8 := by bv_omega
    omega
  · -- its `ret` pops the restorer's address and leaves the stack pointer at the frame
    intro mem m hm hret hclear
    rw [hm, hstart mem] at hret
    have hrestorer : (setupFrame frame mem sig action).2 (sigframeAddr frame - 8) =
        action.saRestorer := Mem.write_self _ _ _
    have hpopped : m.ret.regs .rsp = sigframeAddr frame := by
      rw [ret_rsp, hm, hstart mem]
      bv_omega
    constructor
    · have hrip : m.ret.rip = m.mem (m.regs .rsp) := rfl
      rw [hrip, hm, hstart mem, hret]
      exact hrestorer
    · rw [← hpopped]
      exact recordedRsp_sigRestorer hclear

/-- The frame always reaches into the red zone. -/
theorem signalStack_never {frame : InterruptFrame} (hrsp : 288 ≤ frame.rsp.toNat) (sig : Nat)
    (action : SigAction) :
    ¬ SignalStack frame sig action ∧ FrameAgrees frame sig action := by
  refine ⟨fun h => ?_, frameAgrees hrsp sig action⟩
  have haddr := sigframeAddr_toNat frame (by omega)
  -- the last byte of the frame
  have hlast : StoresByte frame sig action ((sigframeAddr frame).toNat + 271) :=
    (storesByte_iff hrsp sig action _).mpr ⟨by omega, by omega⟩
  have hfree := h.untouched _ hlast
  unfold redZone at hfree
  omega

/-- A stack pointer as user code has it, in the middle of a function. -/
def interruptedFrame : InterruptFrame :=
  ⟨0, 0, 0, 0, 0, 0, 0, 0, 0, 0, 0, 0, 0, 0, 0, 0, 0, 0x400100, 0x23, 0x202, 0x7FFFE008, 0x1B⟩

/-- Not even for an ordinary program: the red zone is overwritten. -/
theorem signalStack_never_interrupted :
    288 ≤ interruptedFrame.rsp.toNat ∧ ¬ SignalStack interruptedFrame 11 { saHandler := 0x400000 } ∧
      FrameAgrees interruptedFrame 11 { saHandler := 0x400000 } :=
  ⟨by decide, signalStack_never (by decide) 11 { saHandler := 0x400000 }⟩

/-- The byte right below the aligned stack pointer is in the red zone, and
`MemoryZero` clears it. -/
theorem redZone_overwritten : ¬ SignalStack interruptedFrame 11 { saHandler := 0x400000 } := by
  intro h
  have hrsp : 288 ≤ interruptedFrame.rsp.toNat := by decide
  have hwritten : StoresByte interruptedFrame 11 { saHandler := 0x400000 } 0x7FFFDFFF :=
    (storesByte_iff hrsp 11 _ _).mpr (by decide)
  have hfree := h.untouched _ hwritten
  exact absurd hfree (by decide)

end Ceryx.Cpu
