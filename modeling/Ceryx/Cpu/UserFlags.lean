import Ceryx.Cpu.GsBase

/-!
# Ceryx.Cpu.UserFlags — the flags that user code gets back

Flags reach ring 3 from four places: the constant that `UserspaceTrampoline`
pushes, the copy in a fork child's frame, the frame of an interrupt, and the
frame of a system call. `UserFlags` (IOPL 0, IF 1) holds of the first, and of
the others as long as it holds of what is written into the flags slots of saved
contexts:

* the flags of an interrupted or calling user thread are good by induction;
* `rt_sigreturn` writes the `eflags` of the user's signal frame as they are;
* on the system call path a delivered signal writes its stack pointer there,
  since `SignalCheckPending` gets a pointer one quadword too low;
* a store through a pointer of user code may hit any slot, or some of its bytes.

`flagsOk_of_flagsMeet`: when these writes keep IOPL 0 and IF 1, every return to
user mode does.
-/

namespace Ceryx.Cpu

open Lib Machine
open Proc (InterruptFrame SigThread sigframeSize)

/-- User code runs with IOPL 0 and IF 1. -/
def FlagsOk (s : RingState) : Prop := s.m.UserMode → UserFlags s.m.rflags

instance (s : RingState) : Decidable (FlagsOk s) :=
  inferInstanceAs (Decidable (s.m.UserMode → UserFlags s.m.rflags))

/-- A saved context with flags that user code may get. A system call always goes
back to ring 3. -/
def Frame.FlagsUser (fr : Frame) : Prop :=
  fr.entry ≠ .interrupt ∨ fr.saved.cs &&& 3 ≠ 0 → UserFlags fr.saved.rflags

instance : DecidablePred Frame.FlagsUser := fun fr =>
  inferInstanceAs (Decidable (fr.entry ≠ .interrupt ∨ fr.saved.cs &&& 3 ≠ 0 →
    UserFlags fr.saved.rflags))

/-- The same for the context prepared for a fork child. -/
def ForkFlags (f : InterruptFrame) : Prop := f.cs &&& 3 ≠ 0 → UserFlags f.rflags

instance : DecidablePred ForkFlags := fun f =>
  inferInstanceAs (Decidable (f.cs &&& 3 ≠ 0 → UserFlags f.rflags))

abbrev FlagsSaved (s : RingState) : Prop := AllSaved Frame.FlagsUser ForkFlags s

/-! ## The condition -/

/-- Storing `bs` at `a` leaves good flags in every saved context, also where it
overlaps the flags or the code segment in part. -/
def KeepsFlags (s : RingState) (a : Word) (bs : List UInt8) : Prop :=
  ∀ t < s.nextTid, ((s.code t).store a bs).All Frame.FlagsUser ForkFlags

instance (s : RingState) (a : Word) (bs : List UInt8) : Decidable (KeepsFlags s a bs) :=
  inferInstanceAs (Decidable (∀ t < s.nextTid,
    ((s.code t).store a bs).All Frame.FlagsUser ForkFlags))

/-- The stack pointer that `SetupFrame` computes when it takes the flags for the
stack pointer. -/
def handlerRsp (rflags : Word) : Word := ((rflags - sigframeSize) &&& ~~~15#64) - 8

/-- A signal handler's frame is built while this system call returns. -/
def Frame.delivers (fr : Frame) (m : Machine) (r : CallRegs) (sig : SigThread) : Bool :=
  let m := (fr.returned m r).exec syscallCheck
  (signalDelivered sig m.mem (m.regs .rdi)).isSome

/-- The innermost context, when the running thread has one. -/
def RingState.innermost (s : RingState) : Option Frame :=
  match s.code s.current with
  | .running (fr :: _) => some fr
  | .running [] => none
  | .landing _ _ => none

/-- The condition on one system call's case of `Dispatch`: the `eflags` that
`rt_sigreturn` finds in the signal frame are good, and `ARCH_GET_FS` stores
where it does no harm. -/
def DispatchFlags (s : RingState) (fr : Frame) : Prop :=
  (fr.entry = .syscall 15 → UserFlags (s.m.mem (s.m.mem (s.m.gsBase + 24) + 168))) ∧
    (fr.entry = .syscall 158 → fr.saved.rdi.setWidth 32 = RingState.ARCH_GET_FS →
      KeepsFlags s fr.saved.rsi (toLE 8 s.fsBase.toNat))

instance (s : RingState) (fr : Frame) : Decidable (DispatchFlags s fr) :=
  inferInstanceAs (Decidable (_ ∧ _))

/-- The condition on a step. -/
def FlagsMeet (s : RingState) : RingOp → Prop
  | .store a bs => KeepsFlags s a bs
  | .dispatch _ _ => ∀ fr ∈ s.innermost, DispatchFlags s fr
  | .sysret r _ sig =>
      ∀ fr ∈ s.innermost, fr.delivers s.m r sig = true → UserFlags (handlerRsp fr.saved.rflags)
  | _ => True

instance FlagsMeet.decidable (s : RingState) : (op : RingOp) → Decidable (FlagsMeet s op)
  | .store a bs => inferInstanceAs (Decidable (KeepsFlags s a bs))
  | .dispatch _ _ => inferInstanceAs (Decidable (∀ fr ∈ s.innermost, DispatchFlags s fr))
  | .sysret r _ sig => inferInstanceAs (Decidable (∀ fr ∈ s.innermost,
      fr.delivers s.m r sig = true → UserFlags (handlerRsp fr.saved.rflags)))
  | .userRun .. | .kernelRun .. | .syscall | .sysretFault .. | .interrupt _ | .iret ..
  | .spawnKernel .. | .spawnUser .. | .switchTo _ | .land => isTrue trivial

/-! ## What the exits load -/

/-- `SYSRET` takes the flags from the saved context, or from what delivery wrote
over them. -/
theorem frameSysret_flags {fr : Frame} {m m' : Machine} {r r' : CallRegs} {sig : SigThread}
    (h : fr.sysret m r r' sig = some m') :
    m'.rflags = if fr.delivers m r sig = true then handlerRsp fr.saved.rflags
      else fr.saved.rflags := by
  simp only [Frame.sysret, Option.map_eq_some_iff] at h
  rcases h with ⟨mem, hcheck, rfl⟩
  have hrdi : ((fr.returned m r).exec syscallCheck).regs .rdi = fr.ptr - 8 :=
    syscallCheck_rdi _
  have hrsp : ((fr.returned m r).exec syscallCheck).regs .rsp = fr.ptr - 8 :=
    syscallCheck_rsp _
  have hmem : ((fr.returned m r).exec syscallCheck).mem =
      (putFrame m.mem fr.ptr fr.saved).write (fr.ptr - 8) r.ret := rfl
  -- the frame's flags lie where the signal code sees a stack pointer
  have haddr : fr.ptr - 8 + 160 = fr.ptr + 152 := by bv_omega
  have hseen : (frameAt ((fr.returned m r).exec syscallCheck).mem (fr.ptr - 8)).rsp =
      fr.saved.rflags := by
    change ((fr.returned m r).exec syscallCheck).mem (fr.ptr - 8 + 160) = fr.saved.rflags
    rw [hmem, haddr, Mem.write_ne _ _ (below_frame fr.ptr 152 (by decide)), putFrame_rflags]
  rw [hrdi] at hcheck
  rcases signalCheck_frame hcheck with ⟨-, -, hloaded⟩
  have hflags := (syscallExit_flags
    (((fr.returned m r).exec syscallCheck).afterCall ⟨r'.ret, r'.scratch, mem⟩)).1
  rw [afterCall_rsp, hrsp, afterCall_mem] at hflags
  rw [hflags]
  change (frameAt mem (fr.ptr - 8)).rsp = _
  rw [hloaded, hseen]
  have hdelivers : fr.delivers m r sig =
      (signalDelivered sig ((fr.returned m r).exec syscallCheck).mem (fr.ptr - 8)).isSome := by
    rw [← hrdi]
    rfl
  rw [hdelivers, Proc.sigframeAddr, hseen, handlerRsp]
  generalize signalDelivered sig ((fr.returned m r).exec syscallCheck).mem (fr.ptr - 8) = n
  cases n with
  | none => simp
  | some n => simp

/-! ## Steps -/

theorem flagsOk_of_kernel {s : RingState} (hkernel : ¬ s.m.UserMode) : FlagsOk s :=
  fun huser => absurd huser hkernel

theorem finish_flagsSaved {s : RingState} (h : FlagsSaved s) {fr : Frame} {rest : List Frame}
    (hcode : s.code s.current = .running (fr :: rest)) {f : InterruptFrame}
    (hf : UserFlags f.rflags) : FlagsSaved (s.finish fr rest f) := by
  apply h.setCode
  apply AllSaved.push (h.tail hcode)
  exact fun _ => hf

/-- Marking a system call as done does not make a store worse. -/
theorem finish_keepsFlags {s : RingState} {nr ptr a : Word} {bs : List UInt8} {f : InterruptFrame}
    {rest : List Frame} (hcode : s.code s.current = .running (⟨.syscall nr, ptr, f⟩ :: rest))
    (hkeep : KeepsFlags s a bs) : KeepsFlags (s.finish ⟨.syscall nr, ptr, f⟩ rest f) a bs := by
  intro t ht
  have hcur := hkeep t ht
  change ((Function.update s.code s.current
    (.running (⟨.dispatched, ptr, f⟩ :: rest)) t).store a bs).All _ _
  by_cases hc : t = s.current
  · rw [hc, hcode] at hcur
    rw [hc, Function.update_self]
    have hhead := hcur (Frame.store a bs ⟨.syscall nr, ptr, f⟩) List.mem_cons_self
    intro fr hfr
    rcases List.mem_cons.mp hfr with rfl | hrest
    · exact fun _ => hhead (.inl (by simp [Frame.store]))
    · exact hcur fr (List.mem_cons_of_mem _ hrest)
  · rw [Function.update_of_ne hc]
    exact hcur

theorem dispatched_flagsSaved {s s' : RingState} (h : FlagsSaved s) {nr ptr : Word}
    {f : InterruptFrame} {rest : List Frame}
    (hcode : s.code s.current = .running (⟨.syscall nr, ptr, f⟩ :: rest))
    (hop : DispatchFlags s ⟨.syscall nr, ptr, f⟩)
    (hdone : Dispatched s nr ⟨.syscall nr, ptr, f⟩ rest s') : FlagsSaved s' := by
  have hf : UserFlags f.rflags := h.head hcode (.inl (by simp))
  have hfinish := finish_flagsSaved h hcode hf
  cases hdone with
  | sigreturn hnr =>
      -- the flags come from the user's signal frame
      subst hnr
      exact finish_flagsSaved h hcode (hop.1 rfl)
  | fork top hnr => exact hfinish.addThread fun _ => hf
  | clone top hnr => exact hfinish.addThread trivial
  | execve rip rsp hnr =>
      apply finish_flagsSaved h hcode
      exact hf
  | archPrctl hnr =>
      subst hnr
      unfold RingState.archPrctl
      split
      · exact ⟨hfinish.current, hfinish.all⟩
      · split
        · -- ARCH_GET_FS stores
          rename_i hget
          exact ⟨hfinish.current, finish_keepsFlags hcode (hop.2 rfl hget)⟩
        · split
          · exact ⟨hfinish.current, hfinish.all⟩
          · exact hfinish
  | other hnr => exact hfinish

/-- What is saved on an entry from user mode is what user code ran with. -/
theorem syscall_flagsUser {s : RingState} (huser : s.m.UserMode) (hok : FlagsOk s) (nr : Word) :
    Frame.FlagsUser ⟨.syscall nr, (s.m.syscallInstr.exec syscallSave).regs .rsp,
      frameAt (s.m.syscallInstr.exec syscallSave).mem
        ((s.m.syscallInstr.exec syscallSave).regs .rsp)⟩ := by
  intro _
  have hflags := (syscallSave_frame s.m.syscallInstr).2
  have hr11 : s.m.syscallInstr.regs .r11 = s.m.rflags := by simp [syscallInstr]
  rw [hr11] at hflags
  change UserFlags (frameAt _ _).rflags
  rw [hflags]
  exact hok huser

theorem interrupt_flagsUser {s : RingState} (hok : FlagsOk s) (ev : Event) :
    Frame.FlagsUser ⟨.interrupt, (s.m.isrEntered ev).regs .rsp,
      frameAt (s.m.isrEntered ev).mem ((s.m.isrEntered ev).regs .rsp)⟩ := by
  rcases isrEntry_frame ev s.m with ⟨hcs, hflags⟩
  have hcs' : (frameAt (s.m.isrEntered ev).mem ((s.m.isrEntered ev).regs .rsp)).cs = s.m.cs := by
    rw [isrEntered, gate_mem, gate_regs]
    exact hcs
  have hflags' : (frameAt (s.m.isrEntered ev).mem ((s.m.isrEntered ev).regs .rsp)).rflags =
      s.m.rflags := by
    rw [isrEntered, gate_mem, gate_regs]
    exact hflags
  -- on the way to user code the frame holds the RFLAGS that the user ran with
  intro hback
  change UserFlags (frameAt _ _).rflags
  rw [hflags']
  apply hok
  rcases hback with hentry | hring
  · exact absurd rfl hentry
  · change (frameAt _ _).cs &&& 3 ≠ 0 at hring
    rwa [hcs'] at hring

/-- Kernel code that faults has no flags of user code. -/
theorem fault_flagsUser {s : RingState} {m : Machine} (hkernel : ¬ s.m.UserMode)
    (hcs : m.cs = s.m.cs) (ev : Event) :
    Frame.FlagsUser ⟨.interrupt, (m.isrEntered ev).regs .rsp,
      frameAt (m.isrEntered ev).mem ((m.isrEntered ev).regs .rsp)⟩ := by
  have hok : FlagsOk { s with m := m } :=
    flagsOk_of_kernel fun hu => hkernel ((userMode_congr hcs).mp hu)
  exact interrupt_flagsUser hok ev

/-- `iretq` with good flags to load, if it goes to ring 3. -/
theorem iretq_flagsOk {s : RingState} {m : Machine}
    (hflags : m.iretq.UserMode → UserFlags m.iretq.rflags) (rest : List Frame) :
    FlagsOk (s.iretq m rest) := by
  unfold RingState.iretq
  split
  · exact hflags
  · exact flagsOk_of_kernel (kernelCs_not_user (gate_cs (isrEntry generalProtection m)))

theorem land_flagsOk {s : RingState} (hkernel : ¬ s.m.UserMode) {l : Landing} {sp : Word}
    (hl : (Code.landing l sp).All Frame.FlagsUser ForkFlags) : FlagsOk (s.land l sp) := by
  cases l with
  -- stays in ring 0
  | thread entryPoint arg self =>
      have hcs : (s.land (.thread entryPoint arg self) sp).m.cs = s.m.cs := rfl
      exact flagsOk_of_kernel fun hu => hkernel ((userMode_congr hcs).mp hu)
  -- the flags are a constant of the trampoline
  | userspace rip rsp =>
      apply iretq_flagsOk
      intro _
      have hflags := (userspaceTrampoline_loads (s.m.landed sp rip rsp 0)).rflags
      rw [userspaceTrampoline] at hflags
      rw [hflags]
      decide
  -- the flags are those of the frame
  | fork f =>
      rcases land_fork s f sp with ⟨m, hland, hat, -, -⟩
      rw [hland]
      apply iretq_flagsOk
      intro huser
      unfold Machine.UserMode at huser
      rw [hat.cs] at huser
      rw [hat.rflags]
      exact hl huser

theorem ringStep_flags {s s' : RingState} {op : RingOp} (h : FlagsSaved s) (hok : FlagsOk s)
    (hop : FlagsMeet s op) (hstep : ringStep s op = some s') : FlagsSaved s' ∧ FlagsOk s' := by
  cases ringStep_cases hstep with
  | userRun fsBase huser hto hflags => exact ⟨⟨h.current, h.all⟩, fun _ => hflags (hok huser)⟩
  | kernelRun regs rflags mem hkernel => exact ⟨⟨h.current, h.all⟩, flagsOk_of_kernel hkernel⟩
  | store a bs hkernel => exact ⟨⟨h.current, hop⟩, flagsOk_of_kernel hkernel⟩
  | syscall hcode huser =>
      constructor
      · exact h.enter _ hcode (syscall_flagsUser huser hok _)
      · apply flagsOk_of_kernel
        apply kernelCs_not_user
        change (s.m.syscallInstr.exec syscallSave).cs = 0x08
        rw [exec_cs]
        rfl
  | @dispatch nr ptr f rest s' child image hcode hkernel hdone =>
      have hinner : s.innermost = some ⟨.syscall nr, ptr, f⟩ := by
        rw [RingState.innermost, hcode]
      constructor
      · exact dispatched_flagsSaved h hcode (hop _ hinner) hdone
      · exact flagsOk_of_kernel fun hu => hkernel ((userMode_congr (dispatched_gs hdone).1).mp hu)
  | @sysret ptr f rest r r' sig m hcode hkernel hret =>
      have hinner : s.innermost = some ⟨.dispatched, ptr, f⟩ := by
        rw [RingState.innermost, hcode]
      have hf : UserFlags f.rflags := h.head hcode (.inl (by simp))
      refine ⟨h.leave m hcode, fun _ => ?_⟩
      change UserFlags m.rflags
      rw [frameSysret_flags hret]
      split
      · -- a handler's stack pointer
        rename_i hdelivers
        exact hop _ hinner hdelivers
      · exact hf
  | sysretFault hcode hkernel hat =>
      constructor
      · exact h.interrupt _ _ (h.tail hcode) (fault_flagsUser hkernel (atSysret_cs hat) _)
      · exact flagsOk_of_kernel (kernelCs_not_user (gate_cs (isrEntry _ _)))
  | interrupt ev hcode =>
      constructor
      · exact h.enter _ hcode (interrupt_flagsUser hok ev)
      · exact flagsOk_of_kernel (kernelCs_not_user (gate_cs (isrEntry ev s.m)))
  | @iret ptr f rest r r' sig m hcode hkernel hat =>
      have hspec := atIretq_spec hat
      rcases checkedFrame_kept sig f with ⟨hcs, -, hflags⟩
      constructor
      · exact h.iretq m (h.tail hcode) (fault_flagsUser hkernel hspec.same.1 _)
      · apply iretq_flagsOk
        intro huser
        unfold Machine.UserMode at huser
        rw [hspec.cs, hcs] at huser
        rw [hspec.rflags, hflags]
        exact h.head hcode (.inr huser)
  | spawnKernel entryPoint arg self top hkernel =>
      exact ⟨h.addThread trivial, flagsOk_of_kernel hkernel⟩
  | spawnUser rip rsp top hkernel => exact ⟨h.addThread trivial, flagsOk_of_kernel hkernel⟩
  | switchTo hkernel hlt => exact ⟨⟨hlt, h.all⟩, flagsOk_of_kernel hkernel⟩
  | land hcode hkernel =>
      constructor
      · exact h.land _ _ fun m hcs => fault_flagsUser hkernel hcs _
      · apply land_flagsOk hkernel
        rw [← hcode]
        exact h.all s.current h.current

/-- From boot, in every run whose steps meet the condition user code always runs
with IOPL 0 and IF 1. -/
theorem flagsOk_of_flagsMeet {base idleTop : Word} {ops : List RingOp}
    (hops : StepsMeet ringStep FlagsMeet (bootRing base idleTop) ops) :
    Always ringStep FlagsOk (bootRing base idleTop) ops := by
  have hboot : FlagsOk (bootRing base idleTop) := flagsOk_of_kernel (kernelCs_not_user rfl)
  have hinv := always_of_stepsMeet (I := fun s => FlagsSaved s ∧ FlagsOk s)
    (fun s op s' hs hop hstep => ringStep_flags hs.1 hs.2 hop hstep)
    ⟨.boot base idleTop, hboot⟩ hops
  exact hinv.mono fun s hs => hs.2

/-- The registers of `rt_sigreturn` with a signal frame at `0x6000`. -/
def sigreturnRegs : Reg → Word
  | .rax => 15
  | .rsp => 0x6000
  | _ => 0

/-- User code about to call `rt_sigreturn` with these `eflags` in its frame. -/
def sigreturnMachine (eflags : Word) : Machine :=
  let m := userMachine sigreturnRegs 0xFFFF800000001000 0xFFFF800000208000
  { m with mem := m.mem.write (0x6000 + 168) eflags }

/-- A thread without pending signals. -/
def noSignals : SigThread := ⟨frameAt (fun _ => 0) 0, fun _ => 0, 0, 0, fun _ => {}, false, false⟩

def zeroRegs : CallRegs := ⟨0, fun _ => 0⟩

/-- The first thread of a process calls `rt_sigreturn`, comes back and is
interrupted. -/
def sigreturnRun (eflags : Word) : List RingOp :=
  [.spawnUser 0x401000 0x7000 0xFFFF800000208000, .switchTo 1, .land,
    .userRun (sigreturnMachine eflags) 0, .syscall, .dispatch none none,
    .sysret zeroRegs zeroRegs noSignals]

/-- Flags as a signal frame normally has them come back as they were, through an
interrupt as well. -/
theorem sigreturn_keeps_flags :
    Always ringStep FlagsOk (bootRing 0xFFFF800000001000 0xFFFF800000108000)
      (sigreturnRun 0x246 ++ [.interrupt ⟨32, none⟩, .iret zeroRegs zeroRegs noSignals]) :=
  flagsOk_of_flagsMeet (by decide +kernel)

/-- `eflags` with IOPL 3 and IF 0: `SYSRET` loads them, and user code has the I/O
ports and no interrupts. -/
theorem sigreturn_raises_iopl :
    ∃ s, run ringStep (bootRing 0xFFFF800000001000 0xFFFF800000108000) (sigreturnRun 0x3002) =
        some s ∧
      s.m.UserMode ∧ s.m.rflags = 0x3002 ∧ ¬ FlagsOk s :=
  exists_start (by decide +kernel)

/-- One byte over the second byte of an interrupted thread's flags does the same. -/
example :
    ∃ s, run ringStep (bootRing 0xFFFF800000001000 0xFFFF800000108000)
        [.spawnUser 0x401000 0x7000 0xFFFF800000208000, .switchTo 1, .land,
          .interrupt ⟨32, none⟩, .store 0xFFFF800000207FE9 [0x30],
          .iret zeroRegs zeroRegs noSignals] = some s ∧
      s.m.UserMode ∧ s.m.rflags = 0x3002 := exists_start (by decide +kernel)

end Ceryx.Cpu
