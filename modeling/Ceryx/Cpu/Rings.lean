import Ceryx.Lib.ByteMem
import Ceryx.Lib.Runs
import Ceryx.Cpu.SavedFrame

/-!
# Ceryx.Cpu.Rings — every way between ring 0 and ring 3

The CPU with its threads, at the level of the code that crosses rings:
`SyscallEntry`, `isr_common`, and the landing points `ThreadTrampoline`,
`UserspaceTrampoline` and `ForkReturn` of threads that have never run. The entry
and exit code is executed; between the two, kernel code may compute and store
what it likes, and user code may do what ring 3 permits. Interrupts are off inside
the entry and exit code, so that one comes before such a piece or after it.

A thread in the kernel has the contexts that were saved on its kernel stack,
innermost first. They change only where the code changes them: in
`rt_sigreturn` and `execve`, when a signal is delivered, and when kernel code
stores through a pointer that user code has passed, which nothing checks. Such a
store may be of any bytes, at any address, and overlap a saved quadword in part;
the ones that `SetupFrame` makes below the user's stack pointer, and the pushes
of an entry on a `kernel_stack` that has been overwritten, are of this kind when
they hit a saved context.

`iretq` and `sysret` fault, in ring 0 and behind the `swapgs`, when they are to
load what the CPU does not take. `InterruptDispatch` does not return from that.

Kernel code itself stays as it was compiled: there is no step for a store that
hits a return address, or a register that kernel code has saved for itself.
-/

namespace Ceryx.Cpu

open Lib Machine
open Proc (InterruptFrame SigThread rtSigreturn)

/-! ## Switch.asm -/

namespace Machine

/-- The CPU runs user code. -/
def UserMode (m : Machine) : Prop := m.cs &&& 3 ≠ 0

instance (m : Machine) : Decidable m.UserMode := inferInstanceAs (Decidable (¬ m.cs &&& 3 = 0))

/-- `cli` -/
def cli (m : Machine) : Machine := { m with rflags := m.rflags &&& ~~~0x200#64 }

/-- `sti` -/
def sti (m : Machine) : Machine := { m with rflags := m.rflags ||| 0x200 }

/-- `xor r, r` for each of the registers. -/
def clear (m : Machine) (rs : List Reg) : Machine :=
  { m with regs := fun r => if r ∈ rs then 0 else m.regs r }

/-- `SwitchContext` when it returns into a thread that has never run: it has
popped the registers that the thread's stack was set up with. -/
def landed (m : Machine) (sp r12 r13 r14 : Word) : Machine :=
  { m with
    regs
      | .rsp => sp
      | .r12 => r12
      | .r13 => r13
      | .r14 => r14
      | .rbp => 0
      | .rbx => 0
      | .r15 => 0
      | r => m.regs r }

/-- `ThreadTrampoline` up to `call r12`. -/
def threadTrampoline (m : Machine) : Machine :=
  let m := m.sti.exec [.mov .rdi .r13]
  { m with rip := m.regs .r12 }

/-- `UserspaceTrampoline` up to `iretq`. -/
def userspacePushed (m : Machine) : Machine :=
  ((m.exec [.swapgs]).cli.exec
    [.pushImm 0x1B, .push .r13, .pushImm 0x202, .pushImm 0x23, .push .r12]).clear
      [.rax, .rbx, .rcx, .rdx, .rsi, .rdi, .rbp, .r8, .r9, .r10, .r11]

/-- `UserspaceTrampoline`. -/
def userspaceTrampoline (m : Machine) : Machine := m.userspacePushed.iretq

/-- `ForkReturn` up to `iretq`. -/
def forkPopped (m : Machine) : Machine :=
  ((m.exec [.swapgs]).exec (popOrder.map .pop)).exec [.addRsp 16]

/-- `ForkReturn`. -/
def forkReturn (m : Machine) : Machine := m.forkPopped.iretq

/-- `isr_common` from `.no_signal_check` up to `iretq`. -/
def isrPopped (m : Machine) : Machine :=
  ((m.exec (popOrder.map .pop)).execIfUser 24 [.swapgs]).exec [.addRsp 16]

/-- The last instruction of `isr_common`. -/
theorem isrLeave_eq (m : Machine) : isrLeave m = m.isrPopped.iretq := rfl

/-! ## The hardware side of entry -/

/-- `SYSCALL`, with the `STAR` and `SFMASK` of `Syscall::Initialize`. -/
def syscallInstr (m : Machine) : Machine :=
  { m with
    regs := Function.update (Function.update m.regs .rcx m.rip) .r11 m.rflags
    rflags := m.rflags &&& ~~~0x40700#64
    cs := 0x08
    ss := 0x10 }

/-- What an interrupt gate changes besides the stack: it selects the kernel's
code segment, with no stack segment when it comes from ring 3, and clears IF, TF,
NT, RF and VM. -/
def gate (m : Machine) : Machine :=
  { m with
    cs := 0x08
    ss := if m.cs &&& 3 = 0 then m.ss else 0
    rflags := m.rflags &&& ~~~0x34300#64 }

/-- In the kernel's code segment. -/
theorem gate_cs (m : Machine) : m.gate.cs = 0x08 := rfl

@[simp] theorem gate_mem (m : Machine) : m.gate.mem = m.mem := rfl

@[simp] theorem gate_regs (m : Machine) : m.gate.regs = m.regs := rfl

@[simp] theorem gate_gsBase (m : Machine) : m.gate.gsBase = m.gsBase := rfl

@[simp] theorem gate_kernelGsBase (m : Machine) : m.gate.kernelGsBase = m.kernelGsBase := rfl

/-- An interrupt up to the call of `InterruptDispatch`. -/
def isrEntered (ev : Event) (m : Machine) : Machine := (isrEntry ev m).gate

/-! ## The hardware side of exit -/

/-- `iretq` takes this context when the flags are `rflags`: NT is clear, the
address is canonical, and the selectors are the code and the stack segment of one
ring in the GDT of this kernel (in ring 0 the stack segment may be missing). -/
def TakesContext (rflags rip cs ss : Word) : Prop :=
  rflags &&& 0x4000 = 0 ∧ Canonical rip ∧
    (cs.setWidth 16 = 0x23#16 ∧ ss.setWidth 16 = 0x1B#16 ∨
      cs.setWidth 16 = 0x08#16 ∧ (ss.setWidth 16 = 0x10#16 ∨ ss.setWidth 16 = 0#16))

instance (rflags rip cs ss : Word) : Decidable (TakesContext rflags rip cs ss) :=
  inferInstanceAs (Decidable (_ ∧ _ ∧ (_ ∨ _)))

/-- `iretq` takes what it finds at the stack pointer. Otherwise it raises `#GP` at
itself. -/
def TakesIretq (m : Machine) : Prop := TakesContext m.rflags m.iretq.rip m.iretq.cs m.iretq.ss

instance (m : Machine) : Decidable m.TakesIretq :=
  inferInstanceAs (Decidable (TakesContext _ _ _ _))

/-- `#GP`, with an error code of 0. -/
def generalProtection : Event := ⟨13, some 0⟩

end Machine

/-! ## Threads -/

/-- How a saved context came onto the kernel stack. -/
inductive Entry where
  /-- By `SYSCALL` with this number; `Dispatch` has not taken its case yet. -/
  | syscall (nr : Word)
  /-- By `SYSCALL`; the case is done. -/
  | dispatched
  | interrupt
deriving DecidableEq, Repr

/-- A saved context and where it lies. -/
structure Frame where
  entry : Entry
  ptr : Word
  saved : InterruptFrame
deriving DecidableEq, Repr

/-- The landing point of a thread that has never run, with what its
`Initialize*Stack` put on its stack. -/
inductive Landing where
  | thread (entryPoint arg self : Word)
  | userspace (rip rsp : Word)
  | fork (frame : InterruptFrame)
deriving DecidableEq, Repr

/-- Where a thread's kernel stack stands: at a landing point, with `rsp` at `sp`,
or with these contexts saved, innermost first. -/
inductive Code where
  | landing (l : Landing) (sp : Word)
  | running (frames : List Frame)
deriving DecidableEq, Repr

/-- The CPU and the threads. -/
structure RingState where
  m : Machine
  /-- `IA32_FS_BASE`. -/
  fsBase : Word
  current : Nat
  nextTid : Nat
  code : Nat → Code
  /-- `GetKernelStack() + 32768`. -/
  stackTop : Nat → Word

section Store
variable (a : Word) (bs : List UInt8)

/-- The quadword `v` at `p` after `bs` has been stored at address `a`. -/
def storeSlot (p v : Word) : Word := Mem.store (fun _ => v) a bs p

/-- The frame at `ptr` after that. -/
def storeFrame (ptr : Word) (f : InterruptFrame) : InterruptFrame :=
  frameAt ((putFrame (fun _ => 0) ptr f).store a bs) ptr

/-- A saved context after a store that may overlap it. -/
def Frame.store (fr : Frame) : Frame := { fr with saved := storeFrame a bs fr.ptr fr.saved }

/-- The registers of a landing point lie below it, where `SwitchContext` will pop
them: `r12` 32 bytes, `r13` 40 and `r14` 48. -/
def Code.store : Code → Code
  | .landing (.thread entryPoint arg self) sp =>
      .landing (.thread (storeSlot a bs (sp - 32) entryPoint) (storeSlot a bs (sp - 40) arg)
        (storeSlot a bs (sp - 48) self)) sp
  | .landing (.userspace rip rsp) sp =>
      .landing (.userspace (storeSlot a bs (sp - 32) rip) (storeSlot a bs (sp - 40) rsp)) sp
  | .landing (.fork f) sp => .landing (.fork (storeFrame a bs sp f)) sp
  | .running frames => .running (frames.map (Frame.store a bs))

end Store

/-- What a call leaves in the registers it need not keep. -/
structure CallRegs where
  ret : Word
  scratch : Reg → Word

namespace Frame

/-- The machine when the dispatcher returns to the entry code: the stack pointer
is back at the frame. -/
def returned (fr : Frame) (m : Machine) (r : CallRegs) : Machine :=
  let mem := putFrame m.mem fr.ptr fr.saved
  ({ m with mem := mem }.setReg .rsp fr.ptr).afterCall ⟨r.ret, r.scratch, mem⟩

/-- `SyscallEntry` from the return of `SyscallDispatch`. -/
def sysret (fr : Frame) (m : Machine) (r r' : CallRegs) (sig : SigThread) : Option Machine :=
  let m := (fr.returned m r).exec syscallCheck
  (signalCheckPending sig m.mem (m.regs .rdi)).map fun mem =>
    syscallExit (m.afterCall ⟨r'.ret, r'.scratch, mem⟩)

/-- `isr_common` from the return of `InterruptDispatch`. -/
def iret (fr : Frame) (m : Machine) (r r' : CallRegs) (sig : SigThread) : Option Machine :=
  let m := fr.returned m r
  match isrCheck m with
  | none => some (isrLeave m)
  | some m' =>
      (signalCheckPending sig m'.mem (m'.regs .rdi)).map fun mem =>
        isrExit (m'.afterCall ⟨r'.ret, r'.scratch, mem⟩)

/-- `SyscallEntry` up to `sysret`. -/
def atSysret (fr : Frame) (m : Machine) (r r' : CallRegs) (sig : SigThread) : Option Machine :=
  let m := (fr.returned m r).exec syscallCheck
  (signalCheckPending sig m.mem (m.regs .rdi)).map fun mem =>
    (m.afterCall ⟨r'.ret, r'.scratch, mem⟩).exec syscallRestore

/-- `isr_common` up to `iretq`. -/
def atIretq (fr : Frame) (m : Machine) (r r' : CallRegs) (sig : SigThread) : Option Machine :=
  let m := fr.returned m r
  match isrCheck m with
  | none => some m.isrPopped
  | some m' =>
      (signalCheckPending sig m'.mem (m'.regs .rdi)).map fun mem =>
        ((m'.afterCall ⟨r'.ret, r'.scratch, mem⟩).exec [.pop .rax]).isrPopped

/-- A system call returns by the `sysret` that it has got to, -/
theorem sysret_eq (fr : Frame) (m : Machine) (r r' : CallRegs) (sig : SigThread) :
    fr.sysret m r r' sig = (fr.atSysret m r r' sig).map Machine.sysret := by
  rw [atSysret, Option.map_map]
  rfl

/-- and an interrupt by the `iretq`. -/
theorem iret_eq (fr : Frame) (m : Machine) (r r' : CallRegs) (sig : SigThread) :
    fr.iret m r r' sig = (fr.atIretq m r r' sig).map Machine.iretq := by
  unfold iret atIretq
  dsimp only
  split
  · rfl
  · rw [Option.map_map]
    rfl

end Frame

namespace RingState

/-- What stands on the stack of the running thread. -/
def setCode (s : RingState) (c : Code) : RingState :=
  { s with code := Function.update s.code s.current c }

/-- A store by kernel code through a pointer that it was passed. -/
def store (s : RingState) (a : Word) (bs : List UInt8) : RingState :=
  { s with m := { s.m with mem := s.m.mem.store a bs }, code := fun t => (s.code t).store a bs }

/-- A new thread that will land at `l`. -/
def addThread (s : RingState) (l : Landing) (sp top : Word) : RingState :=
  { s with
    nextTid := s.nextTid + 1
    code := Function.update s.code s.nextTid (.landing l sp)
    stackTop := Function.update s.stackTop s.nextTid top }

/-- `SYSCALL` and `SyscallEntry` up to `call SyscallDispatch`. -/
def syscall (s : RingState) (frames : List Frame) : RingState :=
  let m := s.m.syscallInstr.exec syscallSave
  let saved := frameAt m.mem (m.regs .rsp)
  { s with m := m }.setCode (.running (⟨.syscall saved.rax, m.regs .rsp, saved⟩ :: frames))

/-- An interrupt up to `call InterruptDispatch`. -/
def interrupt (s : RingState) (ev : Event) (frames : List Frame) : RingState :=
  let m := s.m.isrEntered ev
  { s with m := m }.setCode
    (.running (⟨.interrupt, m.regs .rsp, frameAt m.mem (m.regs .rsp)⟩ :: frames))

/-- `iretq` by the machine `m`, with the contexts `rest` left on the kernel stack.
What it does not take raises `#GP` in ring 0. -/
def iretq (s : RingState) (m : Machine) (rest : List Frame) : RingState :=
  if m.TakesIretq then { s with m := m.iretq }.setCode (.running rest)
  else { s with m := m }.interrupt generalProtection rest

/-- `InitializeForkStack`: the child's frame. -/
def forkFrame (f : InterruptFrame) : InterruptFrame :=
  { f with rax := 0, interruptNumber := 0, errorCode := 0 }

def ARCH_SET_GS : BitVec 32 := 0x1001
def ARCH_SET_FS : BitVec 32 := 0x1002
def ARCH_GET_FS : BitVec 32 := 0x1003

/-- `arch_prctl`: `code` is `static_cast<int>(regs->rdi)`. -/
def archPrctl (s : RingState) (code : BitVec 32) (addr : Word) : RingState :=
  if code = ARCH_SET_FS then { s with fsBase := addr }
  else if code = ARCH_GET_FS then s.store addr (toLE 8 s.fsBase.toNat)
  else if code = ARCH_SET_GS then { s with m := { s.m with gsBase := addr } }
  else s

/-- `rt_sigreturn`: the frame afterwards. The user RSP is in `gs:24`; the signal
mask is not part of this machine. -/
def sigreturn (s : RingState) (f : InterruptFrame) : InterruptFrame :=
  (rtSigreturn ⟨f, s.m.mem, 0, 0, fun _ => {}, false, false⟩ (s.m.mem (s.m.gsBase + 24))).frame

/-- `Dispatch` is done with the innermost system call and leaves it the frame
`f`. -/
def finish (s : RingState) (fr : Frame) (rest : List Frame) (f : InterruptFrame) : RingState :=
  s.setCode (.running (⟨.dispatched, fr.ptr, f⟩ :: rest))

def CLONE_VM : Word := 0x100

/-- `fork`, or `clone` without `CLONE_VM`, which comes to the same. -/
def forks (nr : Word) (f : InterruptFrame) : Prop := nr = 57 ∨ nr = 56 ∧ f.rdi &&& CLONE_VM = 0

instance (nr : Word) (f : InterruptFrame) : Decidable (forks nr f) :=
  inferInstanceAs (Decidable (_ ∨ _))

/-- What `Dispatch` does to saved contexts, threads and base registers. `child`
is the kernel stack of the thread that `fork` or `clone` has created, `image` the
entry point and stack of the program that `execve` has loaded. -/
def dispatch (s : RingState) (nr : Word) (fr : Frame) (rest : List Frame) (child : Option Word)
    (image : Option (Word × Word)) : RingState :=
  let f := fr.saved
  if nr = 15 then s.finish fr rest (s.sigreturn f)
  else if forks nr f then
    match child with
    | none => s.finish fr rest f
    | some top => (s.finish fr rest f).addThread (.fork (forkFrame f)) (slot top 22) top
  else if nr = 56 then
    match child with
    | none => s.finish fr rest f
    | some top => (s.finish fr rest f).addThread (.userspace f.rdx f.rsi) top top
  else if nr = 59 then
    match image with
    | none => s.finish fr rest f
    | some (rip, rsp) => s.finish fr rest { f with rip := rip, rsp := rsp }
  else if nr = 158 then (s.finish fr rest f).archPrctl (f.rdi.setWidth 32) f.rsi
  else s.finish fr rest f

/-- `PerformSwitch`: the other thread continues in `SwitchContext`. -/
def switchTo (s : RingState) (t : Nat) : RingState :=
  { s with
    m := { s.m with
      mem := s.m.mem.write (s.m.mem s.m.gsBase + 16) (s.stackTop t)
      tssRsp0 := s.stackTop t }
    current := t }

/-- The code at the landing point. -/
def land (s : RingState) (l : Landing) (sp : Word) : RingState :=
  match l with
  | .thread entryPoint arg self =>
      { s with m := (s.m.landed sp entryPoint arg self).threadTrampoline }.setCode (.running [])
  | .userspace rip rsp => s.iretq (s.m.landed sp rip rsp 0).userspacePushed []
  | .fork f =>
      s.iretq ({ s.m with mem := putFrame s.m.mem sp f }.landed sp 0 0 0).forkPopped []

end RingState

/-! ## Steps -/

/-- IOPL is 0 and interrupts are enabled. -/
def UserFlags (rflags : Word) : Prop := rflags &&& 0x3000 = 0 ∧ rflags &&& 0x200 ≠ 0

instance (rflags : Word) : Decidable (UserFlags rflags) :=
  inferInstanceAs (Decidable (rflags &&& 0x3000 = 0 ∧ ¬ rflags &&& 0x200 = 0))

/-- What can happen next. -/
inductive RingOp where
  /-- User code computes. It can set its segment bases, but not IOPL and IF when
  IOPL is 0. -/
  | userRun (m' : Machine) (fsBase : Word)
  /-- Kernel code computes. -/
  | kernelRun (regs : Reg → Word) (rflags : Word) (mem : Mem)
  | store (a : Word) (bs : List UInt8)
  | syscall
  | dispatch (child : Option Word) (image : Option (Word × Word))
  | sysret (r r' : CallRegs) (sig : SigThread)
  /-- `SYSRET` to an address that is not canonical. Some CPUs load it, and fault
  in ring 3 when they fetch from it; the others fault before they leave ring 0. -/
  | sysretFault (r r' : CallRegs) (sig : SigThread)
  | interrupt (ev : Event)
  | iret (r r' : CallRegs) (sig : SigThread)
  /-- Kernel code creates a kernel thread, or the first thread of a process. -/
  | spawnKernel (entryPoint arg self top : Word)
  | spawnUser (rip rsp top : Word)
  | switchTo (t : Nat)
  | land

/-- One step of a thread with these contexts saved. -/
def runningStep (s : RingState) (frames : List Frame) : RingOp → Option RingState
  | .userRun m' fsBase =>
      if s.m.UserMode ∧ m'.UserMode ∧ (UserFlags s.m.rflags → UserFlags m'.rflags) then
        some { s with
          m := { m' with kernelGsBase := s.m.kernelGsBase, tssRsp0 := s.m.tssRsp0 }
          fsBase := fsBase }
      else none
  | .kernelRun regs rflags mem =>
      if s.m.UserMode then none
      else some { s with m := { s.m with regs := regs, rflags := rflags, mem := mem } }
  | .store a bs => if s.m.UserMode then none else some (s.store a bs)
  | .syscall => if s.m.UserMode then some (s.syscall frames) else none
  | .dispatch child image =>
      match frames with
      | ⟨.syscall nr, ptr, f⟩ :: rest =>
          if s.m.UserMode then none
          else some (s.dispatch nr ⟨.syscall nr, ptr, f⟩ rest child image)
      | _ => none
  | .sysret r r' sig =>
      match frames with
      | ⟨.dispatched, ptr, f⟩ :: rest =>
          if s.m.UserMode then none
          else (Frame.sysret ⟨.dispatched, ptr, f⟩ s.m r r' sig).map fun m =>
            { s with m := m }.setCode (.running rest)
      | _ => none
  | .sysretFault r r' sig =>
      match frames with
      | ⟨.dispatched, ptr, f⟩ :: rest =>
          if s.m.UserMode then none
          else ((Frame.atSysret ⟨.dispatched, ptr, f⟩ s.m r r' sig).filter fun m =>
              ¬ Canonical (m.regs .rcx)).map fun m =>
            { s with m := m }.interrupt generalProtection rest
      | _ => none
  | .interrupt ev => some (s.interrupt ev frames)
  | .iret r r' sig =>
      match frames with
      | ⟨.interrupt, ptr, f⟩ :: rest =>
          if s.m.UserMode then none
          else (Frame.atIretq ⟨.interrupt, ptr, f⟩ s.m r r' sig).map fun m => s.iretq m rest
      | _ => none
  | .spawnKernel entryPoint arg self top =>
      if s.m.UserMode then none else some (s.addThread (.thread entryPoint arg self) top top)
  | .spawnUser rip rsp top =>
      if s.m.UserMode then none else some (s.addThread (.userspace rip rsp) top top)
  | .switchTo t =>
      if s.m.UserMode ∨ s.nextTid ≤ t ∨ t = s.current then none else some (s.switchTo t)
  | .land => none

/-- One step. Interrupts are off from `SwitchContext` to the end of the code at
a landing point. -/
def ringStep (s : RingState) (op : RingOp) : Option RingState :=
  match s.code s.current, op with
  | .running frames, op => runningStep s frames op
  | .landing l sp, .land => if s.m.UserMode then none else some (s.land l sp)
  | .landing _ _, _ => none

/-- The CPU after `arch_cpu_init_per_cpu` and `Scheduler::Start`: the boot code
runs as the idle thread. -/
def bootRing (base idleTop : Word) : RingState where
  m :=
    { regs := fun _ => 0
      rip := 0, cs := 0x08, rflags := 0x202, ss := 0x10
      mem := (Mem.write (fun _ => 0) base base).write (base + 16) idleTop
      gsBase := base
      kernelGsBase := 0
      tssRsp0 := idleTop }
  fsBase := 0
  current := 0
  nextTid := 1
  code _ := .running []
  stackTop _ := idleTop

/-! ## What a step can do -/

/-- What `Dispatch` can do, one constructor for each case. -/
inductive Dispatched (s : RingState) (nr : Word) (fr : Frame) (rest : List Frame) :
    RingState → Prop
  | sigreturn (hnr : nr = 15) :
      Dispatched s nr fr rest (s.finish fr rest (s.sigreturn fr.saved))
  | fork (top : Word) (hnr : RingState.forks nr fr.saved) :
      Dispatched s nr fr rest ((s.finish fr rest fr.saved).addThread
        (.fork (RingState.forkFrame fr.saved)) (slot top 22) top)
  | clone (top : Word) (hnr : nr = 56) :
      Dispatched s nr fr rest ((s.finish fr rest fr.saved).addThread
        (.userspace fr.saved.rdx fr.saved.rsi) top top)
  | execve (rip rsp : Word) (hnr : nr = 59) :
      Dispatched s nr fr rest (s.finish fr rest { fr.saved with rip := rip, rsp := rsp })
  | archPrctl (hnr : nr = 158) :
      Dispatched s nr fr rest
        ((s.finish fr rest fr.saved).archPrctl (fr.saved.rdi.setWidth 32) fr.saved.rsi)
  | other (hnr : nr ≠ 158) : Dispatched s nr fr rest (s.finish fr rest fr.saved)

/-- `fork` and `clone` are not `arch_prctl`. -/
theorem RingState.forks.ne_prctl {nr : Word} {f : InterruptFrame} (h : forks nr f) : nr ≠ 158 := by
  rcases h with rfl | ⟨rfl, -⟩
  · decide
  · decide

/-- Each case of `Dispatch` is one of these. -/
theorem dispatch_cases (s : RingState) (nr : Word) (fr : Frame) (rest : List Frame)
    (child : Option Word) (image : Option (Word × Word)) :
    Dispatched s nr fr rest (s.dispatch nr fr rest child image) := by
  unfold RingState.dispatch
  dsimp only
  split
  · -- the guards of `Dispatch`, in its order
    rename_i hnr
    -- rt_sigreturn
    exact .sigreturn hnr
  · split
    · rename_i hnr
      cases child with
      | none => exact .other hnr.ne_prctl
      | some top => exact .fork top hnr
    · split
      · rename_i hnr
        cases child with
        | none => exact .other (by rw [hnr]; decide)
        | some top => exact .clone top hnr
      · split
        · rename_i hnr
          cases image with
          | none => exact .other (by rw [hnr]; decide)
          | some entry => exact .execve entry.1 entry.2 hnr
        · split
          · rename_i hnr
            exact .archPrctl hnr
          · rename_i hnr
            exact .other hnr

/-- The steps, one constructor for each. -/
inductive RingStepped (s : RingState) : RingOp → RingState → Prop
  | userRun {m' : Machine} (fsBase : Word) (huser : s.m.UserMode) (hto : m'.UserMode)
      (hflags : UserFlags s.m.rflags → UserFlags m'.rflags) :
      RingStepped s (.userRun m' fsBase) { s with
        m := { m' with kernelGsBase := s.m.kernelGsBase, tssRsp0 := s.m.tssRsp0 }
        fsBase := fsBase }
  | kernelRun (regs : Reg → Word) (rflags : Word) (mem : Mem) (hkernel : ¬ s.m.UserMode) :
      RingStepped s (.kernelRun regs rflags mem)
        { s with m := { s.m with regs := regs, rflags := rflags, mem := mem } }
  | store (a : Word) (bs : List UInt8) (hkernel : ¬ s.m.UserMode) :
      RingStepped s (.store a bs) (s.store a bs)
  | syscall {frames : List Frame} (hcode : s.code s.current = .running frames)
      (huser : s.m.UserMode) : RingStepped s .syscall (s.syscall frames)
  | dispatch {nr ptr : Word} {f : InterruptFrame} {rest : List Frame} {s' : RingState}
      (child : Option Word) (image : Option (Word × Word))
      (hcode : s.code s.current = .running (⟨.syscall nr, ptr, f⟩ :: rest))
      (hkernel : ¬ s.m.UserMode) (hdone : Dispatched s nr ⟨.syscall nr, ptr, f⟩ rest s') :
      RingStepped s (.dispatch child image) s'
  | sysret {ptr : Word} {f : InterruptFrame} {rest : List Frame} {r r' : CallRegs}
      {sig : SigThread} {m : Machine}
      (hcode : s.code s.current = .running (⟨.dispatched, ptr, f⟩ :: rest))
      (hkernel : ¬ s.m.UserMode)
      (hret : Frame.sysret ⟨.dispatched, ptr, f⟩ s.m r r' sig = some m) :
      RingStepped s (.sysret r r' sig) ({ s with m := m }.setCode (.running rest))
  | sysretFault {ptr : Word} {f : InterruptFrame} {rest : List Frame} {r r' : CallRegs}
      {sig : SigThread} {m : Machine}
      (hcode : s.code s.current = .running (⟨.dispatched, ptr, f⟩ :: rest))
      (hkernel : ¬ s.m.UserMode)
      (hat : Frame.atSysret ⟨.dispatched, ptr, f⟩ s.m r r' sig = some m) :
      RingStepped s (.sysretFault r r' sig) ({ s with m := m }.interrupt generalProtection rest)
  | interrupt {frames : List Frame} (ev : Event) (hcode : s.code s.current = .running frames) :
      RingStepped s (.interrupt ev) (s.interrupt ev frames)
  | iret {ptr : Word} {f : InterruptFrame} {rest : List Frame} {r r' : CallRegs}
      {sig : SigThread} {m : Machine}
      (hcode : s.code s.current = .running (⟨.interrupt, ptr, f⟩ :: rest))
      (hkernel : ¬ s.m.UserMode)
      (hat : Frame.atIretq ⟨.interrupt, ptr, f⟩ s.m r r' sig = some m) :
      RingStepped s (.iret r r' sig) (s.iretq m rest)
  | spawnKernel (entryPoint arg self top : Word) (hkernel : ¬ s.m.UserMode) :
      RingStepped s (.spawnKernel entryPoint arg self top)
        (s.addThread (.thread entryPoint arg self) top top)
  | spawnUser (rip rsp top : Word) (hkernel : ¬ s.m.UserMode) :
      RingStepped s (.spawnUser rip rsp top) (s.addThread (.userspace rip rsp) top top)
  | switchTo {t : Nat} (hkernel : ¬ s.m.UserMode) (hlt : t < s.nextTid) :
      RingStepped s (.switchTo t) (s.switchTo t)
  | land {l : Landing} {sp : Word} (hcode : s.code s.current = .landing l sp)
      (hkernel : ¬ s.m.UserMode) : RingStepped s .land (s.land l sp)

/-- A step of a thread that has landed, -/
theorem runningStep_cases {s s' : RingState} {frames : List Frame} {op : RingOp}
    (hcode : s.code s.current = .running frames) (h : runningStep s frames op = some s') :
    RingStepped s op s' := by
  cases op with
  | userRun m' fsBase =>
      simp only [runningStep, Option.ite_none_right_eq_some, Option.some.injEq] at h
      rcases h with ⟨⟨huser, hto, hflags⟩, rfl⟩
      exact .userRun fsBase huser hto hflags
  | kernelRun regs rflags mem =>
      simp only [runningStep, Option.ite_none_left_eq_some, Option.some.injEq] at h
      rcases h with ⟨hkernel, rfl⟩
      exact .kernelRun regs rflags mem hkernel
  | store a bs =>
      simp only [runningStep, Option.ite_none_left_eq_some, Option.some.injEq] at h
      rcases h with ⟨hkernel, rfl⟩
      exact .store a bs hkernel
  | syscall =>
      simp only [runningStep, Option.ite_none_right_eq_some, Option.some.injEq] at h
      rcases h with ⟨huser, rfl⟩
      exact .syscall hcode huser
  | dispatch child image =>
      simp only [runningStep] at h
      split at h
      · simp only [Option.ite_none_left_eq_some, Option.some.injEq] at h
        rcases h with ⟨hkernel, rfl⟩
        exact .dispatch child image hcode hkernel (dispatch_cases s _ _ _ child image)
      · cases h
  | sysret r r' sig =>
      simp only [runningStep] at h
      split at h
      · simp only [Option.ite_none_left_eq_some, Option.map_eq_some_iff] at h
        rcases h with ⟨hkernel, m, hret, rfl⟩
        exact .sysret hcode hkernel hret
      · cases h
  | sysretFault r r' sig =>
      simp only [runningStep] at h
      split at h
      · simp only [Option.ite_none_left_eq_some, Option.map_eq_some_iff,
          Option.filter_eq_some_iff] at h
        rcases h with ⟨hkernel, m, ⟨hat, -⟩, rfl⟩
        exact .sysretFault hcode hkernel hat
      · cases h
  | interrupt ev =>
      simp only [runningStep, Option.some.injEq] at h
      subst h
      exact .interrupt ev hcode
  | iret r r' sig =>
      simp only [runningStep] at h
      split at h
      · simp only [Option.ite_none_left_eq_some, Option.map_eq_some_iff] at h
        rcases h with ⟨hkernel, m, hat, rfl⟩
        exact .iret hcode hkernel hat
      · cases h
  | spawnKernel entryPoint arg self top =>
      simp only [runningStep, Option.ite_none_left_eq_some, Option.some.injEq] at h
      rcases h with ⟨hkernel, rfl⟩
      exact .spawnKernel entryPoint arg self top hkernel
  | spawnUser rip rsp top =>
      simp only [runningStep, Option.ite_none_left_eq_some, Option.some.injEq] at h
      rcases h with ⟨hkernel, rfl⟩
      exact .spawnUser rip rsp top hkernel
  | switchTo t =>
      simp only [runningStep, Option.ite_none_left_eq_some, Option.some.injEq, not_or] at h
      rcases h with ⟨⟨hkernel, hlt, -⟩, rfl⟩
      exact .switchTo hkernel (Nat.lt_of_not_le hlt)
  | land =>
      -- a running thread has landed already
      cases h

/-- or of any. -/
theorem ringStep_cases {s s' : RingState} {op : RingOp} (h : ringStep s op = some s') :
    RingStepped s op s' := by
  unfold ringStep at h
  split at h
  · rename_i frames hcode
    exact runningStep_cases hcode h
  · -- a landing point
    rename_i l sp hcode
    simp only [Option.ite_none_left_eq_some, Option.some.injEq] at h
    rcases h with ⟨hkernel, rfl⟩
    exact .land hcode hkernel
  · cases h

/-! ## Saved contexts -/

/-- `P` holds of the contexts saved on a kernel stack, `Q` of the one prepared
for a fork child. -/
def Code.All (P : Frame → Prop) (Q : InterruptFrame → Prop) : Code → Prop
  | .running frames => ∀ fr ∈ frames, P fr
  | .landing (.fork f) _ => Q f
  | .landing (.thread ..) _ => True
  | .landing (.userspace ..) _ => True

instance Code.All.decidable (P : Frame → Prop) (Q : InterruptFrame → Prop) [DecidablePred P]
    [DecidablePred Q] : (c : Code) → Decidable (c.All P Q)
  | .running frames => inferInstanceAs (Decidable (∀ fr ∈ frames, P fr))
  | .landing (.fork f) _ => inferInstanceAs (Decidable (Q f))
  | .landing (.thread ..) _ => isTrue trivial
  | .landing (.userspace ..) _ => isTrue trivial

/-- The same for every thread there is. -/
structure AllSaved (P : Frame → Prop) (Q : InterruptFrame → Prop) (s : RingState) : Prop where
  current : s.current < s.nextTid
  all : ∀ t < s.nextTid, (s.code t).All P Q

/-- No instruction of the entry and exit code but the last loads a code segment. -/
theorem exec_cs (m : Machine) (is : List Instr) : (m.exec is).cs = m.cs := by
  induction is generalizing m with
  | nil => rfl
  | cons i is ih =>
      refine (ih (m.execOne i)).trans ?_
      cases i <;> rfl

/-- `UserspaceTrampoline` is in ring 0 until its `iretq`, -/
theorem userspacePushed_cs (m : Machine) : m.userspacePushed.cs = m.cs := rfl

/-- and so is `ForkReturn`. -/
theorem forkPopped_cs (m : Machine) : m.forkPopped.cs = m.cs := by
  rw [forkPopped, exec_cs, exec_cs, exec_cs]

namespace AllSaved

variable {P : Frame → Prop} {Q : InterruptFrame → Prop} {s : RingState}

/-- At boot nothing is saved. -/
theorem boot (base idleTop : Word) : AllSaved P Q (bootRing base idleTop) :=
  ⟨Nat.zero_lt_one, fun _ _ _ hfr => absurd hfr List.not_mem_nil⟩

/-- What the running thread's stack holds is replaced, -/
theorem setCode {c : Code} (h : AllSaved P Q s) (hc : c.All P Q) : AllSaved P Q (s.setCode c) := by
  refine ⟨h.current, fun t ht => ?_⟩
  change (Function.update s.code s.current c t).All P Q
  by_cases hcur : t = s.current
  · rw [hcur, Function.update_self]
    exact hc
  · rw [Function.update_of_ne hcur]
    exact h.all t ht

/-- or a thread is created. -/
theorem addThread {l : Landing} {sp top : Word} (h : AllSaved P Q s)
    (hl : (Code.landing l sp).All P Q) : AllSaved P Q (s.addThread l sp top) := by
  refine ⟨Nat.lt_succ_of_lt h.current, fun t ht => ?_⟩
  change (Function.update s.code s.nextTid (.landing l sp) t).All P Q
  by_cases hnew : t = s.nextTid
  · rw [hnew, Function.update_self]
    exact hl
  · rw [Function.update_of_ne hnew]
    have ht' : t < s.nextTid + 1 := ht
    exact h.all t (by omega)

/-- The innermost context of the running thread. -/
theorem head {fr : Frame} {rest : List Frame} (h : AllSaved P Q s)
    (hcode : s.code s.current = .running (fr :: rest)) : P fr := by
  have hcur := h.all s.current h.current
  rw [hcode] at hcur
  exact hcur fr List.mem_cons_self

/-- The contexts around it. -/
theorem tail {fr : Frame} {rest : List Frame} (h : AllSaved P Q s)
    (hcode : s.code s.current = .running (fr :: rest)) : (Code.running rest).All P Q := by
  have hcur := h.all s.current h.current
  rw [hcode] at hcur
  exact fun g hg => hcur g (List.mem_cons_of_mem _ hg)

/-- One more context. -/
theorem push {fr : Frame} {frames : List Frame} (h : (Code.running frames).All P Q) (hfr : P fr) :
    (Code.running (fr :: frames)).All P Q := by
  intro g hg
  rcases List.mem_cons.mp hg with rfl | hrest
  · exact hfr
  · exact h g hrest

/-- Those of the running thread. -/
theorem running {frames : List Frame} (h : AllSaved P Q s)
    (hcode : s.code s.current = .running frames) : (Code.running frames).All P Q := by
  rw [← hcode]
  exact h.all s.current h.current

/-- Nothing is saved in the registers. -/
theorem setMachine (h : AllSaved P Q s) (m : Machine) : AllSaved P Q { s with m := m } :=
  ⟨h.current, h.all⟩

/-- An entry saves one more context. -/
theorem enter {fr : Frame} {frames : List Frame} (h : AllSaved P Q s) (m : Machine)
    (hcode : s.code s.current = .running frames) (hfr : P fr) :
    AllSaved P Q ({ s with m := m }.setCode (.running (fr :: frames))) :=
  (h.setMachine m).setCode (push (h.running hcode) hfr)

/-- So does an interrupt, whatever it finds saved. -/
theorem interrupt {rest : List Frame} (h : AllSaved P Q s) (m : Machine) (ev : Event)
    (hrest : (Code.running rest).All P Q)
    (hfr : P ⟨.interrupt, (m.isrEntered ev).regs .rsp,
      frameAt (m.isrEntered ev).mem ((m.isrEntered ev).regs .rsp)⟩) :
    AllSaved P Q ({ s with m := m }.interrupt ev rest) :=
  (h.setMachine (m.isrEntered ev)).setCode (push hrest hfr)

/-- `iretq` forgets the innermost context, and saves another one if it faults. -/
theorem iretq {rest : List Frame} (h : AllSaved P Q s) (m : Machine)
    (hrest : (Code.running rest).All P Q)
    (hfr : P ⟨.interrupt, (m.isrEntered generalProtection).regs .rsp,
      frameAt (m.isrEntered generalProtection).mem
        ((m.isrEntered generalProtection).regs .rsp)⟩) : AllSaved P Q (s.iretq m rest) := by
  unfold RingState.iretq
  split
  · exact (h.setMachine m.iretq).setCode hrest
  · exact h.interrupt m generalProtection hrest hfr

/-- An exit forgets the innermost one. -/
theorem leave {fr : Frame} {rest : List Frame} (h : AllSaved P Q s) (m : Machine)
    (hcode : s.code s.current = .running (fr :: rest)) :
    AllSaved P Q ({ s with m := m }.setCode (.running rest)) :=
  (h.setMachine m).setCode (h.tail hcode)

/-- A thread that lands has none, unless its `iretq` faults. -/
theorem land (h : AllSaved P Q s) (l : Landing) (sp : Word)
    (hfr : ∀ m : Machine, m.cs = s.m.cs → P ⟨.interrupt, (m.isrEntered generalProtection).regs .rsp,
      frameAt (m.isrEntered generalProtection).mem
        ((m.isrEntered generalProtection).regs .rsp)⟩) : AllSaved P Q (s.land l sp) := by
  have hnone : (Code.running []).All P Q := fun _ hfr => absurd hfr List.not_mem_nil
  cases l with
  | thread entryPoint arg self => exact (h.setMachine _).setCode hnone
  | userspace rip rsp => exact h.iretq _ hnone (hfr _ (userspacePushed_cs _))
  | fork f => exact h.iretq _ hnone (hfr _ (forkPopped_cs _))

end AllSaved

/-- A store next to the saved code segment leaves it alone. -/
theorem storeFrame_cs {a ptr : Word} {bs : List UInt8} {f : InterruptFrame}
    (h : ByteMem.Apart (ptr + 144) 8 a bs.length) : (storeFrame a bs ptr f).cs = f.cs := by
  change ((putFrame (fun _ => 0) ptr f).store a bs) (ptr + 144) = f.cs
  rw [Mem.store_apart _ h, putFrame_cs]

end Ceryx.Cpu
