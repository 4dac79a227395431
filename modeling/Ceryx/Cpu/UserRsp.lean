import Ceryx.Lib.Runs
import Ceryx.Lib.ByteMem
import Ceryx.Cpu.Entry

/-!
# Ceryx.Cpu.UserRsp — whose stack pointer does SYSRET restore?

`SyscallEntry` stores the user RSP in `CpuData.user_rsp` (`gs:24`) and in the
frame on the thread's kernel stack; the exit code takes it from `gs:24`. There
is one such slot for the CPU, and every entry overwrites it.

The machine here is the CPU with its threads: user code, system calls that run
to their end or are switched away from in the middle, interrupts of user code,
new threads, and stores of kernel code at any address: nothing checks the
pointers that `arch_prctl(ARCH_GET_FS)`, `read` or `fstat` store through, and
`CpuData` itself may be behind them. Stores that hit a return address or a saved
code segment on a kernel stack, and so change what kernel code does, are no steps.

`CpuInv` says that `gs:24` holds the RSP of the last entry, or what such a store
has made of it; hence a system call gets its own RSP back exactly when that is
the RSP it came with.
-/

namespace Ceryx.Cpu

open Lib Machine

abbrev Tid := Nat

/-- What a thread is doing, as far as the entry code can tell. `frame` is the
stack pointer with which the dispatcher was called. -/
inductive Phase where
  /-- Created and never run. -/
  | fresh
  | user
  /-- In `SyscallDispatch`, for system call number `nr`. -/
  | syscall (nr : Nat) (frame : Word)
  /-- In `InterruptDispatch`, interrupted in user mode with code segment `cs`. -/
  | interrupt (frame cs : Word)
  /-- A kernel thread. -/
  | kernel
deriving DecidableEq, Repr

/-- A system call that came back to user mode: the thread, its RSP when it
entered, and the RSP the exit code restored. -/
structure Return where
  thread : Tid
  entered : Word
  restored : Word
deriving DecidableEq, Repr

/-- The CPU and its threads. -/
structure CpuState where
  m : Machine
  current : Tid
  nextTid : Tid
  phase : Tid → Phase
  /-- `GetKernelStack() + 32768`. -/
  stackTop : Tid → Word
  /-- History: the RSP of each thread's last `SYSCALL`, what `CpuData.user_rsp`
  was last given (by the last `SYSCALL` on this CPU or by a later store over it),
  and the last return without a signal. -/
  entryRsp : Tid → Word
  lastEntry : Option Word
  lastReturn : Option Return

/-- System calls that set the user RSP on purpose: `rt_sigreturn`, `execve`. -/
def setsRsp : List Nat := [15, 59]

/-- The fields of `CpuData` at `base` that the entry code and `PerformSwitch`
use: `self`, `kernel_stack`, `user_rsp`. Nothing else writes them on purpose. -/
def cpuDataSlots (base : Word) : List Word := [base, base + 16, base + 24]

/-- Address `a` is in the kernel stack whose top is `top`. -/
def InStack (top a : Word) : Prop := (a - (top - 32768)).toNat < 32768

instance (top a : Word) : Decidable (InStack top a) :=
  inferInstanceAs (Decidable ((a - (top - 32768)).toNat < 32768))

/-- What `AllocateKernel` promises of a kernel stack: it is aligned and does
not overlap `CpuData`. -/
def StackApart (base top : Word) : Prop :=
  top &&& ~~~0xF#64 = top ∧ ∀ a ∈ cpuDataSlots base, ¬ InStack top a

instance (base top : Word) : Decidable (StackApart base top) :=
  decidable_of_iff (top &&& ~~~0xF#64 = top ∧
      ¬ InStack top base ∧ ¬ InStack top (base + 16) ∧ ¬ InStack top (base + 24)) <| by
    simp [StackApart, cpuDataSlots]

namespace CpuState

def setPhase (s : CpuState) (ph : Phase) : CpuState :=
  { s with phase := Function.update s.phase s.current ph }

/-- A store of bytes. When it overlaps `user_rsp`, the exit code will find other
bytes there than the last entry left. -/
def store (base : Word) (s : CpuState) (a : Word) (bs : List UInt8) : CpuState :=
  let mem := s.m.mem.store a bs
  { s with
    m := { s.m with mem := mem }
    lastEntry := s.lastEntry.map fun _ => mem (base + 24) }

/-- The `SYSCALL` instruction and `SyscallEntry` up to the dispatcher. -/
def syscall (s : CpuState) (nr : Nat) : CpuState :=
  let rsp := s.m.regs .rsp
  let m := s.m.exec syscallSave
  { s with
    m := m
    entryRsp := Function.update s.entryRsp s.current rsp
    lastEntry := some rsp }.setPhase (.syscall nr (m.regs .rsp))

/-- From the return of `SyscallDispatch` with result `ret` to user mode. The
callees have put the stack pointer back to `frame`. -/
def sysret (s : CpuState) (nr : Nat) (frame ret : Word) (scratch : Reg → Word) (signalled : Bool) :
    CpuState :=
  let m₁ := (s.m.setReg .rsp frame).afterCall ⟨ret, scratch, s.m.mem⟩
  let m₂ := m₁.exec syscallCheck
  let m₃ := syscallExit (m₂.afterCall ⟨ret, scratch, m₂.mem⟩)
  { s with
    m := m₃
    lastReturn :=
      if nr ∈ setsRsp ∨ signalled = true then s.lastReturn
      else some ⟨s.current, s.entryRsp s.current, m₃.regs .rsp⟩ }.setPhase .user

/-- `PerformSwitch` to thread `t`: `GetPerCpuBase` reads `gs:0`, and
`SwitchContext` continues `t` where it left off. -/
def switchTo (s : CpuState) (t : Tid) : CpuState :=
  { s with
    m := { s.m with
      mem := s.m.mem.write (s.m.mem s.m.gsBase + 16) (s.stackTop t)
      tssRsp0 := s.stackTop t }
    current := t }

/-- `UserspaceTrampoline` or `ForkReturn`: `swapgs` and `iretq` into user mode. -/
def enterUser (s : CpuState) (regs : Reg → Word) : CpuState :=
  { s with m := { s.m.exec [.swapgs] with regs := regs, cs := 0x23 } }.setPhase .user

/-- An interrupt of user code, up to the dispatcher. -/
def interrupt (s : CpuState) (ev : Event) : CpuState :=
  let m := isrEntry ev s.m
  { s with m := m }.setPhase (.interrupt (m.regs .rsp) s.m.cs)

/-- The return from such an interrupt, with the registers the frame then holds;
the saved `cs` is the interrupted one. -/
def iret (s : CpuState) (cs : Word) (regs : Reg → Word) : CpuState :=
  { s with m := { s.m.exec [.swapgs] with regs := regs, cs := cs } }.setPhase .user

end CpuState

/-- What can happen next. -/
inductive CpuOp where
  /-- User code computes. -/
  | userRun (regs : Reg → Word)
  /-- A store by user code, or by kernel code outside the entry paths and
  `PerformSwitch`. -/
  | store (a : Word) (bs : List UInt8)
  | syscall (nr : Nat)
  | sysret (ret : Word) (scratch : Reg → Word) (signalled : Bool)
  /-- A thread is created with its kernel stack below `top`. -/
  | spawn (top : Word)
  /-- The running thread blocks, yields, is preempted or exits. -/
  | switchTo (t : Tid)
  | enterUser (regs : Reg → Word)
  | interrupt (ev : Event)
  | iret (regs : Reg → Word)
  /-- `arch_prctl(ARCH_SET_GS, addr)` writes `IA32_GS_BASE`. -/
  | setGs (addr : Word)

/-- One step of the CPU whose `CpuData` is at `base`. User code cannot store
there; kernel code can, through a pointer of user code. -/
def cpuStep (base : Word) (s : CpuState) : CpuOp → Option CpuState
  | .userRun regs =>
      if s.phase s.current = .user then some { s with m := { s.m with regs := regs } } else none
  | .store a bs =>
      if s.phase s.current = .user ∧ ¬ ∀ b ∈ cpuDataSlots base, ByteMem.Apart b 8 a bs.length then
        none
      else some (s.store base a bs)
  | .syscall nr => if s.phase s.current = .user then some (s.syscall nr) else none
  | .sysret ret scratch signalled =>
      match s.phase s.current with
      | .syscall nr frame => some (s.sysret nr frame ret scratch signalled)
      | _ => none
  | .spawn top =>
      if s.phase s.current = .user ∨ ¬ StackApart base top then none
      else
        some { s with
          nextTid := s.nextTid + 1
          phase := Function.update s.phase s.nextTid .fresh
          stackTop := Function.update s.stackTop s.nextTid top }
  | .switchTo t =>
      if s.phase s.current = .user ∨ s.nextTid ≤ t ∨ t = s.current then none
      else some (s.switchTo t)
  | .enterUser regs => if s.phase s.current = .fresh then some (s.enterUser regs) else none
  | .interrupt ev => if s.phase s.current = .user then some (s.interrupt ev) else none
  | .iret regs =>
      match s.phase s.current with
      | .interrupt _ cs => some (s.iret cs regs)
      | _ => none
  | .setGs addr =>
      match s.phase s.current with
      | .syscall 158 _ => some { s with m := { s.m with gsBase := addr } }
      | _ => none

/-- The CPU when the scheduler has started: the idle thread runs. -/
def bootCpu (base idleTop : Word) : CpuState where
  m :=
    { regs := fun _ => 0
      rip := 0, cs := 0x08, rflags := 0, ss := 0x10
      mem := (Mem.write (fun _ => 0) base base).write (base + 16) idleTop
      gsBase := base
      kernelGsBase := 0
      tssRsp0 := idleTop }
  current := 0
  nextTid := 1
  phase := fun _ => .kernel
  stackTop := fun _ => idleTop
  entryRsp := fun _ => 0
  lastEntry := none
  lastReturn := none

/-- No system call that came back without a signal came back with another
stack pointer. -/
def RspKept (s : CpuState) : Prop := ∀ r ∈ s.lastReturn, r.restored = r.entered

/-- `IA32_GS_BASE` is left alone, and so are the fields that lead to the kernel
stack: no store changes `self` or `kernel_stack`. -/
def StackKept (base : Word) (s : CpuState) : CpuOp → Prop
  | .store a bs => ∀ b ∈ [base, base + 16], s.m.mem.store a bs b = s.m.mem b
  | .setGs _ => False
  | _ => True

instance StackKept.decidable (base : Word) (s : CpuState) :
    (op : CpuOp) → Decidable (StackKept base s op)
  | .store a bs =>
      inferInstanceAs (Decidable (∀ b ∈ [base, base + 16], s.m.mem.store a bs b = s.m.mem b))
  | .setGs _ => isFalse id
  | .userRun _ | .syscall _ | .sysret .. | .spawn _ | .switchTo _ | .enterUser _ | .interrupt _
  | .iret _ => isTrue trivial

/-- When a system call comes back without a signal, `user_rsp` was last given its
stack pointer. -/
def LastEntryOwn (s : CpuState) : CpuOp → Prop
  | .sysret _ _ signalled =>
      ∀ nr frame, s.phase s.current = .syscall nr frame → nr ∉ setsRsp → signalled = false →
        s.lastEntry = some (s.entryRsp s.current)
  | _ => True

instance LastEntryOwn.decidable (s : CpuState) : (op : CpuOp) → Decidable (LastEntryOwn s op)
  | .sysret _ _ signalled =>
      match hph : s.phase s.current with
      | .syscall nr _ =>
          decidable_of_iff (nr ∉ setsRsp → signalled = false →
            s.lastEntry = some (s.entryRsp s.current)) <| by
            constructor
            · intro hown nr' frame' hph' hnr hsig
              cases hph.symm.trans hph'
              exact hown hnr hsig
            · intro hown hnr hsig
              exact hown nr _ hph hnr hsig
      | .fresh | .user | .interrupt .. | .kernel =>
          isTrue fun _ _ hph' => absurd (hph.symm.trans hph') (by simp)
  | .userRun _ | .store .. | .syscall _ | .spawn _ | .switchTo _ | .enterUser _ | .interrupt _
  | .iret _ | .setGs _ => isTrue trivial

/-! ## The invariant -/

/-- The quadwords below the top lie on the stack, -/
theorem slot_inStack {top : Word} {k : Nat} (hk : k < 4096) : InStack top (slot top (k + 1)) := by
  unfold InStack slot
  bv_omega

/-- so none of them is a field of `CpuData`. -/
theorem StackApart.slot_ne {base top a : Word} (h : StackApart base top)
    (ha : a ∈ cpuDataSlots base) {k : Nat} (hk : k < 4096) : a ≠ slot top (k + 1) := by
  rintro rfl
  exact h.2 _ ha (slot_inStack hk)

/-- Where things are between two steps, as long as nobody moves the GS base or
the kernel stack. -/
structure CpuInv (base : Word) (s : CpuState) : Prop where
  kernelGs : s.phase s.current ≠ .user → s.m.gsBase = base
  userGs : s.phase s.current = .user → s.m.kernelGsBase = base
  self : s.m.mem base = base
  kernelStack : s.m.mem (base + 16) = s.stackTop s.current
  tss : s.m.tssRsp0 = s.stackTop s.current
  /-- The slot at `gs:24`. -/
  userRsp : ∀ r ∈ s.lastEntry, s.m.mem (base + 24) = r
  current : s.current < s.nextTid
  kernelStacks : ∀ t, t < s.nextTid → StackApart base (s.stackTop t)
  userCs : s.phase s.current = .user → s.m.cs &&& 3 ≠ 0
  interruptCs : ∀ t frame cs, s.phase t = .interrupt frame cs → cs &&& 3 ≠ 0
  /-- Only the running thread is in user mode. -/
  others : ∀ t, t ≠ s.current → s.phase t ≠ .user
  inSyscall : ∀ t nr frame, s.phase t = .syscall nr frame →
    s.lastEntry.isSome ∧ frame = slot (s.stackTop t) 22 ∧ t < s.nextTid

/-- What `SyscallEntry` does to the CPU in user mode. -/
theorem syscall_machine {base : Word} {s : CpuState} (h : CpuInv base s)
    (huser : s.phase s.current = .user) :
    SyscallSaved s.m (s.m.exec syscallSave) ∧ syscallTop s.m = s.stackTop s.current ∧
      s.m.kernelGsBase = base := by
  have hgs := h.userGs huser
  have htop : syscallTop s.m = s.stackTop s.current := by
    rw [syscallTop, hgs]
    exact h.kernelStack
  have hlay : s.m.kernelGsBase + 24 ≠ syscallTop s.m - 8 := by
    rw [htop, hgs]
    have := (h.kernelStacks _ h.current).slot_ne (a := base + 24) (by simp [cpuDataSlots])
      (k := 0) (by decide)
    rwa [← slot_sub, slot_zero] at this
  exact ⟨syscallSave_spec s.m hlay, htop, hgs⟩

/-- The pushes of the entry code miss `CpuData`. -/
theorem pushAll_slots {base top : Word} (h : StackApart base top) {vs : List Word} {mem : Mem}
    (hlen : vs.length ≤ 4096) {a : Word} (ha : a ∈ cpuDataSlots base) :
    pushAll top vs mem a = mem a :=
  pushAll_frame fun k hk => h.slot_ne ha (by omega)

/-- A step of the running thread: it changes the machine, its own phase and the
history. -/
structure OwnStep (base : Word) (s s' : CpuState) (ph : Phase) : Prop where
  phase : s'.phase = Function.update s.phase s.current ph
  current : s'.current = s.current
  next : s'.nextTid = s.nextTid
  stackTop : s'.stackTop = s.stackTop
  tss : s'.m.tssRsp0 = s.m.tssRsp0
  mem : ∀ a ∈ [base, base + 16], s'.m.mem a = s.m.mem a
  gs : if ph = .user then s'.m.kernelGsBase = base ∧ s'.m.cs &&& 3 ≠ 0 else s'.m.gsBase = base
  userRsp : ∀ r ∈ s'.lastEntry, s'.m.mem (base + 24) = r
  entered : s.lastEntry.isSome → s'.lastEntry.isSome
  interruptCs : ∀ frame cs, ph = .interrupt frame cs → cs &&& 3 ≠ 0
  inSyscall : ∀ nr frame, ph = .syscall nr frame →
    s'.lastEntry.isSome ∧ frame = slot (s.stackTop s.current) 22

/-- A step of a thread on its own stack keeps the invariant. -/
theorem OwnStep.inv {base : Word} {s s' : CpuState} {ph : Phase} (h : CpuInv base s)
    (hstep : OwnStep base s s' ph) : CpuInv base s' := by
  have hself : s'.phase s'.current = ph := by rw [hstep.phase, hstep.current, Function.update_self]
  have hother : ∀ t, t ≠ s'.current → s'.phase t = s.phase t := by
    intro t ht
    rw [hstep.current] at ht
    rw [hstep.phase, Function.update_of_ne ht]
  -- who owns GS.base depends on the side that the new phase is on
  have hgs := hstep.gs
  constructor
  case kernelGs =>
    intro hne
    rw [hself] at hne
    rwa [if_neg hne] at hgs
  case userGs =>
    intro heq
    rw [hself] at heq
    rw [if_pos heq] at hgs
    exact hgs.1
  case self =>
    rw [hstep.mem base (by simp)]
    exact h.self
  case kernelStack =>
    rw [hstep.mem (base + 16) (by simp), hstep.stackTop, hstep.current]
    exact h.kernelStack
  case tss =>
    rw [hstep.tss, hstep.stackTop, hstep.current]
    exact h.tss
  case userRsp => exact hstep.userRsp
  case current =>
    rw [hstep.current, hstep.next]
    exact h.current
  case kernelStacks =>
    rw [hstep.next, hstep.stackTop]
    exact h.kernelStacks
  case userCs =>
    intro heq
    rw [hself] at heq
    rw [if_pos heq] at hgs
    exact hgs.2
  case interruptCs =>
    intro t frame cs ht
    -- only the running thread gets a new phase
    by_cases htc : t = s'.current
    · rw [htc, hself] at ht
      exact hstep.interruptCs frame cs ht
    · rw [hother t htc] at ht
      exact h.interruptCs t frame cs ht
  case others =>
    intro t htc
    rw [hother t htc]
    rw [hstep.current] at htc
    exact h.others t htc
  case inSyscall =>
    intro t nr frame ht
    by_cases htc : t = s'.current
    · rw [htc, hself] at ht
      obtain ⟨hsome, hframe⟩ := hstep.inSyscall nr frame ht
      rw [htc, hstep.stackTop, hstep.current, hstep.next]
      exact ⟨hsome, hframe, h.current⟩
    · rw [hother t htc] at ht
      obtain ⟨hsome, hframe, hlt⟩ := h.inSyscall t nr frame ht
      rw [hstep.stackTop, hstep.next]
      exact ⟨hstep.entered hsome, hframe, hlt⟩

/-! ## The steps -/

/-- `SYSCALL` pushes below the thread's own stack top. -/
theorem syscall_own {base : Word} {s : CpuState} (h : CpuInv base s)
    (huser : s.phase s.current = .user) (nr : Nat) :
    OwnStep base s (s.syscall nr) (.syscall nr (slot (s.stackTop s.current) 22)) := by
  obtain ⟨hsaved, htop, hgs⟩ := syscall_machine h huser
  have hapart := h.kernelStacks _ h.current
  have hlen : (syscallFrame s.m).length ≤ 4096 := by
    show 22 ≤ 4096
    decide
  -- the entry code writes `user_rsp`, and its pushes stay on the kernel stack
  have hmem : ∀ a ∈ cpuDataSlots base, (s.m.exec syscallSave).mem a =
      (s.m.mem.write (base + 24) (s.m.regs .rsp)) a := by
    intro a ha
    rw [hsaved.mem, htop, hgs]
    exact pushAll_slots hapart hlen ha
  have hframe : (s.m.exec syscallSave).regs .rsp = slot (s.stackTop s.current) 22 := by
    rw [hsaved.rsp, htop]
  refine
    { phase := ?_, current := rfl, next := rfl, stackTop := rfl, tss := rfl, mem := ?_, gs := ?_
      userRsp := ?_, entered := fun _ => rfl, interruptCs := ?_, inSyscall := ?_ }
  · show Function.update s.phase s.current (.syscall nr ((s.m.exec syscallSave).regs .rsp)) = _
    rw [hframe]
  · intro a ha
    have hne : a ≠ base + 24 := by
      simp only [List.mem_cons, List.not_mem_nil, or_false] at ha
      rcases ha with rfl | rfl
      · bv_omega
      · exact gs_slots_ne base
    have hslot : a ∈ cpuDataSlots base := by
      simp only [List.mem_cons, List.not_mem_nil, or_false] at ha
      rcases ha with rfl | rfl <;> simp [cpuDataSlots]
    exact (hmem a hslot).trans (Mem.write_ne _ _ hne)
  · rw [if_neg (by simp)]
    exact hsaved.gsBase.trans hgs
  · intro r hr
    cases hr
    exact (hmem (base + 24) (by simp [cpuDataSlots])).trans (Mem.write_self _ _ _)
  · intro frame cs hph
    cases hph
  · intro nr' frame hph
    cases hph
    exact ⟨rfl, rfl⟩

/-- The exit code of a system call restores what `gs:24` holds. -/
theorem sysret_machine {base : Word} {s : CpuState} (h : CpuInv base s) {nr : Nat} {frame : Word}
    (hph : s.phase s.current = .syscall nr frame) (ret : Word) (scratch : Reg → Word)
    (signalled : Bool) :
    (s.sysret nr frame ret scratch signalled).m.regs .rsp = s.m.mem (base + 24) ∧
      (s.sysret nr frame ret scratch signalled).m.kernelGsBase = base ∧
      ∀ a ∈ cpuDataSlots base, (s.sysret nr frame ret scratch signalled).m.mem a = s.m.mem a := by
  have hgs : s.m.gsBase = base := h.kernelGs (by rw [hph]; simp)
  obtain ⟨-, hframe, -⟩ := h.inSyscall _ _ _ hph
  have hapart := h.kernelStacks _ h.current
  -- the machine when `SignalCheckPending` has returned
  generalize hm : ((((s.m.setReg .rsp frame).afterCall ⟨ret, scratch, s.m.mem⟩).exec
    syscallCheck).afterCall ⟨ret, scratch, (((s.m.setReg .rsp frame).afterCall
      ⟨ret, scratch, s.m.mem⟩).exec syscallCheck).mem⟩) = m
  have hmem : m.mem = s.m.mem.write (frame - 8) ret := by
    rw [← hm]
    rfl
  have hgs' : m.gsBase = base := by
    rw [← hm]
    exact hgs
  have hsys : (s.sysret nr frame ret scratch signalled).m = syscallExit m := by
    rw [← hm]
    rfl
  have hslots : ∀ a ∈ cpuDataSlots base, m.mem a = s.m.mem a := by
    intro a ha
    rw [hmem, hframe, slot_sub]
    exact Mem.write_ne _ _ (hapart.slot_ne ha (by decide))
  obtain ⟨hrsp, -, hkgs, hmem'⟩ := syscallExit_rsp m
  rw [hsys]
  refine ⟨?_, hkgs.trans hgs', fun a ha => ?_⟩
  · rw [hrsp, hgs']
    exact hslots _ (by simp [cpuDataSlots])
  · rw [hmem']
    exact hslots a ha

/-- `SYSRET` pushes nothing. -/
theorem sysret_own {base : Word} {s : CpuState} (h : CpuInv base s) {nr : Nat} {frame : Word}
    (hph : s.phase s.current = .syscall nr frame) (ret : Word) (scratch : Reg → Word)
    (signalled : Bool) :
    OwnStep base s (s.sysret nr frame ret scratch signalled) .user := by
  obtain ⟨-, hkgs, hmem⟩ := sysret_machine h hph ret scratch signalled
  refine
    { phase := rfl, current := rfl, next := rfl, stackTop := rfl, tss := rfl, mem := ?_, gs := ?_
      userRsp := ?_, entered := fun hs => hs, interruptCs := ?_, inSyscall := ?_ }
  · -- `self` and `kernel_stack` are not written
    intro a ha
    apply hmem
    simp only [List.mem_cons, List.not_mem_nil, or_false] at ha
    rcases ha with rfl | rfl <;> simp [cpuDataSlots]
  · rw [if_pos rfl]
    refine ⟨hkgs, ?_⟩
    show (0x23 : Word) &&& 3 ≠ 0
    decide
  · intro r hr
    rw [hmem _ (by simp [cpuDataSlots])]
    exact h.userRsp r hr
  · intro frame' cs hph'
    cases hph'
  · intro nr' frame' hph'
    cases hph'

/-- `swapgs` and `iretq` into user mode with code segment `cs`. -/
theorem toUser_own {base : Word} {s : CpuState} (h : CpuInv base s)
    (hph : s.phase s.current ≠ .user) (regs : Reg → Word) {cs : Word} (hcs : cs &&& 3 ≠ 0) :
    OwnStep base s
      (({ s with m := { s.m.exec [.swapgs] with regs := regs, cs := cs } } : CpuState).setPhase
        .user) .user where
  phase := rfl
  current := rfl
  next := rfl
  stackTop := rfl
  tss := rfl
  mem _ _ := rfl
  -- `swapgs` brings the base that the kernel side had in MSR_KERNEL_GS_BASE
  gs := by
    rw [if_pos rfl]
    exact ⟨h.kernelGs hph, hcs⟩
  userRsp := h.userRsp
  entered hs := hs
  interruptCs _ _ he := by cases he
  inSyscall _ _ he := by cases he

/-- User code has no access to the kernel's stacks. -/
theorem userRun_own {base : Word} {s : CpuState} (h : CpuInv base s)
    (hph : s.phase s.current = .user) (regs : Reg → Word) :
    OwnStep base s { s with m := { s.m with regs := regs } } .user where
  phase := by rw [← hph, Function.update_eq_self]
  current := rfl
  next := rfl
  stackTop := rfl
  tss := rfl
  mem _ _ := rfl
  gs := by
    rw [if_pos rfl]
    exact ⟨h.userGs hph, h.userCs hph⟩
  userRsp := h.userRsp
  entered hs := hs
  interruptCs _ _ he := by cases he
  inSyscall _ _ he := by cases he

/-- An interrupt from user code pushes at the top of the thread's own stack. -/
theorem interrupt_own {base : Word} {s : CpuState} (h : CpuInv base s)
    (hph : s.phase s.current = .user) (ev : Event) :
    OwnStep base s (s.interrupt ev) (.interrupt ((isrEntry ev s.m).regs .rsp) s.m.cs) := by
  obtain ⟨hmem, -⟩ := isrEntry_spec ev s.m
  obtain ⟨hgs, -⟩ := isrEntry_gs ev s.m (h.userCs hph)
  obtain ⟨halign, -⟩ := h.kernelStacks _ h.current
  -- the CPU takes the stack from the TSS, where the switch has put it
  have htop : s.m.interruptTop = s.stackTop s.current := by
    rw [interruptTop, if_neg (h.userCs hph), h.tss, halign]
  have hslots : ∀ a ∈ cpuDataSlots base, (isrEntry ev s.m).mem a = s.m.mem a := by
    intro a ha
    rw [hmem, htop]
    apply pushAll_slots (h.kernelStacks _ h.current) _ ha
    show 22 ≤ 4096
    decide
  refine
    { phase := rfl, current := rfl, next := rfl, stackTop := rfl, tss := ?_, mem := ?_, gs := ?_
      userRsp := ?_, entered := fun hs => hs, interruptCs := ?_, inSyscall := ?_ }
  · exact isrEntry_tss ev s.m
  · intro a ha
    apply hslots
    simp only [List.mem_cons, List.not_mem_nil, or_false] at ha
    rcases ha with rfl | rfl <;> simp [cpuDataSlots]
  · rw [if_neg (by simp)]
    exact hgs.trans (h.userGs hph)
  · intro r hr
    exact (hslots _ (by simp [cpuDataSlots])).trans (h.userRsp r hr)
  · intro frame cs he
    obtain ⟨-, hcs⟩ := Phase.interrupt.inj he
    exact hcs ▸ h.userCs hph
  · intro nr frame he
    exact absurd he (by simp)

/-- A store that spares the stacks and the pointers to them keeps it. -/
theorem store_inv {base : Word} {s : CpuState} (h : CpuInv base s) {a : Word} {bs : List UInt8}
    (hkept : StackKept base s (.store a bs)) : CpuInv base (s.store base a bs) := by
  have hself : s.m.mem.store a bs base = s.m.mem base := hkept base (by simp)
  have hstack : s.m.mem.store a bs (base + 16) = s.m.mem (base + 16) := hkept _ (by simp)
  unfold CpuState.store
  generalize s.m.mem.store a bs = mem at hself hstack
  exact
    { h with
      self := hself.trans h.self
      kernelStack := hstack.trans h.kernelStack
      userRsp := by
        -- what is there now is what the slot was last given
        intro r hr
        obtain ⟨-, -, rfl⟩ := Option.map_eq_some_iff.mp hr
        rfl
      inSyscall := by
        intro t nr frame ht
        obtain ⟨hsome, hframe, hlt⟩ := h.inSyscall t nr frame ht
        exact ⟨(Option.isSome_map ..).trans hsome, hframe, hlt⟩ }

/-- A new thread has its own stack. -/
theorem spawn_inv {base : Word} {s : CpuState} (h : CpuInv base s) {top : Word}
    (htop : StackApart base top) :
    CpuInv base { s with
      nextTid := s.nextTid + 1
      phase := Function.update s.phase s.nextTid .fresh
      stackTop := Function.update s.stackTop s.nextTid top } := by
  have hcur : s.current ≠ s.nextTid := Nat.ne_of_lt h.current
  have hphase : (Function.update s.phase s.nextTid .fresh) s.current = s.phase s.current :=
    Function.update_of_ne hcur _ _
  have hstack : (Function.update s.stackTop s.nextTid top) s.current = s.stackTop s.current :=
    Function.update_of_ne hcur _ _
  -- the new thread is not the running one, and has not run
  constructor
  case kernelGs =>
    intro hne
    exact h.kernelGs (hphase ▸ hne)
  case userGs =>
    intro heq
    exact h.userGs (hphase ▸ heq)
  case self => exact h.self
  case kernelStack => exact h.kernelStack.trans hstack.symm
  case tss => exact h.tss.trans hstack.symm
  case userRsp => exact h.userRsp
  case current => exact Nat.lt_succ_of_lt h.current
  case kernelStacks =>
    intro t ht
    by_cases htn : t = s.nextTid
    · subst htn
      simpa using htop
    · have hlt : t < s.nextTid := Nat.lt_of_le_of_ne (Nat.le_of_lt_succ ht) htn
      simpa [htn] using h.kernelStacks t hlt
  case userCs =>
    intro heq
    exact h.userCs (hphase ▸ heq)
  case interruptCs =>
    intro t frame cs ht
    by_cases htn : t = s.nextTid
    · simp [htn] at ht
    · exact h.interruptCs t frame cs (by simpa [htn] using ht)
  case others =>
    intro t htc
    by_cases htn : t = s.nextTid
    · simp [htn]
    · simpa [htn] using h.others t htc
  case inSyscall =>
    intro t nr frame ht
    by_cases htn : t = s.nextTid
    · simp [htn] at ht
    · obtain ⟨hsome, hframe, hlt⟩ := h.inSyscall t nr frame (by simpa [htn] using ht)
      exact ⟨hsome, by simpa [htn] using hframe, Nat.lt_succ_of_lt hlt⟩

/-- A switch gives the CPU the other thread's stack top. -/
theorem switchTo_inv {base : Word} {s : CpuState} (h : CpuInv base s) {t : Tid}
    (hph : s.phase s.current ≠ .user) (hlt : t < s.nextTid) (hne : t ≠ s.current) :
    CpuInv base (s.switchTo t) := by
  have hgs := h.kernelGs hph
  have hself : s.m.mem s.m.gsBase = base := by rw [hgs, h.self]
  have hother := h.others t hne
  have h16 : (s.m.mem.write (s.m.mem s.m.gsBase + 16) (s.stackTop t)) (base + 16) =
      s.stackTop t := by rw [hself, Mem.write_self]
  refine
    { kernelGs := fun _ => hgs, userGs := fun heq => absurd heq hother, self := ?_
      kernelStack := h16, tss := rfl, userRsp := ?_, current := hlt, kernelStacks := h.kernelStacks
      userCs := fun heq => absurd heq hother, interruptCs := h.interruptCs, others := ?_
      inSyscall := h.inSyscall }
  · show (s.m.mem.write (s.m.mem s.m.gsBase + 16) (s.stackTop t)) base = base
    rw [hself, Mem.write_ne _ _ (by bv_omega), h.self]
  · intro r hr
    show (s.m.mem.write (s.m.mem s.m.gsBase + 16) (s.stackTop t)) (base + 24) = r
    rw [hself, Mem.write_ne _ _ (Ne.symm (gs_slots_ne base))]
    exact h.userRsp r hr
  · -- the thread switched away from is in the kernel
    intro u hu
    by_cases huc : u = s.current
    · rw [huc]
      exact hph
    · exact h.others u huc

/-- The invariant is kept by every step that leaves the GS base and the kernel
stack alone. -/
theorem cpuStep_inv {base : Word} {s s' : CpuState} {op : CpuOp} (h : CpuInv base s)
    (hop : StackKept base s op) (hstep : cpuStep base s op = some s') : CpuInv base s' := by
  cases op with
  | userRun regs =>
      simp only [cpuStep, Option.ite_none_right_eq_some, Option.some.injEq] at hstep
      obtain ⟨hph, rfl⟩ := hstep
      exact (userRun_own h hph regs).inv h
  | store a bs =>
      simp only [cpuStep, Option.ite_none_left_eq_some, Option.some.injEq] at hstep
      obtain ⟨-, rfl⟩ := hstep
      exact store_inv h hop
  | syscall nr =>
      simp only [cpuStep, Option.ite_none_right_eq_some, Option.some.injEq] at hstep
      obtain ⟨hph, rfl⟩ := hstep
      exact (syscall_own h hph nr).inv h
  | sysret ret scratch signalled =>
      simp only [cpuStep] at hstep
      split at hstep
      · rename_i nr frame hph
        cases hstep
        exact (sysret_own h hph ret scratch signalled).inv h
      · cases hstep
  | spawn top =>
      simp only [cpuStep, Option.ite_none_left_eq_some, Option.some.injEq, not_or, not_not] at hstep
      obtain ⟨⟨-, htop⟩, rfl⟩ := hstep
      exact spawn_inv h htop
  | switchTo t =>
      simp only [cpuStep, Option.ite_none_left_eq_some, Option.some.injEq, not_or, not_le] at hstep
      obtain ⟨⟨hph, hlt, hne⟩, rfl⟩ := hstep
      exact switchTo_inv h hph hlt hne
  | enterUser regs =>
      -- a new thread returns to user code as an `iretq` does
      simp only [cpuStep, Option.ite_none_right_eq_some, Option.some.injEq] at hstep
      obtain ⟨hph, rfl⟩ := hstep
      exact (toUser_own h (by rw [hph]; simp) regs (by decide)).inv h
  | interrupt ev =>
      simp only [cpuStep, Option.ite_none_right_eq_some, Option.some.injEq] at hstep
      obtain ⟨hph, rfl⟩ := hstep
      exact (interrupt_own h hph ev).inv h
  | iret regs =>
      simp only [cpuStep] at hstep
      split at hstep
      · rename_i frame cs hph
        cases hstep
        exact (toUser_own h (by rw [hph]; simp) regs (h.interruptCs _ _ _ hph)).inv h
      · cases hstep
  | setGs addr => exact hop.elim

/-! ## The property along runs -/

/-- At boot the idle thread runs on its stack. -/
theorem boot_inv {base idleTop : Word} (hstack : StackApart base idleTop) :
    CpuInv base (bootCpu base idleTop) where
  kernelGs _ := rfl
  userGs he := by cases he
  self := by
    show ((Mem.write (fun _ => 0) base base).write (base + 16) idleTop) base = base
    rw [Mem.write_ne _ _ (by bv_omega), Mem.write_self]
  kernelStack := Mem.write_self _ _ _
  tss := rfl
  userRsp r hr := by cases hr
  current := Nat.zero_lt_one
  kernelStacks _ _ := hstack
  userCs he := by cases he
  interruptCs _ _ _ he := by cases he
  others _ _ he := by cases he
  inSyscall _ _ _ he := by cases he

/-- The property is about the last return. -/
theorem rspKept_of_same {s s' : CpuState} (h : s'.lastReturn = s.lastReturn) :
    RspKept s' ↔ RspKept s := by rw [RspKept, RspKept, h]

/-- A return keeps the property exactly when `user_rsp` was last given the same
stack pointer. -/
theorem sysret_rspKept {base : Word} {s : CpuState} (h : CpuInv base s) (hk : RspKept s) {nr : Nat}
    {frame : Word} (hph : s.phase s.current = .syscall nr frame) (ret : Word)
    (scratch : Reg → Word) (signalled : Bool) :
    RspKept (s.sysret nr frame ret scratch signalled) ↔
      LastEntryOwn s (.sysret ret scratch signalled) := by
  obtain ⟨hrsp, -, -⟩ := sysret_machine h hph ret scratch signalled
  obtain ⟨hsome, -, -⟩ := h.inSyscall _ _ _ hph
  obtain ⟨last, hlast⟩ := Option.isSome_iff_exists.mp hsome
  have hslot : s.m.mem (base + 24) = last := h.userRsp last hlast
  by_cases hcount : nr ∈ setsRsp ∨ signalled = true
  · -- a call that sets RSP itself is not counted
    have hsame : (s.sysret nr frame ret scratch signalled).lastReturn = s.lastReturn := by
      show (if nr ∈ setsRsp ∨ signalled = true then s.lastReturn else _) = _
      rw [if_pos hcount]
    rw [rspKept_of_same hsame]
    refine iff_of_true hk ?_
    intro nr' frame' hph' hnr hsig
    rw [hph] at hph'
    cases hph'
    rcases hcount with hin | htrue
    · exact absurd hin hnr
    · rw [hsig] at htrue
      cases htrue
  · have hret : (s.sysret nr frame ret scratch signalled).lastReturn =
        some ⟨s.current, s.entryRsp s.current,
          (s.sysret nr frame ret scratch signalled).m.regs .rsp⟩ := by
      show (if nr ∈ setsRsp ∨ signalled = true then s.lastReturn else _) = _
      rw [if_neg hcount]
      rfl
    rw [RspKept, hret, hrsp, hslot]
    constructor
    · intro hkept nr' frame' _ _ _
      rw [hlast]
      exact congrArg some (hkept _ rfl)
    · intro hown r hr
      cases hr
      have hnot := not_or.mp hcount
      have := hown nr frame hph hnot.1 (by simpa using hnot.2)
      rw [hlast] at this
      exact Option.some.inj this

/-- One step: only a return has something to prove, and it finds the RSP of its own
entry exactly when no other entry, and no store, has come between. -/
theorem cpuStep_rspKept {base : Word} {s s' : CpuState} {op : CpuOp} (h : CpuInv base s)
    (hk : RspKept s) (hop : StackKept base s op) (hstep : cpuStep base s op = some s') :
    RspKept s' ↔ LastEntryOwn s op := by
  cases op with
  -- the only step that returns
  | sysret ret scratch signalled =>
      simp only [cpuStep] at hstep
      split at hstep
      · rename_i nr frame hph
        cases hstep
        exact sysret_rspKept h hk hph ret scratch signalled
      · cases hstep
  | setGs addr => exact hop.elim
  | iret regs =>
      simp only [cpuStep] at hstep
      split at hstep
      · cases hstep
        exact iff_of_true hk trivial
      · cases hstep
  | userRun _ | syscall _ | enterUser _ | interrupt _ =>
      simp only [cpuStep, Option.ite_none_right_eq_some, Option.some.injEq] at hstep
      obtain ⟨-, rfl⟩ := hstep
      exact iff_of_true hk trivial
  | store a bs =>
      simp only [cpuStep, Option.ite_none_left_eq_some, Option.some.injEq] at hstep
      obtain ⟨-, rfl⟩ := hstep
      have hsame : (s.store base a bs).lastReturn = s.lastReturn := by
        unfold CpuState.store
        rfl
      exact iff_of_true ((rspKept_of_same hsame).mpr hk) trivial
  | spawn _ | switchTo _ =>
      simp only [cpuStep, Option.ite_none_left_eq_some, Option.some.injEq] at hstep
      obtain ⟨-, rfl⟩ := hstep
      exact iff_of_true hk trivial

/-- From boot, along a run that leaves the GS base and the kernel stack alone,
every system call restores its own stack pointer exactly when `user_rsp` was
always last given that; in particular it does when all steps meet both
conditions. -/
theorem rspKept_of_lastEntryOwn {base idleTop : Word} (hstack : StackApart base idleTop)
    (ops : List CpuOp) :
    (StepsMeet (cpuStep base) (fun s op => StackKept base s op ∧ LastEntryOwn s op)
        (bootCpu base idleTop) ops →
      Always (cpuStep base) RspKept (bootCpu base idleTop) ops) ∧
    (StepsMeet (cpuStep base) (StackKept base) (bootCpu base idleTop) ops →
      (Always (cpuStep base) RspKept (bootCpu base idleTop) ops ↔
        StepsMeet (cpuStep base) LastEntryOwn (bootCpu base idleTop) ops)) := by
  have hkept : RspKept (bootCpu base idleTop) := by
    intro r hr
    cases hr
  -- where the stores spare the stacks, the condition is exact
  have hexact : StepsMeet (cpuStep base) (StackKept base) (bootCpu base idleTop) ops →
      (Always (cpuStep base) RspKept (bootCpu base idleTop) ops ↔
        StepsMeet (cpuStep base) LastEntryOwn (bootCpu base idleTop) ops) := by
    intro hgiven
    exact always_iff_stepsMeet_given (B := CpuInv base)
      (fun s op s' hL h hstep => cpuStep_inv h hL hstep)
      (fun s op s' hL h hk hok hstep => (cpuStep_rspKept h hk hL hstep).mpr hok)
      (fun s op s' hL h hk hok hstep hk' => hok ((cpuStep_rspKept h hk hL hstep).mp hk'))
      ops hgiven (boot_inv hstack) hkept
  refine ⟨fun hboth => ?_, hexact⟩
  exact (hexact (hboth.mono fun _ _ h => h.1)).mpr (hboth.mono fun _ _ h => h.2)

/-- A register file with the given stack pointer. -/
def regsAt (rsp : Word) : Reg → Word
  | .rsp => rsp
  | _ => 0

/-- A thread that is alone comes back with its own stack pointer. -/
theorem alone_rspKept :
    Always (cpuStep 0xFFFF800000001000) RspKept
      (bootCpu 0xFFFF800000001000 0xFFFF800000108000)
      [.spawn 0xFFFF800000208000, .switchTo 1, .enterUser (regsAt 0x7000), .syscall 39,
        .sysret 1 (fun _ => 0) false] :=
  (rspKept_of_lastEntryOwn (by decide +kernel) _).1 (by decide +kernel)

/-- `arch_prctl(ARCH_GET_FS, &CpuData.user_rsp + 4)` with FS base 0x9000: the call
comes back with the low half of the base in the high half of its RSP. -/
example :
    (run (cpuStep 0xFFFF800000001000) (bootCpu 0xFFFF800000001000 0xFFFF800000108000)
      [.spawn 0xFFFF800000208000, .switchTo 1, .enterUser (regsAt 0x7000), .syscall 158,
        .store 0xFFFF80000000101C (toLE 8 0x9000), .sysret 0 (fun _ => 0) false]).map
      CpuState.lastReturn = some (some ⟨1, 0x7000, 0x900000007000⟩) := by decide +kernel

/-- Thread 1 blocks in `read`; thread 2 makes a system call; thread 1 comes
back on thread 2's stack. -/
theorem read_returns_on_other_stack :
    ∃ s, run (cpuStep 0xFFFF800000001000) (bootCpu 0xFFFF800000001000 0xFFFF800000108000)
        [.spawn 0xFFFF800000208000, .spawn 0xFFFF800000308000,
          .switchTo 1, .enterUser (regsAt 0x7000), .syscall 0,
          .switchTo 2, .enterUser (regsAt 0x8000), .syscall 0,
          .switchTo 1, .sysret 1 (fun _ => 0) false] = some s ∧
      s.lastReturn = some ⟨1, 0x7000, 0x8000⟩ ∧ ¬ RspKept s := by
  have hrun : (run (cpuStep 0xFFFF800000001000) (bootCpu 0xFFFF800000001000 0xFFFF800000108000)
      [.spawn 0xFFFF800000208000, .spawn 0xFFFF800000308000,
        .switchTo 1, .enterUser (regsAt 0x7000), .syscall 0,
        .switchTo 2, .enterUser (regsAt 0x8000), .syscall 0,
        .switchTo 1, .sysret 1 (fun _ => 0) false]).map CpuState.lastReturn =
      some (some ⟨1, 0x7000, 0x8000⟩) := by decide +kernel
  obtain ⟨s, hs, hret⟩ := Option.map_eq_some_iff.mp hrun
  refine ⟨s, hs, hret, fun h => ?_⟩
  exact absurd (h ⟨1, 0x7000, 0x8000⟩ hret) (by decide)

end Ceryx.Cpu
