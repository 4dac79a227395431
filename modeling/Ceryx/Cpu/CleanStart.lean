import Ceryx.Cpu.Rings
import Ceryx.Proc.Execve
import Ceryx.Proc.SignalQueue

/-!
# Ceryx.Cpu.CleanStart — how a new image starts

A whole `execve`: the `SYSCALL`, `SyscallEntry`, `sys_execve` in `Dispatch`,
`SignalCheckPending` and `sysret`, and what later steps do to the signal actions
of the process.

* `CleanStart`: the next user instruction is at the entry point on the loader's
  stack, and the process holds no address of the old image.
* `syscallExit_rip`, `sysret_noHandler`: without handlers the exit code returns to
  the frame's `rip`, on the stack that `SyscallEntry` found.
* `userStep_actions`: only `rt_sigaction` changes the actions of a process.
* `cleanStart_iff`: the start is clean if and only if the stack pointer at the
  call already was what the loader returns, unless a fatal signal ends the
  thread before, and no action held an address.
* `handler_kept`: `/sbin/init` with a handler for SIGUSR1.
-/

namespace Ceryx.Cpu

open Lib Machine Proc Fs
open ElfLoader (LoadResult)

/-! ## The call -/

/-- A call of `sys_execve` by thread `t` of process `p`: the machine at the
`SYSCALL`, what is in memory when `Dispatch` returns, and what `Dispatch` and
`SignalCheckPending` leave in the registers. -/
structure ExecCall where
  u : UserKernel
  t : Proc.Tid
  p : ProcId
  env : ExecEnv
  path : Vfs.StringView
  m : Machine
  mem : Mem
  r : CallRegs
  r' : CallRegs

namespace ExecCall

variable (c : ExecCall)

/-- The machine when `SyscallDispatch` is called. -/
def entered : Machine := c.m.syscallInstr.exec syscallSave

/-- The frame that `SyscallDispatch` is called with. -/
def frame : InterruptFrame := frameAt c.entered.mem (c.entered.regs .rsp)

/-- `sys_execve`. -/
def done : ExecResult := c.u.sysExecve c.env c.path c.frame

/-- What the loader returns. -/
def loaded : Option LoadResult := c.u.loadedImage c.p c.env c.path

/-- The machine back in user mode; `none` when a signal ends the thread. -/
def next : Option Machine :=
  Frame.sysret ⟨.dispatched, c.entered.regs .rsp, c.done.frame⟩ { c.entered with mem := c.mem }
    c.r c.r' (c.done.kernel.sigThread c.t c.p c.done.frame c.mem)

/-- The process makes the call, its kernel stack does not overlap `gs:24`, and
kernel code does not store to `gs:24`. -/
structure Sound : Prop where
  caller : c.u.toKernel.caller = some (c.t, c.p)
  kernel : KernelInv c.u.toKernel
  layout : ∀ k, k < 23 → c.m.kernelGsBase + 24 ≠ slot (syscallTop c.m) (k + 1)
  kept : c.mem (c.m.kernelGsBase + 24) = c.entered.mem (c.m.kernelGsBase + 24)

end ExecCall

/-- An action without an address of user code. -/
def HoldsNoAddress (action : SigAction) : Prop :=
  (action.saHandler = SIG_DFL ∨ action.saHandler = SIG_IGN) ∧ action.saSigaction = 0 ∧
    action.saRestorer = 0

instance (action : SigAction) : Decidable (HoldsNoAddress action) :=
  inferInstanceAs (Decidable (_ ∧ _))

/-- The handler is a function of the process. -/
def UserHandler (action : SigAction) : Prop :=
  action.saHandler ≠ SIG_DFL ∧ action.saHandler ≠ SIG_IGN

/-- `rt_sigaction` has installed the action in one of the steps. -/
def InstalledBy (ops : List UserOp) (action : SigAction) : Prop :=
  ∃ sig, UserOp.rtSigaction sig action ∈ ops

/-- The image that was loaded starts clean. -/
structure CleanStart (c : ExecCall) (result : LoadResult) : Prop where
  /-- The next user instruction, if the thread gets there. -/
  next : ∀ m, c.next = some m →
    m.rip = BitVec.ofNat 64 result.entryPoint ∧ m.regs .rsp = BitVec.ofNat 64 result.stackTop
  /-- From then on. -/
  actions : ∀ ops u', run userStep c.done.kernel ops = some u' → ∀ sig,
    HoldsNoAddress ((u'.image c.p).getSignalAction sig) ∨
      InstalledBy ops ((u'.image c.p).getSignalAction sig)
  reset : ∀ sig, UserHandler ((c.u.image c.p).getSignalAction sig) →
    ((c.done.kernel.image c.p).getSignalAction sig).saHandler = SIG_DFL

/-- Every successful `execve` starts clean. -/
def CleanStartLaw : Prop :=
  ∀ (c : ExecCall) (result : LoadResult), c.Sound → c.loaded = some result → CleanStart c result

/-! ## When it does -/

/-- The stack pointer is what the loader returns for this stack. -/
def OnNewStack (c : ExecCall) : Prop :=
  ∃ stackBottom, c.env.loadEnv.stack = some stackBottom ∧
    c.m.regs .rsp = BitVec.ofNat 64 (RamFs.usizeAdd stackBottom 0x800000)

/-- A signal whose default action ends the process is due. -/
def FatalDue (sig : SigThread) : Prop :=
  sig.zombie = false ∧ sig.terminated = false ∧
    ∃ i ∈ fatalSignals, (sig.pending &&& ~~~sig.blocked) &&& sigBit i ≠ 0 ∧
      (sig.actions i).saHandler = SIG_DFL

/-- The exit code takes the entry point for a code segment, and only where its
lowest two bits are not zero it looks at the signals. -/
def EndsBefore (c : ExecCall) (entryPoint : Nat) : Prop :=
  BitVec.ofNat 64 entryPoint &&& 3 ≠ 0 ∧ FatalDue (c.u.sigThread c.t c.p c.frame c.mem)

/-! ## Signals without handlers -/

/-- No action is a handler. -/
def NoHandler (actions : Nat → SigAction) : Prop :=
  ∀ i, (actions i).saHandler = SIG_DFL ∨ (actions i).saHandler = SIG_IGN

theorem deliverLoop_noHandler (pending : Word) (is : List Nat) {t : SigThread}
    (h : NoHandler t.actions) :
    (deliverLoop pending is t).1.frame = t.frame ∧ (deliverLoop pending is t).1.mem = t.mem ∧
      ((deliverLoop pending is t).1.terminated = true ↔ t.terminated = true ∨
        ∃ i ∈ is, i ∈ fatalSignals ∧ pending &&& sigBit i ≠ 0 ∧
          (t.actions i).saHandler = SIG_DFL) := by
  induction is generalizing t with
  | nil => simp [deliverLoop]
  | cons i is ih =>
      unfold deliverLoop
      by_cases htest : pending &&& sigBit i = 0
      · rw [if_pos htest]
        simpa [htest] using ih h
      · rw [if_neg htest]
        dsimp only
        have hrest := ih (t := { t with pending := t.pending &&& ~~~sigBit i }) h
        rcases h i with hdfl | hign
        · have hne : (t.actions i).saHandler ≠ SIG_IGN := by
            rw [hdfl]
            decide
          rw [if_neg hne, if_pos hdfl]
          by_cases hfatal : i ∈ fatalSignals
          · -- a fatal default ends the thread
            rw [if_pos hfatal]
            refine ⟨rfl, rfl, ?_, fun _ => rfl⟩
            intro _
            exact .inr ⟨i, List.mem_cons_self, hfatal, htest, hdfl⟩
          · rw [if_neg hfatal]
            simpa [hfatal] using hrest
        · have hne : (t.actions i).saHandler ≠ SIG_DFL := by
            rw [hign]
            decide
          rw [if_pos hign]
          simpa [hne] using hrest

theorem fatalSignals_sub : ∀ i ∈ fatalSignals, i ∈ signals := by decide

/-- Without handlers `DoPendingSignals` leaves the frame and user memory alone. It
ends the thread where a fatal signal is due. -/
theorem doPendingSignals_noHandler {t : SigThread} (h : NoHandler t.actions) :
    (doPendingSignals t).1.frame = t.frame ∧ (doPendingSignals t).1.mem = t.mem ∧
      ((doPendingSignals t).1.terminated = true ∧ t.terminated = false ↔
        t.frame.cs &&& 3 ≠ 0 ∧ FatalDue t) := by
  -- where the loop is not reached nothing is due
  have hstay : ¬ (t.frame.cs &&& 3 ≠ 0 ∧ FatalDue t) →
      (t.terminated = true ∧ t.terminated = false ↔ t.frame.cs &&& 3 ≠ 0 ∧ FatalDue t) := by
    intro hnot
    refine ⟨?_, fun hdue => absurd hdue hnot⟩
    rintro ⟨htrue, hfalse⟩
    rw [htrue] at hfalse
    cases hfalse
  unfold doPendingSignals
  split
  · rename_i hcs
    exact ⟨rfl, rfl, hstay fun hdue => hdue.1 hcs⟩
  · rename_i hcs
    dsimp only
    split
    · rename_i hzero
      refine ⟨rfl, rfl, hstay ?_⟩
      rintro ⟨-, -, -, i, -, hbit, -⟩
      rw [hzero] at hbit
      exact hbit BitVec.zero_and
    · split
      · rename_i hzombie
        refine ⟨rfl, rfl, hstay ?_⟩
        rintro ⟨-, hlive, -⟩
        rw [hzombie] at hlive
        cases hlive
      · rename_i hzombie
        split
        · rename_i hterm
          refine ⟨rfl, rfl, hstay ?_⟩
          rintro ⟨-, -, hlive, -⟩
          rw [hterm] at hlive
          cases hlive
        · rename_i hterm
          rcases deliverLoop_noHandler (t.pending &&& ~~~t.blocked) signals h with
            ⟨hframe, hmem, hend⟩
          rw [Bool.not_eq_true] at hzombie hterm
          refine ⟨hframe, hmem, ?_⟩
          rw [hend]
          constructor
          · rintro ⟨htrue | ⟨i, -, hfatal, hbit, hdfl⟩, -⟩
            · rw [hterm] at htrue
              cases htrue
            · exact ⟨hcs, hzombie, hterm, i, hfatal, hbit, hdfl⟩
          · rintro ⟨-, -, -, i, hfatal, hbit, hdfl⟩
            exact ⟨.inr ⟨i, fatalSignals_sub i hfatal, hfatal, hbit, hdfl⟩, hterm⟩

/-! ## The way out -/

/-- `SyscallEntry` returns to the address seventeen quadwords above the saved
`rax`. -/
theorem syscallExit_rip (m : Machine) : (syscallExit m).rip = m.mem (m.regs .rsp + 144) := by
  rcases syscallRestore_pops m with ⟨m₁, hpops, hmem, hrsp, -, -⟩
  have haddr : m₁.regs .rsp + 16 + 8 = m.regs .rsp + 144 := by
    rw [hrsp]
    bv_omega
  rw [syscallExit, hpops, ← hmem, ← haddr]
  simp [exec, execOne, setReg, sysret]

theorem writeFields_same {fs : List (Word × Word)} {mem : Mem} {base : Word}
    (h : ∀ f ∈ fs, mem (base + f.1) = f.2) : mem.writeFields base fs = mem := by
  induction fs with
  | nil => rfl
  | cons f fs ih =>
      obtain ⟨off, v⟩ := f
      have hwrite : mem.write (base + off) v = mem := by
        have hself : mem (base + off) = v := h (off, v) List.mem_cons_self
        rw [← hself]
        exact Function.update_eq_self _ _
      rw [Mem.writeFields, hwrite]
      exact ih fun g hg => h g (List.mem_cons_of_mem _ hg)

/-- A frame is stored back where it was read. -/
theorem putFrame_frameAt (mem : Mem) (a : Word) : putFrame mem a (frameAt mem a) = mem := by
  apply writeFields_same
  simp only [frameFields, frameAt, List.forall_mem_cons, List.not_mem_nil, false_implies,
    implies_true, and_self]

theorem putFrame_frame {mem : Mem} {a b : Word} (f : InterruptFrame)
    (h : ∀ off ∈ frameOffsets, b ≠ a + off) : putFrame mem a f b = mem b := by
  apply Mem.writeFields_frame
  intro g hg
  apply h
  rw [← frameFields_offsets f]
  exact List.mem_map.mpr ⟨g, hg, rfl⟩

theorem putFrame_rip (mem : Mem) (a : Word) (f : InterruptFrame) :
    putFrame mem a f (a + 136) = f.rip := putFrame_get (by simp [frameFields])

/-- Without handlers `SignalCheckPending` leaves memory alone. It does not return
where a fatal signal is due and the frame has a code segment of user mode. -/
theorem signalCheck_noHandler {sig : SigThread} (h : NoHandler sig.actions) (mem : Mem) (a : Word) :
    (signalCheckPending sig mem a = none ↔ (frameAt mem a).cs &&& 3 ≠ 0 ∧ FatalDue sig) ∧
      ∀ mem', signalCheckPending sig mem a = some mem' → mem' = mem := by
  rcases @doPendingSignals_noHandler { sig with frame := frameAt mem a, mem := mem } h with
    ⟨hframe, hmem, hend⟩
  dsimp only at hframe hmem hend
  unfold signalCheckPending
  dsimp only
  rw [hframe, hmem, putFrame_frameAt]
  constructor
  · rw [ite_eq_left_iff, hend]
    simp only [reduceCtorEq, imp_false, not_not]
    exact Iff.rfl
  · intro mem' hreturn
    split at hreturn
    · cases hreturn
    · exact (Option.some.inj hreturn).symm

/-- The memory when `SyscallEntry` calls `SignalCheckPending`. -/
def checkMem (fr : Frame) (m : Machine) (r : CallRegs) : Mem :=
  (putFrame m.mem fr.ptr fr.saved).write (fr.ptr - 8) r.ret

theorem checkMem_rip (fr : Frame) (m : Machine) (r : CallRegs) :
    checkMem fr m r (fr.ptr - 8 + 144) = fr.saved.rip := by
  have haddr : fr.ptr - 8 + 144 = fr.ptr + 136 := by bv_omega
  have hne : fr.ptr + 136 ≠ fr.ptr - 8 := below_frame fr.ptr 136 (by decide)
  rw [haddr, checkMem, Mem.write_ne _ _ hne, putFrame_rip]

/-- Without handlers the thread goes on in user mode at the saved `rip`, on the
stack that `gs:24` names, unless a fatal signal ends it. -/
theorem sysret_noHandler (fr : Frame) (m : Machine) (r r' : CallRegs) {sig : SigThread}
    {ptr gs : Word} (h : NoHandler sig.actions) (hptr : fr.ptr = ptr) (hgs : m.gsBase = gs)
    (hlow : gs + 24 ≠ ptr - 8) (hlay : ∀ off ∈ frameOffsets, gs + 24 ≠ ptr + off) :
    (Frame.sysret fr m r r' sig = none ↔ fr.saved.rip &&& 3 ≠ 0 ∧ FatalDue sig) ∧
      ∀ m', Frame.sysret fr m r r' sig = some m' →
        m'.rip = fr.saved.rip ∧ m'.regs .rsp = m.mem (gs + 24) := by
  subst hptr
  have hmem : ((fr.returned m r).exec syscallCheck).mem = checkMem fr m r := by
    simp [Frame.returned, syscallCheck, exec, execOne, pushVal, setReg, checkMem, afterCall,
      callerSaved]
  have hrdi : ((fr.returned m r).exec syscallCheck).regs .rdi = fr.ptr - 8 := by
    rw [syscallCheck_rdi]
    simp [Frame.returned, setReg]
  have hrsp : ((fr.returned m r).exec syscallCheck).regs .rsp = fr.ptr - 8 := by
    rw [syscallCheck_rsp]
    simp [Frame.returned, setReg]
  -- the slot that is looked at for the code segment is the one of `rip`
  have hcs : (frameAt (checkMem fr m r) (fr.ptr - 8)).cs = fr.saved.rip := checkMem_rip fr m r
  rcases signalCheck_noHandler h (checkMem fr m r) (fr.ptr - 8) with ⟨hend, hkeeps⟩
  rw [hcs] at hend
  unfold Frame.sysret
  dsimp only
  rw [hmem, hrdi]
  constructor
  · rw [Option.map_eq_none_iff, hend]
  · intro m' hm'
    rcases Option.map_eq_some_iff.mp hm' with ⟨mem', hcheck, rfl⟩
    rw [hkeeps mem' hcheck]
    constructor
    · rw [syscallExit_rip, afterCall_rsp, hrsp]
      exact checkMem_rip fr m r
    · rw [(syscallExit_rsp _).1]
      change checkMem fr m r (m.gsBase + 24) = _
      rw [hgs]
      rw [checkMem, Mem.write_ne _ _ hlow, putFrame_frame _ hlay]

/-! ## The way in -/

section
variable {c : ExecCall} (h : c.Sound)
include h

theorem entered_saved : SyscallSaved c.m.syscallInstr c.entered := by
  apply syscallSave_spec
  have htop := h.layout 0 (by decide)
  rw [← slot_sub, slot_zero] at htop
  exact htop

theorem entered_gsBase : c.entered.gsBase = c.m.kernelGsBase := (entered_saved h).gsBase

/-- `gs:24` lies next to the frame. -/
theorem entered_layout : ∀ off ∈ frameOffsets,
    c.m.kernelGsBase + 24 ≠ c.entered.regs .rsp + off := by
  intro off hoff
  rw [frameOffsets_eq] at hoff
  rcases List.mem_map.mp hoff with ⟨j, hj, rfl⟩
  have hj' : j < 22 := List.mem_range.mp hj
  rw [(entered_saved h).rsp, slot_add (by omega : j ≤ 22)]
  have hslot := h.layout (21 - j) (by omega)
  have hidx : 21 - j + 1 = 22 - j := by omega
  rw [hidx] at hslot
  exact hslot

theorem entered_layout_low : c.m.kernelGsBase + 24 ≠ c.entered.regs .rsp - 8 := by
  rw [(entered_saved h).rsp, slot_sub]
  exact h.layout 22 (by decide)

/-- The user stack pointer is at `gs:24` until the call is over. -/
theorem mem_userRsp : c.mem (c.m.kernelGsBase + 24) = c.m.regs .rsp := by
  rw [h.kept, (entered_saved h).mem, pushAll_frame]
  · exact Mem.write_self _ _ _
  · intro k hk
    have hk' : k < 22 := hk
    exact h.layout k (by omega)

end

/-! ## The signal actions afterwards -/

/-- After a run each action is what it was, or one that `rt_sigaction` has
installed on the way. -/
theorem run_actions {u u' : UserKernel} {p : ProcId} (ops : List UserOp) (h : KernelInv u.toKernel)
    (hp : p < u.nextProc) (hrun : run userStep u ops = some u') (sig : Nat) :
    (u'.image p).getSignalAction sig = (u.image p).getSignalAction sig ∨
      InstalledBy ops ((u'.image p).getSignalAction sig) := by
  -- over the run: an entry is the old one, or some step of the run has installed it
  induction ops generalizing u with
  | nil =>
      cases hrun
      exact .inl rfl
  | cons op ops ih =>
      rcases Option.bind_eq_some_iff.mp hrun with ⟨u₁, hstep, hrest⟩
      rcases userStep_actions h hp hstep with ⟨hp₁, hactions⟩
      rcases ih (userStep_kernelInv h hstep) hp₁ hrest with hsame | ⟨s, hmem⟩
      · rw [hsame]
        rcases hactions sig with hfirst | ⟨s, act, rfl, hnew⟩
        · exact .inl hfirst
        · rw [hnew]
          exact .inr ⟨s, List.mem_cons_self⟩
      · exact .inr ⟨s, List.mem_cons_of_mem _ hmem⟩

section
variable {c : ExecCall} {result : LoadResult} (h : c.Sound) (hloaded : c.loaded = some result)
include h hloaded

/-- What a successful `sys_execve` leaves: the frame, the signal actions and the
signal words. -/
theorem done_spec : c.done.frame = UserKernel.startFrame c.frame result ∧
    (∀ q, (c.done.kernel.image q).signalActions = (c.u.image q).signalActions) ∧
    KernelInv c.done.kernel.toKernel ∧ c.p < c.done.kernel.nextProc ∧
    (FatalDue (c.done.kernel.sigThread c.t c.p c.done.frame c.mem) ↔
      FatalDue (c.u.sigThread c.t c.p c.frame c.mem)) := by
  rcases UserKernel.sysExecve_kernel h.caller c.env c.path c.frame with ⟨outcome, hkernel, hend⟩
  rcases hend with ⟨e, -, -, -, hnone⟩ | ⟨result', -, -, hframe, hsome⟩
  · have hloaded' : c.u.loadedImage c.p c.env c.path = some result := hloaded
    rw [hnone] at hloaded'
    cases hloaded'
  · have hresult : result' = result := Option.some.inj (hsome.symm.trans hloaded)
    rw [hresult] at hframe
    have hdone : c.done.kernel = (c.u.execve c.p outcome).2 := hkernel
    have hactions : ∀ q, (c.done.kernel.image q).signalActions = (c.u.image q).signalActions := by
      intro q
      rw [hdone]
      exact execve_signalActions c.u c.p q outcome
    rcases execve_eq c.u c.p outcome with ⟨root, value, hroots⟩
    have hp := h.kernel.tree.threadProcess c.t c.p (caller_eq h.caller).2.1
    refine ⟨hframe, hactions, ?_, ?_, ?_⟩
    · rw [hdone, hroots]
      exact h.kernel.setRoots root value
    · rw [hdone, hroots]
      exact hp
    · -- the signal words are the thread's, and `execve` has changed no thread
      have hthreads : c.done.kernel.threads = c.u.threads := by
        rw [hdone, hroots]
        rfl
      have hprocs : c.done.kernel.procs = c.u.procs := by
        rw [hdone, hroots]
        rfl
      unfold FatalDue UserKernel.sigThread ProcessImage.getSignalAction
      dsimp only
      rw [hactions, hthreads, hprocs]

/-- The process still has the actions that it had. -/
theorem done_getSignalAction (sig : Nat) :
    (c.done.kernel.image c.p).getSignalAction sig = (c.u.image c.p).getSignalAction sig := by
  exact congrFun ((done_spec h hloaded).2.1 c.p) (signalSlot sig)

/-- Without handlers the thread goes on at the entry point, on its old stack. -/
theorem next_noHandler (hnone : NoHandler (c.u.image c.p).getSignalAction) :
    (c.next = none ↔ EndsBefore c result.entryPoint) ∧
      ∀ m, c.next = some m →
        m.rip = BitVec.ofNat 64 result.entryPoint ∧ m.regs .rsp = c.m.regs .rsp := by
  rcases done_spec h hloaded with ⟨hframe, -, -, -, hdue⟩
  have hgs := entered_gsBase h
  have hnone' : NoHandler (c.done.kernel.sigThread c.t c.p c.done.frame c.mem).actions := by
    intro i
    change (((c.done.kernel.image c.p).getSignalAction i).saHandler = SIG_DFL ∨
      ((c.done.kernel.image c.p).getSignalAction i).saHandler = SIG_IGN)
    rw [done_getSignalAction h hloaded]
    exact hnone i
  have hrip : c.done.frame.rip = BitVec.ofNat 64 result.entryPoint := by
    rw [hframe]
    rfl
  have hrsp := mem_userRsp h
  have hlow := entered_layout_low h
  have hlay := entered_layout h
  have hnext : c.next = Frame.sysret ⟨.dispatched, c.entered.regs .rsp, c.done.frame⟩
      { c.entered with mem := c.mem } c.r c.r'
      (c.done.kernel.sigThread c.t c.p c.done.frame c.mem) := rfl
  rw [hnext]
  -- only where the slots lie matters of the machine
  generalize c.entered = m₀ at hgs hlow hlay
  generalize c.done.kernel.sigThread c.t c.p c.done.frame c.mem = sig at hnone' hdue
  rcases sysret_noHandler ⟨.dispatched, m₀.regs .rsp, c.done.frame⟩ { m₀ with mem := c.mem } c.r
    c.r' hnone' rfl hgs hlow hlay with ⟨hend, hgo⟩
  constructor
  · rw [hend, hdue]
    exact and_congr_left' (by rw [hrip])
  · intro m hm
    rcases hgo m hm with ⟨hm₁, hm₂⟩
    exact ⟨hm₁.trans hrip, hm₂.trans hrsp⟩

omit h in
/-- The loader's stack top is the one of the range that was mapped. -/
theorem onNewStack_iff : OnNewStack c ↔ c.m.regs .rsp = BitVec.ofNat 64 result.stackTop := by
  rcases UserKernel.loadedImage_stack hloaded with ⟨stackBottom, hstack, htop⟩
  unfold OnNewStack
  rw [hstack, htop]
  constructor
  · rintro ⟨stackBottom', heq, hrsp⟩
    cases heq
    exact hrsp
  · intro hrsp
    exact ⟨stackBottom, rfl, hrsp⟩

theorem CleanStart.holdsNoAddress (hclean : CleanStart c result) (sig : Nat) :
    HoldsNoAddress ((c.u.image c.p).getSignalAction sig) := by
  rcases hclean.actions [] c.done.kernel rfl sig with hnone | ⟨s, hmem⟩
  · rw [done_getSignalAction h hloaded] at hnone
    exact hnone
  · cases hmem

theorem cleanStart_of (hstack : c.m.regs .rsp = BitVec.ofNat 64 result.stackTop ∨
      EndsBefore c result.entryPoint)
    (hnone : ∀ sig, HoldsNoAddress ((c.u.image c.p).getSignalAction sig)) :
    CleanStart c result := by
  rcases next_noHandler h hloaded fun sig => (hnone sig).1 with ⟨hend, hgo⟩
  rcases done_spec h hloaded with ⟨-, -, hkernel, hp, -⟩
  constructor
  case next =>
    intro m hm
    rcases hgo m hm with ⟨hrip, hrsp⟩
    refine ⟨hrip, hrsp.trans ?_⟩
    rcases hstack with hstack | hends
    · exact hstack
    · -- a thread that has ended does not go on
      rw [hend.mpr hends] at hm
      cases hm
  case actions =>
    intro ops u' hrun sig
    rcases run_actions ops hkernel hp hrun sig with hsame | hnew
    · left
      rw [hsame, done_getSignalAction h hloaded]
      exact hnone sig
    · exact .inr hnew
  case reset =>
    rintro sig ⟨hdfl, hign⟩
    rcases (hnone sig).1 with h₁ | h₁
    · exact absurd h₁ hdfl
    · exact absurd h₁ hign

end

/-- An image starts clean if and only if the caller's stack pointer was the one
that the loader returns, or a fatal signal ends the thread first, and no action
of the process held an address. -/
theorem cleanStart_iff {c : ExecCall} {result : LoadResult} (h : c.Sound)
    (hloaded : c.loaded = some result) :
    CleanStart c result ↔
      (OnNewStack c ∨ EndsBefore c result.entryPoint) ∧
        ∀ sig, HoldsNoAddress ((c.u.image c.p).getSignalAction sig) := by
  rw [onNewStack_iff hloaded]
  constructor
  · intro hclean
    have hnone := hclean.holdsNoAddress h hloaded
    refine ⟨?_, hnone⟩
    rcases next_noHandler h hloaded fun sig => (hnone sig).1 with ⟨hend, hgo⟩
    cases hnext : c.next with
    | none => exact .inr (hend.mp hnext)
    | some m => exact .inl ((hgo m hnext).2.symm.trans (hclean.next m hnext).2)
  · rintro ⟨hstack, hnone⟩
    exact cleanStart_of h hloaded hstack hnone

/-! ## /sbin/init -/

/-- A user program at a `SYSCALL`, with this stack pointer. -/
def callerMachine (rsp : Word) : Machine where
  regs r := if r = .rsp then rsp else 0
  rip := 0x401000
  cs := 0x23
  rflags := 0x202
  ss := 0x1B
  mem := Mem.write (fun _ => 0) (0x10000 + 16) 0x30000
  gsBase := 0
  kernelGsBase := 0x10000
  tssRsp0 := 0x30000

/-- `/sbin/init` calls `execve` for the file at "/a". -/
def initCall (u : UserKernel) (rsp : Word) : ExecCall where
  u := u
  t := 3
  p := 0
  env := fileAtA ElfLoader.mapsUser
  path := [47, 97]
  m := callerMachine rsp
  mem := ((callerMachine rsp).syscallInstr.exec syscallSave).mem
  r := ⟨0, fun _ => 0⟩
  r' := ⟨0, fun _ => 0⟩

theorem initCall_sound {u : UserKernel} (rsp : Word) (hcall : u.toKernel.caller = some (3, 0))
    (h : KernelInv u.toKernel) : (initCall u rsp).Sound where
  caller := hcall
  kernel := h
  layout := by
    have htop : syscallTop (callerMachine rsp) = 0x30000 := rfl
    unfold initCall
    dsimp only
    rw [htop]
    change ∀ k, k < 23 → (0x10000 : Word) + 24 ≠ slot 0x30000 (k + 1)
    decide
  kept := by
    simp only [initCall, ExecCall.entered]

theorem init_kernelInv {ops : List UserOp} {u₀ u : UserKernel} (hboot : initBoot = some u₀)
    (hrun : run userStep u₀ ops = some u) : KernelInv u.toKernel := by
  apply inv_of_run (I := fun u => KernelInv u.toKernel) ?_ (boot_spaceInv hboot).kernel hrun
  intro u op u' h hstep
  exact userStep_kernelInv h hstep

/-- `/sbin/init` without handlers, on the very stack that the loader returns. -/
theorem init_cleanStart :
    ∃ u, initBoot.bind (fun u => run userStep u [.kernel .yield]) = some u ∧
      CleanStart (initCall u 0x7FFFFFFFE000) ⟨0x400000, 0x7FFFFFFFE000, 0x401000⟩ := by
  rcases exists_run userStep [.kernel .yield] (o := initBoot)
    (P := fun u => u.toKernel.caller = some (3, 0) ∧
      u.loadedImage 0 (fileAtA ElfLoader.mapsUser) [47, 97] =
        some ⟨0x400000, 0x7FFFFFFFE000, 0x401000⟩ ∧
      ∀ i, i < NSIG → HoldsNoAddress ((u.image 0).signalActions i))
    (by decide +kernel) with ⟨u₀, u, hboot, hrun, hcall, hloaded, hslots⟩
  refine ⟨u, by rw [hboot]; exact hrun, ?_⟩
  have hsound := initCall_sound 0x7FFFFFFFE000 hcall (init_kernelInv hboot hrun)
  refine (cleanStart_iff hsound hloaded).mpr ⟨.inl ⟨0x00007FFFFF7FE000, rfl, rfl⟩, ?_⟩
  intro sig
  exact hslots (signalSlot sig) (signalSlot_lt sig)

/-- `/sbin/init` has a handler for SIGUSR1, with its restorer. The new image has
them still. -/
theorem handler_kept : ¬ CleanStartLaw := by
  intro hlaw
  rcases exists_run userStep
    [.kernel .yield, .rtSigaction 10 { saHandler := 0x401500, saRestorer := 0x401600 }]
    (o := initBoot)
    (P := fun u => u.toKernel.caller = some (3, 0) ∧
      u.loadedImage 0 (fileAtA ElfLoader.mapsUser) [47, 97] =
        some ⟨0x400000, 0x7FFFFFFFE000, 0x401000⟩ ∧
      ¬ HoldsNoAddress ((u.image 0).getSignalAction 10))
    (by decide +kernel) with ⟨u₀, u, hboot, hrun, hcall, hloaded, hholds⟩
  have hsound := initCall_sound 0x7FFFFFFFE000 hcall (init_kernelInv hboot hrun)
  exact hholds ((hlaw _ _ hsound hloaded).holdsNoAddress hsound hloaded 10)

end Ceryx.Cpu
