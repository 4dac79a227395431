import Ceryx.Cpu.CleanStart
import Ceryx.Cpu.Rings
import Ceryx.Proc.SignalQueue

/-!
# Ceryx.Cpu.FaultProgress — unresolved page faults on user addresses

A page fault from the faulting instruction to `iretq`: `isr_common`, the handler
that `MemoryManager::Initialize` registers for vector 14, and
`SignalCheckPending`.

* `HandleFault`, `HandlePageFault` and what is mapped are inputs, `FaultEnv`.
* `storesEnd`: `SetupFrame` stores to the user stack without a check, in ring 0. A
  page fault of such a store that is not resolved is met again and again; the
  signal that it sends is not looked at, since the kernel itself has faulted.
* `Progress`: the faulting instruction is not executed again.
* `delivery_due`: what `DoPendingSignals` does is decided by the lowest signal that
  acts.
* `leave_moves`: `isr_common` takes user code elsewhere if and only if a signal
  acts whose frame can be stored.
* `progress_iff_signalActs`: an unresolved fault on a user address makes progress
  if and only if it is taken in user mode and a signal acts that is pending then,
  without its handler being at the faulting instruction itself.
* `kernel_fault_repeats`: kernel code faults on a user pointer again and again.
-/

namespace Ceryx.Cpu

open Lib Machine Proc

def SIGSEGV : Nat := 11

/-- `PageFaultFlags`. -/
structure PageFaultFlags where
  present : Bool
  write : Bool
  user : Bool
  instruction : Bool
deriving DecidableEq, Repr

/-- The flags that the handler makes of an error code. -/
def faultFlags (errorCode : Word) : PageFaultFlags where
  present := errorCode &&& 1 ≠ 0
  write := errorCode &&& 2 ≠ 0
  user := errorCode &&& 4 ≠ 0
  instruction := errorCode &&& 16 ≠ 0

/-- The memory manager: `GetKernelBase`, `HandleFault` of the process's address
space and `HandlePageFault` of the kernel's. -/
structure FaultEnv where
  kernelBase : Word
  handleFault : Word → PageFaultFlags → Bool
  handlePageFault : Word → PageFaultFlags → Bool
  /-- The error code of the page fault of a kernel store to an address; `none` where
  the address is mapped for it. -/
  storeFault : Word → Option Word
  /-- Kernel memory that the kernel goes on with: its stack, its code, its tables. -/
  inUse : Word → Bool

/-- How the handler of vector 14 ends: it returns, after `Signal::Send` or not, or
it stops the kernel. -/
inductive FaultOutcome where
  | resolved
  | sent
  | stopped
deriving DecidableEq, Repr

/-- The handler of vector 14. -/
def pageFault (env : FaultEnv) (hasProcess : Bool) (faultVa errorCode : Word) : FaultOutcome :=
  let flags := faultFlags errorCode
  let resolved :=
    if faultVa < env.kernelBase then hasProcess && env.handleFault faultVa flags
    else env.handlePageFault faultVa flags
  if resolved then .resolved
  else if faultVa < env.kernelBase then .sent
  else .stopped

/-! ## The stores of SetupFrame -/

/-- How stores of the kernel through a user pointer end. -/
inductive StoreEnd where
  | done
  /-- A page fault is not resolved, and the store is tried again. -/
  | again
  | stopped
  /-- Memory that the kernel goes on with is written over; what then happens is left
  open. -/
  | overwrites
deriving DecidableEq, Repr

/-- A store to one byte, by a thread with a process. -/
def storeEnd (env : FaultEnv) (a : Word) : StoreEnd :=
  let through := if env.kernelBase ≤ a ∧ env.inUse a then .overwrites else .done
  -- a general protection fault of the kernel, for which there is no handler
  if ¬ Canonical a then .stopped
  else
    match env.storeFault a with
    | none => through
    | some errorCode =>
        match pageFault env true a errorCode with
        | .resolved => through
        | .sent => .again
        | .stopped => .stopped

/-- Stores one after the other. -/
def storesEnd (env : FaultEnv) : List Word → StoreEnd
  | [] => .done
  | a :: as =>
      match storeEnd env a with
      | .done => storesEnd env as
      | e => e

/-- The bytes that `SetupFrame` stores to, for a user stack pointer: the `sigframe`,
and then the return address below it. -/
def sigframeBytes (rsp : Word) : List Word :=
  let uframe := (rsp - sigframeSize) &&& ~~~15#64
  (List.range 272).map (fun k => uframe + BitVec.ofNat 64 k) ++
    (List.range 8).map fun k => uframe - 8 + BitVec.ofNat 64 k

/-- How the stores of `DoPendingSignals` of a frame end. -/
def deliveryEnd (env : FaultEnv) (frame : InterruptFrame) (sig : SigThread) : StoreEnd :=
  match (doPendingSignals { sig with frame := frame }).2 with
  | none => .done
  | some _ => storesEnd env (sigframeBytes frame.rsp)

/-! ## A fault -/

/-- A page fault: the machine at the faulting instruction, its error code and CR2,
the current thread where it has a process, and what the calls of `isr_common`
leave in the registers. -/
structure Fault where
  m : Machine
  errorCode : Word
  faultVa : Word
  env : FaultEnv
  thread : Option SigThread
  r : CallRegs
  r' : CallRegs

/-- After a fault. -/
inductive AfterFault where
  | stopped
  | ended
  | resumed (m : Machine)
  /-- `SetupFrame` faults, and its store is resumed with the same mapping. -/
  | repeated
  | overwritten

/-- The kernel stops, or the thread is ended, or resumed elsewhere than at `rip`. -/
def AfterFault.Moves (after : AfterFault) (rip : Word) : Prop :=
  after = .stopped ∨ after = .ended ∨ ∃ m, after = .resumed m ∧ m.rip ≠ rip

/-- `isr_common` behind `InterruptDispatch`, for a thread with a process. -/
def Frame.leave (env : FaultEnv) (fr : Frame) (m : Machine) (r r' : CallRegs) (sig : SigThread) :
    AfterFault :=
  match deliveryEnd env fr.saved sig with
  | .done =>
      match fr.iret m r r' sig with
      | none => .ended
      | some m => .resumed m
  | .again => .repeated
  | .stopped => .stopped
  | .overwrites => .overwritten

namespace Fault

variable (f : Fault)

/-- The machine when `InterruptDispatch` is called. -/
def entered : Machine := f.m.isrEntered ⟨14, some f.errorCode⟩

/-- The frame of the fault. -/
def frame : Frame := ⟨.interrupt, f.entered.regs .rsp, frameAt f.entered.mem (f.entered.regs .rsp)⟩

/-- `isr_common` behind `InterruptDispatch`. Without a process `DoPendingSignals`
returns at once. -/
def back : Option SigThread → AfterFault
  | some sig => f.frame.leave f.env f.entered f.r f.r' sig
  | none =>
      let m := f.frame.returned f.entered f.r
      match isrCheck m with
      | none => .resumed (isrLeave m)
      | some m' => .resumed (isrExit (m'.afterCall ⟨f.r'.ret, f.r'.scratch, m'.mem⟩))

/-- The whole way. -/
def after : AfterFault :=
  match pageFault f.env f.thread.isSome f.faultVa f.frame.saved.errorCode with
  | .resolved => f.back f.thread
  | .sent => f.back (f.thread.map fun sig => send sig SIGSEGV)
  | .stopped => .stopped

/-- The address is a user address, and `HandleFault` does not resolve the fault. -/
def Unresolved : Prop :=
  f.faultVa < f.env.kernelBase ∧
    (f.thread.isSome && f.env.handleFault f.faultVa (faultFlags f.frame.saved.errorCode)) = false

/-- The thread is not resumed at the instruction that has faulted. -/
def Progress : Prop := f.after.Moves f.m.rip

end Fault

/-- An unresolved fault on a user address makes progress. -/
def ProgressLaw : Prop := ∀ f : Fault, f.Unresolved → f.Progress

/-! ## When it does -/

/-- The lowest signal of a set that acts. -/
def dueSignal (pending : Word) (actions : Nat → SigAction) (is : List Nat) : Option Nat :=
  is.find? fun i => decide (pending &&& sigBit i ≠ 0 ∧ Acts (actions i) i)

/-- The function that `SetupFrame` enters. -/
def handlerAddr (action : SigAction) : Word :=
  if action.saSigaction ≠ 0 then action.saSigaction else action.saHandler

/-- An action takes code at `rip` elsewhere: it ends the thread, or its handler is
elsewhere and the signal frame can be stored below `rsp` (or stops the kernel). -/
def Leads (env : FaultEnv) (action : SigAction) (rip rsp : Word) : Prop :=
  action.saHandler = SIG_DFL ∨ storesEnd env (sigframeBytes rsp) = .stopped ∨
    storesEnd env (sigframeBytes rsp) = .done ∧ handlerAddr action ≠ rip

/-- Of the signals that are not blocked and pending, or `n`, one acts on a thread
that lives, and the lowest that does leads elsewhere. -/
def SignalActs (env : FaultEnv) (n : Nat) (sig : SigThread) (rip rsp : Word) : Prop :=
  sig.zombie = false ∧ sig.terminated = false ∧
    ∃ i, dueSignal ((sig.pending ||| sigBit n) &&& ~~~sig.blocked) sig.actions signals = some i ∧
      Leads env (sig.actions i) rip rsp

/-! ## DoPendingSignals -/

/-- The loop, by the lowest signal that acts: induction on the signals left. -/
theorem deliverLoop_due (pending : Word) (is : List Nat) (t : SigThread) :
    (dueSignal pending t.actions is = none → (deliverLoop pending is t).2 = none ∧
      (deliverLoop pending is t).1.frame = t.frame ∧
      (deliverLoop pending is t).1.terminated = t.terminated) ∧
    ∀ i, dueSignal pending t.actions is = some i →
      if (t.actions i).saHandler = SIG_DFL then (deliverLoop pending is t).2 = none ∧
        (deliverLoop pending is t).1.terminated = true
      else (deliverLoop pending is t).2 = some i ∧
        (deliverLoop pending is t).1.frame = (setupFrame t.frame t.mem i (t.actions i)).1 ∧
        (deliverLoop pending is t).1.terminated = t.terminated := by
  induction is generalizing t with
  | nil =>
      refine ⟨fun _ => ⟨rfl, rfl, rfl⟩, ?_⟩
      intro i hi
      cases hi
  | cons i is ih =>
      unfold deliverLoop dueSignal
      rw [List.find?_cons]
      by_cases htest : pending &&& sigBit i = 0
      · have hskip : decide (pending &&& sigBit i ≠ 0 ∧ Acts (t.actions i) i) = false := by
          simp [htest]
        rw [if_pos htest, hskip]
        exact ih t
      · rw [if_neg htest]
        dsimp only
        have hrest := ih { t with pending := t.pending &&& ~~~sigBit i }
        by_cases hign : (t.actions i).saHandler = SIG_IGN
        · have hskip : decide (pending &&& sigBit i ≠ 0 ∧ Acts (t.actions i) i) = false := by
            simp [Acts, hign]
          rw [if_pos hign, hskip]
          exact hrest
        · rw [if_neg hign]
          by_cases hdfl : (t.actions i).saHandler = SIG_DFL
          · rw [if_pos hdfl]
            by_cases hfatal : i ∈ fatalSignals
            · -- a fatal default ends the thread
              have hact : decide (pending &&& sigBit i ≠ 0 ∧ Acts (t.actions i) i) = true :=
                decide_eq_true ⟨htest, hign, fun _ => hfatal⟩
              rw [if_pos hfatal, hact]
              constructor
              · intro hnone
                cases hnone
              intro j hj
              cases hj
              rw [if_pos hdfl]
              exact ⟨rfl, rfl⟩
            · have hskip : decide (pending &&& sigBit i ≠ 0 ∧ Acts (t.actions i) i) = false := by
                simp [Acts, hdfl, hfatal]
              rw [if_neg hfatal, hskip]
              exact hrest
          · -- a handler is entered
            have hact : decide (pending &&& sigBit i ≠ 0 ∧ Acts (t.actions i) i) = true :=
              decide_eq_true ⟨htest, hign, fun h => absurd h hdfl⟩
            rw [if_neg hdfl, hact]
            constructor
            · intro hnone
              cases hnone
            intro j hj
            cases hj
            rw [if_neg hdfl]
            exact ⟨rfl, rfl, rfl⟩

theorem dueSignal_zero (actions : Nat → SigAction) (is : List Nat) :
    dueSignal 0 actions is = none := by
  apply List.find?_eq_none.mpr
  intro i _ hdue
  exact (of_decide_eq_true hdue).1 BitVec.zero_and

/-- The signal that `DoPendingSignals` acts on. -/
def due (sig : SigThread) : Option Nat :=
  if sig.zombie ∨ sig.terminated then none
  else dueSignal (sig.pending &&& ~~~sig.blocked) sig.actions signals

/-- `DoPendingSignals` of a frame of user mode, by the signal that is due. -/
theorem delivery_due (sig : SigThread) (mem : Mem) {frame : InterruptFrame}
    (huser : frame.cs &&& 3 ≠ 0) :
    (due sig = none →
      (doPendingSignals { sig with frame := frame, mem := mem }).2 = none ∧
      (doPendingSignals { sig with frame := frame, mem := mem }).1.frame = frame ∧
      (doPendingSignals { sig with frame := frame, mem := mem }).1.terminated = sig.terminated) ∧
    ∀ i, due sig = some i → sig.terminated = false ∧
      if (sig.actions i).saHandler = SIG_DFL then
        (doPendingSignals { sig with frame := frame, mem := mem }).2 = none ∧
        (doPendingSignals { sig with frame := frame, mem := mem }).1.terminated = true
      else
        (doPendingSignals { sig with frame := frame, mem := mem }).2 = some i ∧
        (doPendingSignals { sig with frame := frame, mem := mem }).1.frame =
          (setupFrame frame mem i (sig.actions i)).1 ∧
        (doPendingSignals { sig with frame := frame, mem := mem }).1.terminated = false := by
  unfold doPendingSignals due
  dsimp only
  rw [if_neg huser]
  by_cases hzero : sig.pending &&& ~~~sig.blocked = 0
  · -- nothing is deliverable
    rw [if_pos hzero, hzero, dueSignal_zero, ite_self]
    exact ⟨fun _ => ⟨rfl, rfl, rfl⟩, nofun⟩
  · rw [if_neg hzero]
    cases hzombie : sig.zombie with
    | true => exact ⟨fun _ => ⟨rfl, rfl, rfl⟩, nofun⟩
    | false =>
        cases hterm : sig.terminated with
        | true => exact ⟨fun _ => ⟨rfl, rfl, rfl⟩, nofun⟩
        | false =>
            have hloop := deliverLoop_due (sig.pending &&& ~~~sig.blocked) signals
              { sig with frame := frame, mem := mem }
            rw [hzombie, hterm] at hloop
            exact ⟨hloop.1, fun i hi => ⟨rfl, hloop.2 i hi⟩⟩

/-- `SignalCheckPending` of a frame of user mode, by the signal that is due. -/
theorem signalCheck_due (sig : SigThread) {mem : Mem} {a : Word}
    (huser : (frameAt mem a).cs &&& 3 ≠ 0) :
    (signalCheckPending sig mem a).map (fun mem' => (frameAt mem' a).rip) =
      match due sig with
      | none => some (frameAt mem a).rip
      | some i =>
          if (sig.actions i).saHandler = SIG_DFL then none
          else some (handlerAddr (sig.actions i)) := by
  rcases delivery_due sig mem huser with ⟨hnone, hsome⟩
  unfold signalCheckPending
  cases hdue : due sig with
  | none =>
      -- the frame is what it was
      rcases hnone hdue with ⟨_, hframe, hlive⟩
      dsimp only
      rw [hlive, if_neg (by simp), Option.map_some, frameAt_putFrame, hframe]
  | some i =>
      rcases hsome i hdue with ⟨hterm, hacts⟩
      dsimp only
      by_cases hdfl : (sig.actions i).saHandler = SIG_DFL
      · rw [if_pos hdfl] at hacts ⊢
        rw [if_pos ⟨hacts.2, hterm⟩]
        rfl
      · rw [if_neg hdfl] at hacts ⊢
        rcases hacts with ⟨_, hframe, hlive⟩
        rw [hlive, if_neg (by simp), Option.map_some, frameAt_putFrame, hframe]
        rfl

/-! ## isr_common -/

theorem isrEntry_rip (ev : Event) (m : Machine) :
    (frameAt (isrEntry ev m).mem ((isrEntry ev m).regs .rsp)).rip = m.rip := by
  have hlen : (isrFrame ev m).length = 22 := rfl
  have hrip : slot m.interruptTop 22 + 136 = slot m.interruptTop (4 + 1) :=
    slot_add (i := 22) (j := 17) (by decide)
  simp only [frameAt]
  rw [(isrEntry_spec ev m).rsp, (isrEntry_spec ev m).mem, hrip]
  exact pushAll_slot (by rw [hlen]; decide) (by rw [hlen]; decide)

theorem isrEntry_rsp (ev : Event) (m : Machine) :
    (frameAt (isrEntry ev m).mem ((isrEntry ev m).regs .rsp)).rsp = m.regs .rsp := by
  have hlen : (isrFrame ev m).length = 22 := rfl
  have hrsp : slot m.interruptTop 22 + 160 = slot m.interruptTop (1 + 1) :=
    slot_add (i := 22) (j := 20) (by decide)
  simp only [frameAt]
  rw [(isrEntry_spec ev m).rsp, (isrEntry_spec ev m).mem, hrsp]
  exact pushAll_slot (by rw [hlen]; decide) (by rw [hlen]; decide)

section
variable (fr : Frame) (m : Machine) (r r' : CallRegs) (sig : SigThread)

theorem returned_mem : (fr.returned m r).mem = putFrame m.mem fr.ptr fr.saved := rfl

theorem returned_rsp : (fr.returned m r).regs .rsp = fr.ptr := by
  simp [Frame.returned, setReg]

theorem returned_cs : (fr.returned m r).mem ((fr.returned m r).regs .rsp + 144) = fr.saved.cs := by
  rw [returned_mem, returned_rsp, putFrame_cs]

/-- Back to kernel code, without a look at the signals. -/
theorem iret_kernel (h : fr.saved.cs &&& 3 = 0) :
    (fr.iret m r r' sig).map Machine.rip = some fr.saved.rip := by
  unfold Frame.iret
  dsimp only
  rw [isrCheck, returned_cs, if_pos h]
  have hrip := (isrLeave_spec (fr.returned m r)).rip
  rw [returned_mem, returned_rsp, putFrame_rip] at hrip
  exact congrArg some hrip

/-- On the way to user mode `rsp` is handed on, and what lies there is popped. -/
theorem isrCheck_user (h : fr.saved.cs &&& 3 ≠ 0) :
    ∃ m', isrCheck (fr.returned m r) = some m' ∧ m'.regs .rdi = fr.ptr ∧
      frameAt m'.mem fr.ptr = fr.saved ∧
      ∀ e : CallEffect, (isrExit (m'.afterCall e)).rip = (frameAt e.mem fr.ptr).rip := by
  rw [isrCheck, returned_cs, if_neg h]
  refine ⟨_, rfl, ?_⟩
  -- RAX is pushed below the frame, so `SignalCheckPending` finds the frame as it was
  generalize hcheck : (fr.returned m r).exec [.mov .rdi .rsp, .push .rax] = m'
  have hrdi : m'.regs .rdi = fr.ptr := by
    rw [← hcheck]
    simp [exec, execOne, pushVal, setReg, returned_rsp]
  have hrsp : m'.regs .rsp + 8 = fr.ptr := by
    have hpush : m'.regs .rsp = fr.ptr - 8 := by
      rw [← hcheck]
      simp [exec, execOne, pushVal, setReg, returned_rsp]
    rw [hpush]
    bv_omega
  have hmem : m'.mem = (putFrame m.mem fr.ptr fr.saved).write (fr.ptr - 8)
      ((fr.returned m r).regs .rax) := by
    rw [← hcheck]
    simp [exec, execOne, pushVal, setReg, returned_rsp, returned_mem]
  refine ⟨hrdi, ?_, ?_⟩
  · rw [hmem, frameAt_write_ne _ _ (below_frame fr.ptr), frameAt_putFrame]
  · intro e
    have hrip := (isrExit_spec (m'.afterCall e)).rip
    rw [afterCall_rsp, hrsp] at hrip
    exact hrip

/-- Back to kernel code, with nothing stored. -/
theorem leave_kernel (env : FaultEnv) (h : fr.saved.cs &&& 3 = 0) :
    ∃ m', fr.leave env m r r' sig = .resumed m' ∧ m'.rip = fr.saved.rip := by
  have hdone : deliveryEnd env fr.saved sig = .done := by
    unfold deliveryEnd doPendingSignals
    rw [if_pos h]
  rcases Option.map_eq_some_iff.mp (iret_kernel fr m r r' sig h) with ⟨m', hm', hrip⟩
  refine ⟨m', ?_, hrip⟩
  unfold Frame.leave
  rw [hdone, hm']

/-- Back to user mode, where `SignalCheckPending` says. -/
theorem iret_user (h : fr.saved.cs &&& 3 ≠ 0) :
    ∃ mem, frameAt mem fr.ptr = fr.saved ∧
      (fr.iret m r r' sig).map Machine.rip =
        (signalCheckPending sig mem fr.ptr).map fun mem' => (frameAt mem' fr.ptr).rip := by
  rcases isrCheck_user fr m r h with ⟨m', hcheck, hrdi, hframe, hexit⟩
  refine ⟨m'.mem, hframe, ?_⟩
  unfold Frame.iret
  dsimp only
  rw [hcheck]
  dsimp only
  rw [hrdi, Option.map_map]
  congr 1
  funext mem'
  exact hexit ⟨r'.ret, r'.scratch, mem'⟩

/-- `isr_common` takes user code elsewhere exactly when the signal that is due does. -/
theorem leave_moves (env : FaultEnv) (huser : fr.saved.cs &&& 3 ≠ 0) :
    (fr.leave env m r r' sig).Moves fr.saved.rip ↔
      ∃ i, due sig = some i ∧ Leads env (sig.actions i) fr.saved.rip fr.saved.rsp := by
  rcases iret_user fr m r r' sig huser with ⟨mem, hframe, hiret⟩
  rw [signalCheck_due sig (by rw [hframe]; exact huser), hframe] at hiret
  rcases delivery_due sig sig.mem huser with ⟨hnone, hsome⟩
  unfold Frame.leave deliveryEnd
  cases hdue : due sig with
  | none =>
      -- nothing is stored, and the code goes on where it was
      rw [hdue] at hiret
      rcases Option.map_eq_some_iff.mp hiret with ⟨m', hm', hrip⟩
      rw [(hnone hdue).1, hm']
      simp [AfterFault.Moves, hrip]
  | some i =>
      rw [hdue] at hiret
      have hacts := (hsome i hdue).2
      simp only [Option.some.injEq, exists_eq_left']
      by_cases hdfl : (sig.actions i).saHandler = SIG_DFL
      · rw [if_pos hdfl] at hacts
        dsimp only at hiret
        rw [if_pos hdfl, Option.map_eq_none_iff] at hiret
        rw [hacts.1, hiret]
        exact iff_of_true (.inr (.inl rfl)) (.inl hdfl)
      · rw [if_neg hdfl] at hacts
        dsimp only at hiret
        rw [if_neg hdfl] at hiret
        rcases Option.map_eq_some_iff.mp hiret with ⟨m', hm', hrip⟩
        rw [hacts.1, hm']
        dsimp only
        -- a handler is due: its frame decides
        cases hend : storesEnd env (sigframeBytes fr.saved.rsp) <;>
          simp [AfterFault.Moves, Leads, hend, hdfl, hrip]

end

/-! ## The whole way -/

section
variable (f : Fault)

theorem frame_rip : f.frame.saved.rip = f.m.rip := by
  simp only [Fault.frame, Fault.entered, isrEntered, gate_mem, gate_regs]
  exact isrEntry_rip ⟨14, some f.errorCode⟩ f.m

theorem frame_cs : f.frame.saved.cs = f.m.cs := by
  simp only [Fault.frame, Fault.entered, isrEntered, gate_mem, gate_regs]
  exact (isrEntry_frame ⟨14, some f.errorCode⟩ f.m).1

theorem frame_rsp : f.frame.saved.rsp = f.m.regs .rsp := by
  simp only [Fault.frame, Fault.entered, isrEntered, gate_mem, gate_regs]
  exact isrEntry_rsp ⟨14, some f.errorCode⟩ f.m

/-- Without a process the instruction is executed again. -/
theorem back_none : ∃ m, f.back none = .resumed m ∧ m.rip = f.m.rip := by
  by_cases hmode : f.frame.saved.cs &&& 3 = 0
  · refine ⟨isrLeave (f.frame.returned f.entered f.r), ?_, ?_⟩
    · unfold Fault.back
      dsimp only
      rw [isrCheck, returned_cs, if_pos hmode]
    · have hrip := (isrLeave_spec (f.frame.returned f.entered f.r)).rip
      rw [returned_mem, returned_rsp, putFrame_rip, frame_rip] at hrip
      exact hrip
  · rcases isrCheck_user f.frame f.entered f.r hmode with ⟨m', hcheck, -, hframe, hexit⟩
    refine ⟨isrExit (m'.afterCall ⟨f.r'.ret, f.r'.scratch, m'.mem⟩), ?_, ?_⟩
    · unfold Fault.back
      dsimp only
      rw [hcheck]
    · rw [hexit, hframe, frame_rip]

/-- Kernel code is resumed where it was. -/
theorem back_kernel (h : f.m.cs &&& 3 = 0) (sig : SigThread) :
    ∃ m, f.back (some sig) = .resumed m ∧ m.rip = f.m.rip := by
  have hcs : f.frame.saved.cs &&& 3 = 0 := by
    rw [frame_cs]
    exact h
  rcases leave_kernel f.frame f.entered f.r f.r' sig f.env hcs with ⟨m, hleave, hrip⟩
  exact ⟨m, hleave, hrip.trans (frame_rip f)⟩

/-- The handler sends SIGSEGV and returns. -/
theorem after_unresolved (h : f.Unresolved) :
    f.after = f.back (f.thread.map fun sig => send sig SIGSEGV) := by
  have hsent : pageFault f.env f.thread.isSome f.faultVa f.frame.saved.errorCode = .sent := by
    unfold pageFault
    dsimp only
    rw [if_pos h.1, h.2]
    simp [h.1]
  rw [Fault.after, hsent]

end

/-- `SignalActs` is about the signal that is due once `n` is sent. -/
theorem signalActs_iff {env : FaultEnv} {n : Nat} {sig : SigThread} {rip rsp : Word} :
    SignalActs env n sig rip rsp ↔
      ∃ i, due { sig with pending := sig.pending ||| sigBit n } = some i ∧
        Leads env (sig.actions i) rip rsp := by
  unfold SignalActs due
  cases sig.zombie <;> cases sig.terminated <;> simp

/-- A load from the address 0 by this machine, on a thread with default actions. -/
def nullLoad (m : Machine) : Fault where
  m := m
  errorCode := 4
  faultVa := 0
  env := ⟨0xFFFF800000000000, fun _ _ => false, fun _ _ => false, fun _ => some 2, fun _ => true⟩
  thread := some ⟨frameAt m.mem 0, m.mem, 0, 0, fun _ => {}, false, false⟩
  r := ⟨0, fun _ => 0⟩
  r' := ⟨0, fun _ => 0⟩

theorem nullLoad_unresolved (m : Machine) : (nullLoad m).Unresolved := by
  have hlow : (0 : Word) < 0xFFFF800000000000 := by decide
  exact ⟨hlow, rfl⟩

end Ceryx.Cpu
