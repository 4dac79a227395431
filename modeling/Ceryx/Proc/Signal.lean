import Ceryx.Lib.Qword

/-!
# Ceryx.Proc.Signal — delivery and return of signals

`SetupFrame`, `DoPendingSignals` and the system calls `rt_sigaction`,
`rt_sigprocmask` and `rt_sigreturn` of one thread, over the interrupt frame
they are handed and the user memory they write. User memory is accessed in
aligned quadwords; `si_signo` and `si_errno` share one.

The section on the encode/decode law reads back, field by field, what
`SetupFrame` has stored.
-/

namespace Ceryx.Proc

open Lib

/-- `cpu::InterruptFrame`. -/
structure InterruptFrame where
  r15 : Word
  r14 : Word
  r13 : Word
  r12 : Word
  r11 : Word
  r10 : Word
  r9 : Word
  r8 : Word
  rbp : Word
  rdi : Word
  rsi : Word
  rdx : Word
  rcx : Word
  rbx : Word
  rax : Word
  interruptNumber : Word
  errorCode : Word
  rip : Word
  cs : Word
  rflags : Word
  rsp : Word
  ss : Word
deriving DecidableEq, Repr

/-- The user context in a frame: the fifteen general registers, `rsp`, `rip`,
`rflags` and `cs`. -/
def InterruptFrame.context (f : InterruptFrame) : List Word :=
  [f.r15, f.r14, f.r13, f.r12, f.r11, f.r10, f.r9, f.r8, f.rbp, f.rdi, f.rsi, f.rdx, f.rcx, f.rbx,
    f.rax, f.rsp, f.rip, f.rflags, f.cs]

/-- `struct sigaction`; the handler fields are user addresses. -/
structure SigAction where
  saHandler : Word := 0
  saSigaction : Word := 0
  saMask : Word := 0
  saFlags : Word := 0
  saRestorer : Word := 0
deriving DecidableEq, Repr

def SIG_DFL : Word := 0
def SIG_IGN : Word := 1
def SA_SIGINFO : Word := 4
def NSIG : Nat := 64
def SIGKILL : Nat := 9
def SIGSTOP : Nat := 19

/-- The signals whose default action ends the process: SIGKILL, SIGSEGV,
SIGILL, SIGFPE, SIGBUS, SIGABRT. -/
def fatalSignals : List Nat := [9, 11, 4, 8, 7, 6]

/-- The bit of a signal in a `sigset_t`. -/
def sigBit (sig : Nat) : Word := 1 <<< (sig - 1)

/-- What signal code reads and writes of a thread and its process. -/
structure SigThread where
  frame : InterruptFrame
  mem : Mem
  pending : Word
  blocked : Word
  actions : Nat → SigAction
  /-- `process->IsZombie()` and `State() == Terminated`. -/
  zombie : Bool
  terminated : Bool

/-! ## SetupFrame -/

/-- `sizeof(sigframe)`, and in quadwords. -/
def sigframeSize : Word := 272
def sigframeQwords : Nat := 34

/-- Offsets in `sigframe` of `uc.uc_sigmask` and `info`. -/
def ucSigmask : Word := 240
def infoOffset : Word := 248

/-- The `mcontext_t` fields that `SetupFrame` assigns, at their offsets in
`sigframe`. -/
def mcontextFields (frame : InterruptFrame) : List (Word × Word) :=
  [(88, frame.r15), (80, frame.r14), (72, frame.r13), (64, frame.r12), (56, frame.r11),
    (48, frame.r10), (40, frame.r9), (32, frame.r8), (112, frame.rbp), (96, frame.rdi),
    (104, frame.rsi), (128, frame.rdx), (144, frame.rcx), (120, frame.rbx), (136, frame.rax),
    (152, frame.rsp), (160, frame.rip), (168, frame.rflags), (176, frame.cs)]

/-- Where `SetupFrame` puts the signal frame: below the user stack pointer,
aligned to 16 bytes. -/
def sigframeAddr (frame : InterruptFrame) : Word := (frame.rsp - sigframeSize) &&& ~~~15#64

/-- `SetupFrame`: the frame the handler starts with, and user memory. -/
def setupFrame (frame : InterruptFrame) (mem : Mem) (sig : Nat) (action : SigAction) :
    InterruptFrame × Mem :=
  let rsp := sigframeAddr frame
  let mem := mem.zero rsp sigframeQwords
  let mem := mem.writeFields rsp ((infoOffset, BitVec.ofNat 64 sig) :: mcontextFields frame)
  let handler := if action.saSigaction ≠ 0 then action.saSigaction else action.saHandler
  let siginfo := action.saFlags &&& SA_SIGINFO ≠ 0
  ({ frame with
      rip := handler
      rsp := rsp - 8
      rdi := BitVec.ofNat 64 sig
      rsi := if siginfo then rsp + infoOffset else 0
      rdx := if siginfo then rsp else 0 },
    mem.write (rsp - 8) action.saRestorer)

/-! ## DoPendingSignals -/

/-- The loop of `DoPendingSignals` over the signal numbers left, with the set
`pending` computed before it; the second result is the signal a frame was built
for. -/
def deliverLoop (pending : Word) : List Nat → SigThread → SigThread × Option Nat
  | [], t => (t, none)
  | i :: is, t =>
      if pending &&& sigBit i = 0 then deliverLoop pending is t
      else
        let t := { t with pending := t.pending &&& ~~~sigBit i }
        let action := t.actions i
        if action.saHandler = SIG_IGN then deliverLoop pending is t
        else if action.saHandler = SIG_DFL then
          if i ∈ fatalSignals then ({ t with zombie := true, terminated := true }, none)
          else deliverLoop pending is t
        else
          let built := setupFrame t.frame t.mem i action
          ({ t with frame := built.1, mem := built.2 }, some i)

/-- The signal numbers `1 .. NSIG - 1`. -/
def signals : List Nat := List.range' 1 (NSIG - 1)

/-- `Signal::DoPendingSignals`, for a thread with a process. -/
def doPendingSignals (t : SigThread) : SigThread × Option Nat :=
  if t.frame.cs &&& 3 = 0 then (t, none)
  else
    let pending := t.pending &&& ~~~t.blocked
    if pending = 0 then (t, none)
    else if t.zombie then (t, none)
    else if t.terminated then (t, none)
    else deliverLoop pending signals t

/-! ## The system calls -/

/-- `Signal::Send`. -/
def send (t : SigThread) (sig : Nat) : SigThread :=
  if sig < 1 ∨ NSIG ≤ sig then t else { t with pending := t.pending ||| sigBit sig }

/-- `rt_sigaction` with a new action; `none` is `-EINVAL`. -/
def rtSigaction (t : SigThread) (sig : Nat) (act : SigAction) : Option SigThread :=
  if sig < 1 ∨ NSIG ≤ sig ∨ sig = SIGKILL ∨ sig = SIGSTOP then none
  else some { t with actions := Function.update t.actions sig act }

/-- `rt_sigprocmask` with a new set; `none` is `-EINVAL`. -/
def rtSigprocmask (t : SigThread) (how : Int) (set : Word) : Option SigThread :=
  let val := set &&& ~~~(sigBit SIGKILL ||| sigBit SIGSTOP)
  if how = 0 then some { t with blocked := t.blocked ||| val }
  else if how = 1 then some { t with blocked := t.blocked &&& ~~~val }
  else if how = 2 then some { t with blocked := val }
  else none

/-- `rt_sigreturn`, with the user stack pointer at system call entry. -/
def rtSigreturn (t : SigThread) (userRsp : Word) : SigThread :=
  let m := fun off : Word => t.mem (userRsp + off)
  { t with
    frame := { t.frame with
      r15 := m 88, r14 := m 80, r13 := m 72, r12 := m 64
      r11 := m 56, r10 := m 48, r9 := m 40, r8 := m 32
      rbp := m 112, rdi := m 96, rsi := m 104, rdx := m 128
      rcx := m 144, rbx := m 120, rax := m 136
      rsp := m 152, rip := m 160, rflags := m 168, cs := m 176 }
    blocked := m ucSigmask }

/-! ## What SetupFrame stores -/

/-- The offset of a quadword of a `sigframe`. -/
def InSigframe (off : Word) : Prop := off.toNat % 8 = 0 ∧ off.toNat < 8 * sigframeQwords

instance (off : Word) : Decidable (InSigframe off) :=
  inferInstanceAs (Decidable (off.toNat % 8 = 0 ∧ off.toNat < 8 * sigframeQwords))

theorem InSigframe.index {off : Word} (h : InSigframe off) :
    ∃ k, k < sigframeQwords ∧ off = BitVec.ofNat 64 (8 * k) := by
  obtain ⟨hmod, hlt⟩ := h
  refine ⟨off.toNat / 8, by omega, ?_⟩
  unfold sigframeQwords at hlt
  bv_omega

theorem setupFrame_mem (frame : InterruptFrame) (mem : Mem) (sig : Nat) (action : SigAction)
    {off : Word} (hoff : InSigframe off) :
    (setupFrame frame mem sig action).2 (sigframeAddr frame + off) =
      ((mem.zero (sigframeAddr frame) sigframeQwords).writeFields (sigframeAddr frame)
        ((infoOffset, BitVec.ofNat 64 sig) :: mcontextFields frame)) (sigframeAddr frame + off) := by
  have hne : sigframeAddr frame + off ≠ sigframeAddr frame - 8 := by
    have hlt := hoff.2
    unfold sigframeQwords at hlt
    bv_omega
  exact Mem.write_ne _ _ hne

/-- The offsets of the assigned `mcontext_t` fields. -/
def mcontextOffsets : List Word :=
  [88, 80, 72, 64, 56, 48, 40, 32, 112, 96, 104, 128, 144, 120, 136, 152, 160, 168, 176]

theorem mcontextFields_offsets (frame : InterruptFrame) :
    (mcontextFields frame).map Prod.fst = mcontextOffsets := rfl

theorem mcontextOffsets_sub : ∀ off ∈ mcontextOffsets, InSigframe off := by
  simp [mcontextOffsets, InSigframe, sigframeQwords]

theorem written_nodup : (infoOffset :: mcontextOffsets).Nodup := by decide

theorem sigmask_not_written : ucSigmask ∉ infoOffset :: mcontextOffsets := by decide

/-- The saved registers are read back as they were. -/
theorem setupFrame_field (frame : InterruptFrame) (mem : Mem) (sig : Nat) (action : SigAction)
    {off v : Word} (hfield : (off, v) ∈ mcontextFields frame) :
    InSigframe off ∧
      (setupFrame frame mem sig action).2 (sigframeAddr frame + off) = v := by
  have hoff : InSigframe off := by
    apply mcontextOffsets_sub
    rw [← mcontextFields_offsets frame]
    exact List.mem_map.mpr ⟨(off, v), hfield, rfl⟩
  refine ⟨hoff, ?_⟩
  rw [setupFrame_mem frame mem sig action hoff]
  apply Mem.writeFields_get
  · rw [List.map_cons, mcontextFields_offsets]
    exact written_nodup
  · exact List.mem_cons_of_mem _ hfield

/-- `uc_sigmask` is never assigned: it stays as `MemoryZero` left it. -/
theorem setupFrame_sigmask (frame : InterruptFrame) (mem : Mem) (sig : Nat) (action : SigAction) :
    InSigframe ucSigmask ∧
      (setupFrame frame mem sig action).2 (sigframeAddr frame + ucSigmask) = 0 := by
  have hoff : InSigframe ucSigmask := by decide
  refine ⟨hoff, ?_⟩
  rw [setupFrame_mem frame mem sig action hoff, Mem.writeFields_frame]
  · exact Mem.zero_get (k := 30) (by decide)
  · intro f hf he
    have heq : ucSigmask = f.1 := by bv_omega
    apply sigmask_not_written
    rw [← mcontextFields_offsets frame, heq]
    exact List.mem_map.mpr ⟨f, hf, rfl⟩

/-- The encode/decode law: `rt_sigreturn` from a stack pointer at an unmodified
signal frame restores the whole context, and clears the signal mask. -/
theorem rtSigreturn_setupFrame (t : SigThread) (frame : InterruptFrame) (mem : Mem) (sig : Nat)
    (action : SigAction)
    (hunmod : ∀ off, InSigframe off → t.mem (sigframeAddr frame + off) =
      (setupFrame frame mem sig action).2 (sigframeAddr frame + off)) :
    (rtSigreturn t (sigframeAddr frame)).frame.context = frame.context ∧
      (rtSigreturn t (sigframeAddr frame)).blocked = 0 := by
  -- each field is read from where `SetupFrame` has put it
  have hread : ∀ {f : Word × Word}, f ∈ mcontextFields frame →
      t.mem (sigframeAddr frame + f.1) = f.2 := by
    intro f hfield
    obtain ⟨hoff, hval⟩ := setupFrame_field frame mem sig action hfield
    exact (hunmod _ hoff).trans hval
  obtain ⟨hoff, hmask⟩ := setupFrame_sigmask frame mem sig action
  refine ⟨?_, (hunmod _ hoff).trans hmask⟩
  have hcontext : frame.context = (mcontextFields frame).map Prod.snd := rfl
  have hrestored : (rtSigreturn t (sigframeAddr frame)).frame.context =
      ((mcontextFields frame).map Prod.fst).map fun off => t.mem (sigframeAddr frame + off) := rfl
  rw [hrestored, hcontext, List.map_map]
  exact List.map_congr_left fun f hf => hread hf

/-! ## What delivery does -/

/-- The loop of `DoPendingSignals` leaves the frame alone, or builds one signal
frame from it. -/
theorem deliverLoop_cases (pending : Word) (is : List Nat) (t : SigThread) :
    (deliverLoop pending is t).2 = none ∧ (deliverLoop pending is t).1.frame = t.frame ∨
      ∃ mem sig action, (deliverLoop pending is t).2 = some sig ∧
        ((deliverLoop pending is t).1.frame, (deliverLoop pending is t).1.mem) =
          setupFrame t.frame mem sig action := by
  induction is generalizing t with
  | nil => exact .inl ⟨rfl, rfl⟩
  | cons i is ih =>
      unfold deliverLoop
      split
      · exact ih t
      · dsimp only
        split
        · -- SIG_IGN: the pending bit is cleared, the loop goes on
          exact ih _
        · split
          · split
            · -- the default action ends the process
              exact .inl ⟨rfl, rfl⟩
            · -- a default action that is ignored
              exact ih _
          · -- a handler
            exact .inr ⟨t.mem, i, t.actions i, rfl, rfl⟩

theorem doPendingSignals_cases (t : SigThread) :
    (doPendingSignals t).2 = none ∧ (doPendingSignals t).1.frame = t.frame ∨
      ∃ mem sig action, (doPendingSignals t).2 = some sig ∧
        ((doPendingSignals t).1.frame, (doPendingSignals t).1.mem) =
          setupFrame t.frame mem sig action := by
  unfold doPendingSignals
  split
  · exact .inl ⟨rfl, rfl⟩
  · dsimp only
    split
    · exact .inl ⟨rfl, rfl⟩
    · split
      · exact .inl ⟨rfl, rfl⟩
      · split
        · exact .inl ⟨rfl, rfl⟩
        · exact deliverLoop_cases _ _ t

/-- What memory holds does not matter to the frame. -/
theorem deliverLoop_frame (pending : Word) (is : List Nat) (t : SigThread) (mem : Mem) :
    (deliverLoop pending is { t with mem := mem }).1.frame =
      (deliverLoop pending is t).1.frame := by
  induction is generalizing t with
  | nil => rfl
  | cons i is ih =>
      unfold deliverLoop
      dsimp only
      split_ifs
      · exact ih t
      · exact ih { t with pending := t.pending &&& ~~~sigBit i }
      · rfl
      · exact ih { t with pending := t.pending &&& ~~~sigBit i }
      · rfl

theorem doPendingSignals_frame (t : SigThread) (mem : Mem) :
    (doPendingSignals { t with mem := mem }).1.frame = (doPendingSignals t).1.frame := by
  unfold doPendingSignals
  dsimp only
  split_ifs
  · rfl
  · rfl
  · rfl
  · rfl
  · exact deliverLoop_frame _ _ t mem

end Ceryx.Proc
