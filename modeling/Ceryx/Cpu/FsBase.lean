import Ceryx.Cpu.UserFlags

/-!
# Ceryx.Cpu.FsBase — the FS base of a thread

`arch_prctl` writes and reads IA32_FS_BASE itself. Neither `PerformSwitch` nor
`SwitchContext` saves the register or loads it: a thread finds what the last one
has left there.

* `FsState`: the machine with what the law speaks about. `own` is what a thread
  last set with `ARCH_SET_FS`, or what the register held when it was first
  dispatched; `left` is what the register held when it left the CPU.
* `FsPerThread`: in user mode the register is the thread's own value, and
  `ARCH_GET_FS` stores that value.
* `fsPerThread_of_fsMeet`: this holds along the runs in which no thread comes
  back to a changed register. `set_fs_leaks`: two threads.
-/

namespace Ceryx.Cpu

open Lib RingState

structure FsState extends RingState where
  own : Nat → Word
  left : Nat → Word

/-- The address of an `arch_prctl(code, addr)` of the running thread that
`Dispatch` has yet to do. -/
def RingState.pendingPrctl (s : RingState) (code : BitVec 32) : Option Word :=
  match s.code s.current with
  | .running (⟨.syscall nr, _, f⟩ :: _) =>
      if nr = 158 ∧ f.rdi.setWidth 32 = code then some f.rsi else none
  | _ => none

/-- The thread has never run. -/
def Code.isLanding : Code → Bool
  | .landing _ _ => true
  | .running _ => false

namespace FsState

/-- A first dispatch and `ARCH_SET_FS` give the thread its value. -/
def ownAfter (s : FsState) : RingOp → Nat → Word
  | .switchTo t => if (s.code t).isLanding then Function.update s.own t s.fsBase else s.own
  | .dispatch _ _ =>
      match s.pendingPrctl ARCH_SET_FS with
      | some addr => Function.update s.own s.current addr
      | none => s.own
  | _ => s.own

def leftAfter (s : FsState) : RingOp → Nat → Word
  | .switchTo _ => Function.update s.left s.current s.fsBase
  | _ => s.left

end FsState

/-- A step of the machine. -/
def fsStep (s : FsState) (op : RingOp) : Option FsState :=
  (ringStep s.toRingState op).map fun r =>
    { toRingState := r, own := s.ownAfter op, left := s.leftAfter op }

/-- The boot code is the first to run. -/
def bootFs (base idleTop : Word) : FsState where
  toRingState := bootRing base idleTop
  own := fun _ => 0
  left := fun _ => 0

/-- The FS base is the running thread's own. -/
structure FsPerThread (s : FsState) : Prop where
  user : s.m.UserMode → s.fsBase = s.own s.current
  get : ∀ addr child image s', s.pendingPrctl ARCH_GET_FS = some addr →
    ringStep s.toRingState (.dispatch child image) = some s' → s'.m.mem addr = s.own s.current

/-- User code leaves its FS base to `arch_prctl`, and a thread that has run
before comes back to the register as it left it. -/
def FsMeet (s : FsState) : RingOp → Prop
  | .userRun _ fsBase => fsBase = s.fsBase
  | .switchTo t => (s.code t).isLanding = true ∨ s.fsBase = s.left t
  | _ => True

instance (s : FsState) (op : RingOp) : Decidable (FsMeet s op) := by
  cases op <;> unfold FsMeet <;> infer_instance

/-! ## The invariant -/

/-- The running thread has its own value in the register, the others had it when
they left. -/
structure FsInv (s : FsState) : Prop where
  current : s.fsBase = s.own s.current
  away : ∀ t, t ≠ s.current → (s.code t).isLanding = false → s.left t = s.own t

theorem Code.store_isLanding (c : Code) (a : Word) (bs : List UInt8) :
    (c.store a bs).isLanding = c.isLanding := by
  cases c with
  | landing l sp =>
      cases l with
      | thread entryPoint arg self => rfl
      | userspace rip rsp => rfl
      | fork f => rfl
  | running frames => rfl

/-- What a step leaves to the invariant, when neither thread nor value changes. -/
theorem FsInv.of_same {s s' : FsState} (h : FsInv s) (hfs : s'.fsBase = s.fsBase)
    (hcur : s'.current = s.current) (hown : s'.own = s.own) (hleft : s'.left = s.left)
    (hcode : ∀ t, t ≠ s.current → (s'.code t).isLanding = false → (s.code t).isLanding = false) :
    FsInv s' where
  current := by
    rw [hfs, hown, hcur]
    exact h.current
  away t ht hrun := by
    rw [hcur] at ht
    rw [hleft, hown]
    exact h.away t ht (hcode t ht hrun)

theorem setCode_code (s : RingState) (c : Code) {t : Nat} (ht : t ≠ s.current) :
    (s.setCode c).code t = s.code t := Function.update_of_ne ht _ _

theorem setCode_isLanding (s : RingState) (c : Code) (t : Nat) (ht : t ≠ s.current)
    (hrun : ((s.setCode c).code t).isLanding = false) : (s.code t).isLanding = false := by
  rw [setCode_code s c ht] at hrun
  exact hrun

/-- `iretq`, completed or not, is the running thread's own affair. -/
theorem iretq_same (s : RingState) (m : Machine) (rest : List Frame) :
    (s.iretq m rest).fsBase = s.fsBase ∧ (s.iretq m rest).current = s.current ∧
      ∀ t, t ≠ s.current → ((s.iretq m rest).code t).isLanding = false →
        (s.code t).isLanding = false := by
  unfold RingState.iretq
  split
  · exact ⟨rfl, rfl, setCode_isLanding s _⟩
  · exact ⟨rfl, rfl, setCode_isLanding s _⟩

theorem addThread_isLanding (s : RingState) (l : Landing) (sp top : Word) {t : Nat}
    (hrun : ((s.addThread l sp top).code t).isLanding = false) :
    (s.code t).isLanding = false := by
  by_cases ht : t = s.nextTid
  · have hnew : (s.addThread l sp top).code t = .landing l sp := by
      rw [ht]
      exact Function.update_self _ _ _
    rw [hnew] at hrun
    cases hrun
  · have hold : (s.addThread l sp top).code t = s.code t := Function.update_of_ne ht _ _
    rw [hold] at hrun
    exact hrun

/-! ## arch_prctl -/

theorem pendingPrctl_some {s : RingState} {code : BitVec 32} {addr : Word}
    (h : s.pendingPrctl code = some addr) :
    ∃ ptr f rest, s.code s.current = .running (⟨.syscall 158, ptr, f⟩ :: rest) ∧
      f.rdi.setWidth 32 = code ∧ f.rsi = addr := by
  unfold RingState.pendingPrctl at h
  split at h
  · rename_i nr ptr f rest hcode
    split at h
    · rename_i hnr
      obtain ⟨rfl, hrdi⟩ := hnr
      exact ⟨ptr, f, rest, hcode, hrdi, Option.some.inj h⟩
    · cases h
  · cases h

/-- `Dispatch` of `arch_prctl`. -/
theorem dispatch_prctl {s s' : RingState} {ptr : Word} {f : Proc.InterruptFrame}
    {rest : List Frame} {child : Option Word} {image : Option (Word × Word)}
    (hcode : s.code s.current = .running (⟨.syscall 158, ptr, f⟩ :: rest))
    (hstep : ringStep s (.dispatch child image) = some s') :
    s' = (s.finish ⟨.syscall 158, ptr, f⟩ rest f).archPrctl (f.rdi.setWidth 32) f.rsi := by
  simp only [ringStep, hcode, runningStep, Option.ite_none_left_eq_some, Option.some.injEq] at hstep
  rw [← hstep.2]
  rfl

/-- `ARCH_GET_FS` stores the register. -/
theorem get_stores {s s' : RingState} {addr : Word} {child : Option Word}
    {image : Option (Word × Word)} (hpending : s.pendingPrctl ARCH_GET_FS = some addr)
    (hstep : ringStep s (.dispatch child image) = some s') : s'.m.mem addr = s.fsBase := by
  rcases pendingPrctl_some hpending with ⟨ptr, f, rest, hcode, hrdi, rfl⟩
  have hne : ARCH_GET_FS ≠ ARCH_SET_FS := by decide
  rw [dispatch_prctl hcode hstep, hrdi]
  unfold RingState.archPrctl
  rw [if_neg hne, if_pos rfl]
  exact Mem.store_word _ _ _

theorem pendingPrctl_eq {s : RingState} {nr ptr : Word} {f : Proc.InterruptFrame}
    {rest : List Frame} (hcode : s.code s.current = .running (⟨.syscall nr, ptr, f⟩ :: rest))
    (code : BitVec 32) :
    s.pendingPrctl code = if nr = 158 ∧ f.rdi.setWidth 32 = code then some f.rsi else none := by
  unfold RingState.pendingPrctl
  rw [hcode]

/-- The other threads stay where they are. -/
theorem finish_code (s : RingState) (fr : Frame) (rest : List Frame) (f : Proc.InterruptFrame)
    {t : Nat} (ht : t ≠ s.current) : (s.finish fr rest f).code t = s.code t :=
  setCode_code s _ ht

theorem archPrctl_current (s : RingState) (code : BitVec 32) (addr : Word) :
    (s.archPrctl code addr).current = s.current := by
  unfold RingState.archPrctl RingState.store
  split_ifs <;> rfl

theorem archPrctl_isLanding (s : RingState) (code : BitVec 32) (addr : Word) (t : Nat) :
    ((s.archPrctl code addr).code t).isLanding = (s.code t).isLanding := by
  unfold RingState.archPrctl
  split_ifs
  · rfl
  · exact Code.store_isLanding _ _ _
  · rfl
  · rfl

theorem archPrctl_fsBase (s : RingState) (code : BitVec 32) (addr : Word) :
    (s.archPrctl code addr).fsBase = if code = ARCH_SET_FS then addr else s.fsBase := by
  unfold RingState.archPrctl RingState.store
  split_ifs <;> rfl

/-- What `Dispatch` does to the register: only `ARCH_SET_FS` writes it. -/
theorem dispatch_fsBase {s s' : RingState} {child : Option Word} {image : Option (Word × Word)}
    (hstep : ringStep s (.dispatch child image) = some s') :
    s'.current = s.current ∧ s'.fsBase = (s.pendingPrctl ARCH_SET_FS).getD s.fsBase ∧
      ∀ t, t ≠ s.current → (s'.code t).isLanding = false → (s.code t).isLanding = false := by
  cases ringStep_cases hstep with
  | @dispatch nr ptr f rest _ _ _ hcode hkernel hdone =>
      -- the other threads stay where they are
      have hkept : ∀ g t, t ≠ s.current →
          ((s.finish ⟨.syscall nr, ptr, f⟩ rest g).code t).isLanding = false →
            (s.code t).isLanding = false := by
        intro g t ht hrun
        rw [finish_code s _ rest g ht] at hrun
        exact hrun
      have hother : nr ≠ 158 → (s.pendingPrctl ARCH_SET_FS).getD s.fsBase = s.fsBase := by
        intro hnr
        rw [pendingPrctl_eq hcode, if_neg (fun h => hnr h.1), Option.getD_none]
      cases hdone with
      | sigreturn hnr =>
          exact ⟨rfl, (hother (by rw [hnr]; decide)).symm, hkept _⟩
      | fork top hnr =>
          refine ⟨rfl, (hother hnr.ne_prctl).symm, ?_⟩
          intro t ht hrun
          exact hkept _ t ht (addThread_isLanding _ _ _ _ hrun)
      | clone top hnr =>
          refine ⟨rfl, (hother (by rw [hnr]; decide)).symm, ?_⟩
          intro t ht hrun
          exact hkept _ t ht (addThread_isLanding _ _ _ _ hrun)
      | execve rip rsp hnr =>
          exact ⟨rfl, (hother (by rw [hnr]; decide)).symm, hkept _⟩
      | archPrctl hnr =>
          -- the only call that writes the register, for one of its codes
          refine ⟨archPrctl_current _ _ _, ?_, ?_⟩
          · rw [archPrctl_fsBase, pendingPrctl_eq hcode]
            dsimp only
            by_cases hset : f.rdi.setWidth 32 = ARCH_SET_FS
            · rw [if_pos hset, if_pos ⟨hnr, hset⟩, Option.getD_some]
            · rw [if_neg hset, if_neg (fun h => hset h.2), Option.getD_none]
              rfl
          · intro t ht hrun
            rw [archPrctl_isLanding] at hrun
            exact hkept _ t ht hrun
      | other hnr => exact ⟨rfl, (hother hnr).symm, hkept _⟩

/-! ## Runs -/

theorem FsInv.dispatch {s : FsState} {r : RingState} (h : FsInv s) {child : Option Word}
    {image : Option (Word × Word)}
    (hstep : ringStep s.toRingState (.dispatch child image) = some r) :
    FsInv { toRingState := r, own := s.ownAfter (.dispatch child image)
            left := s.leftAfter (.dispatch child image) } := by
  obtain ⟨hcur, hfs, hcode⟩ := dispatch_fsBase hstep
  unfold FsState.ownAfter FsState.leftAfter
  dsimp only
  cases hset : s.pendingPrctl ARCH_SET_FS with
  -- no call but `ARCH_SET_FS` writes the base
  | none =>
      rw [hset, Option.getD_none] at hfs
      exact h.of_same hfs hcur rfl rfl hcode
  -- the running thread has asked for another one
  | some addr =>
      rw [hset, Option.getD_some] at hfs
      constructor
      · dsimp only
        rw [hfs, hcur, Function.update_self]
      · intro t ht hrun
        dsimp only at ht hrun ⊢
        rw [hcur] at ht
        rw [Function.update_of_ne ht]
        exact h.away t ht (hcode t ht hrun)

/-- A switch. The thread that leaves had its own value; the one that comes finds
it, or takes it over. -/
theorem FsInv.switchTo {s : FsState} (h : FsInv s) {t : Nat} (hmeet : FsMeet s (.switchTo t)) :
    FsInv { toRingState := s.toRingState.switchTo t, own := s.ownAfter (.switchTo t)
            left := s.leftAfter (.switchTo t) } := by
  unfold FsState.ownAfter FsState.leftAfter
  dsimp only
  constructor
  · show s.fsBase = _
    dsimp only [RingState.switchTo]
    cases hland : (s.code t).isLanding with
    -- the first time on the CPU: its base is what it finds
    | true => rw [if_pos rfl, Function.update_self]
    | false =>
        rw [if_neg Bool.false_ne_true]
        -- again on the CPU: the base must be the one it has left with
        rcases hmeet with hfirst | hleft
        · rw [hland] at hfirst
          cases hfirst
        · by_cases ht : t = s.current
          · rw [ht]
            exact h.current
          · rw [hleft]
            exact h.away t ht hland
  · intro u hu hrun
    dsimp only [RingState.switchTo] at hu hrun ⊢
    have hown : (if (s.code t).isLanding then Function.update s.own t s.fsBase else s.own) u =
        s.own u := by
      split
      · exact Function.update_of_ne hu _ _
      · rfl
    rw [hown]
    -- the thread that is switched away from leaves with its own
    by_cases huc : u = s.current
    · rw [huc, Function.update_self]
      exact h.current
    · rw [Function.update_of_ne huc]
      exact h.away u huc hrun

theorem FsInv.step {s s' : FsState} {op : RingOp} (h : FsInv s) (hmeet : FsMeet s op)
    (hstep : fsStep s op = some s') : FsInv s' := by
  rcases Option.map_eq_some_iff.mp hstep with ⟨r, hring, rfl⟩
  have hset := setCode_isLanding s.toRingState
  have hstepped := ringStep_cases hring
  -- all but a dispatched call and a switch leave the register and the owner alone
  cases hstepped with
  | userRun fsBase huser hto hflags =>
      exact h.of_same hmeet rfl rfl rfl (fun t _ hrun => hrun)
  | kernelRun regs rflags mem hkernel =>
      exact h.of_same rfl rfl rfl rfl (fun t _ hrun => hrun)
  | store a bs hkernel =>
      refine h.of_same rfl rfl rfl rfl ?_
      intro t _ hrun
      rw [← Code.store_isLanding (s.code t) a bs]
      exact hrun
  | syscall hcode huser => exact h.of_same rfl rfl rfl rfl (hset _)
  | dispatch child image hcode hkernel hdone => exact h.dispatch hring
  | sysret hcode hkernel hret => exact h.of_same rfl rfl rfl rfl (hset _)
  | sysretFault hcode hkernel hat => exact h.of_same rfl rfl rfl rfl (hset _)
  | interrupt ev hcode => exact h.of_same rfl rfl rfl rfl (hset _)
  | iret hcode hkernel hat =>
      rcases iretq_same s.toRingState _ _ with ⟨hfs, hcur, hcode'⟩
      exact h.of_same hfs hcur rfl rfl hcode'
  | spawnKernel entryPoint arg self top hkernel =>
      refine h.of_same rfl rfl rfl rfl ?_
      intro t _ hrun
      exact addThread_isLanding _ _ _ _ hrun
  | spawnUser rip rsp top hkernel =>
      refine h.of_same rfl rfl rfl rfl ?_
      intro t _ hrun
      exact addThread_isLanding _ _ _ _ hrun
  | switchTo hkernel hlt => exact h.switchTo hmeet
  | @land l sp hcode hkernel =>
      cases l with
      | thread entryPoint arg self => exact h.of_same rfl rfl rfl rfl (hset _)
      | userspace rip rsp =>
          rcases iretq_same s.toRingState _ [] with ⟨hfs, hcur, hcode'⟩
          exact h.of_same hfs hcur rfl rfl hcode'
      | fork f =>
          rcases iretq_same s.toRingState _ [] with ⟨hfs, hcur, hcode'⟩
          exact h.of_same hfs hcur rfl rfl hcode'

theorem FsInv.fsPerThread {s : FsState} (h : FsInv s) : FsPerThread s where
  user _ := h.current
  get addr child image s' hpending hstep := by
    rw [get_stores hpending hstep]
    exact h.current

theorem boot_fsInv (base idleTop : Word) : FsInv (bootFs base idleTop) :=
  ⟨rfl, fun _ _ _ => rfl⟩

/-- In every run from the boot in which no thread comes back to a changed
register, every thread has its own FS base in user mode, and gets it. -/
theorem fsPerThread_of_fsMeet (base idleTop : Word) (ops : List RingOp)
    (hmeet : StepsMeet fsStep FsMeet (bootFs base idleTop) ops) :
    Always fsStep FsPerThread (bootFs base idleTop) ops := by
  have hinv : Always fsStep FsInv (bootFs base idleTop) ops := by
    apply always_of_stepsMeet ?_ (boot_fsInv base idleTop) hmeet
    intro s op s' h hok hstep
    exact h.step hok hstep
  exact hinv.mono fun s h => h.fsPerThread

/-! ## Two user threads -/

/-- The registers of `arch_prctl(code, addr)`. -/
def prctlRegs (code addr : Word) : Reg → Word
  | .rax => 158
  | .rdi => code
  | .rsi => addr
  | _ => 0

/-- User code about to call it, on the kernel stack `top`. -/
def prctlMachine (code addr top : Word) : Machine :=
  let m := userMachine (prctlRegs code addr) 0xFFFF800000001000 top
  { m with mem := m.mem.write 0xFFFF800000001000 0xFFFF800000001000 }

/-- The call, from user code with this FS base and back. -/
def prctlCall (code addr top fsBase : Word) : List RingOp :=
  [.userRun (prctlMachine code addr top) fsBase, .syscall, .dispatch none none,
    .sysret zeroRegs zeroRegs noSignals]

/-- Thread 1 sets its FS base to `0x1000`; the timer switches to thread 2, and
after `inBetween` back. -/
def interruptedBy (inBetween : List RingOp) : List RingOp :=
  [.spawnUser 0x401000 0x7000 0xFFFF800000208000, .spawnUser 0x402000 0x8000 0xFFFF800000308000,
    .switchTo 1, .land] ++
  prctlCall 0x1002 0x1000 0xFFFF800000208000 0 ++
  [.interrupt ⟨32, none⟩, .switchTo 2, .land] ++ inBetween ++
  [.interrupt ⟨32, none⟩, .switchTo 1, .iret zeroRegs zeroRegs noSignals]

/-- Thread 2 leaves its FS base alone: thread 1 has its own, and gets it. -/
theorem fs_kept_alone :
    ((run fsStep (bootFs 0xFFFF800000001000 0xFFFF800000108000)
        (interruptedBy [] ++ prctlCall 0x1003 0x5000 0xFFFF800000208000 0x1000)).map fun s =>
      (s.current, s.fsBase, s.m.mem 0x5000)) = some (1, 0x1000, 0x1000) ∧
    Always fsStep FsPerThread (bootFs 0xFFFF800000001000 0xFFFF800000108000)
      (interruptedBy [] ++ prctlCall 0x1003 0x5000 0xFFFF800000208000 0x1000) :=
  ⟨by decide +kernel, fsPerThread_of_fsMeet _ _ _ (by decide +kernel)⟩

/-- Thread 2 sets its own: thread 1 comes back to `0x2000`. -/
theorem set_fs_leaks :
    ∃ s, run fsStep (bootFs 0xFFFF800000001000 0xFFFF800000108000)
        (interruptedBy (prctlCall 0x1002 0x2000 0xFFFF800000308000 0x1000)) = some s ∧
      s.current = 1 ∧ s.fsBase = 0x2000 ∧ s.own 1 = 0x1000 ∧ ¬ FsPerThread s := by
  rcases exists_start (o := run fsStep (bootFs 0xFFFF800000001000 0xFFFF800000108000)
      (interruptedBy (prctlCall 0x1002 0x2000 0xFFFF800000308000 0x1000)))
    (P := fun s => s.m.UserMode ∧ s.current = 1 ∧ s.fsBase = 0x2000 ∧ s.own 1 = 0x1000)
    (by decide +kernel) with ⟨s, hrun, huser, hcur, hfs, hown⟩
  refine ⟨s, hrun, hcur, hfs, hown, ?_⟩
  intro h
  have hsame := h.user huser
  rw [hcur, hfs, hown] at hsame
  exact absurd hsame (by decide)

end Ceryx.Cpu
