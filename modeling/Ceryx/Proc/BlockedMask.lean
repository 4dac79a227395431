import Ceryx.Proc.ForkCopies
import Ceryx.Proc.UserRuns

/-!
# Ceryx.Proc.BlockedMask — can SIGKILL and SIGSTOP be blocked?

`rt_sigprocmask` takes the two signals out of the set it is given.
`rt_sigreturn` loads the mask from `uc_sigmask` of the signal frame at the user
stack pointer, where user code may have written anything, and does not filter
it. Nothing else changes a mask.

* `userStep_masks`: where every mask comes from.
* `neverBlocked_iff_returnsFiltered`: along a run from the boot no thread blocks
  SIGKILL or SIGSTOP if and only if no `rt_sigreturn` finds them in `uc_sigmask`.
-/

namespace Ceryx.Proc

open Kernel Lib

/-- The mask blocks neither SIGKILL nor SIGSTOP. -/
def Filtered (mask : Word) : Prop := SIGKILL ∉ sigsOf mask ∧ SIGSTOP ∉ sigsOf mask

/-- No thread blocks SIGKILL or SIGSTOP. -/
def NeverBlocked (u : UserKernel) : Prop :=
  ∀ t, t < u.nextTid → Filtered (u.threads t).blockedSignals

/-- The condition: the `uc_sigmask` that `rt_sigreturn` loads has neither bit. -/
def ReturnsFiltered (_ : UserKernel) : UserOp → Prop
  | .rtSigreturn _ mem userRsp => Filtered (mem (userRsp + ucSigmask))
  | _ => True

/-- Where the mask `w` of thread `s` comes from after a step. -/
inductive MaskSource (u : UserKernel) (op : UserOp) (s : Tid) (w : Word) : Prop where
  | new (h : w = 0)
  | kept (old : s < u.nextTid) (h : w = (u.threads s).blockedSignals)
  | changed (old : s < u.nextTid) {t t' : SigThread} {how : Int} {set : Word}
      (before : t.blocked = (u.threads s).blockedSignals)
      (call : rtSigprocmask t how set = some t') (h : w = t'.blocked)
  | loaded {frame : InterruptFrame} {mem : Mem} {userRsp : Word}
      (call : op = .rtSigreturn frame mem userRsp) (h : w = mem (userRsp + ucSigmask))

/-! ## Masks -/

/-- An empty mask has neither signal. -/
theorem filtered_zero : Filtered 0 := by
  have hnone : ∀ i, i ∉ sigsOf 0 := by
    intro i hi
    have hbit : i - 1 ∈ bits (0#64) := hi.2
    rw [bits_zero] at hbit
    exact absurd hbit (Set.notMem_empty _)
  exact ⟨hnone _, hnone _⟩

/-- What `rt_sigprocmask` makes of the set it is given. -/
theorem filtered_val (set : Word) : Filtered (set &&& ~~~(sigBit SIGKILL ||| sigBit SIGSTOP)) := by
  have hkill : SIGKILL ∈ sigsOf (sigBit SIGKILL) := by
    rw [sigsOf_sigBit (by decide)]
    exact rfl
  have hstop : SIGSTOP ∈ sigsOf (sigBit SIGSTOP) := by
    rw [sigsOf_sigBit (by decide)]
    exact rfl
  unfold Filtered
  rw [sigsOf_andNot, sigsOf_or]
  constructor
  · intro h
    exact h.2 (.inl hkill)
  · intro h
    exact h.2 (.inr hstop)

/-- `rt_sigprocmask` keeps a mask filtered, whatever its arguments. -/
theorem rtSigprocmask_filtered {t t' : SigThread} {how : Int} {set : Word}
    (h : Filtered t.blocked) (hcall : rtSigprocmask t how set = some t') :
    Filtered t'.blocked := by
  have hval := filtered_val set
  unfold rtSigprocmask at hcall
  dsimp only at hcall
  split at hcall
  · -- SIG_BLOCK
    cases hcall
    unfold Filtered
    rw [sigsOf_or]
    constructor
    · rintro (hold | hnew)
      · exact h.1 hold
      · exact hval.1 hnew
    · rintro (hold | hnew)
      · exact h.2 hold
      · exact hval.2 hnew
  · split at hcall
    · -- SIG_UNBLOCK
      cases hcall
      unfold Filtered
      rw [sigsOf_andNot]
      exact ⟨fun hold => h.1 hold.1, fun hold => h.2 hold.1⟩
    · split at hcall
      · -- SIG_SETMASK
        cases hcall
        exact hval
      · cases hcall

/-- The loop of `DoPendingSignals` does not write the mask, -/
theorem deliverLoop_blocked (pending : Word) (is : List Nat) (t : SigThread) :
    (deliverLoop pending is t).1.blocked = t.blocked := by
  induction is generalizing t with
  | nil => rfl
  | cons i is ih =>
      unfold deliverLoop
      split
      · exact ih t
      · dsimp only
        split
        · exact ih _
        · split
          · split
            · rfl
            · exact ih _
          · rfl

/-- nor does what it does before the loop. -/
theorem doPendingSignals_blocked (t : SigThread) : (doPendingSignals t).1.blocked = t.blocked := by
  unfold doPendingSignals
  split
  · rfl
  · dsimp only
    split
    · rfl
    · split
      · rfl
      · split
        · rfl
        · exact deliverLoop_blocked _ _ t

/-- Sending a signal sets a pending bit only. -/
theorem send_blocked (t : SigThread) (sig : Nat) : (send t sig).blocked = t.blocked := by
  unfold send
  split
  · rfl
  · rfl

/-! ## One step -/

/-- What is written back to the running thread is its mask. -/
theorem setSignals_self (u : UserKernel) (t : Tid) (st : SigThread) :
    ((u.setSignals t st).threads t).blockedSignals = st.blocked := by
  simp [UserKernel.setSignals]

/-- No other thread's mask is written. -/
theorem setSignals_ne (u : UserKernel) {t s : Tid} (st : SigThread) (h : s ≠ t) :
    (u.setSignals t st).threads s = u.threads s := by
  simp [UserKernel.setSignals, Sched.updThread, h]

/-- A call that assigns the signal words of thread `t` and not its mask. -/
theorem setSignals_same {u : UserKernel} {t : Tid} {st : SigThread}
    (h : st.blocked = (u.threads t).blockedSignals) (s : Tid) :
    ((u.setSignals t st).threads s).blockedSignals = (u.threads s).blockedSignals := by
  by_cases hs : s = t
  · subst hs
    rw [setSignals_self, h]
  · rw [setSignals_ne u st hs]

/-- The caller is a thread that exists. -/
theorem caller_created {u : UserKernel} (h : KernelInv u.toKernel) {t : Tid} {p : ProcId}
    (hcall : u.caller = some (t, p)) : t < u.nextTid := by
  rcases h.sched.current with ⟨c, hc, -, hcreated, -⟩
  have htc : t = c := Option.some.inj ((caller_eq hcall).1.symm.trans hc)
  rw [htc]
  exact hcreated.2

/-- A call that is one of the kernel's leaves the masks as they are, and copies one to a
new thread at most. -/
theorem masks_of_kernelStep {u u' : UserKernel} {k : Kernel} {op : UserOp} {kop : KernelOp}
    (hk : kernelStep u.toKernel kop = some k) (hnext : u'.nextTid = k.nextTid)
    (hthreads : u'.threads = k.threads) {s : Tid} (hs : s < u'.nextTid) :
    MaskSource u op s (u'.threads s).blockedSignals := by
  rw [hnext] at hs
  rw [hthreads]
  rcases kernelStep_keeps hk with hkeeps | ⟨p, stack, hnew⟩
  · rw [hkeeps.next] at hs
    exact .kept hs (kept_blocked (hkeeps.kept s))
  · rw [hnew.next] at hs
    by_cases hlast : s = u.nextTid
    · -- the new thread
      rw [hlast]
      exact .new (congrArg (fun th => th.2.2.2) hnew.new)
    · exact .kept (Nat.lt_of_le_of_ne (Nat.le_of_lt_succ hs) hlast) (kept_blocked (hnew.kept s hlast))

/-- Where the masks come from after a step. -/
theorem userStep_masks {u u' : UserKernel} {op : UserOp} (h : KernelInv u.toKernel)
    (hstep : userStep u op = some u') {s : Tid} (hs : s < u'.nextTid) :
    MaskSource u op s (u'.threads s).blockedSignals := by
  cases op with
  | kernel op =>
      rcases userStep_kernel hstep with ⟨alloc, t, p, rax, rfl, hcall, hwait, hfork⟩ |
        ⟨status, t, p, rfl, hcall, hwait, hexit⟩ | ⟨-, -, k, hk, rfl⟩
      · rcases userFork_eq hfork with ⟨k, root, hk, heq⟩
        refine masks_of_kernelStep (kernelStep_fork hcall hwait hk) ?_ ?_ hs
        · rw [heq]
          rfl
        · rw [heq]
          rfl
      · exact masks_of_kernelStep (kernelStep_exit hcall hwait (userExit_eq hexit)) rfl rfl hs
      · exact masks_of_kernelStep hk rfl rfl hs
  | execve outcome =>
      simp only [userStep] at hstep
      rcases userSyscall_eq hstep with ⟨t, p, -, -, hf⟩
      cases hf
      rcases execve_eq u p outcome with ⟨root, value, heq⟩
      rw [heq] at hs ⊢
      exact .kept hs rfl
  | rtSigaction sig act =>
      simp only [userStep] at hstep
      rcases userSyscall_eq hstep with ⟨t, p, -, -, hf⟩
      cases hf
      rw [rtSigaction_kernel] at hs ⊢
      exact .kept hs rfl
  | rtSigprocmask frame mem how set =>
      simp only [userStep] at hstep
      rcases userSyscall_eq hstep with ⟨t, p, hcall, -, hf⟩
      cases hf
      cases hst : rtSigprocmask (u.sigThread t p frame mem) how set with
      | none =>
          -- -EINVAL
          have hsame : u.rtSigprocmask t p frame mem how set = u := by
            unfold UserKernel.rtSigprocmask
            rw [hst]
          rw [hsame] at hs ⊢
          exact .kept hs rfl
      | some st =>
          have hset : u.rtSigprocmask t p frame mem how set = u.setSignals t st := by
            unfold UserKernel.rtSigprocmask
            rw [hst]
          rw [hset] at hs ⊢
          by_cases hst' : s = t
          · subst hst'
            rw [setSignals_self]
            exact .changed (caller_created h hcall) rfl hst rfl
          · rw [setSignals_ne u st hst']
            exact .kept hs rfl
  | rtSigreturn frame mem userRsp =>
      simp only [userStep] at hstep
      rcases userSyscall_eq hstep with ⟨t, p, -, -, hf⟩
      cases hf
      by_cases hst : s = t
      · subst hst
        rw [setSignals_self]
        exact .loaded rfl rfl
      · rw [setSignals_ne u _ hst]
        exact .kept hs rfl
  | send frame mem sig =>
      simp only [userStep] at hstep
      rcases userSyscall_eq hstep with ⟨t, p, -, -, hf⟩
      cases hf
      exact .kept hs (setSignals_same (send_blocked _ sig) s)
  | doPending frame mem =>
      simp only [userStep] at hstep
      rcases userSyscall_eq hstep with ⟨t, p, hcall, hwait, hf⟩
      rcases doPending_eq hf with ⟨st, hst, hend⟩
      have hsame : st.blocked = (u.threads t).blockedSignals := by
        rw [hst]
        exact doPendingSignals_blocked _
      rcases hend with rfl | ⟨status, hexit⟩
      · exact .kept hs (setSignals_same hsame s)
      · -- the thread ends, and the others keep their masks
        have hkeeps := exit_keeps (userExit_eq hexit)
        rw [hkeeps.next] at hs
        exact .kept hs ((kept_blocked (hkeeps.kept s)).trans (setSignals_same hsame s))

/-- `rt_sigreturn` loads what it finds at `uc_sigmask`, unchecked. -/
theorem rtSigreturn_loads {u u' : UserKernel} {frame : InterruptFrame} {mem : Mem} {userRsp : Word}
    (h : KernelInv u.toKernel) (hstep : userStep u (.rtSigreturn frame mem userRsp) = some u') :
    ∃ t, t < u'.nextTid ∧ (u'.threads t).blockedSignals = mem (userRsp + ucSigmask) := by
  simp only [userStep] at hstep
  rcases userSyscall_eq hstep with ⟨t, p, hcall, -, hf⟩
  cases hf
  exact ⟨t, caller_created h hcall, setSignals_self u t _⟩

/-- One step: only `rt_sigreturn` can break it, with a mask that is not filtered. -/
theorem step_neverBlocked {u u' : UserKernel} {op : UserOp} (h : KernelInv u.toKernel)
    (hn : NeverBlocked u) (hstep : userStep u op = some u') :
    NeverBlocked u' ↔ ReturnsFiltered u op := by
  constructor
  · intro hn'
    cases op with
    | rtSigreturn frame mem userRsp =>
        -- the mask is what was found in memory
        rcases rtSigreturn_loads h hstep with ⟨t, ht, hmask⟩
        have hfiltered := hn' t ht
        rw [hmask] at hfiltered
        exact hfiltered
    | _ => trivial
  · intro hok s hs
    cases userStep_masks h hstep hs with
    -- the mask of a thread: empty, its own, filtered, or loaded
    | new heq =>
        rw [heq]
        exact filtered_zero
    | kept old heq =>
        rw [heq]
        exact hn s old
    | changed old before call heq =>
        rw [heq]
        apply rtSigprocmask_filtered _ call
        rw [before]
        exact hn s old
    | loaded call heq =>
        rw [heq]
        rw [call] at hok
        exact hok

/-! ## Runs -/

/-- The idle and the reaper thread start without signals. -/
theorem start_kept {rootPa : Option ProcId → Nat} {idleStack reaperStack : Nat} {s : Sched}
    (hstart : Sched.start rootPa idleStack reaperStack = some s) (t : Tid) :
    ∃ stack, (s.threads t).kept = (none, stack, 0, 0) := by
  rw [start_eq] at hstart
  obtain ⟨-, rfl⟩ := addThread_eq hstart
  have hadd : (((startReaper rootPa idleStack reaperStack).updThread 2 fun th =>
      { th with mlfqLevel := kNumLevels - 1, ticksRemaining := kQuantum (kNumLevels - 1),
                state := .ready }).threads t).kept =
      ((startReaper rootPa idleStack reaperStack).threads t).kept :=
    Sched.updThread_field Thread.kept _ 2 rfl t
  -- the reaper, the idle thread, and those still to come
  by_cases h2 : t = 2
  · refine ⟨reaperStack, hadd.trans ?_⟩
    simp [startReaper, Sched.startIdle, Sched.newThread, Sched.setState, Sched.setMlfqLevel,
      Sched.updThread, Sched.boot, Thread.kept, h2]
  · by_cases h1 : t = 1
    · refine ⟨idleStack, hadd.trans ?_⟩
      simp [startReaper, Sched.startIdle, Sched.newThread, Sched.setState, Sched.setMlfqLevel,
        Sched.updThread, Sched.boot, Thread.kept, h1]
    · refine ⟨0, hadd.trans ?_⟩
      simp [startReaper, Sched.startIdle, Sched.newThread, Sched.setState, Sched.setMlfqLevel,
        Sched.updThread, Sched.boot, Thread.kept, h1, h2]

/-- No signal is blocked after the boot. -/
theorem boot_masks {rootPa : Option ProcId → Nat} {idleStack reaperStack initStack : Nat}
    {load : Bool} {k : Kernel} (hboot : boot rootPa idleStack reaperStack initStack load = some k)
    (t : Tid) : (k.threads t).blockedSignals = 0 := by
  rcases Option.bind_eq_some_iff.mp hboot with ⟨s, hstart, hspawn⟩
  rcases spawn_eq s load initStack with ⟨k₁, pid, -, hsched, heq⟩
  rcases start_kept hstart t with ⟨stack, hkept⟩
  rw [heq] at hspawn
  cases load with
  -- the first process has a thread
  | true =>
      rw [if_pos rfl] at hspawn
      have hnew := startThread_keeps hspawn
      have hbefore : (k₁.newProcess pid).2.toSched = s := hsched
      rw [hbefore] at hnew
      by_cases ht : t = s.nextTid
      · rw [ht]
        exact congrArg (fun th => th.2.2.2) hnew.new
      · rw [kept_blocked (hnew.kept t ht)]
        exact congrArg (fun th => th.2.2.2) hkept
  -- it has been destroyed again
  | false =>
      rw [if_neg Bool.false_ne_true] at hspawn
      cases hspawn
      have hbefore : ((k₁.newProcess pid).2.destroy 0).toSched = s :=
        (delete_frame _ _).1.trans hsched
      rw [hbefore]
      exact congrArg (fun th => th.2.2.2) hkept

/-- The state after the boot of the processes with their images. -/
theorem userBoot_eq {rootPa : Option ProcId → Nat} {spaceRoot : SpaceId → Nat} {root : VnodeRef}
    {idleStack reaperStack initStack : Nat} {outcome : UserKernel.LoadOutcome} {u : UserKernel}
    (hboot : UserKernel.boot rootPa spaceRoot root idleStack reaperStack initStack outcome =
      some u) :
    ∃ load k roots, boot rootPa idleStack reaperStack initStack load = some k ∧
      u.toKernel = k.setRoots roots k.cr3 := by
  unfold UserKernel.boot at hboot
  split at hboot
  · rcases Option.map_eq_some_iff.mp hboot with ⟨k, hk, rfl⟩
    exact ⟨true, k, _, hk, rfl⟩
  · rcases Option.map_eq_some_iff.mp hboot with ⟨k, hk, rfl⟩
    exact ⟨false, k, _, hk, rfl⟩

/-- Along every run from the boot no thread ever blocks SIGKILL or SIGSTOP if
and only if every `rt_sigreturn` loads a mask without them. -/
theorem neverBlocked_iff_returnsFiltered {rootPa : Option ProcId → Nat}
    {spaceRoot : SpaceId → Nat} {root : VnodeRef} {idleStack reaperStack initStack : Nat}
    {outcome : UserKernel.LoadOutcome} {u : UserKernel}
    (hboot : UserKernel.boot rootPa spaceRoot root idleStack reaperStack initStack outcome = some u)
    (ops : List UserOp) :
    Always userStep NeverBlocked u ops ↔ StepsMeet userStep ReturnsFiltered u ops := by
  rcases userBoot_eq hboot with ⟨load, k, roots, hk, heq⟩
  have hinv : KernelInv u.toKernel := by
    rw [heq]
    exact (boot_inv hk).1.setRoots roots k.cr3
  -- no thread of the boot has a mask
  have hnone : NeverBlocked u := by
    intro t _
    have hmask : (u.threads t).blockedSignals = 0 := by
      rw [heq]
      exact boot_masks hk t
    rw [hmask]
    exact filtered_zero
  refine always_iff_stepsMeet (B := fun u => KernelInv u.toKernel) ?_ ?_ ?_ ops hinv hnone
  · intro u op u' h hstep
    exact userStep_kernelInv h hstep
  · intro u op u' h hn hok hstep
    exact (step_neverBlocked h hn hstep).mpr hok
  · intro u op u' h hn hok hstep hn'
    exact hok ((step_neverBlocked h hn hstep).mp hn')

/-- The user memory in which `uc_sigmask` of a signal frame at `0x7FFE0000` has
all bits set. -/
def fullMaskMem : Mem := fun a => if a = 0x7FFE0000 + ucSigmask then BitVec.allOnes 64 else 0

/-- A handler's return with an empty mask. -/
theorem init_neverBlocked :
    ∃ u, initBoot = some u ∧
      ((run userStep u [.kernel .yield,
        .rtSigreturn (userFrame 0x7FFF0000) (fun _ => 0) 0x7FFE0000]).map fun u' =>
          (u'.threads 3).blockedSignals) = some 0 ∧
      Always userStep NeverBlocked u [.kernel .yield,
        .rtSigreturn (userFrame 0x7FFF0000) (fun _ => 0) 0x7FFE0000] := by
  rcases exists_start (o := initBoot)
    (P := fun u => ((run userStep u [.kernel .yield,
      .rtSigreturn (userFrame 0x7FFF0000) (fun _ => 0) 0x7FFE0000]).map fun u' =>
        (u'.threads 3).blockedSignals) = some 0)
    (by decide +kernel) with ⟨u, hboot, hmask⟩
  refine ⟨u, hboot, hmask, (neverBlocked_iff_returnsFiltered hboot _).mpr ?_⟩
  intro u₁ _
  refine ⟨trivial, ?_⟩
  intro u₂ _
  exact ⟨filtered_zero, trivial⟩

/-- `/sbin/init` calls `rt_sigreturn` on memory it has written: SIGKILL is
blocked. -/
theorem sigreturn_blocks_sigkill :
    ∃ u u', initBoot = some u ∧
      run userStep u [.kernel .yield,
        .rtSigreturn (userFrame 0x7FFF0000) fullMaskMem 0x7FFE0000] = some u' ∧
      (u'.threads 3).blockedSignals = BitVec.allOnes 64 ∧ ¬ NeverBlocked u' := by
  rcases exists_run userStep
    [.kernel .yield, .rtSigreturn (userFrame 0x7FFF0000) fullMaskMem 0x7FFE0000]
    (o := initBoot)
    (P := fun u' => (u'.threads 3).blockedSignals = BitVec.allOnes 64 ∧ 3 < u'.nextTid)
    (by decide +kernel) with ⟨u, u', hboot, hrun, hmask, hthree⟩
  refine ⟨u, u', hboot, hrun, hmask, ?_⟩
  intro hn
  -- the mask from the frame has every bit, that of SIGKILL too
  have hkill := (hn 3 hthree).1
  rw [hmask] at hkill
  apply hkill
  refine ⟨by decide, ?_⟩
  show (BitVec.allOnes 64).getLsbD (SIGKILL - 1) = true
  decide

end Ceryx.Proc
