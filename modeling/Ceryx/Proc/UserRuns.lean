import Ceryx.Proc.ProcTree
import Ceryx.Proc.UserKernel

/-!
# Ceryx.Proc.UserRuns — what every run of processes with images keeps

`KernelInv` reads neither the signal words nor CR3 and the roots of the address
spaces, which is all that the calls of `Ceryx.Proc.UserKernel` change of the
kernel besides its own steps; so it stays an invariant.

* `kernelStep_keeps`: no step of the kernel touches a thread's process, kernel
  stack and signal words, and a new thread starts without signals.
* `userStep_actions`: only `rt_sigaction` changes the signal actions of a process.
-/

namespace Ceryx.Proc

open Kernel

/-! ## Steps of the kernel -/

/-- A new thread of a process starts without signals, on its own stack. -/
theorem startThread_keeps {k k' : Kernel} {p : ProcId} {stack : Nat}
    (hstart : k.startThread p stack = some k') :
    KeepsNew k.toSched (some p) stack k'.toSched := by
  rcases Option.map_eq_some_iff.mp hstart with ⟨s, hadd, rfl⟩
  exact addThread_keeps hadd

/-- `Exit` of a process wakes its parent and touches no thread's signal words. -/
theorem exitProcess_keeps (k : Kernel) (p : ProcId) (status : Int) :
    Keeps k.toSched (k.exitProcess p status).toSched := by
  unfold exitProcess
  dsimp only
  split
  · exact wake_keeps _ _ _
  · exact Keeps.refl _

/-- `sys_exit`: the process, then the thread, which is handed to the reaper. -/
theorem exit_keeps {k k' : Kernel} {t : Tid} {p : ProcId} {status : Int}
    (hexit : k.exit t p status = some k') : Keeps k.toSched k'.toSched := by
  rcases Option.map_eq_some_iff.mp hexit with ⟨s, hs, rfl⟩
  exact (exitProcess_keeps k p status).trans (exitThread_keeps hs)

/-- `Fork` has a thread more when it succeeds, and none when it fails at any of its
allocations. -/
theorem fork_keeps {k k' : Kernel} {p : ProcId} {alloc : ForkAlloc} {rax : Int}
    (hfork : k.fork p alloc = some (rax, k')) :
    Keeps k.toSched k'.toSched ∨ 0 ≤ rax ∧ ∃ stack,
      KeepsNew k.toSched (some k.nextProc) stack k'.toSched := by
  cases fork_cases hfork with
  | nothing _ => exact .inl (Keeps.refl _)
  | @pidBack pid k₁ halloc =>
      left
      rw [pidFree_toSched, (pidAlloc_frame halloc).1]
      exact Keeps.refl _
  | @stillborn _ pid k₁ linked halloc =>
      left
      have hsame : (if linked then (k₁.newProcess pid).2.linkChild p k.nextProc
          else (k₁.newProcess pid).2).toSched = k.toSched := by
        rw [← (pidAlloc_frame halloc).1]
        cases linked with
        | false => rfl
        | true => rfl
      rw [bury_toSched, hsame]
      exact Keeps.refl _
  -- only a fork that succeeds makes a thread
  | @forks pid stack k₁ _ halloc start =>
      right
      have hnew := startThread_keeps start
      have hbefore : ((k₁.newProcess pid).2.linkChild p k.nextProc).toSched = k.toSched :=
        (pidAlloc_frame halloc).1
      rw [hbefore] at hnew
      exact ⟨Int.natCast_nonneg pid, stack, hnew⟩

/-- Collecting a zombie is no business of the scheduler's. -/
theorem collect_toSched (k : Kernel) (p c : ProcId) :
    (k.collect p c).2.toSched = k.toSched := (delete_frame _ _).1

/-- `waitpid` makes no thread, -/
theorem waitpid_keeps (k : Kernel) (t : Tid) (p : ProcId) (wpid : Int) (options : BitVec 32) :
    Keeps k.toSched (k.waitpid t p wpid options).2.toSched := by
  unfold waitpid
  split
  · exact Keeps.refl _
  · split
    · rw [collect_toSched]
      exact Keeps.refl _
    · split
      · exact Keeps.refl _
      · exact block_keeps _ _

/-- and neither does its second half. -/
theorem waitResume_keeps (k : Kernel) (t : Tid) (p c : ProcId) :
    Keeps k.toSched (k.waitResume t p c).2.toSched := by
  unfold waitResume
  split
  · rw [collect_toSched]
    exact Keeps.refl _
  · exact Keeps.refl _

/-- Steps of the scheduler itself, other than the creation of a thread. -/
theorem sched_keeps {k k' : Kernel} {op : SchedOp}
    (hop : ∀ process stack level, op ≠ .addThread process stack level)
    (hstep : k.sched op = some k') : Keeps k.toSched k'.toSched := by
  unfold Kernel.sched at hstep
  split at hstep
  · rcases Option.map_eq_some_iff.mp hstep with ⟨s, hs, rfl⟩
    exact schedStep_keeps hop hs
  · cases hstep

/-- No step of the kernel touches the kept fields; `fork` and `clone` add one
thread. -/
theorem kernelStep_keeps {k k' : Kernel} {op : KernelOp} (hstep : kernelStep k op = some k') :
    Keeps k.toSched k'.toSched ∨
      ∃ p stack, KeepsNew k.toSched (some p) stack k'.toSched := by
  cases op with
  | fork alloc =>
      simp only [kernelStep] at hstep
      rcases syscall_eq hstep with ⟨t, p, -, -, hf⟩
      rcases Option.map_eq_some_iff.mp hf with ⟨⟨rax, k''⟩, hfork, rfl⟩
      rcases fork_keeps hfork with hkeeps | ⟨-, stack, hnew⟩
      · exact .inl hkeeps
      · exact .inr ⟨_, stack, hnew⟩
  -- a thread of the caller's own process
  | clone stack =>
      simp only [kernelStep] at hstep
      rcases syscall_eq hstep with ⟨t, p, -, -, hf⟩
      rcases Option.map_eq_some_iff.mp hf with ⟨res, hclone, rfl⟩
      rcases Option.map_eq_some_iff.mp hclone with ⟨k'', hstart, rfl⟩
      exact .inr ⟨p, stack, startThread_keeps hstart⟩
  | exit status =>
      simp only [kernelStep] at hstep
      rcases syscall_eq hstep with ⟨t, p, -, -, hf⟩
      exact .inl (exit_keeps hf)
  | waitpid wpid options =>
      simp only [kernelStep] at hstep
      rcases syscall_eq hstep with ⟨t, p, -, -, hf⟩
      cases hf
      exact .inl (waitpid_keeps k t p wpid options)
  | resume =>
      left
      rcases Option.bind_eq_some_iff.mp hstep with ⟨⟨t, p⟩, -, hbind⟩
      rcases Option.bind_eq_some_iff.mp hbind with ⟨c, -, hif⟩
      split at hif
      · cases hif
      · cases hif
        exact waitResume_keeps k t p c
  | tick | yield | block addr | wake addr wakeAll =>
      left
      refine sched_keeps ?_ hstep
      intro process stack level he
      cases he
  -- the reaper's two steps move its lists only
  | drain =>
      left
      have hdrain := reaper_eq hstep
      split at hdrain
      · cases hdrain
        exact Keeps.of_same (fun _ => rfl) rfl rfl rfl rfl rfl rfl
      · cases hdrain
  | reclaim =>
      left
      have hreclaim := reaper_eq hstep
      unfold reclaim at hreclaim
      split at hreclaim
      · cases hreclaim
      · split at hreclaim
        · cases hreclaim
        · cases hreclaim
          exact Keeps.of_same (fun _ => rfl) rfl rfl rfl rfl rfl rfl

/-! ## Changes that the kernel's invariant does not see -/

/-- Another scheduler state with the same lists, states and levels. -/
structure SameLists (s s' : Sched) : Prop where
  state : ∀ t, (s'.threads t).state = (s.threads t).state
  level : ∀ t, (s'.threads t).mlfqLevel = (s.threads t).mlfqLevel
  process : ∀ t, (s'.threads t).process = (s.threads t).process
  queues : s'.queues = s.queues
  waitQueue : s'.waitQueue = s.waitQueue
  next : s'.nextTid = s.nextTid
  idle : s'.idleThread = s.idleThread
  current : s'.currentThread = s.currentThread

/-- The invariant of the scheduler reads the lists and the threads on them only. -/
theorem SchedInv.of_lists {s s' : Sched} (h : SchedInv s) (hs : SameLists s s') : SchedInv s' := by
  -- the invariant reads lists, states and levels, and nothing else
  have hcount : ∀ t, s'.listCount t = s.listCount t :=
    Sched.listCount_congr hs.queues hs.waitQueue
  have hcreated : ∀ t, Created s' t ↔ Created s t := by
    intro t
    unfold Created
    rw [hs.next]
  constructor
  case toListInv =>
    constructor
    case once =>
      intro t
      rw [hcount]
      exact h.once t
    case fresh =>
      intro t ht
      rw [hcount]
      exact h.fresh t (fun hc => ht ((hcreated t).mpr hc))
    case next =>
      rw [hs.next]
      exact h.next
    case idle =>
      rcases h.idle with ⟨d, hd, hlisted, hc⟩
      exact ⟨d, hs.idle.trans hd, (hcount d).trans hlisted, (hcreated d).mpr hc⟩
    case dead =>
      intro t ht
      rw [hcount]
      exact h.dead t ((hs.state t).symm.trans ht)
    case ready =>
      intro t ht
      rw [Sched.readyCount_congr hs.queues] at ht
      exact (hs.state t).trans (h.ready t ht)
    case blocked =>
      intro t ht
      rw [hs.waitQueue] at ht
      exact (hs.state t).trans (h.blocked t ht)
    case level =>
      intro t
      rw [hs.level]
      exact h.level t
  case current =>
    rcases h.current with ⟨c, hc, hlisted, hmade, hstate⟩
    refine ⟨c, hs.current.trans hc, (hcount c).trans hlisted, (hcreated c).mpr hmade, ?_⟩
    intro hne
    rw [hs.current, hs.idle] at hne
    rw [hs.state]
    exact hstate hne

/-- The kernel invariant reads the lists only, -/
theorem KernelInv.of_lists {k : Kernel} {s : Sched} (h : KernelInv k)
    (hs : SameLists k.toSched s) : KernelInv (k.onSched s) where
  sched := h.sched.of_lists hs
  tree := by
    apply h.tree.of_same
    exact ⟨hs.process, hs.next, hs.idle, fun _ => rfl, fun _ => rfl, fun _ => rfl, fun _ => rfl,
      rfl, rfl, rfl, rfl, rfl⟩

/-- A field that is not a signal word is as before. -/
theorem setSignals_field {β : Type} (g : Thread → β)
    (hg : ∀ th a b, g { th with pendingSignals := a, blockedSignals := b } = g th)
    (u : UserKernel) (t : Tid) (st : SigThread) (s : Tid) :
    g ((u.setSignals t st).threads s) = g (u.threads s) := by
  have hset : g { u.threads t with pendingSignals := st.pending, blockedSignals := st.blocked } =
      g (u.threads t) := hg _ _ _
  exact Sched.updThread_field g u.toSched t
    (f := fun th => { th with pendingSignals := st.pending, blockedSignals := st.blocked }) hset s

/-- So the lists are. -/
theorem setSignals_lists (u : UserKernel) (t : Tid) (st : SigThread) :
    SameLists u.toSched (u.setSignals t st).toSched where
  state := setSignals_field Thread.state (fun _ _ _ => rfl) u t st
  level := setSignals_field Thread.mlfqLevel (fun _ _ _ => rfl) u t st
  process := setSignals_field Thread.process (fun _ _ _ => rfl) u t st
  queues := rfl
  waitQueue := rfl
  next := rfl
  idle := rfl
  current := rfl

/-- CR3 and the roots of the address spaces. -/
def Kernel.setRoots (k : Kernel) (root : Option ProcId → Nat) (value : Nat) : Kernel :=
  k.onSched { k.toSched with rootPa := root, cr3 := value }

/-- so page-table roots may change, -/
theorem KernelInv.setRoots {k : Kernel} (h : KernelInv k) (root : Option ProcId → Nat)
    (value : Nat) : KernelInv (k.setRoots root value) :=
  h.of_lists ⟨fun _ => rfl, fun _ => rfl, fun _ => rfl, rfl, rfl, rfl, rfl, rfl⟩

/-- and the signals of a thread. -/
theorem KernelInv.setSignals {u : UserKernel} (h : KernelInv u.toKernel) (t : Tid)
    (st : SigThread) : KernelInv (u.setSignals t st).toKernel :=
  h.of_lists (setSignals_lists u t st)

/-- Of two sets of roots the later one counts. -/
@[simp] theorem setRoots_setRoots (k : Kernel) (root root' : Option ProcId → Nat)
    (value value' : Nat) : (k.setRoots root value).setRoots root' value' = k.setRoots root' value' :=
  rfl

/-- Of an address space the kernel sees the root that it loads into CR3. -/
@[simp] theorem setAddressSpace_kernel (u : UserKernel) (p : ProcId) (space : SpaceId) :
    (u.setAddressSpace p space).toKernel =
      u.toKernel.setRoots (Function.update u.rootPa (some p) (u.spaceRoot space)) u.cr3 := rfl

/-- Writing CR3 changes roots, -/
@[simp] theorem writeCr3_kernel (u : UserKernel) (value : Nat) :
    (u.writeCr3 value).toKernel = u.toKernel.setRoots u.rootPa value := rfl

@[simp] theorem newSpace_kernel (u : UserKernel) : u.newSpace.toKernel = u.toKernel := rfl

@[simp] theorem destroySpace_kernel (u : UserKernel) (space : SpaceId) :
    (u.destroySpace space).toKernel = u.toKernel := rfl

@[simp] theorem setHeap_kernel (u : UserKernel) (p : ProcId) (start stop : Nat) :
    (u.setHeap p start stop).toKernel = u.toKernel := rfl

/-! ## The calls -/

/-- A system call comes from a running thread of a process, which is not inside
`waitpid`. -/
theorem userSyscall_eq {u u' : UserKernel} {f : Tid → ProcId → Option UserKernel}
    (h : u.syscall f = some u') :
    ∃ t p, u.caller = some (t, p) ∧ u.waiting t = none ∧ f t p = some u' := by
  rcases Option.bind_eq_some_iff.mp h with ⟨⟨t, p⟩, hcall, hif⟩
  dsimp only at hif
  split at hif
  · rename_i hw
    exact ⟨t, p, hcall, hw, hif⟩
  · cases hif

/-- Who calls depends on the running thread, its process and the process's state. -/
theorem caller_congr {k k' : Kernel} (hcur : k'.currentThread = k.currentThread)
    (hprocess : ∀ t, (k'.threads t).process = (k.threads t).process)
    (hprocs : k'.procs = k.procs) : k'.caller = k.caller := by
  unfold Kernel.caller
  rw [hcur, hprocs]
  cases k.currentThread with
  | none => rfl
  | some t =>
      simp only [Option.bind_some]
      rw [hprocess]

/-- The caller is not read from the signals. -/
theorem setSignals_caller (u : UserKernel) (t : Tid) (st : SigThread) :
    (u.setSignals t st).toKernel.caller = u.toKernel.caller :=
  caller_congr rfl (setSignals_lists u t st).process rfl

/-- `fork`, on the kernel. -/
theorem userFork_eq {u u' : UserKernel} {p : ProcId} {alloc : ForkAlloc} {rax : Int}
    (h : u.fork p alloc = some (rax, u')) :
    ∃ k root, u.toKernel.fork p alloc = some (rax, k) ∧ u'.toKernel = k.setRoots root k.cr3 := by
  rcases Option.map_eq_some_iff.mp h with ⟨⟨r, k⟩, hk, heq⟩
  dsimp only at heq
  split at heq
  · cases heq
    exact ⟨k, _, hk, rfl⟩
  · split at heq
    · cases heq
      exact ⟨k, _, hk, rfl⟩
    · cases heq
      exact ⟨k, _, hk, rfl⟩

/-- `execve` enters the new address space before it loads the image: `rootPa` and CR3
change together. -/
theorem enterSpace_kernel (u : UserKernel) (p : ProcId) :
    (u.enterSpace p).toKernel = u.toKernel.setRoots
      (Function.update u.rootPa (some p) (u.spaceRoot u.nextSpace)) (u.spaceRoot u.nextSpace) :=
  rfl

/-- `execve`, on the kernel. -/
theorem execve_eq (u : UserKernel) (p : ProcId) (outcome : UserKernel.ExecOutcome) :
    ∃ root value, (u.execve p outcome).2.toKernel = u.toKernel.setRoots root value := by
  cases outcome with
  | noFile e | noAddressSpace => exact ⟨u.rootPa, u.cr3, rfl⟩
  | load outcome =>
      cases hresult : outcome.result with
      | error e =>
          rw [UserKernel.execve_error hresult]
          simp only [destroySpace_kernel, writeCr3_kernel, setAddressSpace_kernel,
            enterSpace_kernel, setRoots_setRoots]
          exact ⟨_, _, rfl⟩
      | ok result =>
          rw [UserKernel.execve_ok hresult]
          exact ⟨_, _, enterSpace_kernel u p⟩

/-- `rt_sigaction` changes an image and nothing in the kernel. -/
theorem rtSigaction_kernel (u : UserKernel) (p : ProcId) (sig : Nat) (act : SigAction) :
    (u.rtSigaction p sig act).toKernel = u.toKernel := by
  unfold UserKernel.rtSigaction
  split
  · rfl
  · rfl

/-- A `fork`, an `exit`, or any other step of the kernel. -/
theorem userStep_kernel {u u' : UserKernel} {op : KernelOp}
    (hstep : userStep u (.kernel op) = some u') :
    (∃ alloc t p rax, op = .fork alloc ∧ u.caller = some (t, p) ∧ u.waiting t = none ∧
      u.fork p alloc = some (rax, u')) ∨
    (∃ status t p, op = .exit status ∧ u.caller = some (t, p) ∧ u.waiting t = none ∧
      u.exit t p status = some u') ∨
    (∀ alloc, op ≠ .fork alloc) ∧ (∀ status, op ≠ .exit status) ∧
      ∃ k, kernelStep u.toKernel op = some k ∧ u' = u.onKernel k := by
  cases op with
  | fork alloc =>
      left
      simp only [userStep] at hstep
      rcases userSyscall_eq hstep with ⟨t, p, hcall, hwait, hf⟩
      rcases Option.map_eq_some_iff.mp hf with ⟨⟨rax, u''⟩, hfork, rfl⟩
      exact ⟨alloc, t, p, rax, rfl, hcall, hwait, hfork⟩
  | exit status =>
      right; left
      simp only [userStep] at hstep
      rcases userSyscall_eq hstep with ⟨t, p, hcall, hwait, hf⟩
      exact ⟨status, t, p, rfl, hcall, hwait, hf⟩
  -- the calls that do not touch the images are the kernel's own
  | clone stack | waitpid wpid options | resume | tick | yield | block addr | wake addr wakeAll
  | drain | reclaim =>
      right; right
      rcases Option.map_eq_some_iff.mp hstep with ⟨k, hk, rfl⟩
      refine ⟨?_, ?_, k, hk, rfl⟩
      · intro _ he
        cases he
      · intro _ he
        cases he

/-- The kernel's own `fork` and `exit` steps. -/
theorem kernelStep_fork {k k' : Kernel} {t : Tid} {p : ProcId} {alloc : ForkAlloc} {rax : Int}
    (hcall : k.caller = some (t, p)) (hwait : k.waiting t = none)
    (hfork : k.fork p alloc = some (rax, k')) : kernelStep k (.fork alloc) = some k' := by
  simp only [kernelStep, Kernel.syscall, hcall, Option.bind_some, hwait, if_true, hfork,
    Option.map_some]

/-- `sys_exit` as a step of the kernel, -/
theorem kernelStep_exit {k k' : Kernel} {t : Tid} {p : ProcId} {status : Int}
    (hcall : k.caller = some (t, p)) (hwait : k.waiting t = none)
    (hexit : k.exit t p status = some k') : kernelStep k (.exit status) = some k' := by
  simp only [kernelStep, Kernel.syscall, hcall, Option.bind_some, hwait, if_true, hexit]

/-- `DoPendingSignals` assigns the signal words; then it goes on or ends the
thread. -/
theorem doPending_eq {u u' : UserKernel} {t : Tid} {p : ProcId} {frame : InterruptFrame}
    {mem : Lib.Mem} (h : u.doPending t p frame mem = some u') :
    ∃ st, st = (doPendingSignals (u.sigThread t p frame mem)).1 ∧
      (u' = u.setSignals t st ∨ ∃ status, (u.setSignals t st).exit t p status = some u') := by
  unfold UserKernel.doPending at h
  dsimp only at h
  refine ⟨_, rfl, ?_⟩
  split at h
  · exact .inr ⟨_, h⟩
  · cases h
    exact .inl rfl

/-- and as the kernel's part of the user's. -/
theorem userExit_eq {u u' : UserKernel} {t : Tid} {p : ProcId} {status : Int}
    (h : u.exit t p status = some u') : u.toKernel.exit t p status = some u'.toKernel := by
  rcases Option.map_eq_some_iff.mp h with ⟨k, hk, rfl⟩
  exact hk

/-- A property of the kernel that its steps keep, and the assignments of the calls
on images and signals. -/
structure UserStable (P : Kernel → Prop) : Prop where
  step : ∀ {k k' : Kernel} {op : KernelOp}, P k → kernelStep k op = some k' → P k'
  setRoots : ∀ {k : Kernel} (root : Option ProcId → Nat) (value : Nat), P k →
    P (k.setRoots root value)
  setSignals : ∀ {u : UserKernel} (t : Tid) (st : SigThread), P u.toKernel →
    P (u.setSignals t st).toKernel

/-- Each call is a step of the kernel between changes that a stable property does not
see. -/
theorem UserStable.keeps {P : Kernel → Prop} (hP : UserStable P) {u u' : UserKernel}
    {op : UserOp} (h : P u.toKernel) (hstep : userStep u op = some u') : P u'.toKernel := by
  cases op with
  | kernel op =>
      rcases userStep_kernel hstep with ⟨alloc, t, p, rax, rfl, hcall, hwait, hfork⟩ |
        ⟨status, t, p, rfl, hcall, hwait, hexit⟩ | ⟨-, -, k, hk, rfl⟩
      · -- fork
        rcases userFork_eq hfork with ⟨k, root, hk, heq⟩
        rw [heq]
        exact hP.setRoots root k.cr3 (hP.step h (kernelStep_fork hcall hwait hk))
      · -- exit
        exact hP.step h (kernelStep_exit hcall hwait (userExit_eq hexit))
      · exact hP.step h hk
  | execve outcome =>
      simp only [userStep] at hstep
      rcases userSyscall_eq hstep with ⟨t, p, -, -, hf⟩
      cases hf
      rcases execve_eq u p outcome with ⟨root, value, heq⟩
      rw [heq]
      exact hP.setRoots root value h
  | rtSigaction sig act =>
      simp only [userStep] at hstep
      rcases userSyscall_eq hstep with ⟨t, p, -, -, hf⟩
      cases hf
      rw [rtSigaction_kernel]
      exact h
  | rtSigprocmask frame mem how set =>
      simp only [userStep] at hstep
      rcases userSyscall_eq hstep with ⟨t, p, -, -, hf⟩
      cases hf
      unfold UserKernel.rtSigprocmask
      split
      · exact h
      · exact hP.setSignals t _ h
  | rtSigreturn frame mem userRsp =>
      simp only [userStep] at hstep
      rcases userSyscall_eq hstep with ⟨t, p, -, -, hf⟩
      cases hf
      exact hP.setSignals t _ h
  | send frame mem sig =>
      simp only [userStep] at hstep
      rcases userSyscall_eq hstep with ⟨t, p, -, -, hf⟩
      cases hf
      exact hP.setSignals t _ h
  | doPending frame mem =>
      simp only [userStep] at hstep
      rcases userSyscall_eq hstep with ⟨t, p, hcall, hwait, hf⟩
      rcases doPending_eq hf with ⟨st, -, rfl | ⟨status, hexit⟩⟩
      · exact hP.setSignals t st h
      · have hcall' := (setSignals_caller u t st).trans hcall
        exact hP.step (hP.setSignals t st h) (kernelStep_exit hcall' hwait (userExit_eq hexit))

/-- The invariant of the kernel is such a property. -/
theorem KernelInv.stable : UserStable KernelInv where
  step := fun h hstep => h.step hstep
  setRoots := fun root value h => h.setRoots root value
  setSignals := fun t st h => h.setSignals t st

/-- The kernel's invariant is kept by every step. -/
theorem userStep_kernelInv {u u' : UserKernel} {op : UserOp} (h : KernelInv u.toKernel)
    (hstep : userStep u op = some u') : KernelInv u'.toKernel :=
  KernelInv.stable.keeps h hstep

/-! ## The signal actions of a process -/

/-- Process numbers are not given back. -/
theorem Effect.nextProc_le {k k' : Kernel} {r : Option ProcId} (h : Effect k r k') :
    k.nextProc ≤ k'.nextProc := by
  cases h with
  | same tree _ _ => rw [tree.nextProc]
  | forgets _ => exact Nat.le_refl _
  | blocks _ _ _ => exact Nat.le_refl _
  | clones _ start =>
      rcases Option.map_eq_some_iff.mp start with ⟨s, -, rfl⟩
      exact Nat.le_refl _
  -- also a process that a failed fork takes back has had its number
  | @stillborn k₁ _ p pid linked _ tree _ _ =>
      have hnew : (if linked then (k₁.newProcess pid).2.linkChild p k.nextProc
          else (k₁.newProcess pid).2).nextProc = k₁.nextProc + 1 := by
        cases linked with
        | false => rfl
        | true => rfl
      rw [bury_nextProc, hnew, tree.nextProc]
      exact Nat.le_succ _
  | @forks k₁ _ _ p pid _ _ tree _ _ start =>
      rcases Option.map_eq_some_iff.mp start with ⟨s, -, rfl⟩
      have hnew : (((k₁.newProcess pid).2.linkChild p k.nextProc).onSched s).nextProc =
          k₁.nextProc + 1 := rfl
      rw [hnew, tree.nextProc]
      exact Nat.le_succ _
  | @reaps t p c _ _ =>
      have hdelete := (delete_frame ((k.setWaiting t none).removeChild p c) c).2.2.1
      exact Nat.le_of_eq hdelete.symm

/-- `execve` does not reset the handlers. -/
theorem execve_signalActions (u : UserKernel) (p q : ProcId) (outcome : UserKernel.ExecOutcome) :
    ((u.execve p outcome).2.image q).signalActions = (u.image q).signalActions := by
  cases outcome with
  | noFile e | noAddressSpace => rfl
  -- neither branch of `sys_execve` names the table
  | load outcome =>
      cases hresult : outcome.result with
      | error e =>
          rw [UserKernel.execve_error hresult]
          by_cases hq : q = p
          · subst hq
            simp [UserKernel.setImage, UserKernel.enterSpace, UserKernel.writeCr3,
              UserKernel.setAddressSpace, UserKernel.newSpace]
          · simp [UserKernel.setImage, UserKernel.enterSpace, UserKernel.writeCr3,
              UserKernel.setAddressSpace, UserKernel.newSpace]
      | ok result =>
          rw [UserKernel.execve_ok hresult]
          by_cases hq : q = p
          · subst hq
            simp [UserKernel.setHeap, UserKernel.setImage, UserKernel.enterSpace,
              UserKernel.writeCr3, UserKernel.setAddressSpace, UserKernel.newSpace]
          · simp [UserKernel.setHeap, UserKernel.setImage, UserKernel.enterSpace,
              UserKernel.writeCr3, UserKernel.setAddressSpace, UserKernel.newSpace, hq]

/-- An image with the same table, -/
theorem setImage_signalActions (u : UserKernel) (p q : ProcId) {im : ProcessImage}
    (h : im.signalActions = (u.image p).signalActions) :
    ((u.setImage p im).image q).signalActions = (u.image q).signalActions := by
  unfold UserKernel.setImage
  dsimp only
  by_cases hq : q = p
  · subst hq
    rw [Function.update_self]
    exact h
  · rw [Function.update_of_ne hq]

/-- as that of `sys_exit`. -/
theorem exit_signalActions {u u' : UserKernel} {t : Tid} {p : ProcId} {status : Int}
    (h : u.exit t p status = some u') (q : ProcId) :
    (u'.image q).signalActions = (u.image q).signalActions := by
  rcases Option.map_eq_some_iff.mp h with ⟨k, -, rfl⟩
  exact setImage_signalActions { u with toKernel := k } p q rfl

/-- The actions of process `p` after a step: those before it, or with one that
`rt_sigaction` has installed. -/
def ActionsStep (u u' : UserKernel) (op : UserOp) (p : ProcId) : Prop :=
  ∀ s, (u'.image p).getSignalAction s = (u.image p).getSignalAction s ∨
    ∃ sig act, op = .rtSigaction sig act ∧ (u'.image p).getSignalAction s = act

/-- One step of the processes: the actions change for one signal of the caller's
process, or not at all. -/
theorem userStep_actions {u u' : UserKernel} {op : UserOp} {p : ProcId} (h : KernelInv u.toKernel)
    (hp : p < u.nextProc) (hstep : userStep u op = some u') :
    p < u'.nextProc ∧ ActionsStep u u' op p := by
  have hsame : (u'.image p).signalActions = (u.image p).signalActions → ActionsStep u u' op p := by
    intro heq s
    left
    unfold ProcessImage.getSignalAction
    rw [heq]
  cases op with
  | kernel op =>
      rcases userStep_kernel hstep with ⟨alloc, t, q, rax, rfl, hcall, hwait, hfork⟩ |
        ⟨status, t, q, rfl, hcall, hwait, hexit⟩ | ⟨-, -, k, hk, rfl⟩
      · -- fork: the new image is another process's
        rcases userFork_eq hfork with ⟨k, root, hk, heq⟩
        have hle := (kernelStep_effect h (kernelStep_fork hcall hwait hk)).nextProc_le
        have hnext : u'.nextProc = k.nextProc := by
          rw [heq]
          rfl
        refine ⟨?_, hsame ?_⟩
        · rw [hnext]
          exact Nat.lt_of_lt_of_le hp hle
        · rcases Option.map_eq_some_iff.mp hfork with ⟨⟨r, k'⟩, hk', hout⟩
          dsimp only at hout
          split at hout
          · cases hout
            rfl
          · split at hout
            · cases hout
              rfl
            · cases hout
              rw [UserKernel.giveImage_ne _ _ (Nat.ne_of_lt hp)]
              rfl
      · -- exit
        have hle := (kernelStep_effect h (kernelStep_exit hcall hwait (userExit_eq hexit))).nextProc_le
        exact ⟨Nat.lt_of_lt_of_le hp hle, hsame (exit_signalActions hexit p)⟩
      · have hle := (kernelStep_effect h hk).nextProc_le
        exact ⟨Nat.lt_of_lt_of_le hp hle, hsame rfl⟩
  | execve outcome =>
      simp only [userStep] at hstep
      rcases userSyscall_eq hstep with ⟨t, q, -, -, hf⟩
      cases hf
      rcases execve_eq u q outcome with ⟨root, value, heq⟩
      have hnext : (u.execve q outcome).2.nextProc = u.nextProc := by
        rw [heq]
        rfl
      rw [hnext]
      exact ⟨hp, hsame (execve_signalActions u q p outcome)⟩
  | rtSigaction sig act =>
      simp only [userStep] at hstep
      rcases userSyscall_eq hstep with ⟨t, q, -, -, hf⟩
      cases hf
      rw [rtSigaction_kernel]
      refine ⟨hp, ?_⟩
      unfold UserKernel.rtSigaction
      split
      · exact fun s => .inl rfl
      · intro s
        by_cases hq : p = q
        · subst hq
          by_cases hslot : signalSlot s = signalSlot sig
          · right
            refine ⟨sig, act, rfl, ?_⟩
            simp [ProcessImage.getSignalAction, UserKernel.setImage, hslot]
          · left
            simp [ProcessImage.getSignalAction, UserKernel.setImage, hslot]
        · left
          simp [ProcessImage.getSignalAction, UserKernel.setImage, hq]
  | rtSigprocmask frame mem how set =>
      simp only [userStep] at hstep
      rcases userSyscall_eq hstep with ⟨t, q, -, -, hf⟩
      cases hf
      unfold UserKernel.rtSigprocmask at hsame ⊢
      split at hsame
      · exact ⟨hp, hsame rfl⟩
      · exact ⟨hp, hsame rfl⟩
  | rtSigreturn frame mem userRsp =>
      simp only [userStep] at hstep
      rcases userSyscall_eq hstep with ⟨t, q, -, -, hf⟩
      cases hf
      exact ⟨hp, hsame rfl⟩
  | send frame mem sig =>
      simp only [userStep] at hstep
      rcases userSyscall_eq hstep with ⟨t, q, -, -, hf⟩
      cases hf
      exact ⟨hp, hsame rfl⟩
  | doPending frame mem =>
      simp only [userStep] at hstep
      rcases userSyscall_eq hstep with ⟨t, q, hcall, hwait, hf⟩
      rcases doPending_eq hf with ⟨st, -, rfl | ⟨status, hexit⟩⟩
      · exact ⟨hp, hsame rfl⟩
      · have hcall' := (setSignals_caller u t st).trans hcall
        have hle := (kernelStep_effect (h.setSignals t st) (kernelStep_exit hcall' hwait (userExit_eq hexit))).nextProc_le
        exact ⟨Nat.lt_of_lt_of_le hp hle, hsame (exit_signalActions hexit p)⟩

end Ceryx.Proc
