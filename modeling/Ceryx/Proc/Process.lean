import Ceryx.Proc.SchedFrame

/-!
# Ceryx.Proc.Process — processes, fork, exit and waitpid

The process tree of `Process.hpp` and `Process.cpp`, the system calls of
`SyscallDispatch.cpp` that change it, and the passes of the reaper, over the
scheduler of `Ceryx.Proc.Sched`.

* A `Process` object is named by the order of `new Process`; the name is not
  used again when the memory is. `deleted` records that `delete this` has run.
* `waiting t` is the local variable `child` of `sys_waitpid` on the kernel
  stack of thread `t` while the call is inside `Block`. `reaped` and `returned`
  record the calls of `Reap` and the children whose pid `sys_waitpid` returned;
  no function reads them.
* System calls run with interrupts masked. They are one step each, except
  `sys_waitpid`: its step ends in `Block`, and `resume` is the rest of it, the
  only thing its thread can do once it is on the CPU again.
* A system call that uses a deleted process has no defined behaviour: there is
  no step. `Exit` also closes the file descriptors, which may wake threads on
  other channels: those are `wake` steps before it.
-/

namespace Ceryx.Proc

/-- `ProcessState`. -/
inductive ProcessState where
  | running | zombie
deriving DecidableEq, Repr

/-- The fields of `Process` that the process tree and the pids use. The
defaults are the member initialisers. -/
structure Process where
  pid : Nat
  parent : Option ProcId := none
  children : List ProcId := []
  state : ProcessState := .running
  exitStatus : Int := 0
  deleted : Bool := false
deriving DecidableEq, Repr

/-- `Process::IsZombie`. -/
def Process.isZombie (q : Process) : Bool := q.state == .zombie

/-- `kMaxPid`. -/
def kMaxPid : Nat := 32768

/-- The error numbers the calls return, negated. -/
def ECHILD : Int := 10
def EAGAIN : Int := 11
def ENOMEM : Int := 12

/-- `WNOHANG`. -/
def WNOHANG : BitVec 32 := 1

/-- The scheduler, the processes and the pid allocator. -/
structure Kernel extends Sched where
  procs : ProcId → Process
  nextProc : ProcId
  /-- `s_pid_bitmap`. -/
  pidBitmap : Nat → Bool
  waiting : Tid → Option ProcId
  reaped : List ProcId
  returned : List ProcId

namespace Kernel

/-! ## Field updates -/

/-- Assign to fields of one process object. -/
def updProc (k : Kernel) (p : ProcId) (f : Process → Process) : Kernel :=
  { k with procs := Function.update k.procs p (f (k.procs p)) }

/-- Go on with another scheduler state. -/
def onSched (k : Kernel) (s : Sched) : Kernel := { k with toSched := s }

/-- Set or clear the pointer `sys_waitpid` holds in thread `t`. -/
def setWaiting (k : Kernel) (t : Tid) (c : Option ProcId) : Kernel :=
  { k with waiting := Function.update k.waiting t c }

/-! ## The pid allocator -/

/-- The first clear bit among `n` bits from bit `i` on. -/
def firstUnset (bitmap : Nat → Bool) : Nat → Nat → Option Nat
  | _, 0 => none
  | i, n + 1 => if bitmap i then firstUnset bitmap (i + 1) n else some i

/-- `PidAlloc`, with `FindFirstUnsetAndSet`. -/
def pidAlloc (k : Kernel) : Option (Nat × Kernel) :=
  (firstUnset k.pidBitmap 0 kMaxPid).map fun pid =>
    (pid, { k with pidBitmap := Function.update k.pidBitmap pid true })

/-- `PidFree`. -/
def pidFree (k : Kernel) (pid : Nat) : Kernel :=
  if pid < 2 ∨ kMaxPid ≤ pid then k
  else { k with pidBitmap := Function.update k.pidBitmap pid false }

/-! ## Process objects -/

/-- `new Process(pid, ..)`. -/
def newProcess (k : Kernel) (pid : Nat) : ProcId × Kernel :=
  (k.nextProc,
    { k with
      procs := Function.update k.procs k.nextProc { pid := pid }
      nextProc := k.nextProc + 1 })

/-- `delete this`, after `PidFree(m_pid)`: what `Reap` and `Destroy` share. -/
def delete (k : Kernel) (c : ProcId) : Kernel :=
  (k.pidFree (k.procs c).pid).updProc c fun q => { q with deleted := true }

/-- `Process::Reap`. -/
def reap (k : Kernel) (c : ProcId) : Kernel :=
  { k.delete c with reaped := k.reaped ++ [c] }

/-- `Process::RemoveChild`. The node of a process that is no child is linked
nowhere, and nothing happens. -/
def removeChild (k : Kernel) (p c : ProcId) : Kernel :=
  k.updProc p fun q => { q with children := q.children.erase c }

/-- `child->m_parent = this; m_children.PushBack(&child->child_node)`. -/
def linkChild (k : Kernel) (p c : ProcId) : Kernel :=
  (k.updProc c fun q => { q with parent := some p }).updProc p fun q =>
    { q with children := q.children ++ [c] }

/-- `Process::FindChild`: the first child in the list, or the first one with
the pid asked for. -/
def findChild (k : Kernel) (p : ProcId) (pid : Nat) : Option ProcId :=
  (k.procs p).children.find? fun c => pid = 0 ∨ (k.procs c).pid = pid

/-- `Process::Exit`, without the file descriptors. -/
def exitProcess (k : Kernel) (p : ProcId) (status : Int) : Kernel :=
  let k := k.updProc p fun q => { q with state := .zombie, exitStatus := status }
  if (k.procs p).parent.isSome then k.onSched (k.toSched.wake (.process p) false) else k

/-! ## Fork and clone -/

/-- `new Thread(p, false)` and `AddThread(thread, 0)`. -/
def startThread (k : Kernel) (p : ProcId) (stack : Nat) : Option Kernel :=
  (schedStep k.toSched (.addThread (some p) stack 0)).map k.onSched

/-- Which allocation of `Process::Fork` fails, if any; when none does, where
the kernel stack of the new thread is. -/
inductive ForkAlloc where
  | noAddressSpace
  | noProcess
  | noFdTable
  | noThread
  | enough (stack : Nat)
deriving DecidableEq, Repr

/-- `Process::Fork` of process `p`, with the result of `sys_fork`. -/
def fork (k : Kernel) (p : ProcId) (alloc : ForkAlloc) : Option (Int × Kernel) :=
  if alloc = .noAddressSpace then some (-ENOMEM, k)
  else
    match k.pidAlloc with
    | none => some (-EAGAIN, k)
    | some (pid, k) =>
        let (child, k') := k.newProcess pid
        match alloc with
        | .noAddressSpace => some (-ENOMEM, k)
        | .noProcess => some (-ENOMEM, k.pidFree pid)
        | .noFdTable => some (-ENOMEM, (k'.removeChild p child).reap child)
        | .noThread => some (-ENOMEM, ((k'.linkChild p child).removeChild p child).reap child)
        | .enough stack => ((k'.linkChild p child).startThread child stack).map fun k => (pid, k)

/-- `sys_clone` with `CLONE_VM`: a second thread of process `p`. -/
def clone (k : Kernel) (p : ProcId) (stack : Nat) : Option (Int × Kernel) :=
  (k.startThread p stack).map fun k' => (k.nextTid, k')

/-! ## Exit and waitpid -/

/-- `sys_exit` and `sys_exit_group` of thread `t`, and its end by a fatal
signal `i` with status `-i`: `Process::Exit` and the end of the thread. -/
def exit (k : Kernel) (t : Tid) (p : ProcId) (status : Int) : Option Kernel :=
  let k := k.exitProcess p status
  (k.toSched.exitThread t).map k.onSched

/-- How a stretch of `sys_waitpid` ends: inside `Block`, or with a result and
the word it stores through `wstatus`. -/
inductive WaitResult where
  | blocked
  | returned (rax : Int) (wstatus : Option Int)
deriving DecidableEq, Repr

/-- `search_pid`. -/
def searchPid (wpid : Int) : Nat := if wpid ≤ 0 then 0 else wpid.toNat

/-- The end of `sys_waitpid`, from `u64 child_pid = child->GetPid()` on. -/
def collect (k : Kernel) (p c : ProcId) : WaitResult × Kernel :=
  (.returned (k.procs c).pid (some ((k.procs c).exitStatus % 256 * 256)),
    { (k.removeChild p c).reap c with returned := k.returned ++ [c] })

/-- `sys_waitpid` of thread `t` of process `p`, up to its end or `Block`. -/
def waitpid (k : Kernel) (t : Tid) (p : ProcId) (wpid : Int) (options : BitVec 32) :
    WaitResult × Kernel :=
  match k.findChild p (searchPid wpid) with
  | none => (.returned (-ECHILD) none, k)
  | some c =>
      if (k.procs c).isZombie then k.collect p c
      else if options &&& WNOHANG ≠ 0 then (.returned 0 none, k)
      else (.blocked, (k.setWaiting t (some c)).onSched (k.toSched.block (.process c)))

/-- `sys_waitpid` of thread `t` after `Block`, with the child it held. -/
def waitResume (k : Kernel) (t : Tid) (p c : ProcId) : WaitResult × Kernel :=
  if (k.procs c).isZombie then (k.setWaiting t none).collect p c
  else (.returned (-ECHILD) none, k.setWaiting t none)

/-! ## The reaper -/

/-- The locked part of a pass of `Reaper::ThreadFunc`. -/
def drain (k : Kernel) : Kernel :=
  k.onSched { k.toSched with localDead := k.localDead ++ k.deadList, deadList := [] }

/-- One turn of the second loop: the log line reads the pid of the thread's
process, then the thread is deleted. -/
def reclaim (k : Kernel) : Option Kernel :=
  match k.localDead with
  | [] => none
  | t :: rest =>
      if (k.threads t).process.any fun p => (k.procs p).deleted then none
      else some (k.onSched { k.toSched with localDead := rest })

/-! ## Start -/

/-- `Process::Destroy`. -/
def destroy (k : Kernel) (p : ProcId) : Kernel := k.delete p

/-- `Process::Spawn`; `load` says whether `ElfLoader::Load` succeeds. -/
def spawn (k : Kernel) (load : Bool) (stack : Nat) : Option Kernel :=
  let (pid, k) := k.pidAlloc.getD (0, k)
  let (p, k) := k.newProcess pid
  if load then k.startThread p stack else some (k.destroy p)

/-- A started scheduler before the first `Process::Create`, which reserves
pid 0. -/
def ofSched (s : Sched) : Kernel where
  toSched := s
  procs := fun _ => { pid := 0 }
  nextProc := 0
  pidBitmap := fun i => i == 0
  waiting := fun _ => none
  reaped := []
  returned := []

/-- `start_kernel`: the scheduler, the idle and the reaper thread, and
`/sbin/init`. -/
def boot (rootPa : Option ProcId → Nat) (idleStack reaperStack initStack : Nat) (load : Bool) :
    Option Kernel :=
  (Sched.start rootPa idleStack reaperStack).bind fun s => (ofSched s).spawn load initStack

/-! ## The kernel as a machine -/

/-- The thread that makes a system call and its process, which must be there.
Kernel threads make none. -/
def caller (k : Kernel) : Option (Tid × ProcId) :=
  k.currentThread.bind fun t =>
    (k.threads t).process.bind fun p => if (k.procs p).deleted then none else some (t, p)

/-- A system call of the running thread, which is not inside `sys_waitpid`. -/
def syscall (k : Kernel) (f : Tid → ProcId → Option Kernel) : Option Kernel :=
  k.caller.bind fun (t, p) => if k.waiting t = none then f t p else none

/-- The rest of `sys_waitpid` of the running thread. -/
def resume (k : Kernel) : Option Kernel :=
  k.caller.bind fun (t, p) =>
    (k.waiting t).bind fun c =>
      if (k.procs c).deleted then none else some (k.waitResume t p c).2

/-- A scheduler entry point called outside `sys_waitpid`. -/
def sched (k : Kernel) (op : SchedOp) : Option Kernel :=
  if k.currentThread.bind k.waiting = none then (schedStep k.toSched op).map k.onSched else none

/-- A step of the reaper, when it is the running thread. -/
def reaper (k : Kernel) (f : Option Kernel) : Option Kernel :=
  if k.currentThread = k.reaperThread then f else none

end Kernel

open Kernel

/-- What happens next. `block` and `wake` are the pipes', mutexes' and
condition variables' use of the scheduler; `tick` is preemption. -/
inductive KernelOp where
  | fork (alloc : ForkAlloc)
  | clone (stack : Nat)
  | exit (status : Int)
  | waitpid (wpid : Int) (options : BitVec 32)
  | resume
  | tick
  | yield
  | block (addr : Nat)
  | wake (addr : Nat) (wakeAll : Bool)
  | drain
  | reclaim
deriving DecidableEq, Repr

def kernelStep (k : Kernel) : KernelOp → Option Kernel
  | .fork alloc => k.syscall fun _ p => (k.fork p alloc).map Prod.snd
  | .clone stack => k.syscall fun _ p => (k.clone p stack).map Prod.snd
  | .exit status => k.syscall fun t p => k.exit t p status
  | .waitpid wpid options => k.syscall fun t p => some (k.waitpid t p wpid options).2
  | .resume => k.resume
  | .tick => k.sched .tick
  | .yield => k.sched .yield
  | .block addr => k.sched (.block (.object addr))
  | .wake addr wakeAll => k.sched (.wake (.object addr) wakeAll)
  | .drain => k.reaper (if k.localDead = [] then some k.drain else none)
  | .reclaim => k.reaper k.reclaim

end Ceryx.Proc
