import Mathlib.Algebra.Group.Nat.Defs
import Mathlib.Logic.Function.Basic
import Mathlib.Data.Int.Init
import Ceryx.Lib.Runs

/-!
# Ceryx.Proc.Sched — threads and the MLFQ scheduler

The data of `Thread.hpp` and `Scheduler.cpp` and the scheduler's entry points,
function by function under the source's names.

* A `Thread` object is named by its `m_tid`; `s_next_tid++` never repeats one,
  so the identity is good for the whole run.
* An intrusive list is a list of thread names. `PushBack` appends, `PopFront`
  takes the head, `Remove(node)` erases the one occurrence.
* `Sched` is everything the scheduler reads and writes: the thread objects, the
  three ready queues, the wait queue, the reaper's lists, the per-CPU data and
  the tick counter. `rootPa` is what `GetAddressSpace().GetRootPa()` (or the
  kernel's page table manager, for a thread without a process) evaluates to.
* A `FK_BUG_ON` that fires stops the kernel: the function returns `none`.
* `s_lock` is not modelled here: each entry point runs from its guard's
  constructor to the switch without interruption on the single CPU.
-/

namespace Ceryx.Proc

/-- `ThreadState`. -/
inductive ThreadState where
  | ready | running | blocked | terminated | zombie
deriving DecidableEq, Repr

/-- The name of a `Thread` object (its `m_tid`). -/
abbrev Tid := Nat

/-- The name of a `Process` object (one per `new Process`). -/
abbrev ProcId := Nat

/-- A wait channel: the address of a process, or of any other kernel object
(a mutex, a condition variable). -/
inductive Channel where
  | process (p : ProcId)
  | object (addr : Nat)
deriving DecidableEq, Repr

/-- The fields of `Thread` that the scheduler, the reaper and the signal code
use. The defaults are the member initialisers. -/
structure Thread where
  process : Option ProcId := none
  kernelStack : Nat := 0
  state : ThreadState := .ready
  waitChannel : Option Channel := none
  mlfqLevel : Int := 0
  ticksRemaining : Int := 5
  totalTicks : Nat := 0
  pendingSignals : BitVec 64 := 0
  blockedSignals : BitVec 64 := 0
deriving DecidableEq, Repr

/-- `Scheduler::kNumLevels`. -/
def kNumLevels : Int := 3

/-- The indices of the ready queues, in `PopBest`'s order. -/
def levels : List Int := [0, 1, 2]

/-- `Scheduler::kQuantum`. An index outside the array has no value in the
source; the model reads 0 there. -/
def kQuantum (level : Int) : Int :=
  if level = 0 then 5 else if level = 1 then 10 else if level = 2 then 20 else 0

/-- `Scheduler::kBoostInterval`. -/
def kBoostInterval : Nat := 100

/-- The size of a kernel stack (`kStackSize` in `Thread.cpp`). -/
def kStackSize : Nat := 32768

/-- The scheduler's state. -/
structure Sched where
  threads : Tid → Thread
  /-- `Thread::s_next_tid`. -/
  nextTid : Tid
  queues : Int → List Tid
  /-- `g_wait_queue.list`. -/
  waitQueue : List Tid
  /-- `Reaper::s_state.dead_list`. -/
  deadList : List Tid
  /-- `local_dead` of `Reaper::ThreadFunc`. -/
  localDead : List Tid
  reaperThread : Option Tid
  /-- `CpuData::current_thread`, `CpuData::idle_thread`. -/
  currentThread : Option Tid
  idleThread : Option Tid
  /-- `CpuData::kernel_stack`, `Tss::rsp[0]` and CR3. -/
  kernelStack : Nat
  tssRsp0 : Nat
  cr3 : Nat
  rootPa : Option ProcId → Nat
  /-- `s_tick_counter`, a `u64`. -/
  tickCounter : Nat

namespace Sched

/-! ## Field updates -/

/-- Assign to fields of one thread object. -/
def updThread (s : Sched) (t : Tid) (f : Thread → Thread) : Sched :=
  { s with threads := Function.update s.threads t (f (s.threads t)) }

/-- `Thread::SetState`. -/
def setState (s : Sched) (t : Tid) (st : ThreadState) : Sched :=
  s.updThread t fun th => { th with state := st }

/-- `Thread::SetMlfqLevel`. -/
def setMlfqLevel (s : Sched) (t : Tid) (l : Int) : Sched :=
  s.updThread t fun th => { th with mlfqLevel := l }

/-- `Thread::SetTicksRemaining`. -/
def setTicksRemaining (s : Sched) (t : Tid) (n : Int) : Sched :=
  s.updThread t fun th => { th with ticksRemaining := n }

/-- `thread->wait_channel = channel`. -/
def setWaitChannel (s : Sched) (t : Tid) (ch : Option Channel) : Sched :=
  s.updThread t fun th => { th with waitChannel := ch }

/-- `s_impl->queues[level].PushBack(&t->run_node)`. -/
def pushReady (s : Sched) (level : Int) (t : Tid) : Sched :=
  { s with queues := Function.update s.queues level (s.queues level ++ [t]) }

/-! ## The ready queues -/

/-- The loop of `MlfqImpl::PopBest` from the given queue indices on. -/
def popFrom (s : Sched) : List Int → Option Tid × Sched
  | [] => (none, s)
  | i :: is =>
      match s.queues i with
      | [] => popFrom s is
      | t :: rest => (some t, { s with queues := Function.update s.queues i rest })

/-- `MlfqImpl::PopBest`. -/
def popBest (s : Sched) : Option Tid × Sched := s.popFrom levels

/-- `MlfqImpl::Empty`. -/
def mlfqEmpty (s : Sched) : Bool := levels.all fun i => (s.queues i).isEmpty

/-- One turn of the loop in `MlfqImpl::Boost`, for the popped thread `t`. -/
def boostOne (s : Sched) (t : Tid) : Sched :=
  ((s.setMlfqLevel t 0).setTicksRemaining t (kQuantum 0)).pushReady 0 t

/-- The inner loop of `MlfqImpl::Boost`: drain queue `i` into queue 0. -/
def boostQueue (s : Sched) (i : Int) : Sched :=
  (s.queues i).foldl boostOne { s with queues := Function.update s.queues i [] }

/-- `MlfqImpl::Boost` (`Scheduler::BoostAll`): the levels `1 .. kNumLevels - 1`. -/
def boostAll (s : Sched) : Sched := (s.boostQueue 1).boostQueue 2

/-! ## Switching -/

/-- `Scheduler::PerformSwitch`, up to `SwitchContext`. -/
def performSwitch (s : Sched) (next : Tid) : Sched :=
  let s := { s with currentThread := some next }.setState next .running
  let stackTop := (s.threads next).kernelStack + kStackSize
  { s with
    tssRsp0 := stackTop
    kernelStack := stackTop
    cr3 := s.rootPa (s.threads next).process }

/-- `Scheduler::ScheduleLocked`. The popped thread is off its queue also when
it is the one already running, and then nothing else happens. -/
def scheduleLocked (s : Sched) : Sched :=
  let prev := s.currentThread
  let (best, s) := s.popBest
  let next := best.or s.idleThread
  match next with
  | none => s
  | some n => if some n = prev then s else s.performSwitch n

/-! ## Thread creation -/

/-- `new Thread(process, is_kernel)` with its kernel stack at `stack`. -/
def newThread (s : Sched) (process : Option ProcId) (stack : Nat) : Tid × Sched :=
  (s.nextTid,
    { s with
      threads := Function.update s.threads s.nextTid { process := process, kernelStack := stack }
      nextTid := s.nextTid + 1 })

/-- `Scheduler::AddThread`. -/
def addThread (s : Sched) (t : Tid) (level : Int) : Option Sched :=
  if level < 0 ∨ kNumLevels ≤ level then none
  else
    some ((((s.setMlfqLevel t level).setTicksRemaining t (kQuantum level)).setState t
      .ready).pushReady level t)

/-! ## Tick, Yield, Block, Wake -/

/-- The first part of `Scheduler::Tick`: the counter and the boost. -/
def tickClock (s : Sched) : Sched :=
  let s := { s with tickCounter := (s.tickCounter + 1) % 2 ^ 64 }
  if s.tickCounter % kBoostInterval = 0 then s.boostAll else s

/-- The level a thread is demoted to when its quantum expires. -/
def demotedLevel (level : Int) : Int :=
  if kNumLevels ≤ level + 1 then kNumLevels - 1 else level + 1

/-- `IncrementTotalTicks` and `--m_ticks_remaining` of `ConsumeOneTick`. -/
def chargeTick (s : Sched) (t : Tid) : Sched :=
  s.updThread t fun th =>
    { th with totalTicks := th.totalTicks + 1, ticksRemaining := th.ticksRemaining - 1 }

/-- The branch of `Scheduler::Tick` for an expired quantum, up to the push. -/
def demote (s : Sched) (t : Tid) : Sched :=
  let newLevel := demotedLevel (s.threads t).mlfqLevel
  (((s.setMlfqLevel t newLevel).setTicksRemaining t (kQuantum newLevel)).setState t
    .ready).pushReady newLevel t

/-- `Scheduler::Tick`. -/
def tick (s : Sched) : Sched :=
  let s := s.tickClock
  match s.currentThread with
  | some c =>
      if s.currentThread ≠ s.idleThread then
        let s := s.chargeTick c
        if (s.threads c).ticksRemaining ≤ 0 then (s.demote c).scheduleLocked else s
      else if s.mlfqEmpty then s else s.scheduleLocked
  | none => if s.mlfqEmpty then s else s.scheduleLocked

/-- The re-enqueueing part of `Scheduler::Yield`. -/
def requeue (s : Sched) (t : Tid) : Sched :=
  let level := (s.threads t).mlfqLevel
  ((s.setState t .ready).setTicksRemaining t (kQuantum level)).pushReady level t

/-- `Scheduler::Yield`. -/
def yield (s : Sched) : Sched :=
  match s.currentThread with
  | some c =>
      if s.currentThread ≠ s.idleThread ∧ (s.threads c).state = .running then
        (s.requeue c).scheduleLocked
      else s.scheduleLocked
  | none => s.scheduleLocked

/-- `Scheduler::Block` up to `ScheduleLocked`, for the current thread `t`. -/
def parkOn (s : Sched) (t : Tid) (ch : Channel) : Sched :=
  let s := (s.setState t .blocked).setWaitChannel t (some ch)
  { s with waitQueue := s.waitQueue ++ [t] }

/-- `Scheduler::Block`. -/
def block (s : Sched) (ch : Channel) : Sched :=
  match s.currentThread with
  | none => s
  | some t => (s.parkOn t ch).scheduleLocked

/-- What `Scheduler::Wake` does to one matching thread. -/
def wakeOne (s : Sched) (t : Tid) : Sched :=
  let s := { s with waitQueue := s.waitQueue.erase t }
  let s := (s.setWaitChannel t none).setState t .ready
  let level := (s.threads t).mlfqLevel
  (s.setTicksRemaining t (kQuantum level)).pushReady level t

/-- The loop of `Scheduler::Wake`; the list is the part of the wait queue not
yet visited. -/
def wakeLoop (ch : Channel) (wakeAll : Bool) : List Tid → Sched → Sched
  | [], s => s
  | t :: rest, s =>
      if (s.threads t).waitChannel = some ch then
        if wakeAll then wakeLoop ch wakeAll rest (s.wakeOne t) else s.wakeOne t
      else wakeLoop ch wakeAll rest s

/-- `Scheduler::Wake`. -/
def wake (s : Sched) (ch : Channel) (wakeAll : Bool) : Sched :=
  wakeLoop ch wakeAll s.waitQueue s

/-! ## Thread exit and the reaper's queue -/

/-- `Reaper::Enqueue`. Both of its `FK_BUG_ON`s stop the kernel. -/
def enqueueDead (s : Sched) (t : Tid) : Option Sched :=
  if s.reaperThread = some t then none
  else if (s.threads t).state ≠ .terminated then none
  else some { s with deadList := s.deadList ++ [t] }

/-- The end of a thread, as `sys_exit` and the fatal signals have it:
`SetState(Terminated)`, `Reaper::Enqueue`, `Scheduler::Yield`. -/
def exitThread (s : Sched) (t : Tid) : Option Sched :=
  ((s.setState t .terminated).enqueueDead t).map yield

/-! ## Start -/

/-- The state before `Scheduler::Start`: no thread, empty queues. -/
def boot (rootPa : Option ProcId → Nat) : Sched where
  threads := fun _ => {}
  nextTid := 1
  queues := fun _ => []
  waitQueue := []
  deadList := []
  localDead := []
  reaperThread := none
  currentThread := none
  idleThread := none
  kernelStack := 0
  tssRsp0 := 0
  cr3 := rootPa none
  rootPa := rootPa
  tickCounter := 0

/-- `Reaper::Initialize`: the reaper thread enters the lowest level. -/
def reaperInitialize (s : Sched) (stack : Nat) : Option Sched :=
  let (t, s) := s.newThread none stack
  { s with reaperThread := some t }.addThread t (kNumLevels - 1)

/-- `Scheduler::Start` up to `Reaper::Initialize`. -/
def startIdle (rootPa : Option ProcId → Nat) (idleStack : Nat) : Sched :=
  let (idle, s) := (boot rootPa).newThread none idleStack
  let s := (s.setState idle .running).setMlfqLevel idle (kNumLevels - 1)
  let stackTop := idleStack + kStackSize
  { s with
    idleThread := some idle
    currentThread := some idle
    tssRsp0 := stackTop
    kernelStack := stackTop }

/-- `Scheduler::Start`, with the kernel stacks of the idle and the reaper
thread. -/
def start (rootPa : Option ProcId → Nat) (idleStack reaperStack : Nat) : Option Sched :=
  (startIdle rootPa idleStack).reaperInitialize reaperStack

end Sched

/-! ## The scheduler as a machine -/

/-- The entry points of the scheduler. `addThread` is `new Thread` followed by
`AddThread`, as every caller has it; `exit` is the end of the current thread. -/
inductive SchedOp where
  | addThread (process : Option ProcId) (stack : Nat) (level : Int)
  | tick
  | yield
  | block (ch : Channel)
  | wake (ch : Channel) (wakeAll : Bool)
  | exit
deriving DecidableEq, Repr

/-- One call of an entry point. The idle context runs `hlt` for ever: it
neither blocks nor exits. -/
def schedStep (s : Sched) : SchedOp → Option Sched
  | .addThread process stack level =>
      let (t, s) := s.newThread process stack
      s.addThread t level
  | .tick => some s.tick
  | .yield => some s.yield
  | .block ch => if s.currentThread = s.idleThread then none else some (s.block ch)
  | .wake ch wakeAll => some (s.wake ch wakeAll)
  | .exit =>
      match s.currentThread with
      | none => none
      | some t => if s.currentThread = s.idleThread then none else s.exitThread t

end Ceryx.Proc
