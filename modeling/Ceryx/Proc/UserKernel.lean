import Ceryx.Fs.FileDescription
import Ceryx.Proc.ElfLoader
import Ceryx.Proc.SchedKeeps
import Ceryx.Proc.SignalQueue

/-!
# Ceryx.Proc.UserKernel — processes with their images

The fields of `Process` that `Ceryx.Proc.Process` leaves out: the heap bounds,
the address space, root and cwd, the descriptor table and the signal actions,
and the calls that copy or change them: `Fork`, `Exit`, `execve` and the signal
calls.

* A `UserAddressSpace` object is named by the order of `Create` and `Fork`;
  `destroyed` lists the calls of `Destroy`. `spaceRoot` is `GetRootPa`.
* `SetAddressSpace` changes what the scheduler reads through
  `GetAddressSpace().GetRootPa()`, so it assigns `rootPa` with the image.
* Each call is one step: `execve` runs with interrupts masked and does not wait.
-/

namespace Ceryx.Proc

open Fs

/-- The name of a `UserAddressSpace`. -/
abbrev SpaceId := Nat

/-- The name of a vnode, in a `RefPtr<Vnode>`. -/
abbrev VnodeRef := Nat

/-- `m_signal_actions`. The index is the array's. -/
abbrev SignalActions := Nat → SigAction

/-- The rest of `Process`. The defaults are the member initialisers. -/
structure ProcessImage where
  heapStart : Nat := 0
  heapEnd : Nat := 0
  addressSpace : SpaceId
  root : VnodeRef
  cwd : VnodeRef
  fdTable : FdTable := []
  signalActions : SignalActions := fun _ => {}

/-- The slot of `GetSignalAction`. -/
def signalSlot (sig : Nat) : Nat := if sig < 1 ∨ NSIG ≤ sig then 0 else sig - 1

/-- `Process::GetSignalAction`. -/
def ProcessImage.getSignalAction (im : ProcessImage) (sig : Nat) : SigAction :=
  im.signalActions (signalSlot sig)

/-- The kernel, the process images and the address spaces. -/
structure UserKernel extends Kernel where
  image : ProcId → ProcessImage
  nextSpace : SpaceId
  spaceRoot : SpaceId → Nat
  destroyed : List SpaceId

namespace UserKernel

/-! ## Field updates -/

def setImage (u : UserKernel) (p : ProcId) (im : ProcessImage) : UserKernel :=
  { u with image := Function.update u.image p im }

/-- `Process::SetHeap`. -/
def setHeap (u : UserKernel) (p : ProcId) (start stop : Nat) : UserKernel :=
  u.setImage p { u.image p with heapStart := start, heapEnd := stop }

/-- `Process::SetAddressSpace`. -/
def setAddressSpace (u : UserKernel) (p : ProcId) (space : SpaceId) : UserKernel :=
  { u.setImage p { u.image p with addressSpace := space } with
    rootPa := Function.update u.rootPa (some p) (u.spaceRoot space) }

/-- `WriteCr3`. -/
def writeCr3 (u : UserKernel) (value : Nat) : UserKernel := { u with cr3 := value }

/-- `UserAddressSpace::Create`, which names the space `u.nextSpace`. -/
def newSpace (u : UserKernel) : UserKernel := { u with nextSpace := u.nextSpace + 1 }

/-- `UserAddressSpace::Destroy`. -/
def destroySpace (u : UserKernel) (space : SpaceId) : UserKernel :=
  { u with destroyed := u.destroyed ++ [space] }

@[simp] theorem setHeap_nextSpace (u : UserKernel) (p : ProcId) (start stop : Nat) :
    (u.setHeap p start stop).nextSpace = u.nextSpace := rfl

@[simp] theorem setHeap_spaceRoot (u : UserKernel) (p : ProcId) (start stop : Nat) :
    (u.setHeap p start stop).spaceRoot = u.spaceRoot := rfl

@[simp] theorem setHeap_destroyed (u : UserKernel) (p : ProcId) (start stop : Nat) :
    (u.setHeap p start stop).destroyed = u.destroyed := rfl

@[simp] theorem setAddressSpace_nextSpace (u : UserKernel) (p : ProcId) (space : SpaceId) :
    (u.setAddressSpace p space).nextSpace = u.nextSpace := rfl

@[simp] theorem setAddressSpace_spaceRoot (u : UserKernel) (p : ProcId) (space : SpaceId) :
    (u.setAddressSpace p space).spaceRoot = u.spaceRoot := rfl

@[simp] theorem setAddressSpace_destroyed (u : UserKernel) (p : ProcId) (space : SpaceId) :
    (u.setAddressSpace p space).destroyed = u.destroyed := rfl

@[simp] theorem writeCr3_nextSpace (u : UserKernel) (value : Nat) :
    (u.writeCr3 value).nextSpace = u.nextSpace := rfl

@[simp] theorem writeCr3_spaceRoot (u : UserKernel) (value : Nat) :
    (u.writeCr3 value).spaceRoot = u.spaceRoot := rfl

@[simp] theorem writeCr3_destroyed (u : UserKernel) (value : Nat) :
    (u.writeCr3 value).destroyed = u.destroyed := rfl

@[simp] theorem newSpace_nextSpace (u : UserKernel) : u.newSpace.nextSpace = u.nextSpace + 1 := rfl

@[simp] theorem newSpace_spaceRoot (u : UserKernel) : u.newSpace.spaceRoot = u.spaceRoot := rfl

@[simp] theorem newSpace_destroyed (u : UserKernel) : u.newSpace.destroyed = u.destroyed := rfl

@[simp] theorem destroySpace_nextSpace (u : UserKernel) (space : SpaceId) :
    (u.destroySpace space).nextSpace = u.nextSpace := rfl

@[simp] theorem destroySpace_spaceRoot (u : UserKernel) (space : SpaceId) :
    (u.destroySpace space).spaceRoot = u.spaceRoot := rfl

@[simp] theorem destroySpace_destroyed (u : UserKernel) (space : SpaceId) :
    (u.destroySpace space).destroyed = u.destroyed ++ [space] := rfl

@[simp] theorem destroySpace_image (u : UserKernel) (space : SpaceId) :
    (u.destroySpace space).image = u.image := rfl

/-- Go on with another state of the kernel. Each process it has reaped on the
way has destroyed its address space. -/
def onKernel (u : UserKernel) (k : Kernel) : UserKernel :=
  { u with
    toKernel := k
    destroyed := u.destroyed ++
      (k.reaped.drop u.reaped.length).map fun c => (u.image c).addressSpace }

/-! ## Fork and exit -/

/-- One turn of the loop of `Fork` over the descriptor table. -/
def cloneSlot (parent child : FdTable) (fd : Nat) : FdTable :=
  match getFd parent fd with
  | none => child
  | some d => child.set fd (some d)

/-- The loop of `Fork` over the descriptor table, after `Resize`. -/
def cloneFds (parent : FdTable) : FdTable :=
  (List.range parent.length).foldl (cloneSlot parent) (List.replicate parent.length none)

/-- The loop of `Fork` over the signal actions. -/
def cloneActions (parent : SignalActions) : SignalActions :=
  (List.range NSIG).foldl (fun child i => Function.update child i (parent i)) fun _ => {}

/-- The child's image, with the address space cloned from the parent's. -/
def forkImage (parent : ProcessImage) (space : SpaceId) : ProcessImage where
  heapStart := parent.heapStart
  heapEnd := parent.heapEnd
  addressSpace := space
  root := parent.root
  cwd := parent.cwd
  fdTable := cloneFds parent.fdTable
  signalActions := cloneActions parent.signalActions

/-- `new Process(.., uas, ..)` with this image. -/
def giveImage (u : UserKernel) (p : ProcId) (im : ProcessImage) : UserKernel :=
  (u.setImage p im).setAddressSpace p im.addressSpace

@[simp] theorem giveImage_self (u : UserKernel) (p : ProcId) (im : ProcessImage) :
    (u.giveImage p im).image p = im := by
  simp [giveImage, setAddressSpace, setImage]

theorem giveImage_ne (u : UserKernel) {p q : ProcId} (im : ProcessImage) (h : q ≠ p) :
    (u.giveImage p im).image q = u.image q := by
  simp [giveImage, setAddressSpace, setImage, h]

/-- `Process::Fork` of process `p`, with the result of `sys_fork`. Every error
path behind the clone of the address space gives it back: by `Destroy`, or by
`Reap` of the child that has it. -/
def fork (u : UserKernel) (p : ProcId) (alloc : Kernel.ForkAlloc) : Option (Int × UserKernel) :=
  (u.toKernel.fork p alloc).map fun (rax, k) =>
    if alloc = .noAddressSpace then (rax, { u with toKernel := k })
    else
      let space := u.nextSpace
      let u' := { u with toKernel := k }.newSpace
      if rax < 0 then (rax, u'.destroySpace space)
      else (rax, u'.giveImage u.nextProc (forkImage (u.image p) space))

/-- `Process::Exit` and the end of the thread; the table is empty then. -/
def exit (u : UserKernel) (t : Tid) (p : ProcId) (status : Int) : Option UserKernel :=
  (u.toKernel.exit t p status).map fun k =>
    { u with toKernel := k }.setImage p { u.image p with fdTable := [] }

/-! ## execve -/

/-- How `ElfLoader::Load` ends: before it has written CR3, with an error, or
with a result. -/
inductive LoadOutcome where
  | rejected (e : Int)
  | failed (e : Int)
  | loaded (result : ElfLoader.LoadResult)
deriving DecidableEq, Repr

/-- The result of `Load`. -/
def LoadOutcome.result : LoadOutcome → Except Int ElfLoader.LoadResult
  | .rejected e | .failed e => .error e
  | .loaded result => .ok result

/-- `ElfLoader::Load` into process `p`, as far as CR3 goes. -/
def load (u : UserKernel) (p : ProcId) : LoadOutcome → Except Int ElfLoader.LoadResult × UserKernel
  | .rejected e => (.error e, u)
  | .failed e =>
      let prevCr3 := u.cr3
      let u := u.writeCr3 (u.rootPa (some p))
      (.error e, u.writeCr3 prevCr3)
  | .loaded result =>
      let prevCr3 := u.cr3
      let u := u.writeCr3 (u.rootPa (some p))
      (.ok result, u.writeCr3 prevCr3)

@[simp] theorem writeCr3_writeCr3 (u : UserKernel) (value value' : Nat) :
    (u.writeCr3 value).writeCr3 value' = u.writeCr3 value' := rfl

@[simp] theorem writeCr3_self (u : UserKernel) : u.writeCr3 u.cr3 = u := rfl

/-- `Load` leaves CR3 as it found it, however it ends. -/
theorem load_eq (u : UserKernel) (p : ProcId) (outcome : LoadOutcome) :
    u.load p outcome = (outcome.result, u) := by
  cases outcome with
  | rejected e => rfl
  | failed e | loaded result =>
      unfold load
      dsimp only
      rw [writeCr3_writeCr3, writeCr3_self]
      rfl

/-- Where `sys_execve` fails, if it does. -/
inductive ExecOutcome where
  | noFile (e : Int)
  | noAddressSpace
  | load (outcome : LoadOutcome)
deriving DecidableEq, Repr

/-- `sys_execve` of process `p`: the error, or what `rip` and `rsp` are set to. -/
def execve (u : UserKernel) (p : ProcId) : ExecOutcome → Except Int ElfLoader.LoadResult × UserKernel
  | .noFile e => (.error e, u)
  | .noAddressSpace => (.error (-Proc.ENOMEM), u)
  | .load outcome =>
      let new := u.nextSpace
      let u := u.newSpace
      let old := (u.image p).addressSpace
      let u := u.setAddressSpace p new
      let prevCr3 := u.cr3
      let u := u.writeCr3 (u.spaceRoot new)
      match u.load p outcome with
      | (.error e, u) => (.error e, ((u.setAddressSpace p old).writeCr3 prevCr3).destroySpace new)
      | (.ok result, u) =>
          (.ok result, (u.setHeap p result.heapBase result.heapBase).destroySpace old)

/-- The state in which `sys_execve` calls `Load`. -/
def enterSpace (u : UserKernel) (p : ProcId) : UserKernel :=
  (u.newSpace.setAddressSpace p u.nextSpace).writeCr3 (u.spaceRoot u.nextSpace)

theorem execve_error {u : UserKernel} {p : ProcId} {outcome : LoadOutcome} {e : Int}
    (h : outcome.result = .error e) :
    u.execve p (.load outcome) =
      (.error e, (((u.enterSpace p).setAddressSpace p (u.image p).addressSpace).writeCr3
        u.cr3).destroySpace u.nextSpace) := by
  unfold execve
  dsimp only
  rw [load_eq, h]
  rfl

theorem execve_ok {u : UserKernel} {p : ProcId} {outcome : LoadOutcome}
    {result : ElfLoader.LoadResult} (h : outcome.result = .ok result) :
    u.execve p (.load outcome) =
      (.ok result, ((u.enterSpace p).setHeap p result.heapBase result.heapBase).destroySpace
        (u.image p).addressSpace) := by
  unfold execve
  dsimp only
  rw [load_eq, h]
  rfl

/-! ## Signals -/

/-- Thread `t` of process `p` as the signal code sees it, with the frame and
the user memory it is called with. -/
def sigThread (u : UserKernel) (t : Tid) (p : ProcId) (frame : InterruptFrame) (mem : Lib.Mem) :
    SigThread where
  frame := frame
  mem := mem
  pending := (u.threads t).pendingSignals
  blocked := (u.threads t).blockedSignals
  actions := (u.image p).getSignalAction
  zombie := (u.procs p).isZombie
  terminated := (u.threads t).state == .terminated

/-- The signal words of thread `t` are assigned. -/
def setSignals (u : UserKernel) (t : Tid) (st : SigThread) : UserKernel :=
  { u with
    toSched := u.toSched.updThread t fun th =>
      { th with pendingSignals := st.pending, blockedSignals := st.blocked } }

/-- `rt_sigaction` with a new action; an error leaves everything as it is. -/
def rtSigaction (u : UserKernel) (p : ProcId) (sig : Nat) (act : SigAction) : UserKernel :=
  if sig < 1 ∨ NSIG ≤ sig ∨ sig = SIGKILL ∨ sig = SIGSTOP then u
  else
    u.setImage p
      { u.image p with
        signalActions := Function.update (u.image p).signalActions (signalSlot sig) act }

/-- `rt_sigprocmask` with a new set; an error leaves everything as it is. -/
def rtSigprocmask (u : UserKernel) (t : Tid) (p : ProcId) (frame : InterruptFrame)
    (mem : Lib.Mem) (how : Int) (set : Lib.Word) : UserKernel :=
  match Proc.rtSigprocmask (u.sigThread t p frame mem) how set with
  | none => u
  | some st => u.setSignals t st

/-- `Signal::DoPendingSignals` of thread `t`. When it calls `Exit` the thread
ends with it. -/
def doPending (u : UserKernel) (t : Tid) (p : ProcId) (frame : InterruptFrame) (mem : Lib.Mem) :
    Option UserKernel :=
  let st := u.sigThread t p frame mem
  let u := u.setSignals t (doPendingSignals st).1
  match doPendingCalls st with
  | [.exit status] => u.exit t p status
  | _ => some u

/-! ## Start -/

/-- The images before the first process. -/
def ofKernel (k : Kernel) (spaceRoot : SpaceId → Nat) : UserKernel where
  toKernel := k
  image := fun _ => { addressSpace := 0, root := 0, cwd := 0 }
  nextSpace := 0
  spaceRoot := spaceRoot
  destroyed := []

/-- `start_kernel`, with the root directory `root`. Process 0 is the one of
`/sbin/init`. -/
def boot (rootPa : Option ProcId → Nat) (spaceRoot : SpaceId → Nat) (root : VnodeRef)
    (idleStack reaperStack initStack : Nat) (outcome : LoadOutcome) : Option UserKernel :=
  match outcome with
  | .loaded result =>
      (Kernel.boot rootPa idleStack reaperStack initStack true).map fun k =>
        (((ofKernel k spaceRoot).newSpace.giveImage 0
          { addressSpace := 0, root := root, cwd := root }).setHeap 0 result.heapBase
            result.heapBase)
  | _ =>
      (Kernel.boot rootPa idleStack reaperStack initStack false).map fun k =>
        ((ofKernel k spaceRoot).newSpace.giveImage 0
          { addressSpace := 0, root := root, cwd := root }).destroySpace 0

/-! ## The machine -/

/-- A system call of the running thread, which is not inside `sys_waitpid`. -/
def syscall (u : UserKernel) (f : Tid → ProcId → Option UserKernel) : Option UserKernel :=
  u.toKernel.caller.bind fun (t, p) => if u.waiting t = none then f t p else none

end UserKernel

/-- What happens next. The frame and the user memory of a call are any. -/
inductive UserOp where
  | kernel (op : KernelOp)
  | execve (outcome : UserKernel.ExecOutcome)
  | rtSigaction (sig : Nat) (act : SigAction)
  | rtSigprocmask (frame : InterruptFrame) (mem : Lib.Mem) (how : Int) (set : Lib.Word)
  | rtSigreturn (frame : InterruptFrame) (mem : Lib.Mem) (userRsp : Lib.Word)
  /-- `Signal::Send` to the running thread: by `tkill`, or for a fault. -/
  | send (frame : InterruptFrame) (mem : Lib.Mem) (sig : Nat)
  | doPending (frame : InterruptFrame) (mem : Lib.Mem)

def userStep (u : UserKernel) : UserOp → Option UserKernel
  | .kernel (.fork alloc) => u.syscall fun _ p => (u.fork p alloc).map Prod.snd
  | .kernel (.exit status) => u.syscall fun t p => u.exit t p status
  | .kernel op => (kernelStep u.toKernel op).map u.onKernel
  | .execve outcome => u.syscall fun _ p => some (u.execve p outcome).2
  | .rtSigaction sig act => u.syscall fun _ p => some (u.rtSigaction p sig act)
  | .rtSigprocmask frame mem how set =>
      u.syscall fun t p => some (u.rtSigprocmask t p frame mem how set)
  | .rtSigreturn frame mem userRsp =>
      u.syscall fun t p => some (u.setSignals t (rtSigreturn (u.sigThread t p frame mem) userRsp))
  | .send frame mem sig =>
      u.syscall fun t p => some (u.setSignals t (send (u.sigThread t p frame mem) sig))
  | .doPending frame mem => u.syscall fun t p => u.doPending t p frame mem

end Ceryx.Proc
