import Mathlib.Algebra.Group.Int.Defs
import Mathlib.Algebra.Group.Nat.Defs
import Mathlib.Logic.Function.Basic
import Mathlib.Data.Int.Init
import Ceryx.Proc.Process
import Ceryx.Fs.PipeBytes
import Ceryx.Lib.Census

/-!
# Ceryx.Fs.FileDescription — open files, descriptor tables and their system calls

`FileDescription.hpp`, `PipeVnode.hpp`, the descriptor table of `Process.cpp`
and the system calls of `SyscallDispatch.cpp` on them.

* A `FileDescription` is named by the order of its construction. Its vnode is a
  pipe or something else, which pipes do not see.
* `RefPtr` counts exactly: `Referenced` says that a table slot or a call that
  has not returned holds the description, and `settle` is what happens when a
  reference has just gone: the last one calls `Destroy`.
* Read and write calls that wait are in `blocked`, with their `fd_desc`. The
  other system calls are one step each.
* A call takes the results of the allocations it makes: `grow fd` says whether
  `m_fd_table.Resize(fd + 1)` succeeds.
-/

namespace Ceryx.Fs

open Lib Proc

/-- The name of a `FileDescription`. -/
abbrev DescId := Nat

/-- The name of a `Pipe`, which is also that of its `PipeVnode`. -/
abbrev PipeId := Nat

inductive Vnode where
  | pipe (v : PipeId)
  | other
deriving DecidableEq, Repr

/-- `FileDescription`. `destroyed` records that `delete this` has run. -/
structure FileDescription where
  vnode : Vnode := .other
  offset : Nat := 0
  flags : BitVec 32 := 0
  destroyed : Bool := false
deriving DecidableEq, Repr

/-- `m_fd_table`. -/
abbrev FdTable := List (Option DescId)

/-- A `Read` or `Write` of process `proc` that waits, with its `fd_desc`. -/
structure BlockedCall where
  proc : ProcId
  desc : DescId
  request : Request
  written : Nat
deriving DecidableEq, Repr

/-- `Process::kMaxFds`. -/
def kMaxFds : Nat := 1024

/-- `PipeVnode::kPipeRead`, `PipeVnode::kPipeWrite`. -/
def kPipeRead : BitVec 32 := 0x1
def kPipeWrite : BitVec 32 := 0x2

def EBADF : Int := 9
def EINVAL : Int := 22
def EMFILE : Int := 24
def EPIPE : Int := 32

/-- What `Pipe::Write` returns, as `Expected<usize, int>` takes it: an `int` that
is no `Unexpected` becomes the value. -/
def WriteResult.value : WriteResult → Nat
  | .bytes n => n
  | .epipe => ((-EPIPE) % 2 ^ 64).toNat

/-- The commands of `sys_fcntl`. -/
def F_DUPFD : Int := 0
def F_GETFD : Int := 1
def F_SETFD : Int := 2
def F_GETFL : Int := 3
def F_SETFL : Int := 4
def F_DUPFD_CLOEXEC : Int := 1030

structure FileSys where
  descs : DescId → FileDescription := fun _ => {}
  nextDesc : DescId := 0
  pipes : PipeId → Pipe kDefaultCapacity := fun _ => {}
  nextPipe : PipeId := 0
  /-- The descriptor tables of the processes. -/
  tables : ProcId → FdTable := fun _ => []
  nextProc : ProcId := 0
  /-- The processes whose object is deleted. -/
  gone : ProcId → Bool := fun _ => false
  blocked : List BlockedCall := []

/-! ## The descriptor table -/

/-- `Process::GetFd`. -/
def getFd (table : FdTable) (fd : Nat) : Option DescId := table[fd]?.join

/-- `Process::AllocateFd` from slot `fd` on, with the number of slots left. -/
def allocateFdFrom (table : FdTable) (d : DescId) (grow : Nat → Bool) :
    Nat → Nat → Except Int (Nat × FdTable)
  | 0, _ => .error (-EMFILE)
  | n + 1, fd =>
      if table.length ≤ fd then
        if grow fd then .ok (fd, table ++ [some d]) else .error (-ENOMEM)
      else if (getFd table fd).isNone then .ok (fd, table.set fd (some d))
      else allocateFdFrom table d grow n (fd + 1)

/-- `Process::AllocateFd`. -/
def allocateFd (table : FdTable) (d : DescId) (grow : Nat → Bool) : Except Int (Nat × FdTable) :=
  allocateFdFrom table d grow kMaxFds 0

/-- `m_fd_table.Resize(fd + 1)`, for a table that is shorter. -/
def resizeFor (table : FdTable) (fd : Nat) : FdTable :=
  table ++ List.replicate (fd + 1 - table.length) none

/-- `Process::AllocateFdAt`. The old description of the slot loses its
reference; the caller settles it. -/
def allocateFdAt (table : FdTable) (fd : Nat) (d : DescId) (grow : Nat → Bool) :
    Except Int (Nat × FdTable) :=
  if kMaxFds ≤ fd then .error (-EBADF)
  else if table.length ≤ fd ∧ grow fd = false then .error (-ENOMEM)
  else .ok (fd, (resizeFor table fd).set fd (some d))

namespace FileSys

/-! ## Descriptions -/

def setTable (s : FileSys) (p : ProcId) (table : FdTable) : FileSys :=
  { s with tables := Function.update s.tables p table }

def setPipe (s : FileSys) (v : PipeId) (pipe : Pipe kDefaultCapacity) : FileSys :=
  { s with pipes := Function.update s.pipes v pipe }

def updDesc (s : FileSys) (d : DescId) (f : FileDescription → FileDescription) : FileSys :=
  { s with descs := Function.update s.descs d (f (s.descs d)) }

/-- `vnode->ops->Open`: `PipeVnode::Open`, nothing for other vnodes. -/
def openVnode (s : FileSys) (vnode : Vnode) (flags : BitVec 32) : FileSys :=
  match vnode with
  | .other => s
  | .pipe v =>
      let s := if flags &&& kPipeRead ≠ 0 then s.setPipe v (s.pipes v).incrementReaders else s
      if flags &&& kPipeWrite ≠ 0 then s.setPipe v (s.pipes v).incrementWriters else s

/-- `vnode->ops->Close`: `PipeVnode::Close`, nothing for other vnodes. -/
def closeVnode (s : FileSys) (vnode : Vnode) (flags : BitVec 32) : FileSys :=
  match vnode with
  | .other => s
  | .pipe v =>
      let s := if flags &&& kPipeRead ≠ 0 then s.setPipe v (s.pipes v).decrementReaders else s
      if flags &&& kPipeWrite ≠ 0 then s.setPipe v (s.pipes v).decrementWriters else s

/-- `new FileDescription(vnode, flags)`. -/
def newDescription (s : FileSys) (vnode : Vnode) (flags : BitVec 32) : DescId × FileSys :=
  (s.nextDesc,
    { s.openVnode vnode flags with
      descs := Function.update s.descs s.nextDesc { vnode := vnode, flags := flags }
      nextDesc := s.nextDesc + 1 })

/-- `FileDescription::Destroy`. -/
def destroy (s : FileSys) (d : DescId) : FileSys :=
  (s.closeVnode (s.descs d).vnode (s.descs d).flags).updDesc d fun x => { x with destroyed := true }

/-- A `RefPtr` to the description exists. -/
def Referenced (s : FileSys) (d : DescId) : Prop :=
  (∃ p, p < s.nextProc ∧ some d ∈ s.tables p) ∨ ∃ c ∈ s.blocked, c.desc = d

instance (s : FileSys) (d : DescId) : Decidable (s.Referenced d) :=
  inferInstanceAs (Decidable ((∃ p, p < s.nextProc ∧ some d ∈ s.tables p) ∨ _))

/-- A reference to the description has gone; if it was the last one,
`Destroy`. -/
def settle (s : FileSys) (d : DescId) : FileSys :=
  if s.Referenced d ∨ (s.descs d).destroyed = true then s else s.destroy d

/-- The same for a slot that has been emptied. -/
def settleSlot (s : FileSys) : Option DescId → FileSys
  | none => s
  | some d => s.settle d

/-- `Process::FreeFd`. -/
def freeFd (s : FileSys) (p : ProcId) (fd : Nat) : FileSys :=
  (s.setTable p ((s.tables p).set fd none)).settleSlot (getFd (s.tables p) fd)

/-! ## Calls on descriptors -/

/-- `sys_open` of a vnode that is no pipe, after the path lookup. -/
def sysOpen (s : FileSys) (p : ProcId) (flags : BitVec 32) (grow : Nat → Bool) : Int × FileSys :=
  let (desc, s) := s.newDescription .other flags
  match allocateFd (s.tables p) desc grow with
  | .ok (fd, table) => (fd, s.setTable p table)
  | .error e => (e, s.settle desc)

/-- `process->AllocateFd(desc)` of `sys_pipe`, which goes on without an fd. -/
def tryAllocate (s : FileSys) (p : ProcId) (desc : DescId) (grow : Nat → Bool) :
    Option Nat × FileSys :=
  match allocateFd (s.tables p) desc grow with
  | .ok (fd, table) => (some fd, s.setTable p table)
  | .error _ => (none, s)

/-- `if (fd) process->FreeFd(fd.Value())`. -/
def freeIf (s : FileSys) (p : ProcId) : Option Nat → FileSys
  | none => s
  | some fd => s.freeFd p fd

/-- `sys_pipe`. Both allocations are tried; what succeeded is freed again when
the other one failed. Next to the result, the pair stored in `fds`. -/
def sysPipe (s : FileSys) (p : ProcId) (grow₁ grow₂ : Nat → Bool) :
    (Int × Option (Nat × Nat)) × FileSys :=
  let v := s.nextPipe
  let s := { s.setPipe v {} with nextPipe := v + 1 }
  let (rd, s) := s.newDescription (.pipe v) kPipeRead
  let (wr, s) := s.newDescription (.pipe v) kPipeWrite
  let (fd1, s) := s.tryAllocate p rd grow₁
  let (fd2, s) := s.tryAllocate p wr grow₂
  match fd1, fd2 with
  | some fd1, some fd2 => ((0, some (fd1, fd2)), s)
  | fd1, fd2 => ((-ENOMEM, none), (((s.freeIf p fd1).freeIf p fd2).settle rd).settle wr)

/-- `sys_close`. -/
def sysClose (s : FileSys) (p : ProcId) (fd : Nat) : Int × FileSys := (0, s.freeFd p fd)

/-- `sys_dup`. -/
def sysDup (s : FileSys) (p : ProcId) (fd : Nat) (grow : Nat → Bool) : Int × FileSys :=
  match getFd (s.tables p) fd with
  | none => (-EBADF, s)
  | some desc =>
      match allocateFd (s.tables p) desc grow with
      | .ok (newFd, table) => (newFd, s.setTable p table)
      | .error e => (e, s)

/-- `AllocateFdAt` of process `p`, with the end of the old reference. -/
def installAt (s : FileSys) (p : ProcId) (fd : Nat) (desc : DescId) (grow : Nat → Bool) :
    Except Int (Nat × FileSys) :=
  match allocateFdAt (s.tables p) fd desc grow with
  | .ok (newFd, table) => .ok (newFd, (s.setTable p table).settleSlot (getFd (s.tables p) fd))
  | .error e => .error e

/-- `sys_dup2`. -/
def sysDup2 (s : FileSys) (p : ProcId) (oldFd newFd : Nat) (grow : Nat → Bool) : Int × FileSys :=
  if oldFd = newFd then (newFd, s)
  else
    match getFd (s.tables p) oldFd with
    | none => (-EBADF, s)
    | some desc =>
        match s.installAt p newFd desc grow with
        | .ok (fd, s) => (fd, s)
        | .error e => (e, s)

/-- The loop of `F_DUPFD` from `new_fd` on, with the number of slots left. -/
def dupFdFrom (s : FileSys) (p : ProcId) (desc : DescId) (grow : Nat → Bool) :
    Nat → Nat → Int × FileSys
  | 0, _ => (-EMFILE, s)
  | n + 1, newFd =>
      if (getFd (s.tables p) newFd).isNone then
        match s.installAt p newFd desc grow with
        | .ok (fd, s) => (fd, s)
        | .error _ => dupFdFrom s p desc grow n (newFd + 1)
      else dupFdFrom s p desc grow n (newFd + 1)

/-- The new flags of `F_SETFL`. -/
def setflFlags (flags arg : BitVec 32) : BitVec 32 := (flags &&& 3) ||| (arg &&& ~~~3)

/-- `sys_fcntl`. -/
def sysFcntl (s : FileSys) (p : ProcId) (fd : Nat) (cmd : Int) (arg : BitVec 64)
    (grow : Nat → Bool) : Int × FileSys :=
  match getFd (s.tables p) fd with
  | none => (-EBADF, s)
  | some desc =>
      if cmd = F_DUPFD ∨ cmd = F_DUPFD_CLOEXEC then
        let start := (arg.setWidth 32).toNat
        s.dupFdFrom p desc grow (kMaxFds - start) start
      else if cmd = F_GETFD ∨ cmd = F_SETFD then (0, s)
      else if cmd = F_GETFL then ((s.descs desc).flags.toNat, s)
      else if cmd = F_SETFL then
        (0, s.updDesc desc fun x => { x with flags := setflFlags x.flags (arg.setWidth 32) })
      else (-EINVAL, s)

/-! ## Read and write -/

/-- What a stretch of a call leaves: it waits, or it returns a number. -/
inductive CallResult where
  | waits (written : Nat)
  | returns (rax : Int)
deriving DecidableEq, Repr

/-- `offset += result.Value()`. -/
def advance (s : FileSys) (d : DescId) (n : Nat) : FileSys :=
  s.updDesc d fun x => { x with offset := (x.offset + n) % 2 ^ 64 }

/-- A stretch of `FileDescription::Read` on a pipe. -/
def readStretch (s : FileSys) (d : DescId) (v : PipeId) (size : Nat) : CallResult × FileSys :=
  match (s.pipes v).read size with
  | none => (.waits 0, s)
  | some (n, _, pipe) => (.returns n, (s.setPipe v pipe).advance d n)

/-- A stretch of `FileDescription::Write` on a pipe. -/
def writeStretch (s : FileSys) (d : DescId) (v : PipeId) (res : WriteOutcome × Pipe kDefaultCapacity) :
    CallResult × FileSys :=
  match res.1 with
  | .waits written => (.waits written, s.setPipe v res.2)
  | .returned (.bytes n) => (.returns n, (s.setPipe v res.2).advance d n)
  | .returned .epipe =>
      (.returns (-EPIPE), (s.setPipe v res.2).advance d (WriteResult.value .epipe))

/-- A stretch of a call on description `d`: from its start (`none`) or from a
wait, with `written_bytes`. Vnodes other than pipes do not wait and do not
touch pipes. -/
def stretch (s : FileSys) (d : DescId) (request : Request) (after : Option Nat) :
    CallResult × FileSys :=
  match (s.descs d).vnode, request with
  | .other, _ => (.returns 0, s)
  | .pipe v, .read size => s.readStretch d v size
  | .pipe v, .write src =>
      match after with
      | none => s.writeStretch d v ((s.pipes v).write src)
      | some written => s.writeStretch d v ((s.pipes v).rewrite src written)

/-- `sys_read` and `sys_write`, up to the end or the first wait. -/
def sysIo (s : FileSys) (p : ProcId) (fd : Nat) (request : Request) : CallResult × FileSys :=
  match getFd (s.tables p) fd with
  | none => (.returns (-EBADF), s)
  | some desc =>
      match s.stretch desc request none with
      | (.returns rax, s) => (.returns rax, s)
      | (.waits written, s) =>
          (.waits written, { s with blocked := s.blocked ++ [⟨p, desc, request, written⟩] })

/-- A waiting call goes on. When it returns, its `fd_desc` goes. -/
def resume (s : FileSys) (i : Nat) (c : BlockedCall) : CallResult × FileSys :=
  match s.stretch c.desc c.request (some c.written) with
  | (.waits written, s) =>
      (.waits written, { s with blocked := s.blocked.set i { c with written := written } })
  | (.returns rax, s) =>
      (.returns rax, { s with blocked := s.blocked.eraseIdx i }.settle c.desc)

/-! ## Processes -/

/-- The end of a descriptor table: `Reset` of each slot in turn, then
`Clear`. -/
def closeAll (s : FileSys) (p : ProcId) : FileSys :=
  ((List.range (s.tables p).length).foldl (fun s fd => s.freeFd p fd) s).setTable p []

/-- `delete this` of a `Process`, which destroys its table. -/
def deleteProcess (s : FileSys) (p : ProcId) : FileSys :=
  { s.closeAll p with gone := Function.update s.gone p true }

/-- A `new Process` with the given table. -/
def newProcess (s : FileSys) (table : FdTable) : FileSys :=
  { s.setTable s.nextProc table with nextProc := s.nextProc + 1 }

/-- `Process::Fork`, by the allocation that fails in it. Without an address
space, a pid or a process object there is no child yet. -/
def fork (s : FileSys) (p : ProcId) : Kernel.ForkAlloc → FileSys
  | .noAddressSpace | .noProcess => s
  | .noFdTable => (s.newProcess []).deleteProcess s.nextProc
  | .noThread => (s.newProcess (s.tables p)).deleteProcess s.nextProc
  | .enough _ => s.newProcess (s.tables p)

/-- After the boot: the process of `/sbin/init` with an empty table. -/
def boot : FileSys := { nextProc := 1 }

end FileSys

/-! ## The machine -/

inductive FileOp where
  | openFile (p : ProcId) (flags : BitVec 32) (grow : Nat → Bool)
  | pipe (p : ProcId) (grow₁ grow₂ : Nat → Bool)
  | dup (p : ProcId) (fd : Nat) (grow : Nat → Bool)
  | dup2 (p : ProcId) (oldFd newFd : Nat) (grow : Nat → Bool)
  | fcntl (p : ProcId) (fd : Nat) (cmd : Int) (arg : BitVec 64) (grow : Nat → Bool)
  | close (p : ProcId) (fd : Nat)
  | read (p : ProcId) (fd size : Nat)
  | write (p : ProcId) (fd : Nat) (src : List UInt8)
  | resume (i : Nat)
  | fork (p : ProcId) (alloc : Kernel.ForkAlloc)
  | exit (p : ProcId)
  | reap (p : ProcId)

/-- A call by a process that exists. -/
def FileSys.callBy (s : FileSys) (p : ProcId) (s' : FileSys) : Option FileSys :=
  if p < s.nextProc ∧ s.gone p = false then some s' else none

def fileStep (s : FileSys) : FileOp → Option FileSys
  | .openFile p flags grow => s.callBy p (s.sysOpen p flags grow).2
  | .pipe p grow₁ grow₂ => s.callBy p (s.sysPipe p grow₁ grow₂).2
  | .dup p fd grow => s.callBy p (s.sysDup p fd grow).2
  | .dup2 p oldFd newFd grow => s.callBy p (s.sysDup2 p oldFd newFd grow).2
  | .fcntl p fd cmd arg grow => s.callBy p (s.sysFcntl p fd cmd arg grow).2
  | .close p fd => s.callBy p (s.sysClose p fd).2
  | .read p fd size => s.callBy p (s.sysIo p fd (.read size)).2
  | .write p fd src => s.callBy p (s.sysIo p fd (.write src)).2
  | .resume i =>
      match s.blocked[i]? with
      | none => none
      | some c => s.callBy c.proc (s.resume i c).2
  | .fork p alloc => s.callBy p (s.fork p alloc)
  | .exit p => s.callBy p (s.closeAll p)
  | .reap p => s.callBy p (s.deleteProcess p)

end Ceryx.Fs
