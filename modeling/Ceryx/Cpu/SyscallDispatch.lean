import Ceryx.Cpu.SavedFrame
import Ceryx.Fs.OpenCreat
import Ceryx.Lib.ByteMem
import Ceryx.Proc.ElfLoader

/-!
# Ceryx.Cpu.SyscallDispatch — the switch over the system call numbers

`Syscall::Dispatch` with every case, on a memory of bytes in which the
`InterruptFrame` lies at the pointer it is called with and the user's buffers
lie wherever the user's pointers point.

* The functions that the cases call have any results, `SyscallEnv`: what they do
  inside the kernel is in the modules about them. None of them is given the frame
  but `Process::Fork`, which copies it.
* A case returns the value for `rax` with the stores that it makes through user
  pointers; it has no result where the thread ends, or where a null pointer is
  used.
* `userCase_storesIn`: a call stores only to the buffers that its arguments name.
* `FrameKept`: only `rax` of the frame has changed.
* `CopiesSpare`: what the call copies out leaves the frame. No pointer of the user is
  checked, so that a buffer may lie over the frame; `BuffersOff` says that none does.
* `frameKept_iff`: unless the call replaces the frame, the frame is kept if and only if
  its copies spare it and it is no `sys_openat`, or one that finds its own arguments in
  `rdi` and `rsi` already.
-/

namespace Ceryx.Cpu.Syscall

open Lib Proc ByteMem
open ElfLoader (LoadResult)

def EFAULT : Int := 14
def ENODEV : Int := 19
def ENOTTY : Int := 25

/-- `static_cast<u64>` of an `int`. -/
def ofInt (e : Int) : Word := BitVec.ofInt 64 e

/-! ## What the cases call -/

/-- A vnode, as `stat` and `getdents64` see it. -/
structure VnodeFacts where
  addr : Word
  type : Fs.RamFs.VnodeType
  permissions : BitVec 32
  size : Word
  /-- `ops->Iterate` of a buffer, its size and a cookie: its result, and what it
  stores from the buffer on. -/
  iterate : Option (Word → Word → Word → Except Int Word × List UInt8)
  iterate_le : ∀ call ∈ iterate, ∀ buf size cookie,
    (call buf size cookie).2.length ≤ size.toNat

/-- A `FileDescription`. The first argument of `read` and `write` counts the calls. -/
structure OpenFile where
  vnode : Option VnodeFacts
  offset : Word
  flags : BitVec 32
  /-- `Read` of a buffer and its size: its result, and what it stores from the buffer
  on. -/
  read : Nat → Word → Word → Except Int Word × List UInt8
  read_le : ∀ call buf size, (read call buf size).2.length ≤ size.toNat
  write : Nat → Word → Word → Except Int Word

/-- A child that `FindChild` finds, with `IsZombie` after `Block`. -/
structure ChildFacts where
  pid : Word
  exitStatus : Int
  zombie : Bool
  zombieAfter : Bool

/-- What the cases read of the process, -/
structure ProcessFacts where
  pid : Word
  parentPid : Option Word
  heapStart : Word
  heapEnd : Word
  signalAction : Int → SigAction
  getFd : BitVec 32 → Option OpenFile

/-- and of the thread. -/
structure ThreadFacts where
  tid : Word
  blocked : Word
  process : Option ProcessFacts

/-- The current thread, and the results of the functions that the cases call. -/
structure SyscallEnv where
  thread : Option ThreadFacts
  /-- `AllocateFd`, by the number of the call. -/
  allocateFd : Nat → Except Int (BitVec 32)
  allocateFdAt : BitVec 32 → Except Int (BitVec 32)
  mapAnonymous : Word → Word → Option Word
  unmap : Word → Word → Bool
  protect : Word → Word → Bool
  /-- `PathToVnode` of the string at an address, and of its first bytes. -/
  pathToVnode : Word → Except Int VnodeFacts
  subPathToVnode : Word → Nat → Except Int VnodeFacts
  /-- `RFind` of a slash in the string at an address. -/
  rFindSlash : Word → Option Nat
  /-- `Create` of the string behind a slash, if the directory has that operation. -/
  createIn : Word → Option Nat → Option (Except Int VnodeFacts)
  createSpace : Bool
  load : Except Int LoadResult
  createPipe : Bool
  fork : Except Int Word
  newTid : Word
  findChild : Word → Option ChildFacts
  nowNanoseconds : Word
  nowWallClock : Word
  /-- The clock reaches a deadline. -/
  reaches : Word → Bool
  fsBase : Word
  /-- `gs:24`. -/
  userRsp : Word

/-- The process of the current thread. -/
def SyscallEnv.process (env : SyscallEnv) : Option ProcessFacts :=
  env.thread.bind ThreadFacts.process

/-! ## How a case ends -/

/-- A store through a user pointer. -/
structure Store where
  addr : Word
  bytes : List UInt8

/-- The result, with the stores before it. -/
abbrev CaseEnd := Option (Word × List Store)

/-- `return rax`. -/
def ret (rax : Word) : CaseEnd := some (rax, [])

/-- `return -e`. -/
def err (e : Int) : CaseEnd := ret (ofInt (-e))

/-- `return 0` behind these stores. -/
def copyOut (stores : List Store) : CaseEnd := some (0, stores)

/-- The value or the error of a call. -/
def result : Except Int Word → Word
  | .ok v => v
  | .error e => ofInt e

/-- Quadwords from `a` on. -/
def storeWords (a : Word) (vs : List Word) : Store :=
  ⟨a, vs.flatMap fun v => toLE 8 v.toNat⟩

/-- An `int` at `a`. -/
def storeInt (a : Word) (v : BitVec 32) : Store := ⟨a, toLE 4 v.toNat⟩

/-- The memory after the stores. -/
def applyStores (mem : ByteMem) (stores : List Store) : ByteMem :=
  stores.foldl (fun mem s => mem.store s.addr s.bytes) mem

section
variable (env : SyscallEnv) (mem : ByteMem) (f : InterruptFrame)

/-- `if (!process) return -ENOSYS`. -/
def withProcess (k : ProcessFacts → CaseEnd) : CaseEnd :=
  match env.process with
  | none => err Fs.Vfs.ENOSYS
  | some p => k p

/-- `auto fd_desc = process->GetFd(fd); if (!fd_desc) return -EBADF`, behind the test
of the process. -/
def withFd (k : OpenFile → CaseEnd) : CaseEnd :=
  withProcess env fun p =>
    match p.getFd (f.rdi.setWidth 32) with
    | none => err Fs.EBADF
    | some d => k d

/-! ## Files -/

/-- Case 0, `sys_read`. -/
def sysRead : CaseEnd :=
  withFd env f fun d =>
    let res := d.read 0 f.rsi f.rdx
    some (result res.1, [⟨f.rsi, res.2⟩])

/-- Case 1, `sys_write`. -/
def sysWrite : CaseEnd := withFd env f fun d => ret (result (d.write 0 f.rsi f.rdx))

/-- Case 3; `FreeFd` has no result. -/
def sysClose : CaseEnd := withProcess env fun _ => ret 0

/-- `AllocateFd` as the last call of a case. -/
def allocated (fd : Except Int (BitVec 32)) : CaseEnd :=
  ret (result (fd.map fun fd => fd.setWidth 64))

/-- Case 2, `sys_open`, with both ways to create. -/
def sysOpen : CaseEnd :=
  withProcess env fun _ =>
    let flags : BitVec 32 := f.rsi.setWidth 32
    match env.pathToVnode f.rdi with
    | .ok _ => allocated (env.allocateFd 0)
    | .error e =>
        if flags &&& Fs.Vfs.O_CREAT ≠ 0 then
          let created : Except Int (Option (Except Int VnodeFacts)) :=
            match env.rFindSlash f.rdi with
            | none | some 0 => .ok (env.createIn f.rdi none)
            | some (k + 1) =>
                (env.subPathToVnode f.rdi (k + 1)).map fun _ => env.createIn f.rdi (some (k + 1))
          match created with
          | .error e => ret (ofInt e)
          | .ok none => err Fs.Vfs.ENOENT
          | .ok (some (.error e)) => ret (ofInt e)
          | .ok (some (.ok _)) => allocated (env.allocateFd 0)
        else ret (ofInt e)

/-- Case 8. -/
def sysLseek : CaseEnd :=
  withFd env f fun d =>
    let offset := f.rsi.toInt
    let whence := (f.rdx.setWidth 32).toInt
    if whence = 0 then if offset < 0 then err Fs.EINVAL else ret f.rsi
    else if whence = 1 then
      if offset < 0 ∧ d.offset < -f.rsi then err Fs.EINVAL else ret (d.offset + f.rsi)
    else if whence = 2 then
      match d.vnode with
      | none => err Fs.EBADF
      | some v => ret (v.size + f.rsi)
    else err Fs.EINVAL

/-- Case 32, `sys_dup`. -/
def sysDup : CaseEnd := withFd env f fun _ => allocated (env.allocateFd 0)

/-- Case 33, `sys_dup2`. -/
def sysDup2 : CaseEnd :=
  withProcess env fun p =>
    let oldFd : BitVec 32 := f.rdi.setWidth 32
    let newFd : BitVec 32 := f.rsi.setWidth 32
    if oldFd = newFd then ret (newFd.setWidth 64)
    else
      match p.getFd oldFd with
      | none => err Fs.EBADF
      | some _ => allocated (env.allocateFdAt newFd)

/-- Case 22, `sys_pipe`: both numbers go to the array. -/
def sysPipe : CaseEnd :=
  withProcess env fun _ =>
    if env.createPipe then
      match env.allocateFd 0, env.allocateFd 1 with
      | .ok fd1, .ok fd2 => copyOut [storeInt f.rdi fd1, storeInt (f.rdi + 4) fd2]
      | _, _ => err Proc.ENOMEM
    else err Proc.ENOMEM

/-- The loop of `F_DUPFD`, with the number of slots left. -/
def dupFdFrom (p : ProcessFacts) : Nat → BitVec 32 → CaseEnd
  | 0, _ => err Fs.EMFILE
  | n + 1, newFd =>
      match p.getFd newFd, env.allocateFdAt newFd with
      | none, .ok fd => ret (fd.setWidth 64)
      | _, _ => dupFdFrom p n (newFd + 1)

/-- Case 72, `sys_fcntl`. -/
def sysFcntl : CaseEnd :=
  withProcess env fun p =>
    match p.getFd (f.rdi.setWidth 32) with
    | none => err Fs.EBADF
    | some d =>
        let cmd := (f.rsi.setWidth 32).toInt
        let arg : BitVec 32 := f.rdx.setWidth 32
        if cmd = Fs.F_DUPFD ∨ cmd = Fs.F_DUPFD_CLOEXEC then
          dupFdFrom env p (Fs.kMaxFds - arg.toNat) arg
        else if cmd = Fs.F_GETFD ∨ cmd = Fs.F_SETFD then ret 0
        else if cmd = Fs.F_GETFL then ret (d.flags.setWidth 64)
        else if cmd = Fs.F_SETFL then ret 0
        else err Fs.EINVAL

/-- `iov[k]`: its `iov_base` and its `iov_len`. -/
def iovec (mem : ByteMem) (iov : Word) (k : Nat) : Word × Word :=
  (mem.loadWord (iov + BitVec.ofNat 64 (16 * k)), mem.loadWord (iov + BitVec.ofNat 64 (16 * k + 8)))

/-- The loop of `sys_writev` from entry `k` on, with the number of entries left. -/
def writevFrom (d : OpenFile) (iov : Word) : Nat → Nat → Word → CaseEnd
  | 0, _, total => ret total
  | n + 1, k, total =>
      let entry := iovec mem iov k
      if entry.2 = 0 then writevFrom d iov n (k + 1) total
      else
        match d.write k entry.1 entry.2 with
        | .error e => ret (ofInt e)
        | .ok m => writevFrom d iov n (k + 1) (total + m)

/-- The loop of `sys_readv`; the buffers may hold entries that are read later. -/
def readvFrom (d : OpenFile) (iov : Word) : Nat → Nat → Word → List Store → CaseEnd
  | 0, _, total, stores => some (total, stores)
  | n + 1, k, total, stores =>
      let entry := iovec (applyStores mem stores) iov k
      if entry.2 = 0 then readvFrom d iov n (k + 1) total stores
      else
        let res := d.read k entry.1 entry.2
        let stores := stores ++ [⟨entry.1, res.2⟩]
        match res.1 with
        | .error e => some (ofInt e, stores)
        | .ok m =>
            -- `iov[k].iov_len` is read again
            if m < (iovec (applyStores mem stores) iov k).2 then some (total + m, stores)
            else readvFrom d iov n (k + 1) (total + m) stores

/-- The part that `sys_readv` and `sys_writev` begin with. -/
def withIov (k : OpenFile → Nat → CaseEnd) : CaseEnd :=
  withFd env f fun d =>
    let iovcnt := (f.rdx.setWidth 32).toInt
    if f.rsi = 0 ∨ iovcnt ≤ 0 then err Fs.EINVAL else k d iovcnt.toNat

/-- Case 20, `sys_writev`. -/
def sysWritev : CaseEnd := withIov env f fun d n => writevFrom mem d f.rsi n 0 0

/-- Case 19, `sys_readv`. -/
def sysReadv : CaseEnd := withIov env f fun d n => readvFrom mem d f.rsi n 0 0 []

/-- `VnodeTypeToMode`. -/
def vnodeTypeToMode : Fs.RamFs.VnodeType → BitVec 32
  | .regular => 0o100000
  | .directory => 0o040000
  | .blockDevice => 0o060000
  | .charDevice => 0o020000
  | .symLink => 0o120000
  | .socket => 0o140000
  | .fifo => 0o010000

/-- `VnodeToStat`, as the bytes of a `KernelStat`. -/
def vnodeToStat (v : VnodeFacts) : List UInt8 :=
  let mode := vnodeTypeToMode v.type ||| (v.permissions &&& 0o777)
  toLE 8 0 ++ toLE 8 v.addr.toNat ++ toLE 8 1 ++ toLE 4 mode.toNat ++ toLE 12 0 ++ toLE 8 0 ++
    toLE 8 v.size.toNat ++ toLE 8 4096 ++ toLE 8 ((v.size + 511) / 512).toNat ++
    List.replicate 72 0

/-- `sys_stat`, `sys_lstat` and `sys_newfstatat`, with the registers that hold their
arguments. -/
def statOf (path statbuf : Word) : CaseEnd :=
  withProcess env fun _ =>
    match env.pathToVnode path with
    | .error e => ret (ofInt e)
    | .ok v => copyOut [⟨statbuf, vnodeToStat v⟩]

/-- Case 4, -/
def sysStat : CaseEnd := statOf env f.rdi f.rsi

/-- case 6, -/
def sysLstat : CaseEnd := statOf env f.rdi f.rsi

/-- and case 262, where the path is the second argument. -/
def sysNewfstatat : CaseEnd := statOf env f.rsi f.rdx

/-- Case 5, `sys_fstat`. -/
def sysFstat : CaseEnd :=
  withFd env f fun d =>
    match d.vnode with
    | none => err Fs.EBADF
    | some v => copyOut [⟨f.rsi, vnodeToStat v⟩]

/-- The walk over the records ends; `fuel` is the number of turns. -/
def walkEnds (buf : Word) (size : Nat) : Nat → Nat → Bool
  | 0, _ => false
  | fuel + 1, off =>
      if size ≤ off then true
      else walkEnds buf size fuel (off + mem.loadNat (buf + BitVec.ofNat 64 (off + 16)) 2)

/-- Case 217; the walk behind `Iterate` must end for the call to return. -/
def sysGetdents64 : CaseEnd :=
  withFd env f fun d =>
    match d.vnode with
    | none => err Fs.Vfs.ENOTDIR
    | some v =>
        if v.type ≠ .directory then err Fs.Vfs.ENOTDIR
        else
          match v.iterate with
          | none => ret 0
          | some iterate =>
              let res := iterate f.rsi f.rdx d.offset
              let stores : List Store := [⟨f.rsi, res.2⟩]
              match res.1 with
              | .error e => some (ofInt e, stores)
              | .ok n =>
                  if walkEnds (applyStores mem stores) f.rsi n.toNat (n.toNat + 1) 0 then
                    some (n, stores)
                  else none

/-- Case 21, `sys_access`; the mode is not read. -/
def sysAccess : CaseEnd :=
  withProcess env fun _ =>
    match env.pathToVnode f.rdi with
    | .error e => ret (ofInt e)
    | .ok _ => ret 0

def TIOCGWINSZ : Word := 0x5413
def TCGETS : Word := 0x5401
def TCSETS : Word := 0x5402
def FIONREAD : Word := 0x541B

/-- Case 16, `sys_ioctl`: a terminal of 25 rows and 80 columns. -/
def sysIoctl : CaseEnd :=
  withFd env f fun _ =>
    if f.rsi = TIOCGWINSZ then
      if f.rdx = 0 then ret 0
      else copyOut [⟨f.rdx, toLE 2 25 ++ toLE 2 80 ++ toLE 2 0 ++ toLE 2 0⟩]
    else if f.rsi = TCGETS ∨ f.rsi = TCSETS then ret 0
    else if f.rsi = FIONREAD then
      if f.rdx = 0 then ret 0 else copyOut [storeInt f.rdx 0]
    else err ENOTTY

/-! ## Memory -/

/-- `(len + 0xFFF) & ~0xFFF`. -/
def pageAlign (len : Word) : Word := (len + 0xFFF) &&& ~~~0xFFF#64

/-- Case 9, `sys_mmap`, for anonymous mappings only. -/
def sysMmap : CaseEnd :=
  withProcess env fun _ =>
    if f.rsi = 0 then err Fs.EINVAL
    else if f.r10 &&& 0x20 = 0 then err ENODEV
    else
      match env.mapAnonymous f.rdi (pageAlign f.rsi) with
      | none => err Proc.ENOMEM
      | some va => ret va

/-- `sys_munmap` and `sys_mprotect`, with the call on the address space. -/
def onRange (call : Word → Word → Bool) : CaseEnd :=
  withProcess env fun _ =>
    if f.rsi = 0 ∨ f.rdi &&& 0xFFF ≠ 0 then err Fs.EINVAL
    else if call f.rdi (pageAlign f.rsi) then ret 0
    else err Fs.EINVAL

/-- Case 11 -/
def sysMunmap : CaseEnd := onRange env f env.unmap

/-- and case 10. -/
def sysMprotect : CaseEnd := onRange env f env.protect

/-- Case 12, `sys_brk`. -/
def sysBrk : CaseEnd :=
  match env.process with
  | none => ret 0
  | some p =>
      if f.rdi = 0 ∨ f.rdi < p.heapStart then ret p.heapEnd
      else if p.heapEnd < f.rdi ∧ pageAlign p.heapEnd < pageAlign f.rdi ∧
          env.mapAnonymous (pageAlign p.heapEnd) (pageAlign f.rdi - pageAlign p.heapEnd) = none then
        ret p.heapEnd
      else ret f.rdi

/-! ## Signals -/

/-- The bytes of a `sigaction`; the padding lies behind `sa_flags`. -/
def sigactionStore (a : Word) (action : SigAction) : Store :=
  storeWords a
    [action.saHandler, action.saSigaction, action.saMask, action.saFlags, action.saRestorer]

/-- Case 13; the old action goes to `rdx`. -/
def rtSigaction : CaseEnd :=
  let sig := (f.rdi.setWidth 32).toInt
  if sig < 1 ∨ NSIG ≤ sig ∨ sig = SIGKILL ∨ sig = SIGSTOP then err Fs.EINVAL
  else if f.rsi = 0 ∧ f.rdx = 0 then ret 0
  else
    env.process.bind fun p =>
      copyOut (if f.rdx = 0 then [] else [sigactionStore f.rdx (p.signalAction sig)])

/-- Case 14; the old mask is stored before `how` is checked. -/
def rtSigprocmask : CaseEnd :=
  let how := (f.rdi.setWidth 32).toInt
  if f.rsi = 0 ∧ f.rdx = 0 then ret 0
  else
    env.thread.bind fun t =>
      let stores := if f.rdx = 0 then [] else [storeWords f.rdx [t.blocked]]
      if f.rsi = 0 ∨ how = 0 ∨ how = 1 ∨ how = 2 then copyOut stores
      else some (ofInt (-Fs.EINVAL), stores)

/-- `sys_tkill` and `sys_tgkill`, with the register that holds the signal. -/
def tkillOf (sig : Word) : CaseEnd :=
  withProcess env fun _ =>
    let sig := (sig.setWidth 32).toInt
    if sig < 1 ∨ NSIG ≤ sig then err Fs.EINVAL else ret 0

/-- Case 200 -/
def sysTkill : CaseEnd := tkillOf env f.rsi

/-- and case 234. -/
def sysTgkill : CaseEnd := tkillOf env f.rdx

/-! ## Processes -/

/-- Case 39, -/
def sysGetpid : CaseEnd := ret ((env.process.map ProcessFacts.pid).getD 0)

/-- case 110, -/
def sysGetppid : CaseEnd := ret ((env.process.bind ProcessFacts.parentPid).getD 0)

/-- cases 78 and 186. -/
def sysGettid : CaseEnd := ret ((env.thread.map ThreadFacts.tid).getD 0)

/-- Case 57, `Process::Fork`. -/
def sysFork : CaseEnd :=
  match env.process with
  | none => err Fs.EINVAL
  | some _ => ret (result env.fork)

def CLONE_VM : Word := 0x100

/-- Case 56: without `CLONE_VM` it is a fork. -/
def sysClone : CaseEnd :=
  withProcess env fun _ =>
    if f.rdi &&& CLONE_VM = 0 then ret (result env.fork) else ret env.newTid

/-- `sys_exit` and `sys_exit_group`: the `Yield` of a thread does not come back. -/
def sysExit : CaseEnd :=
  match env.thread with
  | some _ => none
  | none => ret 0

/-- Case 61, `sys_waitpid`. -/
def sysWaitpid : CaseEnd :=
  match env.process with
  | none => err Fs.EINVAL
  | some _ =>
      match env.findChild (if f.rdi.toInt ≤ 0 then 0 else f.rdi) with
      | none => err Proc.ECHILD
      | some child =>
          let options : BitVec 32 := f.rdx.setWidth 32
          if child.zombie = false ∧ options &&& WNOHANG ≠ 0 then ret 0
          else if child.zombie = false ∧ child.zombieAfter = false then err Proc.ECHILD
          else
            let status : BitVec 32 := BitVec.ofInt 32 (child.exitStatus % 256 * 256)
            some (child.pid, if f.rsi = 0 then [] else [storeInt f.rsi status])

/-! ## Time and names -/

/-- A `KTimespec`. -/
def timespec (a ns : Word) : Store := storeWords a [ns / 1000000000, ns % 1000000000]

/-- Case 228. -/
def sysClockGettime : CaseEnd :=
  if f.rsi = 0 then err EFAULT
  else
    let clkId : BitVec 32 := f.rdi.setWidth 32
    copyOut [timespec f.rsi (if clkId = 0 then env.nowWallClock else env.nowNanoseconds)]

/-- Case 96, in microseconds. -/
def sysGettimeofday : CaseEnd :=
  let ns := env.nowNanoseconds
  if f.rdi = 0 then ret 0
  else copyOut [storeWords f.rdi [ns / 1000000000, ns % 1000000000 / 1000]]

/-- Case 35; it spins until the deadline. -/
def sysNanosleep : CaseEnd :=
  if f.rdi = 0 then err EFAULT
  else
    let sleepNs := mem.loadWord f.rdi * 1000000000 + mem.loadWord (f.rdi + 8)
    if env.reaches (env.nowNanoseconds + sleepNs) then ret 0 else none

/-- `copy_str` into a field of 65 bytes. -/
def copyStr (dst : Word) (src : String) : Store :=
  ⟨dst, (src.toList.take 64).map (fun c => UInt8.ofNat c.toNat) ++ [0]⟩

/-- Case 63, six fields of 65 bytes. -/
def sysUname : CaseEnd :=
  if f.rdi = 0 then err EFAULT
  else
    copyOut
      [copyStr f.rdi "Linux", copyStr (f.rdi + 65) "ceryx", copyStr (f.rdi + 130) "6.1.0",
        copyStr (f.rdi + 195) "#1 ceryx-kernel", copyStr (f.rdi + 260) "x86_64",
        copyStr (f.rdi + 325) "(none)"]

def ARCH_SET_FS : Int := 0x1002
def ARCH_GET_FS : Int := 0x1003
def ARCH_SET_GS : Int := 0x1001

/-- Case 158, `arch_prctl`. -/
def sysArchPrctl : CaseEnd :=
  let code := (f.rdi.setWidth 32).toInt
  if code = ARCH_SET_FS then ret 0
  else if code = ARCH_GET_FS then copyOut [storeWords f.rsi [env.fsBase]]
  else if code = ARCH_SET_GS then ret 0
  else err Fs.EINVAL

/-! ## The switch -/

/-- The cases that only read the frame. -/
def userCase : CaseEnd :=
  match f.rax.toNat with
  | 0 => sysRead env f
  | 1 => sysWrite env f
  | 9 => sysMmap env f
  | 11 => sysMunmap env f
  | 3 => sysClose env
  | 12 => sysBrk env f
  | 22 => sysPipe env f
  | 13 => rtSigaction env f
  | 14 => rtSigprocmask env f
  | 39 => sysGetpid env
  | 57 => sysFork env
  | 60 => sysExit env
  | 61 => sysWaitpid env f
  | 110 => sysGetppid env
  | 2 => sysOpen env f
  | 8 => sysLseek env f
  | 32 => sysDup env f
  | 33 => sysDup2 env f
  | 4 => sysStat env f
  | 5 => sysFstat env f
  | 6 => sysLstat env f
  | 262 => sysNewfstatat env f
  | 228 => sysClockGettime env f
  | 96 => sysGettimeofday env f
  | 35 => sysNanosleep env mem f
  | 56 => sysClone env f
  | 78 => sysGettid env
  | 102 | 104 | 107 | 108 => ret 0
  | 158 => sysArchPrctl env f
  | 231 => sysExit env
  | 63 => sysUname f
  | 217 => sysGetdents64 env mem f
  | 10 => sysMprotect env f
  | 72 => sysFcntl env f
  | 16 => sysIoctl env f
  | 21 => sysAccess env f
  | 89 => err Fs.EINVAL
  | 41 | 42 | 43 | 44 | 45 | 49 | 50 | 54 | 55 => err Fs.Vfs.ENOSYS
  | 200 => sysTkill env f
  | 234 => sysTgkill env f
  | 186 => sysGettid env
  | 20 => sysWritev env mem f
  | 19 => sysReadv env mem f
  | _ => err Fs.Vfs.ENOSYS

end

/-! ## The frame -/

/-- The frame at `ptr`. -/
def frameIn (mem : ByteMem) (ptr : Word) : InterruptFrame := frameAt mem.loadWord ptr

/-- Assign to `*regs`. -/
def putRegs (mem : ByteMem) (ptr : Word) (f : InterruptFrame) : ByteMem :=
  mem.storeFields ptr (frameFields f)

/-- What `Dispatch` returns, and memory. -/
structure Returned where
  rax : Word
  mem : ByteMem

/-- A case that only reads the frame. -/
def plain (mem : ByteMem) (done : CaseEnd) : Option Returned :=
  done.map fun (rax, stores) => ⟨rax, applyStores mem stores⟩

/-- `sys_execve`, as far as the frame goes: an error, or what is loaded. -/
def sysExecve (env : SyscallEnv) (f : InterruptFrame) : Except Word LoadResult :=
  match env.process with
  | none => .error (ofInt (-Fs.Vfs.ENOSYS))
  | some _ =>
      match env.pathToVnode f.rdi with
      | .error e => .error (ofInt e)
      | .ok _ =>
          if env.createSpace then env.load.mapError ofInt
          else .error (ofInt (-Proc.ENOMEM))

/-- `rt_sigreturn`, as far as the frame goes. -/
def sigreturnFrame (env : SyscallEnv) (mem : ByteMem) (f : InterruptFrame) : InterruptFrame :=
  (Proc.rtSigreturn ⟨f, mem.loadWord, 0, 0, fun _ => {}, false, false⟩ env.userRsp).frame

/-- `Syscall::Dispatch` of a number other than `sys_openat`. -/
def dispatchOnce (env : SyscallEnv) (mem : ByteMem) (ptr : Word) : Option Returned :=
  let f := frameIn mem ptr
  if f.rax = 59 then
    match sysExecve env f with
    | .error rax => some ⟨rax, mem⟩
    | .ok result =>
        some ⟨0, putRegs mem ptr
          { f with
            rip := BitVec.ofNat 64 result.entryPoint
            rsp := BitVec.ofNat 64 result.stackTop }⟩
  else if f.rax = 15 then
    env.thread.map fun _ =>
      let f := sigreturnFrame env mem f
      ⟨f.rax, putRegs mem ptr f⟩
  else plain mem (userCase env mem f)

/-- The frame that `sys_openat` dispatches again. -/
def openatFrame (f : InterruptFrame) : InterruptFrame :=
  let flags : BitVec 32 := f.rdx.setWidth 32
  { f with rdi := f.rsi, rsi := flags.setWidth 64, rax := 2 }

/-- `Syscall::Dispatch` with the frame at `ptr`. -/
def dispatch (env : SyscallEnv) (mem : ByteMem) (ptr : Word) : Option Returned :=
  let f := frameIn mem ptr
  if f.rax = 257 then
    if env.process.isNone then plain mem (err Fs.Vfs.ENOSYS)
    else dispatchOnce env (putRegs mem ptr (openatFrame f)) ptr
  else dispatchOnce env mem ptr

/-! ## The buffers of a call -/

/-- A buffer in memory, with its size. -/
abbrev Buffer := Word × Nat

/-- The entries of a list of `Iovec`. -/
def iovBuffers (mem : ByteMem) (iov : Word) (cnt : Nat) : List Buffer :=
  (List.range cnt).map fun k => ((iovec mem iov k).1, (iovec mem iov k).2.toNat)

/-- `iovcnt`, for the loop. -/
def iovcnt (f : InterruptFrame) : Nat := (f.rdx.setWidth 32).toInt.toNat

/-- The buffers that the arguments of a call name for its results. -/
def outBuffers (mem : ByteMem) (f : InterruptFrame) : List Buffer :=
  match f.rax.toNat with
  | 0 | 217 => [(f.rsi, f.rdx.toNat)]
  | 19 => iovBuffers mem f.rsi (iovcnt f)
  | 22 => [(f.rdi, 8)]
  | 13 => [(f.rdx, 40)]
  | 14 => [(f.rdx, 8)]
  | 61 => [(f.rsi, 4)]
  | 4 | 5 | 6 => [(f.rsi, 144)]
  | 262 => [(f.rdx, 144)]
  | 228 => [(f.rsi, 16)]
  | 96 => [(f.rdi, 16)]
  | 158 => [(f.rsi, 8)]
  | 63 => [(f.rdi, 390)]
  | 16 => [(f.rdx, 8)]
  | _ => []

/-- What the call copies out through user pointers. -/
def copies (env : SyscallEnv) (mem : ByteMem) (f : InterruptFrame) : List Store :=
  ((userCase env mem f).map Prod.snd).getD []

/-- The store is inside one of the buffers. -/
def Store.In (s : Store) (bufs : List Buffer) : Prop :=
  ∃ b ∈ bufs, Within s.addr s.bytes.length b.1 b.2

/-- The buffers of the call do not overlap the frame at `ptr`, nor those of `sys_readv`
the list that names them. -/
structure BuffersOff (mem : ByteMem) (ptr : Word) (f : InterruptFrame) : Prop where
  frame : ∀ b ∈ outBuffers mem f, Apart ptr 176 b.1 b.2
  iov : f.rax = 19 → ∀ b ∈ outBuffers mem f, Apart f.rsi (16 * iovcnt f) b.1 b.2

/-! ## The property -/

/-- Only `rax` of the frame has changed. -/
def FrameKept (mem mem' : ByteMem) (ptr : Word) : Prop :=
  ∃ rax, frameIn mem' ptr = { frameIn mem ptr with rax := rax }

/-- `rt_sigreturn`, or an `execve` that succeeds. -/
def Replaces (env : SyscallEnv) (f : InterruptFrame) : Prop :=
  f.rax = 15 ∨ f.rax = 59 ∧ ∃ result, sysExecve env f = .ok result

/-- What the call copies out leaves the fields of the frame as they are, but for `rax`. -/
def CopiesSpare (env : SyscallEnv) (mem : ByteMem) (ptr : Word) : Prop :=
  ∀ off ∈ frameOffsets, off ≠ 112 →
    (applyStores mem (copies env mem (frameIn mem ptr))).loadWord (ptr + off) =
      mem.loadWord (ptr + off)

/-- `Dispatch` keeps the frame. -/
def FrameLaw : Prop :=
  ∀ (env : SyscallEnv) (mem : ByteMem) (ptr : Word) (r : Returned), dispatch env mem ptr = some r →
    ¬ Replaces env (frameIn mem ptr) → FrameKept mem r.mem ptr

/-- The call is no `sys_openat` of a process, or one whose path is in `rdi` too, and
its flags in `rsi`. -/
def OpenatKeeps (env : SyscallEnv) (f : InterruptFrame) : Prop :=
  f.rax = 257 → env.process.isNone = true ∨
    f.rsi = f.rdi ∧ (f.rdx.setWidth 32 : BitVec 32).setWidth 64 = f.rsi

/-! ## A call stores to its buffers only -/

/-- What the case stores is in the buffers. -/
def StoresIn (bufs : List Buffer) (done : CaseEnd) : Prop :=
  ∀ rax stores, done = some (rax, stores) → ∀ s ∈ stores, s.In bufs

section
variable {env : SyscallEnv} {mem : ByteMem} {f : InterruptFrame} {bufs : List Buffer}

@[simp] theorem storesIn_none : StoresIn bufs none := nofun

/-- The stores of a case, one by one. -/
theorem storesIn_some {rax : Word} {stores : List Store} (h : ∀ s ∈ stores, s.In bufs) :
    StoresIn bufs (some (rax, stores)) := by
  intro rax' stores' heq
  cases heq
  exact h

@[simp] theorem storesIn_ret (rax : Word) : StoresIn bufs (ret rax) := storesIn_some nofun

@[simp] theorem storesIn_err (e : Int) : StoresIn bufs (err e) := storesIn_ret _

@[simp] theorem storesIn_allocated (fd : Except Int (BitVec 32)) : StoresIn bufs (allocated fd) :=
  storesIn_ret _

/-- One store, at the beginning of the only buffer. -/
theorem storesIn_one {rax a : Word} {bytes : List UInt8} {size : Nat} (h : bytes.length ≤ size) :
    StoresIn [(a, size)] (some (rax, [⟨a, bytes⟩])) := by
  apply storesIn_some
  intro s hs
  obtain rfl := List.mem_singleton.mp hs
  exact ⟨_, List.mem_singleton_self _, within_of_le a h⟩

/-- No process, no stores; -/
theorem storesIn_withProcess {k : ProcessFacts → CaseEnd} (h : ∀ p, StoresIn bufs (k p)) :
    StoresIn bufs (withProcess env k) := by
  unfold withProcess
  split
  · exact storesIn_err _
  · exact h _

/-- no description, none either. -/
theorem storesIn_withFd {k : OpenFile → CaseEnd} (h : ∀ d, StoresIn bufs (k d)) :
    StoresIn bufs (withFd env f k) := by
  apply storesIn_withProcess
  intro p
  split
  · exact storesIn_err _
  · exact h _

/-- Eight bytes each. -/
theorem storeWords_length (vs : List Word) :
    (vs.flatMap fun v => toLE 8 v.toNat).length = 8 * vs.length := by
  induction vs with
  | nil => rfl
  | cons v vs ih =>
      rw [List.flatMap_cons, List.length_append, toLE_length, ih, List.length_cons]
      omega

/-- One store of quadwords, -/
theorem storesIn_words {rax a : Word} {vs : List Word} {size : Nat} (h : 8 * vs.length ≤ size) :
    StoresIn [(a, size)] (some (rax, [storeWords a vs])) := by
  apply storesIn_one
  rw [storeWords_length]
  exact h

/-- or of an `int`. -/
theorem storesIn_int {rax a : Word} {v : BitVec 32} {size : Nat} (h : 4 ≤ size) :
    StoresIn [(a, size)] (some (rax, [storeInt a v])) := by
  apply storesIn_one
  rw [toLE_length]
  exact h

/-- `read` stores into the buffer it is given, -/
theorem sysRead_storesIn : StoresIn [(f.rsi, f.rdx.toNat)] (sysRead env f) := by
  apply storesIn_withFd
  intro d
  exact storesIn_one (d.read_le 0 f.rsi f.rdx)

/-- and so does `getdents64`. -/
theorem sysGetdents64_storesIn : StoresIn [(f.rsi, f.rdx.toNat)] (sysGetdents64 env mem f) := by
  apply storesIn_withFd
  intro d
  split
  · exact storesIn_err _
  · rename_i v hv
    split
    · exact storesIn_err _
    · split
      · exact storesIn_ret _
      · rename_i call hcall
        -- `Iterate` says how much it has written, and that is at most the size it was given
        have hle := v.iterate_le call hcall f.rsi f.rdx d.offset
        dsimp only
        split
        · exact storesIn_one hle
        · split
          · exact storesIn_one hle
          · exact storesIn_none

/-- A word that the stores miss. -/
theorem loadWord_applyStores {a : Word} {stores : List Store}
    (h : ∀ s ∈ stores, Apart a 8 s.addr s.bytes.length) :
    (applyStores mem stores).loadWord a = mem.loadWord a := by
  induction stores generalizing mem with
  | nil => rfl
  | cons s stores ih =>
      have hrest : applyStores mem (s :: stores) = applyStores (mem.store s.addr s.bytes) stores := rfl
      rw [hrest, ih fun s' hs' => h s' (List.mem_cons_of_mem _ hs')]
      exact loadWord_store_ne mem (h s List.mem_cons_self)

/-- Stores that miss the array leave its entries. -/
theorem iovec_applyStores {iov : Word} {cnt k : Nat} {stores : List Store} (hk : k < cnt)
    (h : ∀ s ∈ stores, Apart iov (16 * cnt) s.addr s.bytes.length) :
    iovec (applyStores mem stores) iov k = iovec mem iov k := by
  unfold iovec
  rw [loadWord_applyStores fun s hs => (h s hs).part (within_add iov (by omega)),
    loadWord_applyStores fun s hs => (h s hs).part (within_add iov (by omega))]

/-- The loop finds the entries as they were at first: what it stores is off the list. -/
theorem readvFrom_storesIn {d : OpenFile} {iov : Word} {cnt : Nat}
    (hoff : ∀ b ∈ iovBuffers mem iov cnt, Apart iov (16 * cnt) b.1 b.2) (n k : Nat) (total : Word)
    (stores : List Store) (hk : k + n = cnt)
    (hstores : ∀ s ∈ stores, s.In (iovBuffers mem iov cnt)) :
    StoresIn (iovBuffers mem iov cnt) (readvFrom mem d iov n k total stores) := by
  induction n generalizing k total stores with
  | zero => exact storesIn_some hstores
  | succ n ih =>
      -- what has been stored so far has left the `iovec` alone
      have hentry : iovec (applyStores mem stores) iov k = iovec mem iov k := by
        apply iovec_applyStores (by omega : k < cnt)
        intro s hs
        obtain ⟨b, hb, hin⟩ := hstores s hs
        exact (hoff b hb).within hin
      -- and the next read stores into its own buffer
      have hmore : ∀ s ∈ stores ++
          [(⟨(iovec mem iov k).1, (d.read k (iovec mem iov k).1 (iovec mem iov k).2).2⟩ : Store)],
          s.In (iovBuffers mem iov cnt) := by
        intro s hs
        rcases List.mem_append.mp hs with hold | hnew
        · exact hstores s hold
        · obtain rfl := List.mem_singleton.mp hnew
          refine ⟨_, List.mem_map_of_mem (List.mem_range.mpr (by omega : k < cnt)), ?_⟩
          exact within_of_le _ (d.read_le _ _ _)
      unfold readvFrom
      dsimp only
      rw [hentry]
      split
      · exact ih (k + 1) total stores (by omega) hstores
      · split
        · exact storesIn_some hmore
        · split
          · exact storesIn_some hmore
          · exact ih (k + 1) _ _ (by omega) hmore

/-- Before the loop nothing is stored. -/
theorem storesIn_withIov {k : OpenFile → Nat → CaseEnd}
    (h : ∀ d, StoresIn bufs (k d (iovcnt f))) : StoresIn bufs (withIov env f k) := by
  apply storesIn_withFd
  intro d
  dsimp only
  split
  · exact storesIn_err _
  · exact h d

/-- `readv` stores into the buffers of an array that it does not overwrite. -/
theorem sysReadv_storesIn
    (hoff : ∀ b ∈ iovBuffers mem f.rsi (iovcnt f), Apart f.rsi (16 * iovcnt f) b.1 b.2) :
    StoresIn (iovBuffers mem f.rsi (iovcnt f)) (sysReadv env mem f) := by
  apply storesIn_withIov
  intro d
  exact readvFrom_storesIn hoff (iovcnt f) 0 0 [] (Nat.zero_add _) nofun

/-- A `KernelStat` is 144 bytes long, -/
theorem vnodeToStat_length (v : VnodeFacts) : (vnodeToStat v).length = 144 := by
  simp [vnodeToStat, toLE_length]

/-- and stored as a whole. -/
theorem statOf_storesIn {path statbuf : Word} :
    StoresIn [(statbuf, 144)] (statOf env path statbuf) := by
  apply storesIn_withProcess
  intro p
  split
  · exact storesIn_ret _
  · exact storesIn_one (vnodeToStat_length _).le

/-- The same from a description. -/
theorem sysFstat_storesIn : StoresIn [(f.rsi, 144)] (sysFstat env f) := by
  apply storesIn_withFd
  intro d
  split
  · exact storesIn_err _
  · exact storesIn_one (vnodeToStat_length _).le

/-- The other cases with a buffer: two descriptors, -/
theorem sysPipe_storesIn : StoresIn [(f.rdi, 8)] (sysPipe env f) := by
  apply storesIn_withProcess
  intro p
  split
  · split
    · apply storesIn_some
      intro s hs
      refine ⟨_, List.mem_singleton_self _, ?_⟩
      rcases List.mem_cons.mp hs with rfl | hsecond
      · exact within_of_le f.rdi (by rw [storeInt, toLE_length]; exact (by decide : 4 ≤ 8))
      · obtain rfl := List.mem_singleton.mp hsecond
        exact within_add f.rdi (by rw [storeInt, toLE_length])
    · exact storesIn_err _
  · exact storesIn_err _

/-- A store that is left out for a null pointer. -/
theorem storesIn_unless {c : Prop} [Decidable c] {rax : Word} {s : Store}
    (h : StoresIn bufs (some (rax, [s]))) : StoresIn bufs (some (rax, if c then [] else [s])) := by
  split
  · exact storesIn_some nofun
  · exact h

/-- a `sigaction` with its padding, -/
theorem rtSigaction_storesIn : StoresIn [(f.rdx, 40)] (rtSigaction env f) := by
  unfold rtSigaction
  dsimp only
  split
  · exact storesIn_err _
  · split
    · exact storesIn_ret _
    · cases env.process with
      | none => exact storesIn_none
      | some p => exact storesIn_unless (storesIn_words (Nat.le_refl _))

/-- a mask, -/
theorem rtSigprocmask_storesIn : StoresIn [(f.rdx, 8)] (rtSigprocmask env f) := by
  unfold rtSigprocmask
  dsimp only
  split
  · exact storesIn_ret _
  · cases env.thread with
    | none => exact storesIn_none
    | some t =>
        dsimp only [Option.bind_some]
        split
        · exact storesIn_unless (storesIn_words (Nat.le_refl _))
        · exact storesIn_unless (storesIn_words (Nat.le_refl _))

/-- a status word, -/
theorem sysWaitpid_storesIn : StoresIn [(f.rsi, 4)] (sysWaitpid env f) := by
  unfold sysWaitpid
  split
  · exact storesIn_err _
  · split
    · exact storesIn_err _
    · dsimp only
      split
      · exact storesIn_ret _
      · split
        · exact storesIn_err _
        · exact storesIn_unless (storesIn_int (by decide))

/-- a `winsize`, -/
theorem sysIoctl_storesIn : StoresIn [(f.rdx, 8)] (sysIoctl env f) := by
  apply storesIn_withFd
  intro d
  split
  · split
    · exact storesIn_ret _
    · exact storesIn_one (by decide)
  · split
    · exact storesIn_ret _
    · split
      · split
        · exact storesIn_ret _
        · exact storesIn_int (by decide)
      · exact storesIn_err _

/-- a time, -/
theorem sysClockGettime_storesIn : StoresIn [(f.rsi, 16)] (sysClockGettime env f) := by
  unfold sysClockGettime
  split
  · exact storesIn_err _
  · exact storesIn_words (Nat.le_refl _)

/-- again one, -/
theorem sysGettimeofday_storesIn : StoresIn [(f.rdi, 16)] (sysGettimeofday env f) := by
  unfold sysGettimeofday
  dsimp only
  split
  · exact storesIn_ret _
  · exact storesIn_words (Nat.le_refl _)

/-- a base, -/
theorem sysArchPrctl_storesIn : StoresIn [(f.rsi, 8)] (sysArchPrctl env f) := by
  unfold sysArchPrctl
  dsimp only
  split
  · exact storesIn_ret _
  · split
    · exact storesIn_words (Nat.le_refl _)
    · split
      · exact storesIn_ret _
      · exact storesIn_err _

/-- and six names, -/
theorem copyStr_in {a : Word} {off : Nat} {str : String} (h : off + 65 ≤ 390) :
    (copyStr (a + BitVec.ofNat 64 off) str).In [(a, 390)] := by
  refine ⟨_, List.mem_singleton_self _, within_add a ?_⟩
  have hlen : (copyStr (a + BitVec.ofNat 64 off) str).bytes.length ≤ 65 := by
    simp [copyStr]
  omega

/-- each in its field. -/
theorem sysUname_storesIn : StoresIn [(f.rdi, 390)] (sysUname f) := by
  unfold sysUname
  split
  · exact storesIn_err _
  · apply storesIn_some
    intro s hs
    simp only [List.mem_cons, List.not_mem_nil, or_false] at hs
    rcases hs with rfl | rfl | rfl | rfl | rfl | rfl
    · have hfirst := @copyStr_in f.rdi 0 "Linux" (by decide)
      rw [BitVec.add_zero] at hfirst
      exact hfirst
    · exact @copyStr_in f.rdi 65 "ceryx" (by decide)
    · exact @copyStr_in f.rdi 130 "6.1.0" (by decide)
    · exact @copyStr_in f.rdi 195 "#1 ceryx-kernel" (by decide)
    · exact @copyStr_in f.rdi 260 "x86_64" (by decide)
    · exact @copyStr_in f.rdi 325 "(none)" (by decide)

/-- The loop of `F_DUPFD` stores nothing, -/
theorem dupFdFrom_storesIn (p : ProcessFacts) (n : Nat) (fd : BitVec 32) :
    StoresIn bufs (dupFdFrom env p n fd) := by
  induction n generalizing fd with
  | zero => exact storesIn_err _
  | succ n ih =>
      unfold dupFdFrom
      split
      · exact storesIn_ret _
      · exact ih _

/-- and neither does that of `writev`. -/
theorem writevFrom_storesIn {d : OpenFile} {iov : Word} (n k : Nat) (total : Word) :
    StoresIn bufs (writevFrom mem d iov n k total) := by
  induction n generalizing k total with
  | zero => exact storesIn_ret _
  | succ n ih =>
      unfold writevFrom
      dsimp only
      split
      · exact ih _ _
      · split
        · exact storesIn_ret _
        · exact ih _ _

@[simp] theorem sysWrite_storesIn : StoresIn bufs (sysWrite env f) :=
  storesIn_withFd fun _ => storesIn_ret _

@[simp] theorem sysClose_storesIn : StoresIn bufs (sysClose env) :=
  storesIn_withProcess fun _ => storesIn_ret _

@[simp] theorem sysDup_storesIn : StoresIn bufs (sysDup env f) :=
  storesIn_withFd fun _ => storesIn_allocated _

@[simp] theorem sysWritev_storesIn : StoresIn bufs (sysWritev env mem f) :=
  storesIn_withIov fun _ => writevFrom_storesIn _ _ _

@[simp] theorem sysOpen_storesIn : StoresIn bufs (sysOpen env f) := by
  apply storesIn_withProcess
  intro p
  dsimp only
  split
  · exact storesIn_allocated _
  · split
    · split
      · exact storesIn_ret _
      · exact storesIn_err _
      · exact storesIn_ret _
      · exact storesIn_allocated _
    · exact storesIn_ret _

@[simp] theorem sysLseek_storesIn : StoresIn bufs (sysLseek env f) := by
  apply storesIn_withFd
  intro d
  dsimp only
  repeat' split
  all_goals simp

@[simp] theorem sysDup2_storesIn : StoresIn bufs (sysDup2 env f) := by
  apply storesIn_withProcess
  intro p
  dsimp only
  repeat' split
  all_goals simp

@[simp] theorem sysFcntl_storesIn : StoresIn bufs (sysFcntl env f) := by
  apply storesIn_withProcess
  intro p
  split
  · exact storesIn_err _
  · dsimp only
    split
    · exact dupFdFrom_storesIn _ _ _
    · repeat' split
      all_goals simp

@[simp] theorem sysAccess_storesIn : StoresIn bufs (sysAccess env f) := by
  apply storesIn_withProcess
  intro p
  split
  all_goals exact storesIn_ret _

@[simp] theorem sysMmap_storesIn : StoresIn bufs (sysMmap env f) := by
  apply storesIn_withProcess
  intro p
  repeat' split
  all_goals simp

@[simp] theorem onRange_storesIn {call : Word → Word → Bool} : StoresIn bufs (onRange env f call) := by
  apply storesIn_withProcess
  intro p
  repeat' split
  all_goals simp

@[simp] theorem sysBrk_storesIn : StoresIn bufs (sysBrk env f) := by
  unfold sysBrk
  repeat' split
  all_goals exact storesIn_ret _

@[simp] theorem tkillOf_storesIn {sig : Word} : StoresIn bufs (tkillOf env sig) := by
  apply storesIn_withProcess
  intro p
  dsimp only
  split
  · exact storesIn_err _
  · exact storesIn_ret _

@[simp] theorem sysFork_storesIn : StoresIn bufs (sysFork env) := by
  unfold sysFork
  split
  · exact storesIn_err _
  · exact storesIn_ret _

@[simp] theorem sysClone_storesIn : StoresIn bufs (sysClone env f) := by
  apply storesIn_withProcess
  intro p
  split
  all_goals exact storesIn_ret _

@[simp] theorem sysExit_storesIn : StoresIn bufs (sysExit env) := by
  unfold sysExit
  split
  · exact storesIn_none
  · exact storesIn_ret _

@[simp] theorem sysNanosleep_storesIn : StoresIn bufs (sysNanosleep env mem f) := by
  unfold sysNanosleep
  dsimp only
  split
  · exact storesIn_err _
  · split
    · exact storesIn_ret _
    · exact storesIn_none

/-- What a call stores through user pointers is in the buffers that its arguments name. -/
theorem userCase_storesIn
    (hoff : f.rax = 19 → ∀ b ∈ outBuffers mem f, Apart f.rsi (16 * iovcnt f) b.1 b.2) :
    StoresIn (outBuffers mem f) (userCase env mem f) := by
  have hreadv : f.rax.toNat = 19 → f.rax = 19 := fun h => BitVec.eq_of_toNat_eq h
  unfold userCase outBuffers
  unfold outBuffers at hoff
  generalize hrax : f.rax.toNat = num at *
  split
  · exact sysRead_storesIn
  · exact sysGetdents64_storesIn
  · exact sysReadv_storesIn (hoff (hreadv rfl))
  · exact sysPipe_storesIn
  · exact rtSigaction_storesIn
  · exact rtSigprocmask_storesIn
  · exact sysWaitpid_storesIn
  · exact statOf_storesIn
  · exact sysFstat_storesIn
  · exact statOf_storesIn
  · exact statOf_storesIn
  · exact sysClockGettime_storesIn
  · exact sysGettimeofday_storesIn
  · exact sysArchPrctl_storesIn
  · exact sysUname_storesIn
  · exact sysIoctl_storesIn
  · -- the calls without a buffer; the others are excluded
    split
    all_goals simp [sysGetpid, sysGetppid, sysGettid, sysMunmap, sysMprotect, sysTkill, sysTgkill] at *

end

/-! ## Frames in a memory of bytes -/

/-- The fields of the frame are quadwords, -/
theorem frameFields_aligned (f : InterruptFrame) : ∀ x ∈ frameFields f, x.1.toNat % 8 = 0 := by
  intro x hx
  have hoff : x.1 ∈ frameOffsets := by
    rw [← frameFields_offsets f]
    exact List.mem_map_of_mem hx
  have hall : ∀ off ∈ frameOffsets, off.toNat % 8 = 0 := by simp [frameOffsets]
  exact hall x.1 hoff

/-- and each reads back what was put there. -/
theorem putRegs_get {mem : ByteMem} {ptr off v : Word} {f : InterruptFrame}
    (h : (off, v) ∈ frameFields f) : (putRegs mem ptr f).loadWord (ptr + off) = v := by
  apply loadWord_storeFields
  · exact frameFields_aligned f
  · rw [frameFields_offsets]
    exact frameOffsets_nodup
  · exact h

/-- What is assigned to `*regs` is read back. -/
theorem frameIn_putRegs (mem : ByteMem) (ptr : Word) (f : InterruptFrame) :
    frameIn (putRegs mem ptr f) ptr = f := frameAt_of_fields fun _ hx => putRegs_get hx

/-- Stores off the frame leave it alone. -/
theorem frameIn_applyStores {mem : ByteMem} {ptr : Word} {stores : List Store}
    (h : ∀ s ∈ stores, Apart ptr 176 s.addr s.bytes.length) :
    frameIn (applyStores mem stores) ptr = frameIn mem ptr := by
  apply frameAt_congr
  intro off hoff
  apply loadWord_applyStores
  intro s hs
  apply (h s hs).part
  have hall : ∀ off ∈ frameOffsets, off.toNat ≤ 168 := by simp [frameOffsets]
  have hin := @within_add ptr off.toNat 8 176 (Nat.add_le_add_right (hall off hoff) 8)
  rw [BitVec.ofNat_toNat, BitVec.setWidth_eq] at hin
  exact hin

/-! ## When the frame is kept -/

/-- The same frame before and after. -/
theorem FrameKept.of_eq {mem mem' : ByteMem} {ptr : Word}
    (h : frameIn mem' ptr = frameIn mem ptr) : FrameKept mem mem' ptr :=
  ⟨(frameIn mem ptr).rax, h⟩

/-- The fields but `rax`, which is at 112. -/
theorem frameKept_iff_fields {mem mem' : ByteMem} {ptr : Word} :
    FrameKept mem mem' ptr ↔
      ∀ off ∈ frameOffsets, off ≠ 112 → mem'.loadWord (ptr + off) = mem.loadWord (ptr + off) := by
  constructor
  · rintro ⟨rax, h⟩
    simp only [frameIn, frameAt, InterruptFrame.mk.injEq] at h
    simp only [frameOffsets, List.forall_mem_cons, List.not_mem_nil, false_implies, implies_true,
      and_true, ne_eq, not_true_eq_false, h]
  · intro h
    refine ⟨(frameIn mem' ptr).rax, ?_⟩
    simp only [frameOffsets, List.forall_mem_cons, List.not_mem_nil, false_implies, implies_true,
      and_true] at h
    simp only [frameIn, frameAt, InterruptFrame.mk.injEq, true_and]
    simpa using h

section
variable {env : SyscallEnv} {mem : ByteMem} {ptr : Word} {r : Returned}

/-- Buffers off the frame spare it. -/
theorem copiesSpare_of_off (hoff : BuffersOff mem ptr (frameIn mem ptr)) :
    CopiesSpare env mem ptr := by
  have hspares : frameIn (applyStores mem (copies env mem (frameIn mem ptr))) ptr =
      frameIn mem ptr := by
    apply frameIn_applyStores
    unfold copies
    cases hcase : userCase env mem (frameIn mem ptr) with
    | none => exact nofun
    | some done =>
        intro s hs
        obtain ⟨b, hb, hin⟩ := userCase_storesIn hoff.iov done.1 done.2 hcase s hs
        exact (hoff.frame b hb).within hin
  exact frameKept_iff_fields.mp (.of_eq hspares)

/-- A call that copies nothing out. -/
theorem copiesSpare_of_none (h : copies env mem (frameIn mem ptr) = []) :
    CopiesSpare env mem ptr := by
  intro off _ _
  rw [h]
  rfl

/-- A case that only reads the frame keeps it if and only if its stores spare it. -/
theorem plain_kept_iff (h : plain mem (userCase env mem (frameIn mem ptr)) = some r) :
    FrameKept mem r.mem ptr ↔ CopiesSpare env mem ptr := by
  rcases Option.map_eq_some_iff.mp h with ⟨⟨rax, stores⟩, hdone, rfl⟩
  have hcopies : copies env mem (frameIn mem ptr) = stores := by
    unfold copies
    rw [hdone]
    rfl
  unfold CopiesSpare
  rw [hcopies]
  exact frameKept_iff_fields

/-- Any number but `sys_openat`. -/
theorem dispatchOnce_kept_iff (h : dispatchOnce env mem ptr = some r)
    (hkeeps : ¬ Replaces env (frameIn mem ptr)) :
    FrameKept mem r.mem ptr ↔ CopiesSpare env mem ptr := by
  unfold dispatchOnce at h
  dsimp only at h
  split at h
  · rename_i hexecve
    split at h
    · -- an `execve` that fails copies nothing out
      cases h
      have hnone : copies env mem (frameIn mem ptr) = [] := by
        unfold copies userCase
        rw [hexecve]
        rfl
      exact iff_of_true (.of_eq rfl) (copiesSpare_of_none hnone)
    · -- an `execve` that succeeds
      rename_i result hloaded
      exact absurd (.inr ⟨hexecve, result, hloaded⟩) hkeeps
  · split at h
    · rename_i hsigreturn
      exact absurd (.inl hsigreturn) hkeeps
    · exact plain_kept_iff h

theorem openatFrame_kept {f : InterruptFrame} :
    (∃ rax, openatFrame f = { f with rax := rax }) ↔
      f.rsi = f.rdi ∧ (f.rdx.setWidth 32 : BitVec 32).setWidth 64 = f.rsi := by
  unfold openatFrame
  constructor
  · rintro ⟨rax, heq⟩
    simp only [InterruptFrame.mk.injEq, true_and, and_true] at heq
    exact ⟨heq.1, heq.2.1⟩
  · rintro ⟨hrdi, hrsi⟩
    refine ⟨2, ?_⟩
    dsimp only
    rw [hrsi, hrdi]

/-- `sys_openat` of a process is `sys_open` with the arguments moved. -/
theorem dispatch_openat (hrax : (frameIn mem ptr).rax = 257) (hprocess : env.process.isNone ≠ true) :
    dispatch env mem ptr =
      plain (putRegs mem ptr (openatFrame (frameIn mem ptr)))
        (sysOpen env (openatFrame (frameIn mem ptr))) := by
  have hagain : frameIn (putRegs mem ptr (openatFrame (frameIn mem ptr))) ptr =
      openatFrame (frameIn mem ptr) := frameIn_putRegs mem ptr _
  have hopen : (openatFrame (frameIn mem ptr)).rax = 2 := rfl
  have hcase : userCase env (putRegs mem ptr (openatFrame (frameIn mem ptr)))
      (openatFrame (frameIn mem ptr)) = sysOpen env (openatFrame (frameIn mem ptr)) := by
    unfold userCase
    rw [hopen]
    rfl
  unfold dispatch
  dsimp only
  rw [if_pos hrax, if_neg hprocess, dispatchOnce, hagain]
  dsimp only
  rw [hopen, if_neg (by decide), if_neg (by decide), hcase]

/-- The frame that is left is the one that was dispatched again. -/
theorem openat_kept_iff (h : dispatch env mem ptr = some r) (hrax : (frameIn mem ptr).rax = 257)
    (hprocess : env.process.isNone ≠ true) :
    FrameKept mem r.mem ptr ↔
      (frameIn mem ptr).rsi = (frameIn mem ptr).rdi ∧
        ((frameIn mem ptr).rdx.setWidth 32 : BitVec 32).setWidth 64 = (frameIn mem ptr).rsi := by
  rw [dispatch_openat hrax hprocess] at h
  have hleft : frameIn r.mem ptr = openatFrame (frameIn mem ptr) := by
    rcases Option.map_eq_some_iff.mp h with ⟨⟨rax, stores⟩, hopen, rfl⟩
    have hstores : StoresIn [] (sysOpen env (openatFrame (frameIn mem ptr))) := sysOpen_storesIn
    have hnone : ∀ s ∈ stores, Apart ptr 176 s.addr s.bytes.length := by
      intro s hs
      obtain ⟨b, hb, _⟩ := hstores rax stores hopen s hs
      exact absurd hb List.not_mem_nil
    exact (frameIn_applyStores hnone).trans (frameIn_putRegs mem ptr _)
  unfold FrameKept
  rw [hleft]
  exact openatFrame_kept

/-- Only `rax` changes if and only if the call is no `sys_openat` that moves its
arguments, and none that copies out over the frame; and no call does the latter whose
buffers are off the frame. -/
theorem frameKept_iff (h : dispatch env mem ptr = some r)
    (hkeeps : ¬ Replaces env (frameIn mem ptr)) :
    (FrameKept mem r.mem ptr ↔ OpenatKeeps env (frameIn mem ptr) ∧ CopiesSpare env mem ptr) ∧
      (BuffersOff mem ptr (frameIn mem ptr) → CopiesSpare env mem ptr) := by
  refine ⟨?_, copiesSpare_of_off⟩
  by_cases hopenat : (frameIn mem ptr).rax = 257
  · -- `sys_open` copies nothing out
    have hspares : CopiesSpare env mem ptr := by
      apply copiesSpare_of_none
      unfold copies userCase
      rw [hopenat]
      rfl
    by_cases hprocess : env.process.isNone = true
    · -- no process, no call
      unfold dispatch at h
      dsimp only at h
      rw [if_pos hopenat, if_pos hprocess] at h
      cases h
      exact iff_of_true (.of_eq rfl) ⟨fun _ => .inl hprocess, hspares⟩
    · rw [openat_kept_iff h hopenat hprocess]
      constructor
      · intro hsame
        exact ⟨fun _ => .inr hsame, hspares⟩
      · rintro ⟨hcond, _⟩
        rcases hcond hopenat with hnone | hsame
        · exact absurd hnone hprocess
        · exact hsame
  · unfold dispatch at h
    dsimp only at h
    rw [if_neg hopenat] at h
    rw [dispatchOnce_kept_iff h hkeeps]
    constructor
    · intro hspares
      exact ⟨fun hrax => absurd hrax hopenat, hspares⟩
    · exact And.right

end

/-! ## Two calls -/

/-- A thread with one open file, on which three bytes can be read. -/
def oneFile : SyscallEnv where
  thread := some
    { tid := 3
      blocked := 0
      process := some
        { pid := 1
          parentPid := none
          heapStart := 0x500000
          heapEnd := 0x500000
          signalAction := fun _ => {}
          getFd := fun fd =>
            if fd = 3 then
              some
                { vnode := none
                  offset := 0
                  flags := 0
                  read := fun _ _ size => (.ok 3, [104, 105, 10].take size.toNat)
                  read_le := fun _ _ size => List.length_take_le size.toNat _
                  write := fun _ _ size => .ok size }
            else none } }
  allocateFd := fun _ => .ok 4
  allocateFdAt := fun fd => .ok fd
  mapAnonymous := fun addr _ => some addr
  unmap := fun _ _ => true
  protect := fun _ _ => true
  pathToVnode := fun _ => .ok ⟨0xFFFF900000001000, .regular, 0o644, 3, none, nofun⟩
  subPathToVnode := fun _ _ => .error (-Fs.Vfs.ENOENT)
  rFindSlash := fun _ => some 0
  createIn := fun _ _ => none
  createSpace := true
  load := .error (-Proc.ElfLoader.ENOEXEC)
  createPipe := true
  fork := .ok 2
  newTid := 4
  findChild := fun _ => none
  nowNanoseconds := 0
  nowWallClock := 0
  reaches := fun _ => true
  fsBase := 0
  userRsp := 0x7FFFFFFFE000

/-- A frame on the kernel stack with these arguments of a system call. -/
def callFrame (rax rdi rsi rdx : Word) : InterruptFrame where
  r15 := 15
  r14 := 14
  r13 := 13
  r12 := 12
  r11 := 0x202
  r10 := 0
  r9 := 9
  r8 := 8
  rbp := 0x7FFFFFFFE100
  rdi := rdi
  rsi := rsi
  rdx := rdx
  rcx := 0x401000
  rbx := 3
  rax := rax
  interruptNumber := 0
  errorCode := 0
  rip := 0x401000
  cs := 0x23
  rflags := 0x202
  rsp := 0x7FFFFFFFE000
  ss := 0x1B

/-- A place on a kernel stack, -/
def kernelPtr : Word := 0xFFFF900000030000

/-- and a frame there. -/
def callMem (f : InterruptFrame) : ByteMem := putRegs (fun _ => 0) kernelPtr f

theorem frameIn_callMem (f : InterruptFrame) : frameIn (callMem f) kernelPtr = f :=
  frameIn_putRegs _ _ _

/-- `read(3, 0x5000, 3)` keeps the frame. -/
theorem read_keeps :
    ∃ r, dispatch oneFile (callMem (callFrame 0 3 0x5000 3)) kernelPtr = some r ∧ r.rax = 3 ∧
      FrameKept (callMem (callFrame 0 3 0x5000 3)) r.mem kernelPtr := by
  have hcall : dispatch oneFile (callMem (callFrame 0 3 0x5000 3)) kernelPtr =
      plain (callMem (callFrame 0 3 0x5000 3)) (some (3, [⟨0x5000, [104, 105, 10]⟩])) := by
    unfold dispatch dispatchOnce
    rw [frameIn_callMem]
    rfl
  have hkeeps : ¬ Replaces oneFile (frameIn (callMem (callFrame 0 3 0x5000 3)) kernelPtr) := by
    rw [frameIn_callMem]
    rintro (h | ⟨h, -⟩)
    · exact absurd h (by decide)
    · exact absurd h (by decide)
  obtain ⟨hiff, hspares⟩ := frameKept_iff hcall hkeeps
  refine ⟨_, hcall, rfl, hiff.mpr ⟨?_, hspares ?_⟩⟩
  · rw [frameIn_callMem]
    intro h
    exact absurd h (by decide)
  · rw [frameIn_callMem]
    refine ⟨?_, fun h => absurd h (by decide)⟩
    intro b hb
    obtain rfl := List.mem_singleton.mp hb
    intro i hi j hj
    have hj' : j < 3 := hj
    show kernelPtr + BitVec.ofNat 64 i ≠ 0x5000 + BitVec.ofNat 64 j
    -- user memory and the kernel stack are far apart
    unfold kernelPtr
    bv_omega

/-- `openat(AT_FDCWD, 0x5000, 0)` returns with the path in `rdi` and 0 in `rsi`. -/
theorem openat_moves : ¬ FrameLaw := by
  intro hlaw
  have hframe := frameIn_callMem (callFrame 257 (-100) 0x5000 0)
  have hrax : (frameIn (callMem (callFrame 257 (-100) 0x5000 0)) kernelPtr).rax = 257 := by
    rw [hframe]
    rfl
  have hcall := @dispatch_openat oneFile _ _ hrax (by decide)
  rw [hframe] at hcall
  have hopen : sysOpen oneFile (openatFrame (callFrame 257 (-100) 0x5000 0)) = some (4, []) := rfl
  rw [hopen] at hcall
  have hkept := hlaw _ _ _ _ hcall (by
    rw [hframe]
    rintro (h | ⟨h, -⟩)
    · exact absurd h (by decide)
    · exact absurd h (by decide))
  rw [openat_kept_iff hcall hrax (by decide), hframe] at hkept
  exact absurd hkept.1 (by decide)

end Ceryx.Cpu.Syscall
