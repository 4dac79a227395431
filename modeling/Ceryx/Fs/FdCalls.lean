import Ceryx.Fs.FdMap
import Ceryx.Fs.FileEnds
import Ceryx.Fs.Getdents

/-!
# Ceryx.Fs.FdCalls — the system calls that take a descriptor

`FileSys` of `Ceryx.Fs.FileDescription` has the descriptor tables, the
descriptions and the pipes; all other vnodes are `other` there. Here these are the
vnodes of the RAM file system and the devices of `main.cpp`, with the memory that
the files are in.

* `FdState.pages`: the results that `AllocatePage` is going to have.
* `descRead`, `descWrite`: `FileDescription::Read` and `Write`, up to the end or the
  first wait. An `int` that `Pipe::Write` returns is a value (`WriteResult.value`).
* `sysOpen` and the calls on descriptors, one definition each. `FdCall` has the
  twelve that take a descriptor.
-/

namespace Ceryx.Fs

open Lib Proc Vfs

def EPERM : Int := 1
def ENOTTY : Int := 25

/-! ## Devices -/

/-- The `PseudoFsNode`s of `start_kernel`. -/
inductive Device where
  | null | zero | tty | version
deriving DecidableEq, Repr

/-- The text of `/proc/version`. -/
def kVersion : List UInt8 :=
  "Linux version 6.1.0 (ceryx-kernel) (clang) #1\n".toList.map fun c => UInt8.ofNat c.toNat

/-- `read_cb`: the value returned and the bytes stored. -/
def Device.read : Device → Nat → Nat → Nat × List UInt8
  | .null, _, _ => (0, [])
  | .zero, size, _ => (size, List.replicate size 0)
  | .tty, _, _ => (0, [])
  | .version, size, off =>
      if kVersion.length ≤ off then (0, [])
      else
        let toCopy := min (kVersion.length - off) size
        (toCopy, (kVersion.drop off).take toCopy)

/-- `write_cb`, which `/proc/version` does not have. -/
def Device.write : Device → Nat → Except Int Nat
  | .version, _ => .error (-EPERM)
  | _, size => .ok size

/-! ## RAM files -/

section
variable {V : Type} (vm : RamFs.VmObject V)

/-- `RamFsOpsImpl::Write`, with the results of `AllocatePage` that are left. -/
def RamFs.writeRest (ram : RamFs.Ram) (node : RamFs.RamFsNode V) (src : List UInt8) (offset : Nat)
    (pages : List (Option Nat)) :
    Except Int Nat × RamFs.RamFsNode V × RamFs.Ram × List (Option Nat) :=
  if node.type ≠ .regular then (.error (-RamFs.EISDIR), node, ram, pages)
  else
    match node.vmo with
    | none => (.error (-RamFs.ENOMEM), node, ram, pages)
    | some vmo =>
        match RamFs.writeLoop vm src offset src.length 0 { ram with vmo := vmo, pages := pages } with
        | (.error e, w) => (.error e, { node with vmo := some w.vmo }, w.toRam, w.pages)
        | (.ok copied, w) =>
            (.ok copied,
              { node with vmo := some w.vmo, size := RamFs.grownSize node.size src.length offset },
              w.toRam, w.pages)

theorem RamFs.writeRest_eq (ram : RamFs.Ram) (node : RamFs.RamFsNode V) (src : List UInt8)
    (offset : Nat) (pages : List (Option Nat)) :
    RamFs.write vm ram node src offset pages =
      ((RamFs.writeRest vm ram node src offset pages).1,
        (RamFs.writeRest vm ram node src offset pages).2.1,
        (RamFs.writeRest vm ram node src offset pages).2.2.1) := by
  unfold RamFs.write RamFs.writeRest
  -- the two definitions differ in what they return, not in what they do
  by_cases htype : node.type = .regular
  · rw [if_neg (not_not_intro htype), if_neg (not_not_intro htype)]
    cases node.vmo with
    | none => rfl
    | some vmo =>
        dsimp only
        rcases RamFs.writeLoop vm src offset src.length 0 { ram with vmo := vmo, pages := pages }
          with ⟨e | copied, w⟩
        · rfl
        · rfl
  · rw [if_pos htype, if_pos htype]

end

/-! ## The state -/

structure FdState (V : Type) extends FileSys, RamFs.Ram where
  tree : Vnodes V
  /-- The vnode in the tree of a description that is on no pipe. -/
  fileOf : DescId → Nat := fun _ => 0
  device : Nat → Option Device := fun _ => none
  pages : List (Option Nat) := []

/-- How a call ends: in a wait, or with its result. -/
inductive CallEnd where
  | waits
  | returns (rax : Int)
deriving DecidableEq, Repr

namespace FdState

variable {V : Type} (vm : RamFs.VmObject V)

/-- A call on the tables and descriptions alone. -/
def onFileSys (s : FdState V) (r : Int × FileSys) : Int × FdState V :=
  (r.1, { s with toFileSys := r.2 })

/-- `fd_desc->vnode->size`. -/
def vnodeSize (s : FdState V) (d : DescId) : Nat :=
  match (s.descs d).vnode with
  | .pipe _ => 0
  | .other => (s.tree.node (s.fileOf d)).size

def setOffset (s : FdState V) (d : DescId) (offset : Nat) : FdState V :=
  { s with toFileSys := s.updDesc d fun x => { x with offset := offset } }

/-- `offset += result.Value()`. -/
def advance (s : FdState V) (d : DescId) (n : Nat) : FdState V :=
  { s with toFileSys := s.toFileSys.advance d n }

/-! ## sys_open -/

/-- `parent_dir->ops->Create`. -/
def create (s : FdState V) (parent : Nat) (filename : StringView) (alloc : VnodeAlloc) :
    Except Int Nat × FdState V :=
  match s.device parent with
  | some _ => (.error (-EPERM), s)
  | none =>
      let (result, tree) := Vnodes.create vm s.tree parent filename alloc
      (result, { s with tree := tree })

/-- `target_vnode` of `sys_open`. -/
def targetVnode (s : FdState V) (process : ProcessDirs) (path : StringView) (flags : BitVec 32)
    (alloc : VnodeAlloc) : Except Int Nat × FdState V :=
  match s.tree.pathToVnode process.root path with
  | .ok vnode =>
      (.ok vnode,
        if flags &&& O_TRUNC ≠ 0 then { s with tree := s.tree.truncate vnode } else s)
  | .error e =>
      if flags &&& O_CREAT ≠ 0 then
        match s.tree.parentAndName process path with
        | .error e => (.error e, s)
        | .ok (none, _) => (.error (-ENOENT), s)
        | .ok (some parent, filename) => s.create vm parent filename alloc
      else (.error e, s)

/-- `new FileDescription(target_vnode, flags)`, with the offset for `O_APPEND`. -/
def openVnode (s : FdState V) (vnode : Nat) (flags : BitVec 32) : DescId × FdState V :=
  let (desc, fs) := s.newDescription .other flags
  let s := { s with toFileSys := fs, fileOf := Function.update s.fileOf desc vnode }
  (desc, if flags &&& O_APPEND ≠ 0 then s.setOffset desc (s.tree.node vnode).size else s)

/-- `sys_open` of process `p`. -/
def sysOpen (s : FdState V) (p : ProcId) (process : ProcessDirs) (path : StringView)
    (flags : BitVec 32) (alloc : VnodeAlloc) (grow : Nat → Bool) : Int × FdState V :=
  match s.targetVnode vm process path flags alloc with
  | (.error e, s) => (e, s)
  | (.ok vnode, s) =>
      let (desc, s) := s.openVnode vnode flags
      match allocateFd (s.tables p) desc grow with
      | .ok (fd, table) => (fd, { s with toFileSys := s.setTable p table })
      | .error e => (e, { s with toFileSys := s.settle desc })

/-! ## Read and write -/

/-- `vnode->ops->Read` of a vnode that is no pipe. -/
def vnodeRead (s : FdState V) (vnode size offset : Nat) : Except Int (Nat × List UInt8) :=
  match s.device vnode with
  | some dev => .ok (dev.read size offset)
  | none => RamFs.read vm s.mem (s.tree.node vnode).toRamFsNode size offset

/-- `vnode->ops->Write` of a vnode that is no pipe. -/
def vnodeWrite (s : FdState V) (vnode : Nat) (src : List UInt8) (offset : Nat) :
    Except Int Nat × FdState V :=
  match s.device vnode with
  | some dev => (dev.write src.length, s)
  | none =>
      let (result, node, ram, pages) :=
        RamFs.writeRest vm s.toRam (s.tree.node vnode).toRamFsNode src offset s.pages
      (result, { s with toRam := ram, tree := s.tree.setNode vnode node, pages := pages })

/-- A stretch of `FileDescription::Read`: `none` in a wait, otherwise the result and
the bytes stored. -/
def descRead (s : FdState V) (d : DescId) (size : Nat) :
    Option (Except Int (Nat × List UInt8) × FdState V) :=
  match (s.descs d).vnode with
  | .pipe v =>
      match (s.pipes v).read size with
      | none => none
      | some (n, bytes, pipe) =>
          some (.ok (n, bytes), { s with toFileSys := (s.setPipe v pipe).advance d n })
  | .other =>
      match s.vnodeRead vm (s.fileOf d) size (s.descs d).offset with
      | .error e => some (.error e, s)
      | .ok (n, bytes) => some (.ok (n, bytes), s.advance d n)

/-- A stretch of `FileDescription::Write` on a pipe. -/
def pipeEnd (s : FdState V) (d : DescId) (v : PipeId) (res : WriteOutcome × Pipe kDefaultCapacity) :
    (Except Int Nat ⊕ Nat) × FdState V :=
  let s := { s with toFileSys := s.setPipe v res.2 }
  match res.1 with
  | .waits written => (.inr written, s)
  | .returned r => (.inl (.ok r.value), s.advance d r.value)

/-- `FileDescription::Write` from its start: the result, or `written_bytes` in a
wait. -/
def descWrite (s : FdState V) (d : DescId) (src : List UInt8) :
    (Except Int Nat ⊕ Nat) × FdState V :=
  match (s.descs d).vnode with
  | .pipe v => s.pipeEnd d v ((s.pipes v).write src)
  | .other =>
      match s.vnodeWrite vm (s.fileOf d) src (s.descs d).offset with
      | (.error e, s) => (.inl (.error e), s)
      | (.ok n, s) => (.inl (.ok n), s.advance d n)

/-- The call of process `p` waits. -/
def block (s : FdState V) (p : ProcId) (d : DescId) (request : Request) (written : Nat) :
    FdState V :=
  { s with blocked := s.blocked ++ [⟨p, d, request, written⟩] }

/-- `sys_read`; next to the result, the bytes stored. -/
def sysRead (s : FdState V) (p : ProcId) (fd size : Nat) : (CallEnd × List UInt8) × FdState V :=
  match getFd (s.tables p) fd with
  | none => ((.returns (-EBADF), []), s)
  | some d =>
      match s.descRead vm d size with
      | none => ((.waits, []), s.block p d (.read size) 0)
      | some (.error e, s) => ((.returns e, []), s)
      | some (.ok (n, bytes), s) => ((.returns n, bytes), s)

/-- `sys_write`. -/
def sysWrite (s : FdState V) (p : ProcId) (fd : Nat) (src : List UInt8) : CallEnd × FdState V :=
  match getFd (s.tables p) fd with
  | none => (.returns (-EBADF), s)
  | some d =>
      match s.descWrite vm d src with
      | (.inr written, s) => (.waits, s.block p d (.write src) written)
      | (.inl (.error e), s) => (.returns e, s)
      | (.inl (.ok n), s) => (.returns n, s)

/-- The loop of `sys_readv` over the lengths that are left; the bytes stored, one
after the other. -/
def readvLoop (d : DescId) : List Nat → Nat → List UInt8 → FdState V →
    (CallEnd × List UInt8) × FdState V
  | [], total, bytes, s => ((.returns total, bytes), s)
  | len :: rest, total, bytes, s =>
      if len = 0 then readvLoop d rest total bytes s
      else
        match s.descRead vm d len with
        | none => ((.waits, bytes), s)
        | some (.error e, s) => ((.returns e, bytes), s)
        | some (.ok (n, more), s) =>
            let total := RamFs.usizeAdd total n
            if n < len then ((.returns total, bytes ++ more), s)
            else readvLoop d rest total (bytes ++ more) s

/-- `sys_readv` with the lengths of the `iovcnt` buffers; `none` is a null pointer,
and a count that is not positive has no buffers. -/
def sysReadv (s : FdState V) (p : ProcId) (fd : Nat) (iov : Option (List Nat)) :
    (CallEnd × List UInt8) × FdState V :=
  match getFd (s.tables p) fd with
  | none => ((.returns (-EBADF), []), s)
  | some d =>
      match iov with
      | none | some [] => ((.returns (-EINVAL), []), s)
      | some lens => readvLoop vm d lens 0 [] s

/-- The loop of `sys_writev` over the buffers that are left. -/
def writevLoop (d : DescId) : List (List UInt8) → Nat → FdState V → CallEnd × FdState V
  | [], total, s => (.returns total, s)
  | src :: rest, total, s =>
      if src.length = 0 then writevLoop d rest total s
      else
        match s.descWrite vm d src with
        | (.inr _, s) => (.waits, s)
        | (.inl (.error e), s) => (.returns e, s)
        | (.inl (.ok n), s) => writevLoop d rest (RamFs.usizeAdd total n) s

/-- `sys_writev`, as `sysReadv`. -/
def sysWritev (s : FdState V) (p : ProcId) (fd : Nat) (iov : Option (List (List UInt8))) :
    CallEnd × FdState V :=
  match getFd (s.tables p) fd with
  | none => (.returns (-EBADF), s)
  | some d =>
      match iov with
      | none | some [] => (.returns (-EINVAL), s)
      | some bufs => writevLoop vm d bufs 0 s

/-! ## The other calls -/

/-- `sys_lseek`. -/
def sysLseek (s : FdState V) (p : ProcId) (fd : Nat) (offset : BitVec 64) (whence : BitVec 32) :
    Int × FdState V :=
  match getFd (s.tables p) fd with
  | none => (-EBADF, s)
  | some d =>
      match RamFs.OpenFiles.seekTo (s.descs d).offset (s.vnodeSize d) offset.toInt whence.toInt with
      | .error e => (e, s)
      | .ok offset => (offset, s.setOffset d offset)

/-- `VnodeTypeToMode`. -/
def vnodeTypeToMode : RamFs.VnodeType → Nat
  | .regular => 0o100000
  | .directory => 0o040000
  | .blockDevice => 0o060000
  | .charDevice => 0o020000
  | .symLink => 0o120000
  | .socket => 0o140000
  | .fifo => 0o010000

/-- What `VnodeToStat` fills in; no vnode has permission bits. -/
structure KernelStat where
  ino : BitVec 64
  nlink : Nat := 1
  mode : Nat
  size : Int
  blksize : Nat := 4096
  blocks : Nat
deriving DecidableEq, Repr

/-- `VnodeToStat`, of a vnode at an address. -/
def vnodeToStat (type : RamFs.VnodeType) (size : Nat) (addr : BitVec 64) : KernelStat where
  ino := addr
  mode := vnodeTypeToMode type
  size := (BitVec.ofNat 64 size).toInt
  blocks := RamFs.usizeAdd size 511 / 512

/-- `sys_fstat`; `addr` is where the vnode of a description lies. -/
def sysFstat (addr : DescId → BitVec 64) (s : FdState V) (p : ProcId) (fd : Nat) :
    (Int × Option KernelStat) × FdState V :=
  match getFd (s.tables p) fd with
  | none => ((-EBADF, none), s)
  | some d =>
      let type := match (s.descs d).vnode with
        | .pipe _ => .fifo
        | .other => (s.tree.node (s.fileOf d)).type
      ((0, some (vnodeToStat type (s.vnodeSize d) (addr d))), s)

/-- `sys_getdents64`: `none` when its loop does not end. -/
def sysGetdents64 (addr : Nat → BitVec 64) (s : FdState V) (p : ProcId) (fd : Nat)
    (buf : Nat → UInt8) (bufLen : Nat) : Option ((Int × (Nat → UInt8)) × FdState V) :=
  match getFd (s.tables p) fd with
  | none => some ((-EBADF, buf), s)
  | some d =>
      match (s.descs d).vnode with
      | .pipe _ => some ((-ENOTDIR, buf), s)
      | .other =>
          let dir := s.fileOf d
          if s.tree.isDirectory dir = false then some ((-ENOTDIR, buf), s)
          else
            match iterate s.tree addr dir buf bufLen (s.descs d).offset with
            | .error e => some ((e, buf), s)
            | .ok (n, buf) =>
                if 0 < n then
                  (walkRecords buf n (n + 1) 0 (s.descs d).offset).map fun offset =>
                    ((n, buf), s.setOffset d offset)
                else some ((n, buf), s)

def TCGETS : BitVec 64 := 0x5401
def TCSETS : BitVec 64 := 0x5402
def TIOCGWINSZ : BitVec 64 := 0x5413
def FIONREAD : BitVec 64 := 0x541B

/-- What `sys_ioctl` stores: a `WinSize` or an `int`. -/
inductive IoctlStore where
  | winSize (row col xpixel ypixel : BitVec 16)
  | avail (n : Int)
deriving DecidableEq, Repr

/-- `sys_ioctl`, with what it stores at `arg`. -/
def sysIoctl (s : FdState V) (p : ProcId) (fd : Nat) (request arg : BitVec 64) :
    (Int × Option IoctlStore) × FdState V :=
  match getFd (s.tables p) fd with
  | none => ((-EBADF, none), s)
  | some _ =>
      if request = TIOCGWINSZ then
        ((0, if arg = 0 then none else some (.winSize 25 80 0 0)), s)
      else if request = TCGETS ∨ request = TCSETS then ((0, none), s)
      else if request = FIONREAD then ((0, if arg = 0 then none else some (.avail 0)), s)
      else ((-ENOTTY, none), s)

end FdState

/-! ## The twelve calls -/

/-- The system calls that take a descriptor, with their other arguments. -/
inductive FdCall where
  | read (size : Nat)
  | write (src : List UInt8)
  | close
  | lseek (offset : BitVec 64) (whence : BitVec 32)
  | dup (grow : Nat → Bool)
  | dup2 (newFd : Nat) (grow : Nat → Bool)
  | fstat
  | getdents64 (buf : Nat → UInt8) (bufLen : Nat)
  | fcntl (cmd : Int) (arg : BitVec 64) (grow : Nat → Bool)
  | ioctl (request arg : BitVec 64)
  | readv (iov : Option (List Nat))
  | writev (iov : Option (List (List UInt8)))

/-- A call that returns. -/
def done {V : Type} (r : Int × FdState V) : Option (CallEnd × FdState V) :=
  some (.returns r.1, r.2)

/-- The end of a call on descriptor `fd` and the state after it; `none` when it does
not end. `addr` and `descAddr` say where vnodes lie. -/
def FdState.call {V : Type} (vm : RamFs.VmObject V) (addr : Nat → BitVec 64)
    (descAddr : DescId → BitVec 64) (s : FdState V) (p : ProcId) (fd : Nat) :
    FdCall → Option (CallEnd × FdState V)
  | .read size => some ((s.sysRead vm p fd size).1.1, (s.sysRead vm p fd size).2)
  | .write src => some (s.sysWrite vm p fd src)
  | .close => done (s.onFileSys (s.sysClose p fd))
  | .lseek offset whence => done (s.sysLseek p fd offset whence)
  | .dup grow => done (s.onFileSys (s.sysDup p fd grow))
  | .dup2 newFd grow => done (s.onFileSys (s.sysDup2 p fd newFd grow))
  | .fstat => done ((s.sysFstat descAddr p fd).1.1, (s.sysFstat descAddr p fd).2)
  | .getdents64 buf bufLen =>
      (s.sysGetdents64 addr p fd buf bufLen).map fun r => (.returns r.1.1, r.2)
  | .fcntl cmd arg grow => done (s.onFileSys (s.sysFcntl p fd cmd arg grow))
  | .ioctl request arg => done ((s.sysIoctl p fd request arg).1.1, (s.sysIoctl p fd request arg).2)
  | .readv iov => some ((s.sysReadv vm p fd iov).1.1, (s.sysReadv vm p fd iov).2)
  | .writev iov => some (s.sysWritev vm p fd iov)

end Ceryx.Fs
