import Ceryx.Fs.OpenCreat
import Ceryx.Proc.AddressSpaces
import Ceryx.Proc.SignalReturn

/-!
# Ceryx.Proc.Execve — what a failed `execve` leaves and a successful one frees

`sys_execve` of `SyscallDispatch.cpp` with `ElfLoader::Load` inside it, and every
`WriteCr3` of the two.

* An `Executable` is the vnode of any file system, by the results of its `Read`.
  `PathToVnode`, `Create` and the functions of the inner `AddressSpace` are
  inputs too, `ExecEnv`, so that each of them can fail.
* `elfLoad_kernel`: each exit of `Load` writes back the CR3 that it has read.
* `elfLoad_ramFile`, `sysExecve_kernel`: for a file of the RAM file system this
  is `ElfLoader.load`, and as far as the address spaces go it is
  `UserKernel.execve`.
* `ExecUndone`, `ExecDone`: the process before and after the call.
* `sysExecve_undone_or_done`: there is no third way to end.

A store of `Load` behind the end of user space finds no page, and the call does
not return. So what the kernel keeps of a process changes by its assignments
only.
-/

namespace Ceryx.Proc

open Lib Fs Fs.RamFs ElfLoader

/-- An executable as `Load` uses it: whether it has an operation table, and the
results of `Read` for a size and an offset. The first argument is the program
header at which `Read` is called, as stores in between may reach the file. -/
structure Executable where
  ops : Bool
  read : Nat → Nat → Nat → Except Int (Nat × List UInt8)

/-- A file of the RAM file system. -/
def Executable.ofRamFile {V : Type} (vm : RamFs.VmObject V) (exe : Nat → Exe V) : Executable where
  ops := true
  read i size offset := RamFs.read vm (exe i).mem (exe i).node size offset

/-- A structure of the file, where `Read` returns all of it. -/
def Executable.struct (exe : Executable) (i size offset : Nat) : Option (List UInt8) :=
  match exe.read i size offset with
  | .ok (n, bytes) => if n = size then some bytes else none
  | .error _ => none

def Executable.phdrAt (exe : Executable) (header : Elf64_Ehdr) (i : Nat) : Option Elf64_Phdr :=
  (exe.struct i sizeofPhdr (phdrOffset header i)).map phdrOf

/-- The stores for a header whose range is mapped. -/
def Executable.segmentOf (exe : Executable) (i : Nat) (phdr : Elf64_Phdr) (bias : Nat) : Segment where
  start := phdr.pageAlignedVaddr bias
  size := phdr.memSize bias
  stores :=
    (match exe.read i phdr.pFilesz phdr.pOffset with
      | .ok (_, bytes) => [⟨phdr.vaddr bias, bytes⟩]
      | .error _ => []) ++ zeroStore phdr bias

/-- What the rest of the kernel answers to `sys_execve`. -/
structure ExecEnv where
  pathToVnode : VnodeRef → Vfs.StringView → Except Int Executable
  created : Bool
  loadEnv : LoadEnv

/-- The result of `sys_execve`, the kernel and the frame then, and what `Load`
has written to the new address space. -/
structure ExecResult where
  result : Except Int Unit
  kernel : UserKernel
  frame : InterruptFrame
  segments : List Segment

namespace UserKernel

/-! ## Load -/

/-- The body of the loop of `Load` for a `PT_LOAD` header. -/
def mapSegment (u : UserKernel) (env : LoadEnv) (exe : Executable) (prevCr3 i : Nat)
    (phdr : Elf64_Phdr) (bias : Nat) (s : Loading) : Except Int Unit × UserKernel × Loading :=
  if phdr.pageAlignedVaddr bias = 0 then (.error (-ENOEXEC), u.writeCr3 prevCr3, s)
  else if env.mapAnonymous i (phdr.pageAlignedVaddr bias) (phdr.memSize bias) = false then
    (.error (-ENOMEM), u.writeCr3 prevCr3, s)
  else if faultsIn env i phdr bias = false then (.error (-ENOMEM), u.writeCr3 prevCr3, s)
  else
    let top := usizeAdd (phdr.vaddr bias) phdr.pMemsz
    (.ok (), u,
      { maxVaddr := if s.maxVaddr < top then top else s.maxVaddr
        segments := s.segments ++ [exe.segmentOf i phdr bias] })

/-- The loop of `Load` from header `i` on, with the number of headers left. -/
def mapSegments (env : LoadEnv) (exe : Executable) (prevCr3 : Nat) (header : Elf64_Ehdr)
    (bias : Nat) : Nat → Nat → UserKernel → Loading → Except Int Unit × UserKernel × Loading
  | 0, _, u, s => (.ok (), u, s)
  | n + 1, i, u, s =>
      match exe.phdrAt header i with
      | none => mapSegments env exe prevCr3 header bias n (i + 1) u s
      | some phdr =>
          if phdr.pType = 1 then
            match u.mapSegment env exe prevCr3 i phdr bias s with
            | (.error e, u, s) => (.error e, u, s)
            | (.ok _, u, s) => mapSegments env exe prevCr3 header bias n (i + 1) u s
          else mapSegments env exe prevCr3 header bias n (i + 1) u s

/-- `ElfLoader::Load` behind the header, which was accepted. -/
def loadAccepted (u : UserKernel) (p : ProcId) (env : LoadEnv) (exe : Executable)
    (header : Elf64_Ehdr) (bias : Nat) : Except Int LoadResult × UserKernel × List Segment :=
  let prevCr3 := u.cr3
  let u := u.writeCr3 (u.spaceRoot (u.image p).addressSpace)
  match mapSegments env exe prevCr3 header bias header.ePhnum 0 u {} with
  | (.error e, u, s) => (.error e, u, s.segments)
  | (.ok _, u, s) =>
      match env.stack with
      | none => (.error (-ENOMEM), u.writeCr3 prevCr3, s.segments)
      | some stackBottom =>
          -- the result of `HandleFault` for the last page of the stack is not looked at
          (.ok
            { entryPoint := usizeAdd header.eEntry bias
              stackTop := usizeAdd stackBottom 0x800000
              heapBase := pageAligned (usizeAdd s.maxVaddr 0xFFF) },
            u.writeCr3 prevCr3, s.segments)

/-- `ElfLoader::Load` into process `p`. -/
def elfLoad (u : UserKernel) (p : ProcId) (env : LoadEnv) (exe : Executable) (loadBias : Nat) :
    Except Int LoadResult × UserKernel × List Segment :=
  if exe.ops = false then (.error (-ENOEXEC), u, [])
  else
    match exe.struct 0 sizeofEhdr 0 with
    | none => (.error (-ENOEXEC), u, [])
    | some bytes =>
        let header := ehdrOf bytes
        if header.eIdent.take 4 = [0x7F, 0x45, 0x4C, 0x46] then
          match effectiveBias header loadBias with
          | none => (.error (-ENOEXEC), u, [])
          | some bias => u.loadAccepted p env exe header bias
        else (.error (-ENOEXEC), u, [])

/-! ## execve -/

/-- What `sys_execve` sets in the frame. -/
def startFrame (frame : InterruptFrame) (result : LoadResult) : InterruptFrame :=
  { frame with
    rip := BitVec.ofNat 64 result.entryPoint
    rsp := BitVec.ofNat 64 result.stackTop }

/-- `sys_execve`, with the path that `rdi` points to. -/
def sysExecve (u : UserKernel) (env : ExecEnv) (path : Vfs.StringView) (frame : InterruptFrame) :
    ExecResult :=
  match u.toKernel.caller with
  | none => ⟨.error (-Vfs.ENOSYS), u, frame, []⟩
  | some (_, p) =>
      match env.pathToVnode (u.image p).root path with
      | .error e => ⟨.error e, u, frame, []⟩
      | .ok vnode =>
          if env.created = false then ⟨.error (-ENOMEM), u, frame, []⟩
          else
            let newUas := u.nextSpace
            let u := u.newSpace
            let oldUas := (u.image p).addressSpace
            let u := u.setAddressSpace p newUas
            let prevCr3 := u.cr3
            let u := u.writeCr3 (u.spaceRoot newUas)
            match u.elfLoad p env.loadEnv vnode 0 with
            | (.error e, u, segments) =>
                ⟨.error e, ((u.setAddressSpace p oldUas).writeCr3 prevCr3).destroySpace newUas, frame,
                  segments⟩
            | (.ok result, u, segments) =>
                ⟨.ok (), (u.setHeap p result.heapBase result.heapBase).destroySpace oldUas,
                  startFrame frame result, segments⟩

end UserKernel

/-! ## What is expected -/

/-- The address space of process `p` exists, and only spaces that were made have
been destroyed. -/
structure SpaceExists (u : UserKernel) (p : ProcId) : Prop where
  made : (u.image p).addressSpace < u.nextSpace
  intact : (u.image p).addressSpace ∉ u.destroyed
  old : ∀ a ∈ u.destroyed, a < u.nextSpace

/-- A space that is made between two states. -/
def MadeSince (u u' : UserKernel) (space : SpaceId) : Prop :=
  u.nextSpace ≤ space ∧ space < u'.nextSpace

/-- Process `p` and the frame are as they were before the call, the address space
is not destroyed, and a new one is destroyed once. -/
structure ExecUndone (u u' : UserKernel) (p : ProcId) (frame frame' : InterruptFrame) : Prop where
  addressSpace : (u'.image p).addressSpace = (u.image p).addressSpace
  heapStart : (u'.image p).heapStart = (u.image p).heapStart
  heapEnd : (u'.image p).heapEnd = (u.image p).heapEnd
  frame : frame' = frame
  cr3 : u'.cr3 = u.cr3
  intact : (u.image p).addressSpace ∉ u'.destroyed
  destroyedOnce : ∀ space, MadeSince u u' space → u'.destroyed.count space = 1

/-- Process `p` has a new address space, CR3 is its root, and the old one is
destroyed once. -/
structure ExecDone (u u' : UserKernel) (p : ProcId) : Prop where
  addressSpace : MadeSince u u' (u'.image p).addressSpace
  intact : (u'.image p).addressSpace ∉ u'.destroyed
  cr3 : u'.cr3 = u'.spaceRoot (u'.image p).addressSpace
  destroyedOnce : u'.destroyed.count (u.image p).addressSpace = 1

namespace UserKernel

/-! ## Load restores CR3 -/

section
variable (u : UserKernel) (p : ProcId) (env : LoadEnv) (exe : Executable)

/-- A header that is not accepted ends `Load`, behind its own `WriteCr3`. -/
theorem mapSegment_kernel (prevCr3 i : Nat) (phdr : Elf64_Phdr) (bias : Nat) (s : Loading) :
    (∃ e s', u.mapSegment env exe prevCr3 i phdr bias s = (.error e, u.writeCr3 prevCr3, s')) ∨
      ∃ s', u.mapSegment env exe prevCr3 i phdr bias s = (.ok (), u, s') := by
  unfold mapSegment
  split
  · exact .inl ⟨_, _, rfl⟩
  · split
    · exact .inl ⟨_, _, rfl⟩
    · split
      · exact .inl ⟨_, _, rfl⟩
      · exact .inr ⟨_, rfl⟩

theorem mapSegments_kernel (prevCr3 : Nat) (header : Elf64_Ehdr) (bias n i : Nat) (s : Loading) :
    (∃ e s', mapSegments env exe prevCr3 header bias n i u s =
      (.error e, u.writeCr3 prevCr3, s')) ∨
      ∃ s', mapSegments env exe prevCr3 header bias n i u s = (.ok (), u, s') := by
  induction n generalizing i s with
  | zero => exact .inr ⟨s, rfl⟩
  | succ n ih =>
      unfold mapSegments
      cases exe.phdrAt header i with
      | none => exact ih (i + 1) s
      | some phdr =>
          dsimp only
          by_cases htype : phdr.pType = 1
          · rw [if_pos htype]
            rcases u.mapSegment_kernel env exe prevCr3 i phdr bias s with ⟨e, s', heq⟩ | ⟨s', heq⟩
            · rw [heq]
              exact .inl ⟨e, s', rfl⟩
            · -- the loop goes on in the same address space
              rw [heq]
              exact ih (i + 1) s'
          · rw [if_neg htype]
            exact ih (i + 1) s

theorem loadAccepted_kernel (header : Elf64_Ehdr) (bias : Nat) :
    (u.loadAccepted p env exe header bias).2.1 = u := by
  unfold loadAccepted
  rcases (u.writeCr3 (u.spaceRoot (u.image p).addressSpace)).mapSegments_kernel env exe u.cr3
    header bias header.ePhnum 0 {} with ⟨e, s, heq⟩ | ⟨s, heq⟩
  · simp only [heq, writeCr3_writeCr3, writeCr3_self]
  · simp only [heq]
    cases env.stack with
    | none => exact u.writeCr3_self
    | some stackBottom => exact u.writeCr3_self

/-- `Load` leaves the kernel as it found it, CR3 included, however it ends. -/
theorem elfLoad_kernel (loadBias : Nat) : (u.elfLoad p env exe loadBias).2.1 = u := by
  unfold elfLoad
  split
  · rfl
  · split
    · rfl
    · dsimp only
      split
      · split
        · rfl
        · exact u.loadAccepted_kernel p env exe _ _
      · rfl

end

/-! ## Files of the RAM file system -/

section
variable {V : Type} (vm : VmObject V) (exe : Nat → Exe V) (u : UserKernel) (env : LoadEnv)

theorem mapSegment_ramFile (prevCr3 i : Nat) (phdr : Elf64_Phdr) (bias : Nat) (s : Loading) :
    let r := u.mapSegment env (.ofRamFile vm exe) prevCr3 i phdr bias s
    (r.1, r.2.2) = loadPhdr vm env (exe i) i phdr bias s := by
  unfold mapSegment loadPhdr
  dsimp only
  split
  · rfl
  · split
    · rfl
    · split
      · rfl
      · rfl

theorem mapSegments_ramFile (prevCr3 : Nat) (header : Elf64_Ehdr) (bias n i : Nat) (s : Loading) :
    let r := mapSegments env (.ofRamFile vm exe) prevCr3 header bias n i u s
    (r.1, r.2.2) = ElfLoader.loadLoop vm env exe header bias n i s := by
  induction n generalizing i s u with
  | zero => rfl
  | succ n ih =>
      have hphdr : (Executable.ofRamFile vm exe).phdrAt header i = phdrAt vm (exe i) header i := rfl
      dsimp only at ih ⊢
      unfold mapSegments ElfLoader.loadLoop
      rw [hphdr]
      cases phdrAt vm (exe i) header i with
      | none => exact ih u (i + 1) s
      | some phdr =>
          dsimp only
          -- turn by turn the two loops do the same
          by_cases htype : phdr.pType = 1
          · rw [if_pos htype, if_pos htype]
            have hbody := u.mapSegment_ramFile vm exe env prevCr3 i phdr bias s
            dsimp only at hbody
            rw [← hbody]
            rcases u.mapSegment env (.ofRamFile vm exe) prevCr3 i phdr bias s with ⟨e | _, u', s'⟩
            · rfl
            · exact ih u' (i + 1) s'
          · rw [if_neg htype, if_neg htype]
            exact ih u (i + 1) s

/-- Of a RAM file `Load` makes what `ElfLoader.load` says, and writes the same
segments. -/
theorem elfLoad_ramFile (p : ProcId) (loadBias : Nat) :
    let r := u.elfLoad p env (.ofRamFile vm exe) loadBias
    (r.1, r.2.2) = ElfLoader.load vm env exe loadBias := by
  have hstruct : (Executable.ofRamFile vm exe).struct 0 sizeofEhdr 0 =
      readStruct vm (exe 0) sizeofEhdr 0 := rfl
  dsimp only
  unfold elfLoad ElfLoader.load acceptedHeader
  rw [hstruct, if_neg (show ¬ (Executable.ofRamFile vm exe).ops = false from Bool.noConfusion)]
  cases readStruct vm (exe 0) sizeofEhdr 0 with
  | none => rfl
  | some bytes =>
      dsimp only
      -- no header, no ELF file, not one for this machine, or the loop
      by_cases hmagic : (ehdrOf bytes).eIdent.take 4 = [0x7F, 0x45, 0x4C, 0x46]
      · rw [if_pos hmagic, if_pos hmagic]
        cases effectiveBias (ehdrOf bytes) loadBias with
        | none => rfl
        | some bias =>
            have hloop := mapSegments_ramFile vm exe
              (u.writeCr3 (u.spaceRoot (u.image p).addressSpace)) env u.cr3 (ehdrOf bytes) bias
              (ehdrOf bytes).ePhnum 0 {}
            dsimp only [Option.map_some] at hloop ⊢
            unfold loadAccepted
            rw [← hloop]
            dsimp only
            rcases mapSegments env (.ofRamFile vm exe) u.cr3 (ehdrOf bytes) bias
              (ehdrOf bytes).ePhnum 0 (u.writeCr3 (u.spaceRoot (u.image p).addressSpace)) {}
              with ⟨e | _, u', s⟩
            · rfl
            · cases env.stack with
              | none => rfl
              | some stackBottom => rfl
      · rw [if_neg hmagic, if_neg hmagic]

end

/-! ## execve -/

/-- What `Load` makes of the path, where `sys_execve` gets that far. -/
def loadedImage (u : UserKernel) (p : ProcId) (env : ExecEnv) (path : Vfs.StringView) :
    Option LoadResult :=
  match env.pathToVnode (u.image p).root path with
  | .error _ => none
  | .ok vnode =>
      if env.created = false then none
      else ((u.enterSpace p).elfLoad p env.loadEnv vnode 0).1.toOption

/-- The stack of an image is the range that `MapAnonymous` has returned. -/
theorem loadAccepted_stack {u : UserKernel} {p : ProcId} {env : LoadEnv} {exe : Executable}
    {header : Elf64_Ehdr} {bias : Nat} {result : LoadResult}
    (h : (u.loadAccepted p env exe header bias).1 = .ok result) :
    ∃ stackBottom, env.stack = some stackBottom ∧
      result.stackTop = usizeAdd stackBottom 0x800000 := by
  unfold loadAccepted at h
  dsimp only at h
  split at h
  · cases h
  · split at h
    · cases h
    · rename_i stackBottom hstack
      cases h
      exact ⟨stackBottom, hstack, rfl⟩

theorem loadedImage_stack {u : UserKernel} {p : ProcId} {env : ExecEnv} {path : Vfs.StringView}
    {result : LoadResult} (h : u.loadedImage p env path = some result) :
    ∃ stackBottom, env.loadEnv.stack = some stackBottom ∧
      result.stackTop = usizeAdd stackBottom 0x800000 := by
  unfold loadedImage at h
  split at h
  · cases h
  · split at h
    · cases h
    · rename_i vnode _ _
      -- the loader's own result
      have hload : ((u.enterSpace p).elfLoad p env.loadEnv vnode 0).1 = .ok result := by
        generalize ((u.enterSpace p).elfLoad p env.loadEnv vnode 0).1 = loaded at h
        cases loaded with
        | error e => cases h
        | ok r =>
            cases h
            rfl
      unfold elfLoad at hload
      split at hload
      · cases hload
      · split at hload
        · cases hload
        · dsimp only at hload
          split at hload
          · split at hload
            · cases hload
            · exact loadAccepted_stack hload
          · cases hload

section
variable {u : UserKernel} {t : Tid} {p : ProcId} (hcall : u.toKernel.caller = some (t, p))
  (env : ExecEnv) (path : Vfs.StringView) (frame : InterruptFrame)
include hcall

/-- `sys_execve` from `Load` on, which is called in the new address space and
returns there. -/
theorem sysExecve_load {vnode : Executable}
    (hpath : env.pathToVnode (u.image p).root path = .ok vnode) (hcreated : ¬ env.created = false) :
    u.sysExecve env path frame =
      match (u.enterSpace p).elfLoad p env.loadEnv vnode 0 with
      | (.error e, _, segments) =>
          ⟨.error e, (u.execve p (.load (.failed e))).2, frame, segments⟩
      | (.ok result, _, segments) =>
          ⟨.ok (), (u.execve p (.load (.loaded result))).2, startFrame frame result, segments⟩ := by
  have hload := elfLoad_kernel (u.enterSpace p) p env.loadEnv vnode 0
  have heq : (u.newSpace.setAddressSpace p u.nextSpace).writeCr3
      ((u.newSpace.setAddressSpace p u.nextSpace).spaceRoot u.nextSpace) = u.enterSpace p := rfl
  unfold sysExecve
  rw [hcall]
  dsimp only
  rw [hpath]
  dsimp only
  rw [if_neg hcreated, heq]
  rcases hrun : (u.enterSpace p).elfLoad p env.loadEnv vnode 0 with ⟨e | result, u', segments⟩
  · -- the loader has failed
    have hfailed : (LoadOutcome.failed e).result = .error e := rfl
    rw [hrun] at hload
    dsimp only at hload ⊢
    rw [execve_error hfailed, hload]
    rfl
  · -- it has not
    have hloaded : (LoadOutcome.loaded result).result = .ok result := rfl
    rw [hrun] at hload
    dsimp only at hload ⊢
    rw [execve_ok hloaded, hload]
    rfl

/-- As far as the address spaces go `sys_execve` is `execve`, with the way that
`Load` ends for the file. Only a success changes the frame. -/
theorem sysExecve_kernel :
    ∃ outcome, (u.sysExecve env path frame).kernel = (u.execve p outcome).2 ∧
      ((∃ e, (u.sysExecve env path frame).result = .error e ∧ (u.execve p outcome).1 = .error e ∧
          (u.sysExecve env path frame).frame = frame ∧ u.loadedImage p env path = none) ∨
        ∃ result, (u.sysExecve env path frame).result = .ok () ∧
          (u.execve p outcome).1 = .ok result ∧
          (u.sysExecve env path frame).frame = startFrame frame result ∧
          u.loadedImage p env path = some result) := by
  unfold loadedImage
  cases hpath : env.pathToVnode (u.image p).root path with
  | error e =>
      have hexit : u.sysExecve env path frame = ⟨.error e, u, frame, []⟩ := by
        unfold sysExecve
        rw [hcall]
        dsimp only
        rw [hpath]
      rw [hexit]
      exact ⟨.noFile e, rfl, .inl ⟨e, rfl, rfl, rfl, rfl⟩⟩
  | ok vnode =>
      dsimp only
      by_cases hcreated : env.created = false
      · have hexit : u.sysExecve env path frame = ⟨.error (-ENOMEM), u, frame, []⟩ := by
          unfold sysExecve
          rw [hcall]
          dsimp only
          rw [hpath]
          dsimp only
          rw [if_pos hcreated]
        rw [hexit, if_pos hcreated]
        exact ⟨.noAddressSpace, rfl, .inl ⟨-ENOMEM, rfl, rfl, rfl, rfl⟩⟩
      · -- `Load` runs in the new address space
        rw [sysExecve_load hcall env path frame hpath hcreated, if_neg hcreated]
        rcases (u.enterSpace p).elfLoad p env.loadEnv vnode 0 with ⟨e | result, u', segments⟩
        · have hfailed : (LoadOutcome.failed e).result = .error e := rfl
          refine ⟨.load (.failed e), rfl, .inl ⟨e, rfl, ?_, rfl, rfl⟩⟩
          rw [execve_error hfailed]
        · have hloaded : (LoadOutcome.loaded result).result = .ok result := rfl
          refine ⟨.load (.loaded result), rfl, .inr ⟨result, rfl, ?_, rfl, rfl⟩⟩
          rw [execve_ok hloaded]

end

end UserKernel

/-! ## Failure and success -/

theorem ExecFailed.undone {u u' : UserKernel} {p : ProcId} (h : ExecFailed u p u')
    (hexists : SpaceExists u p) (frame : InterruptFrame) : ExecUndone u u' p frame frame := by
  constructor
  case addressSpace => rw [h.image]
  case heapStart => rw [h.image]
  case heapEnd => rw [h.image]
  case frame => rfl
  case cr3 => rw [h.kernel]; rfl
  case intact =>
    rw [h.destroyed]
    intro hmem
    rcases List.mem_append.mp hmem with hold | hnew
    · exact hexists.intact hold
    · -- the space that is destroyed was made by this call
      exact Nat.ne_of_lt hexists.made (List.mem_singleton.mp hnew)
  case destroyedOnce =>
    rintro space ⟨hge, hlt⟩
    rw [h.nextSpace] at hlt
    have heq : space = u.nextSpace := Nat.le_antisymm (Nat.le_of_lt_succ hlt) hge
    have hfresh : u.nextSpace ∉ u.destroyed := by
      intro hmem
      exact Nat.lt_irrefl _ (hexists.old _ hmem)
    rw [h.destroyed, heq, List.count_append, List.count_eq_zero.mpr hfresh, List.count_singleton_self]

theorem ExecLoaded.done {u u' : UserKernel} {p : ProcId} (h : ExecLoaded u p u')
    (hexists : SpaceExists u p) : ExecDone u u' p := by
  constructor
  case addressSpace =>
    unfold MadeSince
    rw [h.space, h.nextSpace]
    exact ⟨Nat.le_refl _, Nat.lt_succ_self _⟩
  -- the destroyed space is the old one, and older than the new one
  case intact =>
    rw [h.space, h.destroyed]
    intro hmem
    rcases List.mem_append.mp hmem with hold | hgone
    · exact Nat.lt_irrefl _ (hexists.old _ hold)
    · exact Nat.ne_of_gt hexists.made (List.mem_singleton.mp hgone)
  case cr3 =>
    rw [h.space, h.spaceRoot, h.kernel]
    rfl
  case destroyedOnce =>
    rw [h.destroyed, List.count_append, List.count_eq_zero.mpr hexists.intact,
      List.count_singleton_self]

/-- Nothing was made, so nothing is to be destroyed. -/
theorem ExecUndone.refl {u : UserKernel} {p : ProcId} (hexists : SpaceExists u p)
    (frame : InterruptFrame) : ExecUndone u u p frame frame := by
  refine ⟨rfl, rfl, rfl, rfl, rfl, hexists.intact, ?_⟩
  rintro space ⟨hge, hlt⟩
  exact absurd hlt (Nat.not_lt.mpr hge)

/-- An `execve` that fails leaves the caller as it was, one that succeeds frees
the old image once. -/
theorem sysExecve_undone_or_done {u : UserKernel} {t : Tid} {p : ProcId}
    (hcall : u.toKernel.caller = some (t, p)) (hexists : SpaceExists u p) (env : ExecEnv)
    (path : Vfs.StringView) (frame : InterruptFrame) :
    (∀ e, (u.sysExecve env path frame).result = .error e →
      ExecUndone u (u.sysExecve env path frame).kernel p frame (u.sysExecve env path frame).frame) ∧
    ((u.sysExecve env path frame).result = .ok () →
      ExecDone u (u.sysExecve env path frame).kernel p) := by
  rcases UserKernel.sysExecve_kernel hcall env path frame with ⟨outcome, hkernel, hend⟩
  rw [hkernel]
  rcases execve_spec u p outcome with ⟨e, herror, hleft⟩ | ⟨result, hok, hdone⟩
  · rcases hend with ⟨e', hresult, -, hframe, -⟩ | ⟨result, -, hok, -⟩
    · rw [hresult, hframe]
      refine ⟨fun _ _ => ?_, nofun⟩
      rcases hleft with hsame | hfailed
      · -- an exit before `Create`, or of `Create`
        rw [hsame]
        exact ExecUndone.refl hexists frame
      · exact hfailed.undone hexists frame
    · rw [herror] at hok
      cases hok
  · rcases hend with ⟨e', -, herror, -⟩ | ⟨result', hresult, -, -⟩
    · rw [hok] at herror
      cases herror
    · rw [hresult]
      exact ⟨nofun, fun _ => hdone.done hexists⟩

/-! ## Two calls of /sbin/init -/

/-- A file of one segment is at "/a". -/
def fileAtA (loadEnv : LoadEnv) : ExecEnv where
  pathToVnode _ path :=
    if path = [47, 97] then
      .ok (.ofRamFile (pageList .basePlusOffset) fun _ => exeOf (oneSegmentFile 0x400000 1 2))
    else .error (-Vfs.ENOENT)
  created := true
  loadEnv := loadEnv

/-- No page can be faulted in. -/
def faultsFail : LoadEnv := { mapsUser with handleFault := fun _ _ => false }

/-- The first call fails behind the `MapAnonymous` of its segment, the second one
succeeds. -/
theorem init_undone_and_done :
    ∃ u, initBoot.bind (fun u => run userStep u [.kernel .yield]) = some u ∧
      ExecUndone u (u.sysExecve (fileAtA faultsFail) [47, 97] (userFrame 0x8000)).kernel 0
        (userFrame 0x8000)
        (u.sysExecve (fileAtA faultsFail) [47, 97] (userFrame 0x8000)).frame ∧
      ExecDone u (u.sysExecve (fileAtA mapsUser) [47, 97] (userFrame 0x8000)).kernel 0 := by
  rcases exists_start (o := initBoot.bind fun u => run userStep u [.kernel .yield])
    (P := fun u => u.toKernel.caller = some (3, 0) ∧
      ((u.image 0).addressSpace < u.nextSpace ∧ (u.image 0).addressSpace ∉ u.destroyed ∧
        ∀ a ∈ u.destroyed, a < u.nextSpace) ∧
      (u.sysExecve (fileAtA faultsFail) [47, 97] (userFrame 0x8000)).result = .error (-ENOMEM) ∧
      (u.sysExecve (fileAtA mapsUser) [47, 97] (userFrame 0x8000)).result = .ok ())
    (by decide +kernel) with ⟨u, hrun, hcall, ⟨hmade, hintact, hold⟩, hfail, hok⟩
  have hexists : SpaceExists u 0 := ⟨hmade, hintact, hold⟩
  -- the same file twice: once no page is to be had, once every page
  have hundone := sysExecve_undone_or_done hcall hexists (fileAtA faultsFail) [47, 97]
    (userFrame 0x8000)
  have hdone := sysExecve_undone_or_done hcall hexists (fileAtA mapsUser) [47, 97]
    (userFrame 0x8000)
  exact ⟨u, hrun, hundone.1 _ hfail, hdone.2 hok⟩

end Ceryx.Proc
