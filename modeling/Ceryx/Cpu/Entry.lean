import Ceryx.Cpu.Machine

/-!
# Ceryx.Cpu.Entry — the two ways into the kernel

`SyscallEntry` and `isr_common` as instruction lists, split at their calls, and
what each part does: where the saved context lies on the kernel stack, where
the pointer handed to `SignalCheckPending` points, and what the exit code
restores from where.
-/

namespace Ceryx.Cpu

open Lib Machine

/-- The general registers in the order both entry paths push them. -/
def gprs : List Reg :=
  [.rax, .rbx, .rcx, .rdx, .rsi, .rdi, .rbp, .r8, .r9, .r10, .r11, .r12, .r13, .r14, .r15]

/-! ## SyscallEntry -/

/-- From `SyscallEntry` to the dummy interrupt number. -/
def syscallHead : List Instr :=
  [.swapgs, .storeGs 24 .rsp, .loadGs .rsp 16, .pushImm 0x1B, .pushGs 24, .push .r11,
    .pushImm 0x23, .push .rcx, .pushImm 0, .pushImm 0]

/-- `SyscallEntry` up to `call SyscallDispatch`. -/
def syscallSave : List Instr := syscallHead ++ gprs.map .push ++ [.mov .rdi .rsp, .cld]

/-- From the return of `SyscallDispatch` to `call SignalCheckPending`. -/
def syscallCheck : List Instr := [.push .rax, .mov .rdi .rsp]

/-- From the return of `SignalCheckPending` to `sysret`. -/
def syscallRestore : List Instr :=
  [.pop .rax] ++
    ([.r15, .r14, .r13, .r12, .r11, .r10, .r9, .r8, .rbp, .rdi, .rsi, .rdx, .rcx, .rbx] :
      List Reg).map .pop ++
    [.addRsp 16, .load .r11 24, .load .rcx 8, .loadGs .rsp 24, .swapgs]

def syscallExit (m : Machine) : Machine := (m.exec syscallRestore).sysret

/-! ## isr_common -/

/-- An interrupt or exception: its vector, and the error code of the vectors
that have one (the ones with an `isr_err_stub`). -/
structure Event where
  vector : Word
  errorCode : Option Word

/-- `isr_stub_<n>`. -/
def isrStub (ev : Event) : List Instr :=
  match ev.errorCode with
  | some _ => [.pushImm ev.vector]
  | none => [.pushImm 0, .pushImm ev.vector]

/-- `isr_common` from `.no_swap` to `call InterruptDispatch`. -/
def isrSave : List Instr := gprs.map .push ++ [.mov .rdi .rsp, .cld]

/-- From the interrupted context to `call InterruptDispatch`. -/
def isrEntry (ev : Event) (m : Machine) : Machine :=
  (((m.interrupt ev.errorCode).exec (isrStub ev)).execIfUser 24 [.swapgs]).exec isrSave

/-- From the return of `InterruptDispatch` to `call SignalCheckPending`; `none`
when the branch to `.no_signal_check` is taken. -/
def isrCheck (m : Machine) : Option Machine :=
  if m.mem (m.regs .rsp + 144) &&& 3 = 0 then none else some (m.exec [.mov .rdi .rsp, .push .rax])

/-- From `.no_signal_check` to the end. -/
def isrLeave (m : Machine) : Machine :=
  (((m.exec (([.r15, .r14, .r13, .r12, .r11, .r10, .r9, .r8, .rbp, .rdi, .rsi, .rdx, .rcx, .rbx,
    .rax] : List Reg).map .pop)).execIfUser 24 [.swapgs]).exec [.addRsp 16]).iretq

/-- From the return of `SignalCheckPending`. -/
def isrExit (m : Machine) : Machine := isrLeave (m.exec [.pop .rax])

/-! ## What the entry code saves -/

/-- The values `SyscallEntry` pushes, in order. -/
def syscallFrame (m : Machine) : List Word :=
  [0x1B, m.regs .rsp, m.regs .r11, 0x23, m.regs .rcx, 0, 0] ++ gprs.map m.regs

/-- The stack `SyscallEntry` switches to: `CpuData.kernel_stack`. -/
def syscallTop (m : Machine) : Word := m.mem (m.kernelGsBase + 16)

theorem gs_slots_ne (base : Word) : base + 16 ≠ base + 24 := by bv_omega

theorem rsp_not_mem_gprs : Reg.rsp ∉ gprs := by decide

theorem map_update_rsp (regs : Reg → Word) (v : Word) :
    gprs.map (Function.update regs .rsp v) = gprs.map regs := by
  refine List.map_congr_left fun r hr => ?_
  have hne : r ≠ .rsp := fun he => rsp_not_mem_gprs (he ▸ hr)
  simp [hne]

/-- The user RSP that `SyscallEntry` pushes: what `gs:24` holds after the first
push. -/
def pushedRsp (m : Machine) : Word :=
  ((m.mem.write (m.kernelGsBase + 24) (m.regs .rsp)).write (syscallTop m - 8) 0x1B)
    (m.kernelGsBase + 24)

theorem pushedRsp_eq {m : Machine} (hlay : m.kernelGsBase + 24 ≠ syscallTop m - 8) :
    pushedRsp m = m.regs .rsp := by
  rw [pushedRsp, Mem.write_ne _ _ hlay, Mem.write_self]

/-- `SyscallEntry`'s first ten instructions, wherever the kernel stack lies. -/
theorem syscallHead_pushes (m : Machine) :
    m.exec syscallHead =
      { m with
        regs := Function.update m.regs .rsp (slot (syscallTop m) 7)
        mem := pushAll (syscallTop m)
          [0x1B, pushedRsp m, m.regs .r11, 0x23, m.regs .rcx, 0, 0]
          (m.mem.write (m.kernelGsBase + 24) (m.regs .rsp))
        gsBase := m.kernelGsBase
        kernelGsBase := m.gsBase } := by
  -- `gs:24` is written just before `gs:16` is read, and is another quadword
  have htop : (m.mem.write (m.kernelGsBase + 24) (m.regs .rsp)) (m.kernelGsBase + 16) =
      syscallTop m := Mem.write_ne _ _ (gs_slots_ne _)
  have hslot : slot (syscallTop m) 7 = syscallTop m - 8 - 8 - 8 - 8 - 8 - 8 - 8 := by
    unfold slot
    bv_omega
  rw [hslot]
  simp only [syscallHead, exec, List.foldl, execOne, setReg, pushVal, pushAll, pushedRsp,
    Function.update_self, Function.update_idem, htop, ne_eq, reduceCtorEq, not_false_eq_true,
    Function.update_of_ne]

/-- The same when the kernel stack does not overlap the slot `gs:24`. -/
theorem syscallHead_spec (m : Machine) (hlay : m.kernelGsBase + 24 ≠ syscallTop m - 8) :
    m.exec syscallHead =
      { m with
        regs := Function.update m.regs .rsp (slot (syscallTop m) 7)
        mem := pushAll (syscallTop m)
          [0x1B, m.regs .rsp, m.regs .r11, 0x23, m.regs .rcx, 0, 0]
          (m.mem.write (m.kernelGsBase + 24) (m.regs .rsp))
        gsBase := m.kernelGsBase
        kernelGsBase := m.gsBase } := by
  rw [syscallHead_pushes, pushedRsp_eq hlay]

/-- Both paths save the general registers and pass the stack pointer on. -/
theorem exec_save_spec (m : Machine) :
    (m.exec isrSave).mem = pushAll (m.regs .rsp) (gprs.map m.regs) m.mem ∧
      (m.exec isrSave).regs .rsp = slot (m.regs .rsp) 15 ∧
      (m.exec isrSave).gsBase = m.gsBase ∧ (m.exec isrSave).kernelGsBase = m.kernelGsBase := by
  rw [isrSave, exec_append, exec_push gprs rsp_not_mem_gprs]
  exact ⟨rfl, rfl, rfl, rfl⟩

theorem exec_syscallSave (m : Machine) :
    m.exec syscallSave = (m.exec syscallHead).exec isrSave := by
  rw [syscallSave, List.append_assoc, exec_append]
  rfl

/-- The state in which `SyscallDispatch` is called. -/
structure SyscallSaved (m m' : Machine) : Prop where
  mem : m'.mem = pushAll (syscallTop m) (syscallFrame m)
    (m.mem.write (m.kernelGsBase + 24) (m.regs .rsp))
  rsp : m'.regs .rsp = slot (syscallTop m) 22
  gsBase : m'.gsBase = m.kernelGsBase
  kernelGsBase : m'.kernelGsBase = m.gsBase

theorem syscallSave_spec (m : Machine) (hlay : m.kernelGsBase + 24 ≠ syscallTop m - 8) :
    SyscallSaved m (m.exec syscallSave) := by
  obtain ⟨hmem, hrsp, hgs, hkgs⟩ := exec_save_spec (m.exec syscallHead)
  rw [← exec_syscallSave, syscallHead_spec m hlay] at hmem hrsp hgs hkgs
  refine ⟨?_, ?_, hgs, hkgs⟩
  · rw [hmem, syscallFrame, pushAll_append, map_update_rsp]
    rfl
  · rw [hrsp]
    simp only [Function.update_self]
    unfold slot
    bv_omega

/-- The values an interrupt, its stub and `isr_common` push, in order. -/
def isrFrame (ev : Event) (m : Machine) : List Word :=
  [m.ss, m.regs .rsp, m.rflags, m.cs, m.rip, ev.errorCode.getD 0, ev.vector] ++ gprs.map m.regs

/-- The interrupt and the stub. -/
theorem isrStub_spec (ev : Event) (m : Machine) :
    ((m.interrupt ev.errorCode).exec (isrStub ev)).mem =
        pushAll m.interruptTop
          [m.ss, m.regs .rsp, m.rflags, m.cs, m.rip, ev.errorCode.getD 0, ev.vector] m.mem ∧
      ((m.interrupt ev.errorCode).exec (isrStub ev)).regs =
        Function.update m.regs .rsp (slot m.interruptTop 7) := by
  have hslot : slot m.interruptTop 7 = m.interruptTop - 8 - 8 - 8 - 8 - 8 - 8 - 8 := by
    unfold slot
    bv_omega
  rw [hslot]
  obtain ⟨vector, errorCode⟩ := ev
  cases errorCode <;>
    simp [interrupt, isrStub, exec, execOne, setReg, pushVal, pushAll]

theorem execIfUser_swapgs (m : Machine) (off : Word) :
    (m.execIfUser off [.swapgs]).mem = m.mem ∧ (m.execIfUser off [.swapgs]).regs = m.regs := by
  unfold execIfUser
  split
  · exact ⟨rfl, rfl⟩
  · exact ⟨rfl, rfl⟩

/-- The state in which `InterruptDispatch` is called. -/
structure IsrSaved (ev : Event) (m m' : Machine) : Prop where
  mem : m'.mem = pushAll m.interruptTop (isrFrame ev m) m.mem
  rsp : m'.regs .rsp = slot m.interruptTop 22

theorem isrEntry_spec (ev : Event) (m : Machine) : IsrSaved ev m (isrEntry ev m) := by
  obtain ⟨hmem, hregs⟩ := isrStub_spec ev m
  obtain ⟨hmem', hregs'⟩ :=
    execIfUser_swapgs ((m.interrupt ev.errorCode).exec (isrStub ev)) 24
  obtain ⟨hsave, hrsp, -, -⟩ :=
    exec_save_spec (((m.interrupt ev.errorCode).exec (isrStub ev)).execIfUser 24 [.swapgs])
  rw [hregs', hregs, hmem', hmem, map_update_rsp] at hsave
  rw [hregs', hregs] at hrsp
  refine ⟨?_, ?_⟩
  · rw [isrFrame, pushAll_append]
    rw [Function.update_self] at hsave
    exact hsave
  · refine hrsp.trans ?_
    rw [Function.update_self]
    unfold slot
    bv_omega

theorem isrStub_gs (ev : Event) (m : Machine) :
    ((m.interrupt ev.errorCode).exec (isrStub ev)).gsBase = m.gsBase ∧
      ((m.interrupt ev.errorCode).exec (isrStub ev)).kernelGsBase = m.kernelGsBase := by
  obtain ⟨vector, errorCode⟩ := ev
  cases errorCode <;> exact ⟨rfl, rfl⟩

/-- The quadword that `isr_common` tests on entry is the `cs` that the CPU has
just pushed. -/
theorem isrStub_cs (ev : Event) (m : Machine) :
    ((m.interrupt ev.errorCode).exec (isrStub ev)).mem
      (((m.interrupt ev.errorCode).exec (isrStub ev)).regs .rsp + 24) = m.cs := by
  rcases isrStub_spec ev m with ⟨hmem, hregs⟩
  have hrsp : slot m.interruptTop 7 + 24 = slot m.interruptTop (3 + 1) :=
    slot_add (i := 7) (j := 3) (by decide)
  rw [hmem, hregs, Function.update_self, hrsp]
  exact pushAll_slot (by simp) (by simp)

/-- An interrupt of user code swaps the GS bases. -/
theorem isrEntry_gs (ev : Event) (m : Machine) (huser : m.cs &&& 3 ≠ 0) :
    (isrEntry ev m).gsBase = m.kernelGsBase ∧ (isrEntry ev m).kernelGsBase = m.gsBase := by
  have hcs := isrStub_cs ev m
  rcases isrStub_gs ev m with ⟨hgs, hkgs⟩
  generalize hm' : (m.interrupt ev.errorCode).exec (isrStub ev) = m' at hcs hgs hkgs
  have hswap : m'.execIfUser 24 [.swapgs] = m'.exec [.swapgs] := by
    rw [execIfUser, hcs, if_neg huser]
  rcases exec_save_spec (m'.exec [.swapgs]) with ⟨-, -, hgs', hkgs'⟩
  have hentry : isrEntry ev m = (m'.exec [.swapgs]).exec isrSave := by
    rw [isrEntry, hm', hswap]
  rw [hentry]
  exact ⟨hgs'.trans hkgs, hkgs'.trans hgs⟩

/-- An interrupt of kernel code leaves them. -/
theorem isrEntry_gs_kernel (ev : Event) (m : Machine) (hkernel : m.cs &&& 3 = 0) :
    (isrEntry ev m).gsBase = m.gsBase ∧ (isrEntry ev m).kernelGsBase = m.kernelGsBase := by
  have hcs := isrStub_cs ev m
  rcases isrStub_gs ev m with ⟨hgs, hkgs⟩
  generalize hm' : (m.interrupt ev.errorCode).exec (isrStub ev) = m' at hcs hgs hkgs
  have hstay : m'.execIfUser 24 [.swapgs] = m' := by
    rw [execIfUser, hcs, if_pos hkernel]
  rcases exec_save_spec m' with ⟨-, -, hgs', hkgs'⟩
  have hentry : isrEntry ev m = m'.exec isrSave := by
    rw [isrEntry, hm', hstay]
  rw [hentry]
  exact ⟨hgs'.trans hgs, hkgs'.trans hkgs⟩

theorem exec_tss (m : Machine) (is : List Instr) : (m.exec is).tssRsp0 = m.tssRsp0 := by
  induction is generalizing m with
  | nil => rfl
  | cons i is ih =>
      refine (ih (m.execOne i)).trans ?_
      cases i <;> rfl

theorem isrEntry_tss (ev : Event) (m : Machine) : (isrEntry ev m).tssRsp0 = m.tssRsp0 := by
  have hint : (m.interrupt ev.errorCode).tssRsp0 = m.tssRsp0 := by
    unfold interrupt
    cases ev.errorCode <;> rfl
  unfold isrEntry
  rw [exec_tss, execIfUser]
  split
  · rw [exec_tss, hint]
  · rw [exec_tss, exec_tss, hint]

/-! ## The pointer handed to SignalCheckPending -/

theorem syscallCheck_rdi (m : Machine) : (m.exec syscallCheck).regs .rdi = m.regs .rsp - 8 := by
  simp [syscallCheck, exec, execOne, pushVal, setReg]

theorem syscallCheck_rsp (m : Machine) : (m.exec syscallCheck).regs .rsp = m.regs .rsp - 8 := by
  simp [syscallCheck, exec, execOne, pushVal, setReg]

theorem isrCheck_some {m m' : Machine} (h : isrCheck m = some m') :
    m'.regs .rdi = m.regs .rsp ∧ m'.regs .rsp = m.regs .rsp - 8 := by
  unfold isrCheck at h
  split at h
  · cases h
  · cases h
    simp [exec, execOne, pushVal, setReg]

/-! ## What the exit code restores -/

/-- The general registers in the order `isr_common` pops them. -/
def popOrder : List Reg :=
  [.r15, .r14, .r13, .r12, .r11, .r10, .r9, .r8, .rbp, .rdi, .rsi, .rdx, .rcx, .rbx, .rax]

/-- `isr_common` restores every general register from its slot above the stack
pointer, and the rest of the context from the five quadwords after the error
code. -/
structure Restored (m m' : Machine) (base : Word) : Prop where
  reg : ∀ k (hk : k < popOrder.length), m'.regs popOrder[k] = m.mem (base + BitVec.ofNat 64 (8 * k))
  rip : m'.rip = m.mem (base + 136)
  cs : m'.cs = m.mem (base + 144)
  rflags : m'.rflags = m.mem (base + 152)
  rsp : m'.regs .rsp = m.mem (base + 160)

theorem popOrder_ne_rsp {k : Nat} (hk : k < popOrder.length) : popOrder[k] ≠ .rsp := by
  intro he
  have hmem : popOrder[k] ∈ popOrder := List.getElem_mem hk
  rw [he] at hmem
  exact absurd hmem (by decide)

/-- The end of the exit code, behind the pops. -/
theorem iretq_restores {m m₁ : Machine} {base : Word} (hmem : m₁.mem = m.mem)
    (hrsp : m₁.regs .rsp = base + 120)
    (hget : ∀ k (hk : k < popOrder.length),
      m₁.regs popOrder[k] = m.mem (base + BitVec.ofNat 64 (8 * k))) :
    Restored m (m₁.exec [.addRsp 16]).iretq base ∧
      (m₁.exec [.addRsp 16]).iretq.ss = m.mem (base + 168) := by
  -- the stack pointer stands at the vector; `iretq` reads behind it and the error code
  have hload : ∀ n : Word, m₁.mem (m₁.regs .rsp + 16 + n) = m.mem (base + (136 + n)) := by
    intro n
    have hslot : m₁.regs .rsp + 16 + n = base + (136 + n) := by
      rw [hrsp]
      bv_omega
    rw [hmem, hslot]
  have hzero : m₁.regs .rsp + 16 = base + 136 := by
    rw [hrsp]
    bv_omega
  refine ⟨⟨fun k hk => ?_, ?_, hload 8, hload 16, ?_⟩, hload 32⟩
  · simp only [iretq, exec, List.foldl, execOne, setReg,
      Function.update_of_ne (popOrder_ne_rsp hk)]
    exact hget k hk
  · change m₁.mem (m₁.regs .rsp + 16) = _
    rw [hmem, hzero]
  · simpa [iretq, exec, execOne, setReg] using hload 24

theorem isrLeave_restores (m : Machine) :
    Restored m (isrLeave m) (m.regs .rsp) ∧ (isrLeave m).ss = m.mem (m.regs .rsp + 168) := by
  obtain ⟨hmem, hrsp, hget, -⟩ :=
    exec_pop popOrder (by decide) (by decide) m
  obtain ⟨hmem', hregs'⟩ := execIfUser_swapgs (m.exec (popOrder.map .pop)) 24
  apply iretq_restores (hmem'.trans hmem)
  · rw [hregs']
    exact hrsp
  · intro k hk
    rw [hregs']
    exact hget k hk

theorem isrLeave_spec (m : Machine) : Restored m (isrLeave m) (m.regs .rsp) :=
  (isrLeave_restores m).1

theorem isrExit_spec (m : Machine) : Restored m (isrExit m) (m.regs .rsp + 8) := by
  have hrsp : (m.exec [.pop .rax]).regs .rsp = m.regs .rsp + 8 := by
    simp [exec, execOne, popReg]
  have h := isrLeave_spec (m.exec [.pop .rax])
  rw [hrsp] at h
  exact ⟨h.reg, h.rip, h.cs, h.rflags, h.rsp⟩

/-- `SyscallEntry`'s exit code up to the last pop. -/
theorem syscallRestore_pops (m : Machine) :
    ∃ m₁ : Machine, m.exec syscallRestore =
        m₁.exec [.addRsp 16, .load .r11 24, .load .rcx 8, .loadGs .rsp 24, .swapgs] ∧
      m₁.mem = m.mem ∧ m₁.regs .rsp = m.regs .rsp + 120 ∧
      m₁.gsBase = m.gsBase ∧ m₁.kernelGsBase = m.kernelGsBase := by
  -- RAX was pushed last; the other registers come in the order of `POP_ALL`
  have hsplit : m.exec syscallRestore =
      ((m.exec [.pop .rax]).exec (popOrder.dropLast.map .pop)).exec
        [.addRsp 16, .load .r11 24, .load .rcx 8, .loadGs .rsp 24, .swapgs] := by
    rw [syscallRestore, exec_append, exec_append]
    rfl
  have hsp : (m.exec [.pop .rax]).regs .rsp = m.regs .rsp + 8 := by
    simp [exec, execOne, popReg]
  rcases exec_pop popOrder.dropLast (by decide) (by decide) (m.exec [.pop .rax]) with
    ⟨hmem, hrsp, -, -, hgs, hkgs⟩
  refine ⟨_, hsplit, hmem, ?_, hgs, hkgs⟩
  rw [hrsp, hsp]
  simp only [popOrder, List.dropLast, List.length_cons, List.length_nil]
  bv_omega

/-- `SyscallEntry` ends with the stack pointer it finds at `gs:24`. -/
theorem syscallExit_rsp (m : Machine) : (syscallExit m).regs .rsp = m.mem (m.gsBase + 24) ∧
    (syscallExit m).gsBase = m.kernelGsBase ∧ (syscallExit m).kernelGsBase = m.gsBase ∧
    (syscallExit m).mem = m.mem := by
  rcases syscallRestore_pops m with ⟨m₁, hpops, hmem, -, hgs, hkgs⟩
  rw [syscallExit, hpops, ← hmem, ← hgs, ← hkgs]
  refine ⟨?_, rfl, rfl, rfl⟩
  simp [exec, execOne, setReg, sysret]

/-- It takes the flags from the slot two quadwords above the return address; the
code segment is a constant. -/
theorem syscallExit_flags (m : Machine) :
    (syscallExit m).rflags = m.mem (m.regs .rsp + 160) ∧ (syscallExit m).cs = 0x23 := by
  rcases syscallRestore_pops m with ⟨m₁, hpops, hmem, hrsp, -, -⟩
  have haddr : m₁.regs .rsp + 16 + 24 = m.regs .rsp + 160 := by
    rw [hrsp]
    bv_omega
  refine ⟨?_, rfl⟩
  rw [syscallExit, hpops, ← hmem, ← haddr]
  simp [exec, execOne, setReg, sysret]

end Ceryx.Cpu
