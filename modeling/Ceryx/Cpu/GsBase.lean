import Ceryx.Cpu.Rings

/-!
# Ceryx.Cpu.GsBase — the kernel's GS base

`swapgs` exchanges `IA32_GS_BASE` and `IA32_KERNEL_GS_BASE`; five pieces of
assembly decide on their own whether to execute it.

* `Balanced`: a piece of code swaps exactly when it changes rings. Both entry
  paths, both exit paths and the landing points do; `ForkReturn`, which always
  swaps, does when the frame it finds returns to ring 3.
* `atIretq_spec`, `userspacePushed_takes`, `forkPopped_at`: the context that each
  `iretq` is to load. One that it does not take leaves the kernel in ring 0 with
  the bases exchanged already.
* `gsOwn_iff_gsMeet`: a run from boot keeps `&CpuData` in the right register
  exactly when every `arch_prctl(ARCH_SET_GS, addr)` has `addr = &CpuData`, no
  return to ring 3 faults, and fork children do return there.
* `gsOwn_of_gsInputs`: the last part follows as long as no store through a user
  pointer overlaps the saved CS of a system call or of a fork child.
-/

namespace Ceryx.Cpu

open Lib Machine
open Proc (InterruptFrame SigThread)

/-! ## Code that swaps -/

/-- Instructions other than `swapgs` leave both bases alone. -/
theorem exec_noSwap (is : List Instr) (h : Instr.swapgs ∉ is) (m : Machine) :
    (m.exec is).gsBase = m.gsBase ∧ (m.exec is).kernelGsBase = m.kernelGsBase := by
  induction is generalizing m with
  | nil => exact ⟨rfl, rfl⟩
  | cons i is ih =>
      have hi : i ≠ .swapgs := fun he => h (he ▸ List.mem_cons_self)
      rcases ih (fun hin => h (List.mem_cons_of_mem _ hin)) (m.execOne i) with ⟨hgs, hkgs⟩
      have hone : (m.execOne i).gsBase = m.gsBase ∧
          (m.execOne i).kernelGsBase = m.kernelGsBase := by
        cases i with
        | swapgs => exact absurd rfl hi
        | push | pushImm | pushGs | pop | mov | load | loadGs | storeGs | addRsp | cld =>
            exact ⟨rfl, rfl⟩
      exact ⟨hgs.trans hone.1, hkgs.trans hone.2⟩

/-- From `m` to `m'` the GS bases are exchanged if the ring changes, and left
alone if it does not. -/
structure Balanced (m m' : Machine) : Prop where
  stay : (m.UserMode ↔ m'.UserMode) →
    m'.gsBase = m.gsBase ∧ m'.kernelGsBase = m.kernelGsBase
  swap : ¬ (m.UserMode ↔ m'.UserMode) →
    m'.gsBase = m.kernelGsBase ∧ m'.kernelGsBase = m.gsBase

/-- A change of rings with the bases exchanged, -/
theorem Balanced.of_swap {m m' : Machine} (hring : ¬ (m.UserMode ↔ m'.UserMode))
    (hgs : m'.gsBase = m.kernelGsBase) (hkgs : m'.kernelGsBase = m.gsBase) : Balanced m m' :=
  ⟨fun h => absurd h hring, fun _ => ⟨hgs, hkgs⟩⟩

/-- and no change with the bases as they were. -/
theorem Balanced.of_stay {m m' : Machine} (hring : m.UserMode ↔ m'.UserMode)
    (hgs : m'.gsBase = m.gsBase) (hkgs : m'.kernelGsBase = m.kernelGsBase) : Balanced m m' :=
  ⟨fun _ => ⟨hgs, hkgs⟩, fun h => absurd hring h⟩

/-- The ring is a matter of CS. -/
theorem userMode_congr {m m' : Machine} (hcs : m'.cs = m.cs) : m'.UserMode ↔ m.UserMode := by
  unfold Machine.UserMode
  rw [hcs]

/-- Only the ring and the bases of the machine before matter. -/
theorem Balanced.congr {m₀ m m' : Machine} (hcs : m₀.cs = m.cs) (hgs : m₀.gsBase = m.gsBase)
    (hkgs : m₀.kernelGsBase = m.kernelGsBase) (h : Balanced m₀ m') : Balanced m m' := by
  have hring := userMode_congr hcs
  constructor
  · intro hstay
    rw [← hgs, ← hkgs]
    exact h.stay (hring.trans hstay)
  · intro hswap
    rw [← hgs, ← hkgs]
    exact h.swap fun hstay => hswap (hring.symm.trans hstay)

theorem kernelCs_not_user {m : Machine} (h : m.cs = 0x08) : ¬ m.UserMode := by
  unfold Machine.UserMode
  rw [h]
  decide

theorem userCs_user {m : Machine} (h : m.cs = 0x23) : m.UserMode := by
  unfold Machine.UserMode
  rw [h]
  decide

/-! ## The five pieces of assembly -/

/-- `SyscallEntry` comes from ring 3 and swaps. -/
theorem syscallEntry_balanced {m : Machine} (huser : m.UserMode) :
    Balanced m (m.syscallInstr.exec syscallSave) := by
  have hlist : syscallSave =
      [.swapgs] ++ (syscallHead.tail ++ (gprs.map .push ++ [.mov .rdi .rsp, .cld])) := rfl
  have hkernel : ¬ (m.syscallInstr.exec syscallSave).UserMode := by
    apply kernelCs_not_user
    rw [exec_cs]
    rfl
  rcases exec_noSwap (syscallHead.tail ++ (gprs.map .push ++ [.mov .rdi .rsp, .cld]))
    (by decide) (m.syscallInstr.exec [.swapgs]) with ⟨hgs, hkgs⟩
  rw [← exec_append, ← hlist] at hgs hkgs
  exact Balanced.of_swap (fun h => hkernel (h.mp huser)) hgs hkgs

/-- `isr_common` swaps when the CS that the CPU has pushed is the user's. -/
theorem isrEntered_balanced (ev : Event) (m : Machine) : Balanced m (m.isrEntered ev) := by
  have hkernel : ¬ (m.isrEntered ev).UserMode := kernelCs_not_user (gate_cs (isrEntry ev m))
  by_cases huser : m.UserMode
  · -- from ring 3
    rcases isrEntry_gs ev m huser with ⟨hgs, hkgs⟩
    rw [← gate_gsBase] at hgs
    rw [← gate_kernelGsBase] at hkgs
    exact Balanced.of_swap (fun h => hkernel (h.mp huser)) hgs hkgs
  · -- from ring 0
    rcases isrEntry_gs_kernel ev m (not_not.mp huser) with ⟨hgs, hkgs⟩
    rw [← gate_gsBase] at hgs
    rw [← gate_kernelGsBase] at hkgs
    exact Balanced.of_stay (iff_of_false huser hkernel) hgs hkgs

/-- The way out of `SyscallEntry` always goes to ring 3, and swaps. -/
theorem syscallExit_balanced {m : Machine} (hkernel : ¬ m.UserMode) :
    Balanced m (syscallExit m) := by
  rcases syscallExit_rsp m with ⟨-, hgs, hkgs, -⟩
  have huser : (syscallExit m).UserMode := userCs_user (syscallExit_flags m).2
  exact Balanced.of_swap (fun h => hkernel (h.mpr huser)) hgs hkgs

/-- `isr_common` tests the quadword that `iretq` loads CS from. -/
theorem isrLeave_balanced {m : Machine} (hkernel : ¬ m.UserMode) : Balanced m (isrLeave m) := by
  rcases exec_noSwap (popOrder.map .pop) (by decide) m with ⟨hgs, hkgs⟩
  have hleave : isrLeave m =
      (((m.exec (popOrder.map .pop)).execIfUser 24 [.swapgs]).exec [.addRsp 16]).iretq := rfl
  rw [hleave]
  generalize m.exec (popOrder.map .pop) = m₁ at hgs hkgs
  have haddr : m₁.regs .rsp + 16 + 8 = m₁.regs .rsp + 24 := by bv_omega
  have hcs : ((m₁.exec [.addRsp 16]).iretq).cs = m₁.mem (m₁.regs .rsp + 24) := by
    rw [← haddr]
    simp [iretq, exec, execOne, setReg]
  by_cases htest : m₁.mem (m₁.regs .rsp + 24) &&& 3 = 0
  · -- back to ring 0
    have hstay : m₁.execIfUser 24 [.swapgs] = m₁ := by rw [execIfUser, if_pos htest]
    have hzero : ((m₁.exec [.addRsp 16]).iretq).cs &&& 3 = 0 := by rw [hcs, htest]
    rw [hstay]
    exact Balanced.of_stay (iff_of_false hkernel (not_not.mpr hzero)) hgs hkgs
  · -- back to ring 3
    have hswap : m₁.execIfUser 24 [.swapgs] = m₁.exec [.swapgs] := by rw [execIfUser, if_neg htest]
    have huser : (((m₁.exec [.swapgs]).exec [.addRsp 16]).iretq).UserMode := by
      have hsame : (((m₁.exec [.swapgs]).exec [.addRsp 16]).iretq).cs =
          ((m₁.exec [.addRsp 16]).iretq).cs := rfl
      unfold Machine.UserMode
      rw [hsame, hcs]
      exact htest
    rw [hswap]
    exact Balanced.of_swap (fun h => hkernel (h.mpr huser)) hkgs hgs

/-- `ThreadTrampoline` stays in ring 0. -/
theorem threadTrampoline_balanced (m : Machine) : Balanced m m.threadTrampoline :=
  Balanced.of_stay Iff.rfl rfl rfl

/-- What the frame that `UserspaceTrampoline` pushes makes `iretq` load. -/
structure TrampolineLoads (m m' : Machine) : Prop where
  rip : m'.rip = m.regs .r12
  cs : m'.cs = 0x23
  rflags : m'.rflags = 0x202
  rsp : m'.regs .rsp = m.regs .r13
  ss : m'.ss = 0x1B

theorem userspaceTrampoline_loads (m : Machine) : TrampolineLoads m m.userspaceTrampoline := by
  have hslots : ∀ k, (hk : k < 5) → pushAll (m.regs .rsp) [0x1B, m.regs .r13, 0x202, 0x23,
      m.regs .r12] m.mem (slot (m.regs .rsp) (k + 1)) =
        [0x1B, m.regs .r13, 0x202, 0x23, m.regs .r12][k] := by
    intro k hk
    exact pushAll_slot hk (by simp)
  -- the addresses as `iretq` counts them, from the last push on
  have hplace : ∀ k, k < 5 → slot (m.regs .rsp) (k + 1) =
      m.regs .rsp - 8 - 8 - 8 - 8 - 8 + BitVec.ofNat 64 (8 * (4 - k)) := by
    intro k hk
    unfold slot
    bv_omega
  have hload : ∀ k, (hk : k < 5) → pushAll (m.regs .rsp) [0x1B, m.regs .r13, 0x202, 0x23,
      m.regs .r12] m.mem (m.regs .rsp - 8 - 8 - 8 - 8 - 8 + BitVec.ofNat 64 (8 * (4 - k))) =
        [0x1B, m.regs .r13, 0x202, 0x23, m.regs .r12][k] := by
    intro k hk
    rw [← hplace k hk]
    exact hslots k hk
  have hrip := hload 4 (by omega)
  rw [show BitVec.ofNat 64 (8 * (4 - 4)) = 0#64 from rfl, BitVec.add_zero] at hrip
  have hcs := hload 3 (by omega)
  have hflags := hload 2 (by omega)
  have hrsp := hload 1 (by omega)
  have hss := hload 0 (by omega)
  constructor
  all_goals
    simp only [userspaceTrampoline, userspacePushed, iretq, clear, cli, exec, List.foldl, execOne,
      pushVal, Function.update_self, Function.update_idem, List.mem_cons, List.not_mem_nil,
      reduceCtorEq, or_self, if_false]
  · exact hrip
  · exact hcs
  · exact hflags
  · exact hrsp
  · exact hss

/-- `UserspaceTrampoline` always goes to ring 3, and swaps. -/
theorem userspaceTrampoline_balanced {m : Machine} (hkernel : ¬ m.UserMode) :
    Balanced m m.userspaceTrampoline := by
  have huser := userCs_user (userspaceTrampoline_loads m).cs
  exact Balanced.of_swap (fun h => hkernel (h.mpr huser)) rfl rfl

/-- `ForkReturn` restores the frame at its stack pointer. -/
theorem forkReturn_restores (m : Machine) :
    Restored m m.forkReturn (m.regs .rsp) ∧ m.forkReturn.ss = m.mem (m.regs .rsp + 168) := by
  obtain ⟨hmem, hrsp, hget, -⟩ := exec_pop popOrder (by decide) (by decide) (m.exec [.swapgs])
  have hsp : (m.exec [.swapgs]).regs .rsp = m.regs .rsp := rfl
  have hmem₀ : (m.exec [.swapgs]).mem = m.mem := rfl
  rw [hmem₀] at hmem hget
  rw [hsp] at hrsp hget
  unfold forkReturn
  exact iretq_restores hmem hrsp hget

/-- `ForkReturn` swaps whatever the frame holds. -/
theorem forkPopped_gs (m : Machine) :
    m.forkPopped.gsBase = m.kernelGsBase ∧ m.forkPopped.kernelGsBase = m.gsBase := by
  obtain ⟨-, -, -, -, hgs, hkgs⟩ := exec_pop popOrder (by decide) (by decide) (m.exec [.swapgs])
  unfold forkPopped
  generalize (m.exec [.swapgs]).exec (popOrder.map .pop) = m₁ at hgs hkgs
  exact ⟨hgs, hkgs⟩

/-! ## Exits -/

/-- A system call that returns is balanced, whatever the signal check does on the way,
-/
theorem frameSysret_balanced {fr : Frame} {m m' : Machine} {r r' : CallRegs} {sig : SigThread}
    (hkernel : ¬ m.UserMode) (h : fr.sysret m r r' sig = some m') : Balanced m m' := by
  simp only [Frame.sysret, Option.map_eq_some_iff] at h
  rcases h with ⟨mem, -, rfl⟩
  have hcs :
      (((fr.returned m r).exec syscallCheck).afterCall ⟨r'.ret, r'.scratch, mem⟩).cs = m.cs := rfl
  have hexit := syscallExit_balanced (fun hu => hkernel ((userMode_congr hcs).mp hu))
  exact hexit.congr hcs rfl rfl

/-- so is the exit behind the signal check of an interrupt, -/
theorem isrExit_balanced {m : Machine} (hkernel : ¬ m.UserMode) : Balanced m (isrExit m) := by
  have hcs : (m.exec [.pop .rax]).cs = m.cs := rfl
  have hleave := isrLeave_balanced (fun hu => hkernel ((userMode_congr hcs).mp hu))
  exact hleave.congr hcs rfl rfl

/-- and so an interrupt that returns. -/
theorem frameIret_balanced {fr : Frame} {m m' : Machine} {r r' : CallRegs} {sig : SigThread}
    (hkernel : ¬ m.UserMode) (h : fr.iret m r r' sig = some m') : Balanced m m' := by
  have hcs : (fr.returned m r).cs = m.cs := rfl
  have hret : ¬ (fr.returned m r).UserMode := fun hu => hkernel ((userMode_congr hcs).mp hu)
  simp only [Frame.iret] at h
  split at h
  · -- no signal check
    cases h
    exact (isrLeave_balanced hret).congr hcs rfl rfl
  · rename_i m₁ hcheck
    unfold isrCheck at hcheck
    split at hcheck
    · cases hcheck
    · simp only [Option.some.injEq] at hcheck
      simp only [Option.map_eq_some_iff] at h
      rcases h with ⟨mem, -, rfl⟩
      have hcs' : (m₁.afterCall ⟨r'.ret, r'.scratch, mem⟩).cs = m.cs := by
        rw [← hcheck]
        rfl
      have hexit := isrExit_balanced (fun hu => hkernel ((userMode_congr hcs').mp hu))
      refine hexit.congr hcs' ?_ ?_
      · rw [← hcheck]
        rfl
      · rw [← hcheck]
        rfl

/-! ## What `sysret` and `iretq` find

A context in memory, and flags of its own. -/

/-- Of these instructions only `cld` writes a flag. -/
theorem exec_rflags (is : List Instr) (h : Instr.cld ∉ is) (m : Machine) :
    (m.exec is).rflags = m.rflags := by
  induction is generalizing m with
  | nil => rfl
  | cons i is ih =>
      have hi : i ≠ .cld := fun he => h (he ▸ List.mem_cons_self)
      have hone : (m.execOne i).rflags = m.rflags := by
        cases i with
        | cld => exact absurd rfl hi
        | push | pushImm | pushGs | pop | mov | load | loadGs | storeGs | addRsp | swapgs => rfl
      exact (ih (fun hin => h (List.mem_cons_of_mem _ hin)) (m.execOne i)).trans hone

/-- The code segment and the flags stay. -/
def SameRing (m m' : Machine) : Prop := m'.cs = m.cs ∧ m'.rflags = m.rflags

theorem SameRing.trans {m m' m'' : Machine} (h : SameRing m m') (h' : SameRing m' m'') :
    SameRing m m'' := ⟨h'.1.trans h.1, h'.2.trans h.2⟩

/-- Neither CS nor the flags change before the last instruction of an exit: -/
theorem exec_sameRing (m : Machine) (is : List Instr) (h : Instr.cld ∉ is) :
    SameRing m (m.exec is) := ⟨exec_cs m is, exec_rflags is h m⟩

/-- not while the registers are popped, -/
theorem isrPopped_sameRing (m : Machine) : SameRing m m.isrPopped := by
  have hpops := exec_sameRing m (popOrder.map .pop) (by decide)
  have hswap : SameRing (m.exec (popOrder.map .pop))
      ((m.exec (popOrder.map .pop)).execIfUser 24 [.swapgs]) := by
    unfold execIfUser
    split
    · exact ⟨rfl, rfl⟩
    · exact exec_sameRing _ _ (by decide)
  exact (hpops.trans hswap).trans (exec_sameRing _ _ (by decide))

/-- and not on the way to `SignalCheckPending`. -/
theorem isrCheck_sameRing {m m' : Machine} (h : isrCheck m = some m') : SameRing m m' := by
  unfold isrCheck at h
  split at h
  · cases h
  · cases h
    exact exec_sameRing _ _ (by decide)

/-- `m₂` is in the ring and under the flags of `m`, and its `iretq` loads `f`. -/
structure AtIretq (m m₂ : Machine) (f : InterruptFrame) : Prop where
  same : SameRing m m₂
  rip : m₂.iretq.rip = f.rip
  cs : m₂.iretq.cs = f.cs
  rflags : m₂.iretq.rflags = f.rflags
  ss : m₂.iretq.ss = f.ss

/-- So whether `iretq` takes the frame depends on the frame and on the kernel's flags.
-/
theorem AtIretq.takes {m m₂ : Machine} {f : InterruptFrame} (h : AtIretq m m₂ f) :
    m₂.TakesIretq ↔ TakesContext m.rflags f.rip f.cs f.ss := by
  rw [TakesIretq, h.same.2, h.rip, h.cs, h.ss]

/-- Behind the pops of `isr_common` it is the frame at the stack pointer. -/
theorem isrPopped_at (m : Machine) : AtIretq m m.isrPopped (frameAt m.mem (m.regs .rsp)) := by
  rcases isrLeave_restores m with ⟨hrestored, hss⟩
  rw [isrLeave_eq] at hrestored hss
  exact ⟨isrPopped_sameRing m, hrestored.rip, hrestored.cs, hrestored.rflags, hss⟩

/-- When the dispatcher has returned, the frame is at the stack pointer. -/
theorem returned_spec (fr : Frame) (m : Machine) (r : CallRegs) :
    (fr.returned m r).regs .rsp = fr.ptr ∧ (fr.returned m r).mem = putFrame m.mem fr.ptr fr.saved ∧
      SameRing m (fr.returned m r) := by
  refine ⟨?_, rfl, rfl, rfl⟩
  simp [Frame.returned, setReg]

/-- On the way to `SignalCheckPending` RAX is saved below the frame. -/
theorem isrCheck_mem {m m' : Machine} (h : isrCheck m = some m') :
    m'.mem = m.mem.write (m.regs .rsp - 8) (m.regs .rax) := by
  unfold isrCheck at h
  split at h
  · cases h
  · cases h
    simp [exec, execOne, pushVal, setReg]

/-- An interrupt returns to the context that `SignalCheckPending` leaves. -/
theorem atIretq_spec {fr : Frame} {m m₂ : Machine} {r r' : CallRegs} {sig : SigThread}
    (h : fr.atIretq m r r' sig = some m₂) : AtIretq m m₂ (checkedFrame sig fr.saved) := by
  rcases returned_spec fr m r with ⟨hrsp, hmem, hsame⟩
  have hsaved : frameAt (fr.returned m r).mem fr.ptr = fr.saved := by
    rw [hmem, frameAt_putFrame]
  simp only [Frame.atIretq] at h
  split at h
  · -- back to kernel code, where no signal is looked for
    rename_i hcheck
    cases h
    have hkernel : fr.saved.cs &&& 3 = 0 := by
      unfold isrCheck at hcheck
      split at hcheck
      · rename_i hcs
        rw [hrsp, hmem, putFrame_cs] at hcs
        exact hcs
      · cases hcheck
    have hat := isrPopped_at (fr.returned m r)
    rw [hrsp, hsaved] at hat
    rw [checkedFrame_kernel hkernel]
    exact { hat with same := hsame.trans hat.same }
  · -- after the signal check
    rename_i m₁ hcheck
    simp only [Option.map_eq_some_iff] at h
    rcases h with ⟨mem, hsig, rfl⟩
    rcases isrCheck_some hcheck with ⟨hrdi, hrsp₁⟩
    have hmem₁ := isrCheck_mem hcheck
    rw [hrsp] at hrdi hrsp₁ hmem₁
    rw [hrdi] at hsig
    have hsaved₁ : frameAt m₁.mem fr.ptr = fr.saved := by
      rw [hmem₁, frameAt_write_ne _ _ (below_frame fr.ptr), hsaved]
    have hchecked := signalCheck_checked hsig
    rw [hsaved₁] at hchecked
    have hat := isrPopped_at ((m₁.afterCall ⟨r'.ret, r'.scratch, mem⟩).exec [.pop .rax])
    have hrsp₂ :
        ((m₁.afterCall ⟨r'.ret, r'.scratch, mem⟩).exec [.pop .rax]).regs .rsp = fr.ptr := by
      have hpop : ((m₁.afterCall ⟨r'.ret, r'.scratch, mem⟩).exec [.pop .rax]).regs .rsp =
          m₁.regs .rsp + 8 := by simp [exec, execOne, popReg]
      rw [hpop, hrsp₁]
      bv_omega
    have hmem₂ : ((m₁.afterCall ⟨r'.ret, r'.scratch, mem⟩).exec [.pop .rax]).mem = mem := rfl
    rw [hrsp₂, hmem₂, hchecked] at hat
    have hthere : SameRing m ((m₁.afterCall ⟨r'.ret, r'.scratch, mem⟩).exec [.pop .rax]) :=
      (hsame.trans (isrCheck_sameRing hcheck)).trans ⟨rfl, rfl⟩
    exact { hat with same := hthere.trans hat.same }

/-- At `sysret` the CPU is still in ring 0. -/
theorem atSysret_cs {fr : Frame} {m m₂ : Machine} {r r' : CallRegs} {sig : SigThread}
    (h : fr.atSysret m r r' sig = some m₂) : m₂.cs = m.cs := by
  simp only [Frame.atSysret, Option.map_eq_some_iff] at h
  rcases h with ⟨mem, -, rfl⟩
  rw [exec_cs]
  rfl

/-- `UserspaceTrampoline` has pushed a context for ring 3 itself. -/
theorem userspacePushed_takes (m : Machine) :
    m.userspacePushed.TakesIretq ↔ TakesContext m.rflags (m.regs .r12) 0x23 0x1B := by
  have hloads := userspaceTrampoline_loads m
  have hrflags : m.userspacePushed.rflags = m.rflags &&& ~~~0x200#64 := rfl
  have hnt : ~~~0x200#64 &&& 0x4000 = (0x4000 : Word) := by decide
  rw [userspaceTrampoline] at hloads
  rw [TakesIretq, hloads.rip, hloads.cs, hloads.ss, hrflags]
  unfold TakesContext
  rw [BitVec.and_assoc, hnt]

/-- `ForkReturn` pops the frame of its parent. -/
theorem forkPopped_at (m : Machine) : AtIretq m m.forkPopped (frameAt m.mem (m.regs .rsp)) := by
  rcases forkReturn_restores m with ⟨hrestored, hss⟩
  rw [forkReturn] at hrestored hss
  refine ⟨?_, hrestored.rip, hrestored.cs, hrestored.rflags, hss⟩
  have hswap := exec_sameRing m [.swapgs] (by decide)
  have hpops := exec_sameRing (m.exec [.swapgs]) (popOrder.map .pop) (by decide)
  exact (hswap.trans hpops).trans (exec_sameRing _ _ (by decide))

/-! ## The property -/

/-- Kernel code runs with `&CpuData` in the GS base, user code with `&CpuData` in
the kernel GS base. -/
def GsOwn (base : Word) (s : RingState) : Prop :=
  (s.m.UserMode → s.m.kernelGsBase = base) ∧ (¬ s.m.UserMode → s.m.gsBase = base)

instance (base : Word) (s : RingState) : Decidable (GsOwn base s) :=
  inferInstanceAs (Decidable ((s.m.UserMode → s.m.kernelGsBase = base) ∧
    (¬ s.m.UserMode → s.m.gsBase = base)))

/-- The `iretq` of a landing point goes to ring 3. -/
def Landing.Leaves (rflags : Word) : Landing → Prop
  | .thread .. => True
  | .userspace rip _ => TakesContext rflags rip 0x23 0x1B
  | .fork f => f.cs &&& 3 ≠ 0 ∧ TakesContext rflags f.rip f.cs f.ss

/-- The condition: `ARCH_SET_GS` is only asked for the base that is there, and
wherever `swapgs` has been executed the CPU goes on to ring 3 (or the two bases
are the same): `sysret` and `iretq` do not fault, and a fork child's frame does not
return to ring 0. -/
def GsMeet (base : Word) (s : RingState) : RingOp → Prop
  | .dispatch _ _ =>
      ∀ ptr f rest, s.code s.current = .running (⟨.syscall 158, ptr, f⟩ :: rest) →
        f.rdi.setWidth 32 = RingState.ARCH_SET_GS → f.rsi = base
  | .sysretFault .. => s.m.kernelGsBase = base
  | .iret _ _ sig =>
      ∀ ptr f rest, s.code s.current = .running (⟨.interrupt, ptr, f⟩ :: rest) →
        let f' := checkedFrame sig f
        f'.cs &&& 3 ≠ 0 → TakesContext s.m.rflags f'.rip f'.cs f'.ss ∨ s.m.kernelGsBase = base
  | .land =>
      ∀ l sp, s.code s.current = .landing l sp →
        l.Leaves s.m.rflags ∨ s.m.kernelGsBase = base
  | _ => True

/-- A balanced step keeps the kernel on its base. -/
theorem GsOwn.of_balanced {base : Word} {s s' : RingState} (hbal : Balanced s.m s'.m)
    (h : GsOwn base s) : GsOwn base s' := by
  by_cases hring : s.m.UserMode ↔ s'.m.UserMode
  · -- the same ring
    rcases hbal.stay hring with ⟨hgs, hkgs⟩
    constructor
    · intro huser
      rw [hkgs]
      exact h.1 (hring.mpr huser)
    · intro hkernel
      rw [hgs]
      exact h.2 fun huser => hkernel (hring.mp huser)
  · -- the other ring
    rcases hbal.swap hring with ⟨hgs, hkgs⟩
    constructor
    · intro huser
      rw [hkgs]
      exact h.2 fun hu => hring (iff_of_true hu huser)
    · intro hkernel
      rw [hgs]
      apply h.1
      by_contra hk
      exact hring (iff_of_false hk hkernel)

/-- Steps inside one ring. -/
theorem GsOwn.of_same {base : Word} {s s' : RingState} (hcs : s'.m.cs = s.m.cs)
    (hgs : s'.m.gsBase = s.m.gsBase) (hkgs : s'.m.kernelGsBase = s.m.kernelGsBase)
    (h : GsOwn base s) : GsOwn base s' :=
  h.of_balanced (Balanced.of_stay (userMode_congr hcs).symm hgs hkgs)

/-! ## Steps -/

/-- The only case of `Dispatch` that touches a GS base. -/
theorem dispatched_gs {s s' : RingState} {nr : Word} {fr : Frame} {rest : List Frame}
    (hdone : Dispatched s nr fr rest s') :
    s'.m.cs = s.m.cs ∧ s'.m.kernelGsBase = s.m.kernelGsBase ∧
      s'.m.gsBase =
        if nr = 158 ∧ fr.saved.rdi.setWidth 32 = RingState.ARCH_SET_GS then fr.saved.rsi
        else s.m.gsBase := by
  cases hdone with
  | sigreturn hnr =>
      rw [if_neg (fun h => absurd (hnr.symm.trans h.1) (by decide))]
      exact ⟨rfl, rfl, rfl⟩
  | fork top hnr =>
      rw [if_neg (fun h => hnr.ne_prctl h.1)]
      exact ⟨rfl, rfl, rfl⟩
  | clone top hnr =>
      rw [if_neg (fun h => absurd (hnr.symm.trans h.1) (by decide))]
      exact ⟨rfl, rfl, rfl⟩
  | execve rip rsp hnr =>
      rw [if_neg (fun h => absurd (hnr.symm.trans h.1) (by decide))]
      exact ⟨rfl, rfl, rfl⟩
  | archPrctl hnr =>
      unfold RingState.archPrctl
      split
      · -- `ARCH_SET_FS`
        rename_i hcode
        rw [hcode, if_neg (fun h => absurd h.2 (by decide))]
        exact ⟨rfl, rfl, rfl⟩
      · split
        · -- `ARCH_GET_FS`
          rename_i hcode
          rw [hcode, if_neg (fun h => absurd h.2 (by decide))]
          exact ⟨rfl, rfl, rfl⟩
        · split
          · -- the one code that writes GS.base
            rename_i hcode
            rw [if_pos ⟨hnr, hcode⟩]
            exact ⟨rfl, rfl, rfl⟩
          · -- any other code
            rename_i hcode
            rw [if_neg (fun h => hcode h.2)]
            exact ⟨rfl, rfl, rfl⟩
  | other hnr =>
      rw [if_neg (fun h => hnr h.1)]
      exact ⟨rfl, rfl, rfl⟩

/-- Of the system calls only `ARCH_SET_GS` can lose it, with another address. -/
theorem dispatched_gsOwn {base : Word} {s s' : RingState} (h : GsOwn base s)
    (hkernel : ¬ s.m.UserMode) {nr : Word} {fr : Frame} {rest : List Frame}
    (hdone : Dispatched s nr fr rest s') :
    GsOwn base s' ↔
      (nr = 158 → fr.saved.rdi.setWidth 32 = RingState.ARCH_SET_GS → fr.saved.rsi = base) := by
  rcases dispatched_gs hdone with ⟨hcs, hkgs, hgs⟩
  have hstill : ¬ s'.m.UserMode := fun hu => hkernel ((userMode_congr hcs).mp hu)
  by_cases hset : nr = 158 ∧ fr.saved.rdi.setWidth 32 = RingState.ARCH_SET_GS
  · -- `ARCH_SET_GS` writes the register that holds the kernel's base
    rw [if_pos hset] at hgs
    constructor
    · intro hown _ _
      rw [← hgs]
      exact hown.2 hstill
    · intro hargs
      refine ⟨fun hu => absurd hu hstill, fun _ => ?_⟩
      rw [hgs]
      exact hargs hset.1 hset.2
  · -- no other call writes a base
    rw [if_neg hset] at hgs
    constructor
    · intro _ hnr hcode
      exact absurd ⟨hnr, hcode⟩ hset
    · intro _
      exact h.of_same hcs hgs hkgs

/-- A fault at an exit, behind its `swapgs`: the kernel is back on the GS base that
the exit has left. -/
theorem fault_gsOwn {base : Word} {s : RingState} {m : Machine} (hkernel : ¬ m.UserMode)
    (ev : Event) (rest : List Frame) :
    GsOwn base ({ s with m := m }.interrupt ev rest) ↔ m.gsBase = base := by
  have hentered : ¬ (m.isrEntered ev).UserMode := kernelCs_not_user (gate_cs (isrEntry ev m))
  have hgs := ((isrEntered_balanced ev m).stay (iff_of_false hkernel hentered)).1
  change GsOwn base ({ s with m := m.isrEntered ev }.setCode _) ↔ _
  constructor
  · intro h
    rw [← hgs]
    exact h.2 hentered
  · intro h
    refine ⟨fun hu => absurd hu hentered, fun _ => ?_⟩
    rw [← h]
    exact hgs

/-- `iretq` behind code that swaps when it is to load a user context. -/
theorem iretq_gsOwn {base : Word} {s : RingState} {m : Machine} (h : GsOwn base s)
    (hkernel : ¬ s.m.UserMode) (hcs : m.cs = s.m.cs) (hbal : Balanced s.m m.iretq)
    (rest : List Frame) :
    GsOwn base (s.iretq m rest) ↔
      (m.iretq.UserMode → m.TakesIretq ∨ s.m.kernelGsBase = base) := by
  have hkernel' : ¬ m.UserMode := fun hu => hkernel ((userMode_congr hcs).mp hu)
  unfold RingState.iretq
  split
  · rename_i htakes
    exact iff_of_true (h.of_balanced hbal) fun _ => .inl htakes
  · rename_i hfault
    rw [fault_gsOwn hkernel']
    by_cases huser : m.iretq.UserMode
    · -- the bases are exchanged already
      have hgs : m.gsBase = s.m.kernelGsBase := (hbal.swap fun hring => hkernel (hring.mpr huser)).1
      rw [hgs]
      exact ⟨fun hbase _ => .inr hbase, fun hmeet => (hmeet huser).resolve_left hfault⟩
    · have hgs : m.gsBase = s.m.gsBase := (hbal.stay (iff_of_false hkernel huser)).1
      rw [hgs]
      exact iff_of_true (h.2 hkernel) fun hu => absurd hu huser

/-- A fork child starts with the frame it was given, on the other GS base. -/
theorem land_fork (s : RingState) (f : InterruptFrame) (sp : Word) :
    ∃ m, s.land (.fork f) sp = s.iretq m [] ∧ AtIretq s.m m f ∧
      m.gsBase = s.m.kernelGsBase ∧ m.kernelGsBase = s.m.gsBase := by
  have hland : s.land (.fork f) sp =
      s.iretq ({ s.m with mem := putFrame s.m.mem sp f }.landed sp 0 0 0).forkPopped [] := rfl
  -- the machine when `SwitchContext` has returned to `ForkReturn`
  generalize hm₀ : { s.m with mem := putFrame s.m.mem sp f }.landed sp 0 0 0 = m₀ at hland
  have hbases : m₀.gsBase = s.m.gsBase ∧ m₀.kernelGsBase = s.m.kernelGsBase := by
    rw [← hm₀]
    exact ⟨rfl, rfl⟩
  have hsame : SameRing s.m m₀ := by
    rw [← hm₀]
    exact ⟨rfl, rfl⟩
  have hmem : m₀.mem = putFrame s.m.mem sp f := by
    rw [← hm₀]
    rfl
  have hrsp : m₀.regs .rsp = sp := by
    rw [← hm₀]
    rfl
  have hat := forkPopped_at m₀
  rw [hmem, hrsp, frameAt_putFrame] at hat
  rcases forkPopped_gs m₀ with ⟨hgs, hkgs⟩
  exact ⟨_, hland, { hat with same := hsame.trans hat.same }, hgs.trans hbases.2,
    hkgs.trans hbases.1⟩

/-- A fork child runs on the right bases exactly when its frame takes it to ring 3
or it does not matter. -/
theorem land_fork_gsOwn {base : Word} {s : RingState} (h : GsOwn base s)
    (hkernel : ¬ s.m.UserMode) (f : InterruptFrame) (sp : Word) :
    GsOwn base (s.land (.fork f) sp) ↔
      ((Landing.fork f).Leaves s.m.rflags ∨ s.m.kernelGsBase = base) := by
  rcases land_fork s f sp with ⟨m, hland, hat, hgs, hkgs⟩
  have hkernel' : ¬ m.UserMode := fun hu => hkernel ((userMode_congr hat.same.1).mp hu)
  rw [hland, Landing.Leaves, ← hat.takes]
  unfold RingState.iretq
  split
  · -- `iretq` takes the frame: right for a return to ring 3, wrong for one to ring 0
    rename_i htakes
    have hring : m.iretq.UserMode ↔ f.cs &&& 3 ≠ 0 := by
      unfold Machine.UserMode
      rw [hat.cs]
    change (m.iretq.UserMode → m.kernelGsBase = base) ∧ (¬ m.iretq.UserMode → m.gsBase = base) ↔ _
    rw [hring, hgs, hkgs]
    constructor
    · rintro ⟨-, hzero⟩
      by_cases hf : f.cs &&& 3 = 0
      · exact .inr (hzero (not_not.mpr hf))
      · exact .inl ⟨hf, htakes⟩
    · intro hmeet
      refine ⟨fun _ => h.2 hkernel, fun hzero => ?_⟩
      exact hmeet.resolve_left fun hleaves => hzero hleaves.1
  · -- it faults, in ring 0 and with the bases exchanged
    rename_i hfault
    rw [fault_gsOwn hkernel', hgs]
    exact ⟨.inr, fun hmeet => hmeet.resolve_left fun hleaves => hfault hleaves.2⟩

/-- So does the first thread of a process, or one that `clone` has made. -/
theorem land_userspace_gsOwn {base : Word} {s : RingState} (h : GsOwn base s)
    (hkernel : ¬ s.m.UserMode) (rip rsp sp : Word) :
    GsOwn base (s.land (.userspace rip rsp) sp) ↔
      ((Landing.userspace rip rsp).Leaves s.m.rflags ∨ s.m.kernelGsBase = base) := by
  have hland : s.land (.userspace rip rsp) sp =
      s.iretq (s.m.landed sp rip rsp 0).userspacePushed [] := rfl
  have hleaves : (Landing.userspace rip rsp).Leaves s.m.rflags ↔
      TakesContext (s.m.landed sp rip rsp 0).rflags ((s.m.landed sp rip rsp 0).regs .r12) 0x23
        0x1B := Iff.rfl
  have hcs : (s.m.landed sp rip rsp 0).cs = s.m.cs := rfl
  have hgs : (s.m.landed sp rip rsp 0).gsBase = s.m.gsBase := rfl
  have hkgs : (s.m.landed sp rip rsp 0).kernelGsBase = s.m.kernelGsBase := rfl
  rw [hland, hleaves]
  -- from here on only CS and the two bases of the landed machine count
  generalize s.m.landed sp rip rsp 0 = m at hcs hgs hkgs
  have hkernel' : ¬ m.UserMode := fun hu => hkernel ((userMode_congr hcs).mp hu)
  have hbal := (userspaceTrampoline_balanced hkernel').congr hcs hgs hkgs
  have huser : m.userspacePushed.iretq.UserMode := userCs_user (userspaceTrampoline_loads m).cs
  rw [iretq_gsOwn h hkernel ((userspacePushed_cs m).trans hcs) hbal, userspacePushed_takes]
  exact ⟨fun hmeet => hmeet huser, fun hmeet _ => hmeet⟩

/-- A `sysret` that faults has swapped already: the kernel keeps its base if the user's
is the same. -/
theorem sysretFault_gsOwn {base : Word} {s : RingState} {fr : Frame} {m : Machine}
    {r r' : CallRegs} {sig : SigThread} (hkernel : ¬ s.m.UserMode)
    (hat : fr.atSysret s.m r r' sig = some m) (rest : List Frame) :
    GsOwn base ({ s with m := m }.interrupt generalProtection rest) ↔
      s.m.kernelGsBase = base := by
  have hret : fr.sysret s.m r r' sig = some m.sysret := by
    rw [Frame.sysret_eq, hat, Option.map_some]
  have hcs := atSysret_cs hat
  have huser : m.sysret.UserMode := userCs_user rfl
  have hgs : m.gsBase = s.m.kernelGsBase :=
    ((frameSysret_balanced hkernel hret).swap fun hring => hkernel (hring.mpr huser)).1
  rw [fault_gsOwn (fun hu => hkernel ((userMode_congr hcs).mp hu)), hgs]

/-- One step, by its kind. -/
theorem ringStep_gsOwn {base : Word} {s s' : RingState} {op : RingOp} (h : GsOwn base s)
    (hstep : ringStep s op = some s') : GsOwn base s' ↔ GsMeet base s op := by
  cases ringStep_cases hstep with
  | userRun fsBase huser hto hflags =>
      refine iff_of_true ⟨fun _ => h.1 huser, fun hkernel => ?_⟩ trivial
      exact absurd hto hkernel
  | kernelRun regs rflags mem hkernel => exact iff_of_true (h.of_same rfl rfl rfl) trivial
  | store a bs hkernel => exact iff_of_true (h.of_same rfl rfl rfl) trivial
  | syscall hcode huser =>
      exact iff_of_true (h.of_balanced (syscallEntry_balanced huser)) trivial
  | dispatch child image hcode hkernel hdone =>
      -- the condition is about the frame that this call was entered with
      rw [dispatched_gsOwn h hkernel hdone]
      constructor
      · intro hargs ptr' f' rest' hcode' hset
        rw [hcode] at hcode'
        cases hcode'
        exact hargs rfl hset
      · rintro hmeet rfl hset
        exact hmeet _ _ _ hcode hset
  | sysret hcode hkernel hret =>
      exact iff_of_true (h.of_balanced (frameSysret_balanced hkernel hret)) trivial
  | sysretFault hcode hkernel hat => exact sysretFault_gsOwn hkernel hat _
  | interrupt ev hcode =>
      exact iff_of_true (h.of_balanced (isrEntered_balanced ev s.m)) trivial
  | @iret ptr f rest r r' sig m hcode hkernel hat =>
      have hspec := atIretq_spec hat
      have hret : Frame.iret ⟨.interrupt, ptr, f⟩ s.m r r' sig = some m.iretq := by
        rw [Frame.iret_eq, hat, Option.map_some]
      have hring : m.iretq.UserMode ↔ (checkedFrame sig f).cs &&& 3 ≠ 0 := by
        unfold Machine.UserMode
        rw [hspec.cs]
      rw [iretq_gsOwn h hkernel hspec.same.1 (frameIret_balanced hkernel hret), hring, hspec.takes]
      constructor
      · intro hmeet ptr' f' rest' hcode'
        rw [hcode] at hcode'
        cases hcode'
        exact hmeet
      · intro hmeet
        exact hmeet ptr f rest hcode
  | spawnKernel entryPoint arg self top hkernel =>
      exact iff_of_true (h.of_same rfl rfl rfl) trivial
  | spawnUser rip rsp top hkernel => exact iff_of_true (h.of_same rfl rfl rfl) trivial
  | switchTo hkernel hlt => exact iff_of_true (h.of_same rfl rfl rfl) trivial
  | @land l sp hcode hkernel =>
      -- the condition is about this landing point
      have hown : GsOwn base (s.land l sp) ↔ (l.Leaves s.m.rflags ∨ s.m.kernelGsBase = base) := by
        cases l with
        | thread entryPoint arg self =>
            have hbal := threadTrampoline_balanced (s.m.landed sp entryPoint arg self)
            have hcs : (s.m.landed sp entryPoint arg self).cs = s.m.cs := rfl
            refine iff_of_true ?_ (.inl trivial)
            exact h.of_balanced (hbal.congr hcs rfl rfl)
        | userspace rip rsp => exact land_userspace_gsOwn h hkernel rip rsp sp
        | fork f => exact land_fork_gsOwn h hkernel f sp
      rw [hown]
      constructor
      · intro hmeet l' sp' hcode'
        rw [hcode] at hcode'
        cases hcode'
        exact hmeet
      · intro hmeet
        exact hmeet l sp hcode

/-- The kernel boots on its base. -/
theorem boot_gsOwn (base idleTop : Word) : GsOwn base (bootRing base idleTop) :=
  ⟨fun huser => absurd huser (kernelCs_not_user rfl), fun _ => rfl⟩

/-- From boot, a run keeps the kernel on its own GS base throughout exactly when
its steps meet the condition. -/
theorem gsOwn_iff_gsMeet (base idleTop : Word) (ops : List RingOp) :
    Always ringStep (GsOwn base) (bootRing base idleTop) ops ↔
      StepsMeet ringStep (GsMeet base) (bootRing base idleTop) ops :=
  always_iff_stepsMeet (B := fun _ => True) (fun _ _ _ _ _ => trivial)
    (fun _ _ _ _ h hmeet hstep => (ringStep_gsOwn h hstep).mpr hmeet)
    (fun _ _ _ _ h hmiss hstep h' => hmiss ((ringStep_gsOwn h hstep).mp h'))
    ops trivial (boot_gsOwn base idleTop)

/-- User code at `0x401000` with these registers and flags; the memory holds
`CpuData.kernel_stack`. -/
def userMachine (regs : Reg → Word) (base kernelStack : Word) : Machine where
  regs := regs
  rip := 0x401000
  cs := 0x23
  rflags := 0x202
  ss := 0x1B
  mem := Mem.write (fun _ => 0) (base + 16) kernelStack
  gsBase := 0
  kernelGsBase := base
  tssRsp0 := kernelStack

/-- The registers of `arch_prctl(ARCH_SET_GS, 0)`. -/
def setGsRegs : Reg → Word
  | .rax => 158
  | .rdi => 0x1001
  | _ => 0

/-- The first thread of a process asks for GS base 0: `Dispatch` writes it to
`IA32_GS_BASE`, where the kernel's own base is at that moment. -/
theorem archSetGs_loses_cpuData :
    ∃ s, run ringStep (bootRing 0xFFFF800000001000 0xFFFF800000108000)
        [.spawnUser 0x401000 0x7000 0xFFFF800000208000, .switchTo 1, .land,
          .userRun (userMachine setGsRegs 0xFFFF800000001000 0xFFFF800000208000) 0,
          .syscall, .dispatch none none] = some s ∧
      ¬ s.m.UserMode ∧ s.m.gsBase = 0 ∧ ¬ GsOwn 0xFFFF800000001000 s :=
  exists_start (by decide +kernel)

/-- A thread whose entry point is not canonical, which is what `clone` makes of such
an `rdx`: the `iretq` of `UserspaceTrampoline` faults behind the `swapgs`. -/
example :
    ∃ s, run ringStep (bootRing 0xFFFF800000001000 0xFFFF800000108000)
        [.spawnUser 0x800000000000 0x7000 0xFFFF800000208000, .switchTo 1, .land] = some s ∧
      ¬ s.m.UserMode ∧ s.m.gsBase = 0 := exists_start (by decide +kernel)

/-! ## Fork children

The saved CS that `InitializeForkStack` copies is the `0x23` that `SyscallEntry`
pushes, unless something has been stored over it. -/

/-- The saved CS of a system call whose case is still to come. -/
def Frame.CsUser (fr : Frame) : Prop := ∀ nr, fr.entry = .syscall nr → fr.saved.cs &&& 3 ≠ 0

/-- Where saved code segments lie. -/
def Code.csSlots : Code → List Word
  | .running frames => frames.map fun fr => fr.ptr + 144
  | .landing (.fork _) sp => [sp + 144]
  | .landing (.thread ..) _ => []
  | .landing (.userspace ..) _ => []

/-- What a fork child will load. -/
abbrev CsSaved (s : RingState) : Prop := AllSaved Frame.CsUser (fun f => f.cs &&& 3 ≠ 0) s

/-- The `n` bytes from `a` on are next to every saved code segment. -/
def MissesCs (s : RingState) (a : Word) (n : Nat) : Prop :=
  ∀ t < s.nextTid, ∀ slot ∈ (s.code t).csSlots, ByteMem.Apart slot 8 a n

/-- The `iretq` of a landing point does not fault. -/
def Landing.Taken (rflags : Word) : Landing → Prop
  | .thread .. => True
  | .userspace rip _ => TakesContext rflags rip 0x23 0x1B
  | .fork f => TakesContext rflags f.rip f.cs f.ss

/-- The condition in terms of what user code asks for: `ARCH_SET_GS` is only asked
for the base that is there, no exit faults, and what goes through a pointer of
user code, `ARCH_GET_FS` included, goes next to the saved code segments. -/
def GsInputs (base : Word) (s : RingState) : RingOp → Prop
  | .dispatch _ _ =>
      ∀ ptr f rest, s.code s.current = .running (⟨.syscall 158, ptr, f⟩ :: rest) →
        (f.rdi.setWidth 32 = RingState.ARCH_SET_GS → f.rsi = base) ∧
          (f.rdi.setWidth 32 = RingState.ARCH_GET_FS → MissesCs s f.rsi 8)
  | .store a bs => MissesCs s a bs.length
  | .land => ∀ l sp, s.code s.current = .landing l sp → l.Taken s.m.rflags
  | op => GsMeet base s op

/-- A store next to the saved code segments keeps them. -/
theorem store_csSaved {s : RingState} (h : CsSaved s) {a : Word} {bs : List UInt8}
    (hmiss : MissesCs s a bs.length) : CsSaved (s.store a bs) := by
  refine ⟨h.current, fun t ht => ?_⟩
  have hcode := h.all t ht
  have hslot := hmiss t ht
  change ((s.code t).store a bs).All _ _
  revert hcode hslot
  cases s.code t with
  -- each context that is saved
  | running frames =>
      intro hcode hslot fr hfr nr hentry
      rcases List.mem_map.mp hfr with ⟨g, hg, rfl⟩
      have hapart : ByteMem.Apart (g.ptr + 144) 8 a bs.length :=
        hslot _ (List.mem_map.mpr ⟨g, hg, rfl⟩)
      change (storeFrame a bs g.ptr g.saved).cs &&& 3 ≠ 0
      rw [storeFrame_cs hapart]
      exact hcode g hg nr hentry
  | landing l sp =>
      cases l with
      | thread | userspace => exact fun _ _ => trivial
      -- the one that is prepared for a fork child
      | fork f =>
          intro hcode hslot
          have hapart : ByteMem.Apart (sp + 144) 8 a bs.length :=
            hslot _ (List.mem_singleton.mpr rfl)
          change (storeFrame a bs sp f).cs &&& 3 ≠ 0
          rw [storeFrame_cs hapart]
          exact hcode

/-- A system call that is done needs its code segment no more: `sysret` loads a
constant. -/
theorem finish_csSaved {s : RingState} (h : CsSaved s) {fr : Frame} {rest : List Frame}
    (hcode : s.code s.current = .running (fr :: rest)) (f : InterruptFrame) :
    CsSaved (s.finish fr rest f) := by
  apply h.setCode
  apply AllSaved.push (h.tail hcode)
  intro nr hentry
  cases hentry

/-- Marking a system call as done moves no saved code segment. -/
theorem finish_missesCs {s : RingState} {fr : Frame} {rest : List Frame} {a : Word} {n : Nat}
    (hcode : s.code s.current = .running (fr :: rest)) (f : InterruptFrame)
    (hmiss : MissesCs s a n) : MissesCs (s.finish fr rest f) a n := by
  intro t ht
  have hslot := hmiss t ht
  change ∀ slot ∈ (Function.update s.code s.current
    (.running (⟨.dispatched, fr.ptr, f⟩ :: rest)) t).csSlots, ByteMem.Apart slot 8 a n
  by_cases hcur : t = s.current
  · rw [hcur, hcode] at hslot
    rw [hcur, Function.update_self]
    exact hslot
  · rw [Function.update_of_ne hcur]
    exact hslot

/-- Nothing is asked of the code segment that an interrupt saves. -/
theorem interrupt_csUser (ev : Event) (m : Machine) :
    Frame.CsUser ⟨.interrupt, (m.isrEntered ev).regs .rsp,
      frameAt (m.isrEntered ev).mem ((m.isrEntered ev).regs .rsp)⟩ := by
  intro nr hentry
  cases hentry

/-- One step keeps them, by its kind. -/
theorem ringStep_csSaved {base : Word} {s s' : RingState} {op : RingOp} (h : CsSaved s)
    (hop : GsInputs base s op) (hstep : ringStep s op = some s') : CsSaved s' := by
  cases ringStep_cases hstep with
  | userRun | kernelRun => exact ⟨h.current, h.all⟩
  | store a bs hkernel => exact store_csSaved h hop
  | syscall hcode huser =>
      have hcs := (syscallSave_frame s.m.syscallInstr).1
      refine h.enter _ hcode ?_
      intro nr _
      change (frameAt (s.m.syscallInstr.exec syscallSave).mem
        ((s.m.syscallInstr.exec syscallSave).regs .rsp)).cs &&& 3 ≠ 0
      rw [hcs]
      decide
  | @dispatch nr ptr f rest s' child image hcode hkernel hdone =>
      have hcs : f.cs &&& 3 ≠ 0 := h.head hcode nr rfl
      have hfinish := finish_csSaved h hcode
      cases hdone with
      | sigreturn hnr => exact hfinish _
      | fork top hnr => exact (hfinish f).addThread hcs
      | clone top hnr => exact (hfinish f).addThread trivial
      | execve rip rsp hnr => exact hfinish _
      | archPrctl hnr =>
          subst hnr
          unfold RingState.archPrctl
          split
          · exact ⟨(hfinish f).current, (hfinish f).all⟩
          · split
            · -- ARCH_GET_FS stores
              rename_i hget
              have hmiss := (hop ptr f rest hcode).2 hget
              apply store_csSaved (hfinish f)
              rw [toLE_length]
              exact finish_missesCs hcode f hmiss
            · split
              · exact ⟨(hfinish f).current, (hfinish f).all⟩
              · exact hfinish f
      | other hnr => exact hfinish f
  | sysret hcode hkernel hret => exact h.leave _ hcode
  | sysretFault hcode hkernel hat => exact h.interrupt _ _ (h.tail hcode) (interrupt_csUser _ _)
  | interrupt ev hcode =>
      exact h.enter _ hcode (interrupt_csUser ev s.m)
  | iret hcode hkernel hat => exact h.iretq _ (h.tail hcode) (interrupt_csUser _ _)
  | spawnKernel entryPoint arg self top hkernel => exact h.addThread trivial
  | spawnUser rip rsp top hkernel => exact h.addThread trivial
  | switchTo hkernel hlt => exact ⟨hlt, h.all⟩
  | land hcode hkernel => exact h.land _ _ fun m _ => interrupt_csUser _ m

/-- So a fork child returns to ring 3, and the rest of the condition is about what was
asked for. -/
theorem gsMeet_of_gsInputs {base : Word} {s : RingState} {op : RingOp} (h : CsSaved s)
    (hop : GsInputs base s op) : GsMeet base s op := by
  cases op with
  | dispatch child image => exact fun ptr f rest hcode => (hop ptr f rest hcode).1
  | land =>
      intro l sp hcode
      have htaken := hop l sp hcode
      have hcur := h.all s.current h.current
      rw [hcode] at hcur
      cases l with
      | thread entryPoint arg self => exact .inl trivial
      | userspace rip rsp => exact .inl htaken
      | fork f => exact .inl ⟨hcur, htaken⟩
  | sysretFault | iret => exact hop
  | userRun | kernelRun | store | syscall | sysret | interrupt | spawnKernel | spawnUser
  | switchTo => trivial

/-- Whatever user code asks for, as long as it does not set the GS base, does not
make an exit fault and does not get a saved code segment overwritten, the kernel
keeps its GS base. -/
theorem gsOwn_of_gsInputs {base idleTop : Word} {ops : List RingOp}
    (hops : StepsMeet ringStep (GsInputs base) (bootRing base idleTop) ops) :
    Always ringStep (GsOwn base) (bootRing base idleTop) ops := by
  have hinv := always_of_stepsMeet (I := fun s => CsSaved s ∧ GsOwn base s)
    (fun s op s' hs hop hstep => ?_) ⟨.boot base idleTop, boot_gsOwn base idleTop⟩ hops
  · exact hinv.mono fun s hs => hs.2
  · exact ⟨ringStep_csSaved hs.1 hop hstep,
      (ringStep_gsOwn hs.2 hstep).mpr (gsMeet_of_gsInputs hs.1 hop)⟩

end Ceryx.Cpu
