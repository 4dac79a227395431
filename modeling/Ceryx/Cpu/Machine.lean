import Ceryx.Lib.Qword

/-!
# Ceryx.Cpu.Machine — the instructions of the entry and exit code

The part of the x86-64 machine that `Syscall.asm`, `Interrupts.asm` and
`Switch.asm` use: the general registers, the interrupted context's `rip`, `cs`,
`rflags` and `ss`, the two GS bases, the ring 0 stack pointer of the TSS, and
memory in aligned quadwords.

Straight-line code is a list of `Instr`; a call to a C++ function is
`afterCall`, which keeps what the System V ABI makes the callee keep.
-/

namespace Ceryx.Cpu

open Lib

/-- The general registers. -/
inductive Reg where
  | rax | rbx | rcx | rdx | rsi | rdi | rbp | rsp
  | r8 | r9 | r10 | r11 | r12 | r13 | r14 | r15
deriving DecidableEq, Repr

/-- A CPU and its memory. -/
structure Machine where
  regs : Reg → Word
  rip : Word
  cs : Word
  rflags : Word
  ss : Word
  mem : Mem
  /-- `IA32_GS_BASE` and `IA32_KERNEL_GS_BASE`. -/
  gsBase : Word
  kernelGsBase : Word
  tssRsp0 : Word

/-- The instructions that occur in straight-line entry and exit code. -/
inductive Instr where
  | push (r : Reg)
  | pushImm (v : Word)
  | pushGs (off : Word)
  | pop (r : Reg)
  | mov (dst src : Reg)
  /-- `mov dst, [rsp + off]`. -/
  | load (dst : Reg) (off : Word)
  /-- `mov dst, [gs:off]`. -/
  | loadGs (dst : Reg) (off : Word)
  /-- `mov [gs:off], src`. -/
  | storeGs (off : Word) (src : Reg)
  | addRsp (n : Word)
  | swapgs
  | cld
deriving DecidableEq, Repr

namespace Machine

/-- Assign a register. -/
def setReg (m : Machine) (r : Reg) (v : Word) : Machine :=
  { m with regs := Function.update m.regs r v }

/-- `push` of a value. -/
def pushVal (m : Machine) (v : Word) : Machine :=
  { m with
    regs := Function.update m.regs .rsp (m.regs .rsp - 8)
    mem := m.mem.write (m.regs .rsp - 8) v }

/-- `pop` into a register. -/
def popReg (m : Machine) (r : Reg) : Machine :=
  { m with
    regs := Function.update (Function.update m.regs .rsp (m.regs .rsp + 8)) r
      (m.mem (m.regs .rsp)) }

/-- One instruction. -/
def execOne (m : Machine) : Instr → Machine
  | .push r => m.pushVal (m.regs r)
  | .pushImm v => m.pushVal v
  | .pushGs off => m.pushVal (m.mem (m.gsBase + off))
  | .pop r => m.popReg r
  | .mov dst src => m.setReg dst (m.regs src)
  | .load dst off => m.setReg dst (m.mem (m.regs .rsp + off))
  | .loadGs dst off => m.setReg dst (m.mem (m.gsBase + off))
  | .storeGs off src => { m with mem := m.mem.write (m.gsBase + off) (m.regs src) }
  | .addRsp n => m.setReg .rsp (m.regs .rsp + n)
  | .swapgs => { m with gsBase := m.kernelGsBase, kernelGsBase := m.gsBase }
  | .cld => { m with rflags := m.rflags &&& ~~~0x400#64 }

/-- Straight-line code. -/
def exec (m : Machine) (is : List Instr) : Machine := is.foldl execOne m

/-- Code that a `test qword [rsp + off], 3` and a `jz` skip when the two bits
are clear. -/
def execIfUser (m : Machine) (off : Word) (is : List Instr) : Machine :=
  if m.mem (m.regs .rsp + off) &&& 3 = 0 then m else m.exec is

/-! ## Control transfers -/

/-- The addresses that four levels of page tables translate: the bits from 47 on are
equal. -/
def Canonical (a : Word) : Prop := a < 0x800000000000 ∨ 0xFFFF800000000000 ≤ a

instance (a : Word) : Decidable (Canonical a) :=
  inferInstanceAs (Decidable (_ ∨ _))

/-- `o64 sysret`. -/
def sysret (m : Machine) : Machine :=
  { m with rip := m.regs .rcx, rflags := m.regs .r11, cs := 0x23, ss := 0x1B }

/-- `iretq`. -/
def iretq (m : Machine) : Machine :=
  let sp := m.regs .rsp
  { m with
    rip := m.mem sp
    cs := m.mem (sp + 8)
    rflags := m.mem (sp + 16)
    regs := Function.update m.regs .rsp (m.mem (sp + 24))
    ss := m.mem (sp + 32) }

/-- The stack pointer an interrupt pushes from: ring 0 keeps its own stack,
ring 3 takes the TSS's, and both are aligned to 16 bytes. -/
def interruptTop (m : Machine) : Word :=
  (if m.cs &&& 3 = 0 then m.regs .rsp else m.tssRsp0) &&& ~~~0xF#64

/-- What the CPU does on an interrupt or exception: it pushes the interrupted
context, and an error code for the vectors that have one. -/
def interrupt (m : Machine) (errorCode : Option Word) : Machine :=
  let m₁ := m.setReg .rsp m.interruptTop
  let m₂ := ((((m₁.pushVal m.ss).pushVal (m.regs .rsp)).pushVal m.rflags).pushVal m.cs).pushVal
    m.rip
  match errorCode with
  | none => m₂
  | some e => m₂.pushVal e

/-! ## Calls to C++ -/

/-- What a C++ function leaves behind: its result, the registers it need not
keep, and memory. -/
structure CallEffect where
  ret : Word
  scratch : Reg → Word
  mem : Mem

/-- The registers a callee may change. -/
def callerSaved : List Reg := [.rax, .rcx, .rdx, .rsi, .rdi, .r8, .r9, .r10, .r11]

/-- The machine after a call has returned. -/
def afterCall (m : Machine) (e : CallEffect) : Machine :=
  { m with
    regs := fun r => if r = .rax then e.ret else if r ∈ callerSaved then e.scratch r else m.regs r
    mem := e.mem }

@[simp] theorem afterCall_rsp (m : Machine) (e : CallEffect) :
    (m.afterCall e).regs .rsp = m.regs .rsp := rfl

@[simp] theorem afterCall_mem (m : Machine) (e : CallEffect) : (m.afterCall e).mem = e.mem := rfl

/-! ## Runs of pushes and pops -/

theorem exec_append (m : Machine) (is js : List Instr) : m.exec (is ++ js) = (m.exec is).exec js :=
  List.foldl_append

/-- Pushing registers one after the other. -/
theorem exec_push (rs : List Reg) (hrs : Reg.rsp ∉ rs) (m : Machine) :
    m.exec (rs.map Instr.push) =
      { m with
        regs := Function.update m.regs .rsp (slot (m.regs .rsp) rs.length)
        mem := pushAll (m.regs .rsp) (rs.map m.regs) m.mem } := by
  induction rs generalizing m with
  | nil => simp [exec, pushAll]
  | cons r rs ih =>
      have hrs' : Reg.rsp ∉ rs := fun h => hrs (List.mem_cons_of_mem _ h)
      have hvals : rs.map (m.pushVal (m.regs r)).regs = rs.map m.regs := by
        refine List.map_congr_left fun q hq => ?_
        have hne : q ≠ .rsp := fun he => hrs' (he ▸ hq)
        simp [pushVal, hne]
      change (m.pushVal (m.regs r)).exec (rs.map Instr.push) = _
      rw [ih hrs', hvals]
      simp [pushVal, pushAll, ← slot_succ]

/-- Popping registers one after the other: register number `k` gets the
quadword `k` slots up, and only the popped registers and `rsp` change. -/
theorem exec_pop (rs : List Reg) (hrs : Reg.rsp ∉ rs) (hnd : rs.Nodup) (m : Machine) :
    (m.exec (rs.map Instr.pop)).mem = m.mem ∧
      (m.exec (rs.map Instr.pop)).regs .rsp = m.regs .rsp + BitVec.ofNat 64 (8 * rs.length) ∧
      (∀ k (hk : k < rs.length), (m.exec (rs.map Instr.pop)).regs rs[k] =
        m.mem (m.regs .rsp + BitVec.ofNat 64 (8 * k))) ∧
      (∀ r, r ∉ rs → r ≠ .rsp → (m.exec (rs.map Instr.pop)).regs r = m.regs r) ∧
      (m.exec (rs.map Instr.pop)).gsBase = m.gsBase ∧
      (m.exec (rs.map Instr.pop)).kernelGsBase = m.kernelGsBase := by
  induction rs generalizing m with
  | nil => simp [exec]
  | cons r rs ih =>
      obtain ⟨hr, hnd'⟩ := List.nodup_cons.mp hnd
      have hrs' : Reg.rsp ∉ rs := fun h => hrs (List.mem_cons_of_mem _ h)
      have hrne : Reg.rsp ≠ r := fun h => hrs (h ▸ List.mem_cons_self)
      obtain ⟨hmem, hrsp, hget, hother, hgs, hkgs⟩ := ih hrs' hnd' (m.popReg r)
      have hsp : (m.popReg r).regs .rsp = m.regs .rsp + 8 := by simp [popReg, hrne]
      rw [hsp] at hrsp hget
      change ((m.popReg r).exec (rs.map Instr.pop)).mem = _ ∧ _
      refine ⟨hmem, ?_, ?_, ?_, hgs, hkgs⟩
      · change ((m.popReg r).exec (rs.map Instr.pop)).regs .rsp = _
        -- the stack pointer
        rw [hrsp, List.length_cons]
        bv_omega
      · -- the registers that are popped: the first here, the others by induction
        intro k hk
        change ((m.popReg r).exec (rs.map Instr.pop)).regs (r :: rs)[k] = _
        cases k with
        | zero =>
            have hpop := hother r hr (Ne.symm hrne)
            simpa [popReg] using hpop
        | succ k =>
            have hnext := hget k (Nat.lt_of_succ_lt_succ hk)
            have haddr : m.regs .rsp + 8 + BitVec.ofNat 64 (8 * k) =
                m.regs .rsp + BitVec.ofNat 64 (8 * (k + 1)) := by bv_omega
            rw [haddr] at hnext
            exact hnext
      · -- all others
        intro q hq hqsp
        have hqr : q ≠ r := fun h => hq (h ▸ List.mem_cons_self)
        change ((m.popReg r).exec (rs.map Instr.pop)).regs q = _
        rw [hother q (fun h => hq (List.mem_cons_of_mem _ h)) hqsp]
        simp [popReg, hqr, hqsp]

end Machine

end Ceryx.Cpu
