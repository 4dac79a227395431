import Ceryx.Cpu.GsBase

/-!
# Ceryx.Cpu.ContextSwitch — SwitchContext and the stacks it switches to

`SwitchContext` as its instructions, the three functions of `Thread` that build
the stack of a new thread, and runs in which any number of threads on disjoint
kernel stacks compute, create and delete threads, and call `SwitchContext`.

`Parked t mem sp words` says what is common to a thread that has called
`SwitchContext` and one that has never run: seven quadwords below `sp`, found
through `m_regs.rsp`. Calls and stack builders park a thread (`switchTo_parks`,
`build_parks`), nothing that other threads do unparks it (`parked_run`), and
`SwitchContext` takes the registers, the return address and `sp` from what is
parked (`switchTo_resumes`).

* `switching_transparent`: a call returns with the registers it must keep and
  the stack above `rsp` as they were, and each kind of new thread starts where
  it was built to start.
-/

namespace Ceryx.Cpu

open Lib Machine
open Proc (InterruptFrame)

/-! ## Switch.asm -/

namespace Machine

def ret (m : Machine) : Machine :=
  { m with
    rip := m.mem (m.regs .rsp)
    regs := Function.update m.regs .rsp (m.regs .rsp + 8) }

/-- The registers `SwitchContext` pushes, in order. -/
def switchRegs : List Reg := [.rbp, .rbx, .r12, .r13, .r14, .r15]

/-- `SwitchContext(rdi, rsi)`, from its first push to its `ret`. -/
def switchContext (m : Machine) : Machine :=
  let m := m.exec (switchRegs.map .push)
  -- mov [rdi], rsp
  let m := { m with mem := m.mem.write (m.regs .rdi) (m.regs .rsp) }
  ((m.exec [.mov .rsp .rsi]).exec
    (([.r15, .r14, .r13, .r12, .rbx, .rbp] : List Reg).map .pop)).ret

/-- `call SwitchContext` with its two arguments; the call returns to `back`. -/
def callSwitchContext (m : Machine) (back rdi rsi : Word) : Machine :=
  (((m.setReg .rdi rdi).setReg .rsi rsi).pushVal back).switchContext

/-- The context that `iretq` has entered, as a frame. -/
def userFrame (m : Machine) : InterruptFrame :=
  { r15 := m.regs .r15, r14 := m.regs .r14, r13 := m.regs .r13, r12 := m.regs .r12
    r11 := m.regs .r11, r10 := m.regs .r10, r9 := m.regs .r9, r8 := m.regs .r8
    rbp := m.regs .rbp, rdi := m.regs .rdi, rsi := m.regs .rsi, rdx := m.regs .rdx
    rcx := m.regs .rcx, rbx := m.regs .rbx, rax := m.regs .rax
    interruptNumber := 0, errorCode := 0
    rip := m.rip, cs := m.cs, rflags := m.rflags, rsp := m.regs .rsp, ss := m.ss }

end Machine

/-- Where the linker has put the three landing points. -/
structure Labels where
  threadTrampoline : Word
  userspaceTrampoline : Word
  forkReturn : Word
  distinct : threadTrampoline ≠ userspaceTrampoline ∧ threadTrampoline ≠ forkReturn ∧
    userspaceTrampoline ≠ forkReturn

/-- The code at a landing point. -/
def Machine.land (L : Labels) (m : Machine) : Option Machine :=
  if m.rip = L.threadTrampoline then some m.threadTrampoline
  else if m.rip = L.userspaceTrampoline then some m.userspaceTrampoline
  else if m.rip = L.forkReturn then some m.forkReturn
  else none

/-! ## Threads -/

def kStackSize : Nat := 32768

/-- A `Thread` as `SwitchContext` sees it: the object, its kernel stack, and the
address of `m_regs.rsp`, which is not on that stack. -/
structure KernelThread where
  self : Word
  kernelStack : Word
  stackSize : Nat
  rspField : Word
  outside : stackSize ≤ (rspField - kernelStack).toNat

namespace KernelThread

def stackTop (t : KernelThread) : Word := t.kernelStack + BitVec.ofNat 64 t.stackSize

/-- An address on the kernel stack. -/
def OnStack (t : KernelThread) (a : Word) : Prop := (a - t.kernelStack).toNat < t.stackSize

instance (t : KernelThread) (a : Word) : Decidable (t.OnStack a) :=
  inferInstanceAs (Decidable (_ < _))

/-- The kernel stack and `m_regs.rsp`. -/
def Owns (t : KernelThread) (a : Word) : Prop := t.OnStack a ∨ a = t.rspField

instance (t : KernelThread) (a : Word) : Decidable (t.Owns a) := inferInstanceAs (Decidable (_ ∨ _))

/-- Two threads that share nothing. -/
structure Apart (t u : KernelThread) : Prop where
  stack : ¬ t.OnStack u.kernelStack
  stack' : ¬ u.OnStack t.kernelStack
  field : ¬ t.OnStack u.rspField
  field' : ¬ u.OnStack t.rspField
  fields : t.rspField ≠ u.rspField

instance (t u : KernelThread) : Decidable (t.Apart u) :=
  decidable_of_iff (¬ t.OnStack u.kernelStack ∧ ¬ u.OnStack t.kernelStack ∧
      ¬ t.OnStack u.rspField ∧ ¬ u.OnStack t.rspField ∧ t.rspField ≠ u.rspField)
    ⟨fun ⟨h₁, h₂, h₃, h₄, h₅⟩ => ⟨h₁, h₂, h₃, h₄, h₅⟩,
      fun ⟨h₁, h₂, h₃, h₄, h₅⟩ => ⟨h₁, h₂, h₃, h₄, h₅⟩⟩

/-- The stack pointer is on the stack, with room for a call of `SwitchContext`
below it. -/
def Room (t : KernelThread) (rsp : Word) : Prop :=
  8 * 7 ≤ (rsp - t.kernelStack).toNat ∧ (rsp - t.kernelStack).toNat ≤ t.stackSize

instance (t : KernelThread) (rsp : Word) : Decidable (t.Room rsp) :=
  inferInstanceAs (Decidable (_ ∧ _))

/-! ### Thread.cpp -/

/-- What `Thread::Thread` stores in `m_regs.rsp`. -/
def construct (t : KernelThread) (mem : Mem) : Mem :=
  mem.write t.rspField (t.kernelStack + BitVec.ofNat 64 kStackSize)

def initializeStack (L : Labels) (t : KernelThread) (entryPoint arg : Word) (mem : Mem) : Mem :=
  let sp := mem t.rspField
  -- rbp, rbx, r12, r13, r14, r15 under the return address
  let mem := pushAll sp [L.threadTrampoline, 0, 0, entryPoint, arg, t.self, 0] mem
  mem.write t.rspField (slot sp 7)

def initializeUserStack (L : Labels) (t : KernelThread) (userRip userRsp : Word) (mem : Mem) :
    Mem :=
  let sp := mem t.rspField
  let mem := pushAll sp [L.userspaceTrampoline, 0, 0, userRip, userRsp, 0, 0] mem
  mem.write t.rspField (slot sp 7)

/-- The frame that `InitializeForkStack` pushes, from `ss` down to `r15`. -/
def forkContext (f : InterruptFrame) : List Word :=
  [f.ss, f.rsp, f.rflags, f.cs, f.rip, 0, 0, 0, f.rbx, f.rcx, f.rdx, f.rsi, f.rdi, f.rbp, f.r8,
    f.r9, f.r10, f.r11, f.r12, f.r13, f.r14, f.r15]

def initializeForkStack (L : Labels) (t : KernelThread) (parentFrame : InterruptFrame)
    (mem : Mem) : Mem :=
  let kstack := t.kernelStack + BitVec.ofNat 64 kStackSize
  let mem := pushAll kstack (forkContext parentFrame ++ [L.forkReturn, 0, 0, 0, 0, 0, 0]) mem
  mem.write t.rspField (slot kstack 29)

end KernelThread

/-- Which of the three functions builds a stack, and from what. -/
inductive StackInit where
  | stack (entryPoint arg : Word)
  | userStack (userRip userRsp : Word)
  | forkStack (parentFrame : InterruptFrame)
deriving DecidableEq, Repr

def StackInit.build (L : Labels) (t : KernelThread) (mem : Mem) : StackInit → Mem
  | .stack entryPoint arg => t.initializeStack L entryPoint arg mem
  | .userStack userRip userRsp => t.initializeUserStack L userRip userRsp mem
  | .forkStack parentFrame => t.initializeForkStack L parentFrame mem

/-! ## Runs of threads -/

structure SwitchState where
  m : Machine
  /-- `CpuData.current_thread`. -/
  current : Nat
  nextTid : Nat
  threads : Nat → Option KernelThread

/-- What the running thread may do. -/
inductive SwitchOp where
  /-- Compute: the CPU ends as `cpu` says, after these stores. -/
  | run (cpu : Machine) (stores : List (Word × Word))
  | newThread (t : KernelThread) (init : StackInit)
  | deleteThread (tid : Nat)
  /-- `SwitchContext(&prev->Registers().rsp, next->Registers().rsp)`, called from
  the instruction before `back`. -/
  | switch (back : Word) (tid : Nat)

namespace SwitchState

/-- No other thread has the address on its stack or as its `m_regs.rsp`. -/
def Free (s : SwitchState) (a : Word) : Prop :=
  ∀ i < s.nextTid, i ≠ s.current → ∀ t ∈ s.threads i, ¬ t.Owns a

/-- The memory of `t` is apart from that of every thread there is. -/
def Fresh (s : SwitchState) (t : KernelThread) : Prop :=
  ∀ i < s.nextTid, ∀ u ∈ s.threads i, t.Apart u

instance (s : SwitchState) (a : Word) : Decidable (s.Free a) :=
  inferInstanceAs (Decidable (∀ i < s.nextTid, i ≠ s.current → ∀ t ∈ s.threads i, ¬ t.Owns a))

/-- The stores are looked at one by one. -/
instance (s : SwitchState) (stores : List (Word × Word)) :
    Decidable (∀ x ∈ stores, s.Free x.1) :=
  List.decidableBAll _ stores

instance (s : SwitchState) (t : KernelThread) : Decidable (s.Fresh t) :=
  inferInstanceAs (Decidable (∀ i < s.nextTid, ∀ u ∈ s.threads i, t.Apart u))

end SwitchState

def storeAll (stores : List (Word × Word)) (mem : Mem) : Mem :=
  stores.foldl (fun mem x => mem.write x.1 x.2) mem

/-- One step of the running thread `prev`. -/
def runStep (L : Labels) (s : SwitchState) (prev : KernelThread) :
    SwitchOp → Option SwitchState
  | .run cpu stores =>
      if ∀ x ∈ stores, s.Free x.1 then
        some { s with m := { cpu with mem := storeAll stores s.m.mem } }
      else none
  | .newThread t init =>
      if t.stackSize = kStackSize ∧ s.Fresh t then
        some { s with
          m := { s.m with mem := init.build L t (t.construct s.m.mem) }
          nextTid := s.nextTid + 1
          threads := Function.update s.threads s.nextTid (some t) }
      else none
  | .deleteThread tid =>
      if tid = s.current then none
      else some { s with threads := Function.update s.threads tid none }
  | .switch back tid =>
      match s.threads tid with
      | none => none
      | some next =>
          if tid ≠ s.current ∧ prev.Room (s.m.regs .rsp) then
            some { s with
              m := s.m.callSwitchContext back prev.rspField (s.m.mem next.rspField)
              current := tid }
          else none

def switchStep (L : Labels) (s : SwitchState) (op : SwitchOp) : Option SwitchState :=
  (s.threads s.current).bind fun prev => runStep L s prev op

/-- The boot code, which runs as the idle thread. -/
def bootSwitch (m : Machine) (t : KernelThread) : SwitchState :=
  { m, current := 0, nextTid := 1, threads := fun i => if i = 0 then some t else none }

/-! ## Parked threads -/

namespace KernelThread

variable {t u : KernelThread}

theorem OnStack.ne_rspField {a : Word} (h : t.OnStack a) : a ≠ t.rspField := by
  rintro rfl
  have hout := t.outside
  exact absurd h (Nat.not_lt.mpr hout)

/-- The slots below a stack pointer that is high enough. -/
theorem onStack_slot {sp : Word} {n k : Nat} (hlow : 8 * n ≤ (sp - t.kernelStack).toNat)
    (hhigh : (sp - t.kernelStack).toNat ≤ t.stackSize) (hk : k < n) :
    t.OnStack (slot sp (k + 1)) := by
  unfold OnStack slot
  have hlt : (sp - t.kernelStack).toNat < 2 ^ 64 := (sp - t.kernelStack).isLt
  have hoff : (sp - BitVec.ofNat 64 (8 * (k + 1)) - t.kernelStack).toNat =
      (sp - t.kernelStack).toNat - 8 * (k + 1) := by bv_omega
  rw [hoff]
  omega

/-- What lies above the stack pointer is none of the slots below it. -/
theorem above_ne_slot {sp a : Word} {n k : Nat} (hlow : 8 * n ≤ (sp - t.kernelStack).toNat)
    (ha : (sp - t.kernelStack).toNat ≤ (a - t.kernelStack).toNat) (hk : k < n) :
    a ≠ slot sp (k + 1) := by
  rintro rfl
  unfold slot at ha
  have hlt : (sp - t.kernelStack).toNat < 2 ^ 64 := (sp - t.kernelStack).isLt
  have hoff : (sp - BitVec.ofNat 64 (8 * (k + 1)) - t.kernelStack).toNat =
      (sp - t.kernelStack).toNat - 8 * (k + 1) := by bv_omega
  omega

theorem Apart.symm (h : t.Apart u) : u.Apart t :=
  ⟨h.stack', h.stack, h.field', h.field, h.fields.symm⟩

theorem Apart.not_owns (h : t.Apart u) {a : Word} (ht : t.Owns a) : ¬ u.Owns a := by
  intro hu
  rcases ht with ht | rfl
  · rcases hu with hu | rfl
    · -- one of the two stacks begins on the other
      have hstack := h.stack
      have hstack' := h.stack'
      unfold OnStack at ht hu hstack hstack'
      bv_omega
    · exact h.field ht
  · rcases hu with hu | hfields
    · exact h.field' hu
    · exact h.fields hfields

end KernelThread

/-- `words` have been pushed below `sp` on the stack of a thread, and its
`m_regs.rsp` points to the last. -/
structure Parked (t : KernelThread) (mem : Mem) (sp : Word) (words : List Word) : Prop where
  field : mem t.rspField = slot sp words.length
  word : ∀ k (hk : k < words.length), mem (slot sp (k + 1)) = words[k]
  onStack : ∀ k < words.length, t.OnStack (slot sp (k + 1))

/-- Push, and store the stack pointer. -/
def park (t : KernelThread) (sp : Word) (words : List Word) (mem : Mem) : Mem :=
  (pushAll sp words mem).write t.rspField (slot sp words.length)

variable {t u : KernelThread} {mem mem' : Mem} {sp : Word} {words : List Word}

theorem park_parks (hon : ∀ k < words.length, t.OnStack (slot sp (k + 1)))
    (hlen : words.length < 2 ^ 61) : Parked t (park t sp words mem) sp words := by
  refine ⟨Mem.write_self _ _ _, fun k hk => ?_, hon⟩
  rw [park, Mem.write_ne _ _ (hon k hk).ne_rspField]
  exact pushAll_slot hk hlen

theorem park_frame {a : Word} (hon : ∀ k < words.length, t.OnStack (slot sp (k + 1)))
    (ha : ¬ t.Owns a) : park t sp words mem a = mem a := by
  have hfield : a ≠ t.rspField := fun he => ha (Or.inr he)
  rw [park, Mem.write_ne _ _ hfield]
  apply pushAll_frame
  intro k hk he
  exact ha (Or.inl (he ▸ hon k hk))

/-- Only the memory of the thread itself matters. -/
theorem Parked.congr (h : Parked t mem sp words) (hmem : ∀ a, t.Owns a → mem' a = mem a) :
    Parked t mem' sp words where
  field := (hmem _ (Or.inr rfl)).trans h.field
  word k hk := (hmem _ (Or.inl (h.onStack k hk))).trans (h.word k hk)
  onStack := h.onStack

/-- The innermost part of what is parked. -/
theorem Parked.suffix {above : List Word} (h : Parked t mem sp (above ++ words)) :
    Parked t mem (slot sp above.length) words := by
  have hlen : (above ++ words).length = above.length + words.length := List.length_append
  have hslot : ∀ k, slot (slot sp above.length) (k + 1) = slot sp (above.length + k + 1) :=
    fun k => slot_slot sp above.length (k + 1)
  refine ⟨?_, fun k hk => ?_, fun k hk => ?_⟩
  · rw [h.field, hlen, slot_slot]
  · rw [hslot, h.word _ (by omega), List.getElem_append_right (by omega)]
    congr 1
    omega
  · rw [hslot]
    exact h.onStack _ (by omega)

/-! ## One call of SwitchContext -/

/-- The memory in which `SwitchContext` reads the next thread's registers. -/
def switchedMem (m : Machine) : Mem :=
  (pushAll (m.regs .rsp) (switchRegs.map m.regs) m.mem).write (m.regs .rdi) (slot (m.regs .rsp) 6)

theorem switchContext_spec (m : Machine) :
    m.switchContext.mem = switchedMem m ∧
      m.switchContext.rip = switchedMem m (m.regs .rsi + 48) ∧
      m.switchContext.regs .rsp = m.regs .rsi + 56 ∧
      switchRegs.map m.switchContext.regs =
        ([40, 32, 24, 16, 8, 0] : List Word).map fun off => switchedMem m (m.regs .rsi + off) := by
  -- the machine before the pops
  let m₁ : Machine := { m with
    regs := Function.update m.regs .rsp (m.regs .rsi)
    mem := switchedMem m }
  have hsave : m.switchContext = (m₁.exec (switchRegs.reverse.map .pop)).ret := by
    unfold switchContext
    rw [exec_push switchRegs (by decide)]
    simp [exec, execOne, setReg, switchedMem, m₁, switchRegs]
  have hsi : m₁.regs .rsp = m.regs .rsi := Function.update_self Reg.rsp (m.regs .rsi) m.regs
  have hmem₁ : m₁.mem = switchedMem m := rfl
  clear_value m₁
  rcases exec_pop switchRegs.reverse (by decide) (by decide) m₁ with ⟨hmem, hrsp, hget, -, -, -⟩
  rw [hsi] at hrsp hget
  rw [hsave, ← hmem₁]
  generalize m₁.exec (switchRegs.reverse.map .pop) = m₂ at hmem hrsp hget
  have hrsp' : m₂.regs .rsp = m.regs .rsi + 48 := hrsp
  refine ⟨hmem, ?_, ?_, ?_⟩
  · change m₂.mem (m₂.regs .rsp) = _
    rw [hmem, hrsp']
  · change Function.update m₂.regs .rsp (m₂.regs .rsp + 8) .rsp = _
    rw [Function.update_self, hrsp']
    bv_omega
  · have h0 := hget 0 (by decide)
    have h1 := hget 1 (by decide)
    have h2 := hget 2 (by decide)
    have h3 := hget 3 (by decide)
    have h4 := hget 4 (by decide)
    have h5 := hget 5 (by decide)
    simp only [switchRegs, List.reverse_cons, List.reverse_nil, List.nil_append, List.cons_append,
      List.getElem_cons_zero, List.getElem_cons_succ] at h0 h1 h2 h3 h4 h5
    simp [switchRegs, ret, h0, h1, h2, h3, h4, h5]

/-- `SwitchContext` continues what is parked where its second argument points. -/
theorem switchContext_resumes {m : Machine} (hpark : Parked t (switchedMem m) sp words)
    (hlen : words.length = 7) (hrsi : m.regs .rsi = slot sp 7) :
    m.switchContext.rip :: switchRegs.map m.switchContext.regs = words ∧
      m.switchContext.regs .rsp = sp := by
  obtain ⟨-, hrip, hrsp, hregs⟩ := switchContext_spec m
  -- the offsets from the last quadword are slots below `sp`
  have hoff : ∀ {j : Nat}, j ≤ 7 → slot sp 7 + BitVec.ofNat 64 (8 * j) = slot sp (7 - j) :=
    fun hj => slot_add hj
  rw [hrsi] at hrip hrsp hregs
  refine ⟨?_, hrsp.trans ((hoff (j := 7) (by decide)).trans (slot_zero sp))⟩
  have hword : ∀ j (hj : j < words.length),
      switchedMem m (slot sp 7 + BitVec.ofNat 64 (8 * (6 - j))) = words[j] := by
    intro j hj
    have hslot : 7 - (6 - j) = j + 1 := by omega
    rw [hoff (by omega), hslot, hpark.word j hj]
  clear hpark
  rw [hrip, hregs]
  match words, hlen, hword with
  | [_, _, _, _, _, _, _], _, hword =>
      have h0 := hword 0 (by simp)
      have h1 := hword 1 (by simp)
      have h2 := hword 2 (by simp)
      have h3 := hword 3 (by simp)
      have h4 := hword 4 (by simp)
      have h5 := hword 5 (by simp)
      have h6 := hword 6 (by simp)
      simp only [List.getElem_cons_zero, List.getElem_cons_succ] at h0 h1 h2 h3 h4 h5 h6
      rw [← h0, ← h1, ← h2, ← h3, ← h4, ← h5, ← h6]
      rfl

section Call

variable (m : Machine) (back rsi : Word)

/-- The machine at the first instruction of `SwitchContext`. -/
theorem switchedMem_call :
    switchedMem (((m.setReg .rdi t.rspField).setReg .rsi rsi).pushVal back) =
      park t (m.regs .rsp) (back :: switchRegs.map m.regs) m.mem := by
  have hslot : slot (m.regs .rsp - 8) 6 = slot (m.regs .rsp) 7 := slot_succ _ _
  have hregs : switchRegs.map (((m.setReg .rdi t.rspField).setReg .rsi rsi).pushVal back).regs =
      switchRegs.map m.regs := by simp [setReg, pushVal, switchRegs]
  rw [switchedMem, hregs, park, pushAll]
  simp only [setReg, pushVal, Function.update_self, ne_eq, reduceCtorEq, not_false_eq_true,
    Function.update_of_ne, hslot]
  rfl

/-- A call parks the thread that makes it. -/
theorem callSwitchContext_mem :
    (m.callSwitchContext back t.rspField rsi).mem =
      park t (m.regs .rsp) (back :: switchRegs.map m.regs) m.mem := by
  rw [callSwitchContext, (switchContext_spec _).1, switchedMem_call]

/-- A call continues what is parked at its second argument, and leaves it there. -/
theorem callSwitchContext_resumes {above : List Word}
    (hon : ∀ k < 7, t.OnStack (slot (m.regs .rsp) (k + 1))) (hapart : u.Apart t)
    (hpark : Parked u m.mem sp (above ++ words)) (hlen : words.length = 7) :
    (m.callSwitchContext back t.rspField (m.mem u.rspField)).rip ::
        switchRegs.map (m.callSwitchContext back t.rspField (m.mem u.rspField)).regs = words ∧
      (m.callSwitchContext back t.rspField (m.mem u.rspField)).regs .rsp =
        slot sp above.length := by
  have hkept : Parked u (switchedMem
      (((m.setReg .rdi t.rspField).setReg .rsi (m.mem u.rspField)).pushVal back))
      (slot sp above.length) words := by
    rw [switchedMem_call]
    -- what the caller stores is its own
    exact hpark.suffix.congr fun a ha => park_frame hon (hapart.not_owns ha)
  have hfield : m.mem u.rspField = slot (slot sp above.length) 7 := hlen ▸ hpark.suffix.field
  refine switchContext_resumes hkept hlen ?_
  simp [setReg, pushVal, hfield]

end Call

/-! ## Building a stack -/

/-- The frame on a new stack, above what `SwitchContext` takes from it. -/
def StackInit.frame : StackInit → List Word
  | .stack .. => []
  | .userStack .. => []
  | .forkStack f => KernelThread.forkContext f

/-- What `SwitchContext` takes from a new stack: the landing point, and the
registers it restores. -/
def StackInit.taken (L : Labels) (t : KernelThread) : StackInit → List Word
  | .stack entryPoint arg => [L.threadTrampoline, 0, 0, entryPoint, arg, t.self, 0]
  | .userStack userRip userRsp => [L.userspaceTrampoline, 0, 0, userRip, userRsp, 0, 0]
  | .forkStack _ => [L.forkReturn, 0, 0, 0, 0, 0, 0]

def StackInit.pushed (L : Labels) (t : KernelThread) (init : StackInit) : List Word :=
  init.frame ++ init.taken L t

theorem StackInit.pushed_length (L : Labels) (t : KernelThread) (init : StackInit) :
    (init.pushed L t).length ≤ 29 := by
  cases init with
  | stack entryPoint arg => change 7 ≤ 29; decide
  | userStack userRip userRsp => change 7 ≤ 29; decide
  | forkStack f => exact Nat.le_refl 29

section Build

variable (L : Labels) (mem : Mem) (init : StackInit)

/-- Each of the three functions parks the new thread at the top of its stack. -/
theorem build_eq (hsize : t.stackSize = kStackSize) :
    init.build L t (t.construct mem) =
      park t t.stackTop (init.pushed L t) (t.construct mem) := by
  have hsp : t.construct mem t.rspField = t.stackTop := by
    unfold KernelThread.construct KernelThread.stackTop
    rw [hsize, Mem.write_self]
  have htop : t.kernelStack + BitVec.ofNat 64 kStackSize = t.stackTop := by
    unfold KernelThread.stackTop
    rw [hsize]
  -- `InitializeForkStack` starts from the top again; the other two from the stored `rsp`
  cases init with
  | stack entryPoint arg =>
      unfold StackInit.build KernelThread.initializeStack
      rw [hsp]
      rfl
  | userStack userRip userRsp =>
      unfold StackInit.build KernelThread.initializeUserStack
      rw [hsp]
      rfl
  | forkStack f =>
      have hlen : (StackInit.pushed L t (.forkStack f)).length = 29 := rfl
      simp only [StackInit.build, KernelThread.initializeForkStack, htop, park, hlen]
      rfl

theorem onStack_top (hsize : t.stackSize = kStackSize) {k : Nat}
    (hk : k < (init.pushed L t).length) : t.OnStack (slot t.stackTop (k + 1)) := by
  have hsize' : t.stackSize = 32768 := hsize
  have htop : (t.stackTop - t.kernelStack).toNat = 32768 := by
    unfold KernelThread.stackTop
    rw [hsize']
    bv_omega
  have hlen := init.pushed_length L t
  apply KernelThread.onStack_slot _ _ hk
  · rw [htop]
    omega
  · rw [htop, hsize']

theorem build_parks (hsize : t.stackSize = kStackSize) :
    Parked t (init.build L t (t.construct mem)) t.stackTop (init.pushed L t) := by
  have hlen := init.pushed_length L t
  rw [build_eq L mem init hsize]
  exact park_parks (fun k hk => onStack_top L init hsize hk) (by omega)

theorem build_frame (hsize : t.stackSize = kStackSize) {a : Word} (ha : ¬ t.Owns a) :
    init.build L t (t.construct mem) a = mem a := by
  rw [build_eq L mem init hsize, park_frame (fun k hk => onStack_top L init hsize hk) ha]
  exact Mem.write_ne _ _ fun he => ha (Or.inr he)

end Build

/-! ## Landing -/

/-- What `iretq` enters after the registers have been restored, as a frame. -/
theorem userFrame_of_restored {m m' : Machine} {base : Word} (h : Restored m m' base)
    (hss : m'.ss = m.mem (base + 168)) :
    m'.userFrame = { frameAt m.mem base with interruptNumber := 0, errorCode := 0 } := by
  have hregs : popOrder.map m'.regs =
      ([0, 8, 16, 24, 32, 40, 48, 56, 64, 72, 80, 88, 96, 104, 112] : List Word).map
        fun off => m.mem (base + off) := by
    have hoffs : ([0, 8, 16, 24, 32, 40, 48, 56, 64, 72, 80, 88, 96, 104, 112] : List Word) =
        (List.range 15).map fun k => BitVec.ofNat 64 (8 * k) := by decide
    rw [hoffs]
    apply List.ext_getElem
    · rfl
    · intro k hk hk'
      simp only [List.getElem_map, List.getElem_range]
      exact h.reg k (by simpa using hk)
  simp only [popOrder, List.map_cons, List.map_nil, List.cons.injEq, and_true] at hregs
  simp only [userFrame, frameAt, hregs, h.rip, h.cs, h.rflags, h.rsp, hss]

/-- The frame that `InitializeForkStack` leaves on the stack. -/
def childFrame (f : InterruptFrame) : InterruptFrame :=
  { f with rax := 0, interruptNumber := 0, errorCode := 0 }

theorem frameAt_parked {f : InterruptFrame} {rest : List Word}
    (h : Parked t mem sp (KernelThread.forkContext f ++ rest)) :
    frameAt mem (slot sp 22) = childFrame f := by
  have hfields : frameFields (childFrame f) =
      frameOffsets.zip (KernelThread.forkContext f).reverse := rfl
  apply frameAt_of_fields
  intro x hx
  rw [hfields] at hx
  -- the context was pushed from `ss` down, so its fields stand in reverse
  obtain ⟨k, hk, rfl⟩ := List.mem_iff_getElem.mp hx
  have hk' : k < 22 := by simpa [frameOffsets, KernelThread.forkContext] using hk
  have hlen : (KernelThread.forkContext f).length = 22 := rfl
  have hword := h.word (21 - k) (by rw [List.length_append, hlen]; omega)
  have hslot : slot sp 22 + BitVec.ofNat 64 (8 * k) = slot sp (21 - k + 1) := by
    rw [slot_add (by omega)]
    congr 1
    omega
  simp only [List.getElem_zip, frameOffsets_eq, List.getElem_map, List.getElem_range,
    List.getElem_reverse]
  rw [hslot, hword, List.getElem_append_left]
  rfl

/-- What the first thing is that a thread does. -/
def StackInit.Started (m : Machine) : StackInit → Prop
  | .stack entryPoint arg => m.rip = entryPoint ∧ m.regs .rdi = arg
  | .userStack userRip userRsp =>
      m.UserMode ∧ m.rip = userRip ∧ m.regs .rsp = userRsp ∧ m.rflags = 0x202
  | .forkStack parentFrame => m.userFrame = childFrame parentFrame

/-- The code at the landing point starts the thread as it was built to. -/
theorem land_starts {L : Labels} {m : Machine} {init : StackInit}
    (hpark : Parked t m.mem t.stackTop (init.pushed L t))
    (htaken : m.rip :: switchRegs.map m.regs = init.taken L t)
    (hrsp : m.regs .rsp = slot t.stackTop init.frame.length) :
    ∃ m', m.land L = some m' ∧ init.Started m' := by
  obtain ⟨huser, hfork, hfork'⟩ := L.distinct
  cases init with
  | stack entryPoint arg =>
      -- `ThreadTrampoline` calls what is in `r12`, with `r13` as its argument
      simp only [StackInit.taken, switchRegs, List.map_cons, List.map_nil, List.cons.injEq,
        and_true] at htaken
      obtain ⟨hrip, -, -, h12, h13, -, -⟩ := htaken
      refine ⟨m.threadTrampoline, ?_, ?_, ?_⟩
      · rw [Machine.land, if_pos hrip]
      · exact h12
      · exact h13
  | userStack userRip userRsp =>
      simp only [StackInit.taken, switchRegs, List.map_cons, List.map_nil, List.cons.injEq,
        and_true] at htaken
      obtain ⟨hrip, -, -, h12, h13, -, -⟩ := htaken
      have hloads := userspaceTrampoline_loads m
      refine ⟨m.userspaceTrampoline, ?_, userCs_user hloads.cs, ?_, ?_, hloads.rflags⟩
      · rw [Machine.land, if_neg (hrip.trans_ne huser.symm), if_pos hrip]
      · exact hloads.rip.trans h12
      · exact hloads.rsp.trans h13
  | forkStack f =>
      simp only [StackInit.taken, switchRegs, List.map_cons, List.map_nil, List.cons.injEq,
        and_true] at htaken
      have hrip := htaken.1
      -- the frame lies right above the context that was taken
      obtain ⟨hrestored, hss⟩ := forkReturn_restores m
      refine ⟨m.forkReturn, ?_, ?_⟩
      · rw [Machine.land, if_neg (hrip.trans_ne hfork.symm), if_neg (hrip.trans_ne hfork'.symm),
          if_pos hrip]
      · change m.forkReturn.userFrame = childFrame f
        have hsp : m.regs .rsp = slot t.stackTop 22 := hrsp
        rw [userFrame_of_restored hrestored hss, hsp, frameAt_parked hpark]
        rfl

/-! ## Runs -/

/-- The threads that there are share no memory. -/
structure SwitchInv (s : SwitchState) : Prop where
  live : ∀ i t, s.threads i = some t → i < s.nextTid
  apart : ∀ i j t u, i ≠ j → s.threads i = some t → s.threads j = some u → t.Apart u

/-- Thread `i`, if it still exists, is `t`; it is not running and has its memory
as in `mem`. -/
structure Away (i : Nat) (t : KernelThread) (mem : Mem) (s : SwitchState) : Prop where
  notCurrent : i ≠ s.current
  lt : i < s.nextTid
  kept : ∀ t', s.threads i = some t' → t' = t ∧ ∀ a, t.Owns a → s.m.mem a = mem a

variable {L : Labels} {s s' : SwitchState} {prev : KernelThread} {op : SwitchOp}

theorem bootSwitch_inv (m : Machine) (t : KernelThread) : SwitchInv (bootSwitch m t) := by
  have honly : ∀ i u, (bootSwitch m t).threads i = some u → i = 0 := by
    intro i u hu
    by_contra hne
    have hnone : (bootSwitch m t).threads i = none := if_neg hne
    rw [hnone] at hu
    cases hu
  refine ⟨fun i u hu => ?_, fun i j u v hij hu hv => ?_⟩
  · rw [honly i u hu]
    exact Nat.zero_lt_one
  · exact absurd ((honly i u hu).trans (honly j v hv).symm) hij

theorem storeAll_ne {stores : List (Word × Word)} {mem : Mem} {a : Word}
    (h : ∀ x ∈ stores, a ≠ x.1) : storeAll stores mem a = mem a := by
  induction stores generalizing mem with
  | nil => rfl
  | cons x stores ih =>
      refine (ih fun y hy => h y (List.mem_cons_of_mem _ hy)).trans ?_
      exact Mem.write_ne _ _ (h x List.mem_cons_self)

/-- What a step of `prev` is. -/
inductive SwitchStepped (L : Labels) (s : SwitchState) (prev : KernelThread) :
    SwitchOp → SwitchState → Prop
  | run (cpu : Machine) (stores : List (Word × Word)) (hfree : ∀ x ∈ stores, s.Free x.1) :
      SwitchStepped L s prev (.run cpu stores)
        { s with m := { cpu with mem := storeAll stores s.m.mem } }
  | newThread (t : KernelThread) (init : StackInit) (hsize : t.stackSize = kStackSize)
      (hfresh : s.Fresh t) :
      SwitchStepped L s prev (.newThread t init)
        { s with
          m := { s.m with mem := init.build L t (t.construct s.m.mem) }
          nextTid := s.nextTid + 1
          threads := Function.update s.threads s.nextTid (some t) }
  | deleteThread {tid : Nat} (hne : tid ≠ s.current) :
      SwitchStepped L s prev (.deleteThread tid)
        { s with threads := Function.update s.threads tid none }
  | switch (back : Word) {tid : Nat} {next : KernelThread} (hnext : s.threads tid = some next)
      (hne : tid ≠ s.current) (hroom : prev.Room (s.m.regs .rsp)) :
      SwitchStepped L s prev (.switch back tid)
        { s with
          m := s.m.callSwitchContext back prev.rspField (s.m.mem next.rspField)
          current := tid }

theorem switchStep_cases (h : switchStep L s op = some s') :
    ∃ prev, s.threads s.current = some prev ∧ SwitchStepped L s prev op s' := by
  obtain ⟨prev, hprev, h⟩ := Option.bind_eq_some_iff.mp h
  refine ⟨prev, hprev, ?_⟩
  cases op with
  | run cpu stores =>
      simp only [runStep, Option.ite_none_right_eq_some, Option.some.injEq] at h
      obtain ⟨hfree, rfl⟩ := h
      exact .run cpu stores hfree
  | newThread t init =>
      simp only [runStep, Option.ite_none_right_eq_some, Option.some.injEq] at h
      obtain ⟨⟨hsize, hfresh⟩, rfl⟩ := h
      exact .newThread t init hsize hfresh
  | deleteThread tid =>
      simp only [runStep, Option.ite_none_left_eq_some, Option.some.injEq] at h
      obtain ⟨hne, rfl⟩ := h
      exact .deleteThread hne
  | switch back tid =>
      simp only [runStep] at h
      cases hnext : s.threads tid with
      -- there is no such thread
      | none =>
          rw [hnext] at h
          cases h
      | some next =>
          simp only [hnext, Option.ite_none_right_eq_some, Option.some.injEq] at h
          obtain ⟨⟨hne, hroom⟩, rfl⟩ := h
          exact .switch back hnext hne hroom

/-- The seven slots that a call of `SwitchContext` takes. -/
theorem KernelThread.Room.onStack {rsp : Word} (h : t.Room rsp) :
    ∀ k < 7, t.OnStack (slot rsp (k + 1)) :=
  fun _ hk => KernelThread.onStack_slot h.1 h.2 hk

/-- A call stores nothing outside the memory of the thread that makes it. -/
theorem callSwitchContext_frame {m : Machine} {a : Word} (back rsi : Word)
    (hroom : t.Room (m.regs .rsp)) (ha : ¬ t.Owns a) :
    (m.callSwitchContext back t.rspField rsi).mem a = m.mem a := by
  rw [callSwitchContext_mem]
  exact park_frame hroom.onStack ha

theorem switchInv_step (hinv : SwitchInv s) (h : switchStep L s op = some s') : SwitchInv s' := by
  obtain ⟨prev, -, hstep⟩ := switchStep_cases h
  cases hstep with
  | run cpu stores hfree => exact ⟨hinv.live, hinv.apart⟩
  | newThread t init hsize hfresh =>
      -- the new thread under the next number, or a thread that was there
      have hthreads : ∀ i u, Function.update s.threads s.nextTid (some t) i = some u →
          (i = s.nextTid ∧ u = t) ∨ (i ≠ s.nextTid ∧ s.threads i = some u) := by
        intro i u hu
        by_cases hi : i = s.nextTid
        · rw [hi, Function.update_self] at hu
          exact Or.inl ⟨hi, (Option.some.inj hu).symm⟩
        · rw [Function.update_of_ne hi] at hu
          exact Or.inr ⟨hi, hu⟩
      refine ⟨fun i u hu => ?_, fun i j u v hij hu hv => ?_⟩
      · rcases hthreads i u hu with ⟨rfl, -⟩ | ⟨-, hold⟩
        · exact Nat.lt_succ_self _
        · exact Nat.lt_succ_of_lt (hinv.live i u hold)
      · rcases hthreads i u hu with ⟨rfl, rfl⟩ | ⟨-, holdu⟩
        · rcases hthreads j v hv with ⟨rfl, -⟩ | ⟨-, holdv⟩
          · exact absurd rfl hij
          · exact hfresh j (hinv.live j v holdv) v holdv
        · rcases hthreads j v hv with ⟨rfl, rfl⟩ | ⟨-, holdv⟩
          · exact (hfresh i (hinv.live i u holdu) u holdu).symm
          · exact hinv.apart i j u v hij holdu holdv
  | @deleteThread tid hne =>
      have hthreads : ∀ i u, Function.update s.threads tid none i = some u →
          s.threads i = some u := by
        intro i u hu
        by_cases hi : i = tid
        · rw [hi, Function.update_self] at hu
          cases hu
        · rwa [Function.update_of_ne hi] at hu
      exact ⟨fun i u hu => hinv.live i u (hthreads i u hu),
        fun i j u v hij hu hv => hinv.apart i j u v hij (hthreads i u hu) (hthreads j v hv)⟩
  | switch back hnext hne hroom => exact ⟨hinv.live, hinv.apart⟩

/-- The thread that an operation switches to. -/
def SwitchOp.target : SwitchOp → Option Nat
  | .switch _ tid => some tid
  | .run .. => none
  | .newThread .. => none
  | .deleteThread _ => none

theorem away_step {i : Nat} {mem : Mem} (hinv : SwitchInv s) (haway : Away i t mem s)
    (hop : op.target ≠ some i) (h : switchStep L s op = some s') : Away i t mem s' := by
  obtain ⟨prev, hprev, hstep⟩ := switchStep_cases h
  -- a store that is no store of `t`
  have hkeep : ∀ {mem' : Mem}, (∀ a, s.threads i = some t → t.Owns a → mem' a = s.m.mem a) →
      ∀ t', s.threads i = some t' → t' = t ∧ ∀ a, t.Owns a → mem' a = mem a := by
    intro mem' hmem t' ht'
    obtain ⟨rfl, hkept⟩ := haway.kept t' ht'
    exact ⟨rfl, fun a ha => (hmem a ht' ha).trans (hkept a ha)⟩
  cases hstep with
  | run cpu stores hfree =>
      refine ⟨haway.notCurrent, haway.lt, hkeep fun a ht ha => storeAll_ne fun x hx he => ?_⟩
      subst he
      exact hfree x hx i haway.lt haway.notCurrent t ht ha
  | newThread u init hsize hfresh =>
      have hne : i ≠ s.nextTid := Nat.ne_of_lt haway.lt
      refine ⟨haway.notCurrent, Nat.lt_succ_of_lt haway.lt, fun t' ht' => ?_⟩
      have ht : s.threads i = some t' := by
        have hold : Function.update s.threads s.nextTid (some u) i = some t' := ht'
        rwa [Function.update_of_ne hne] at hold
      refine hkeep (fun a ht ha => ?_) t' ht
      exact build_frame L s.m.mem init hsize ((hfresh i haway.lt t ht).symm.not_owns ha)
  | @deleteThread tid hne =>
      refine ⟨haway.notCurrent, haway.lt, fun t' ht' => haway.kept t' ?_⟩
      have hold : Function.update s.threads tid none i = some t' := ht'
      by_cases hi : i = tid
      · rw [hi, Function.update_self] at hold
        cases hold
      · rwa [Function.update_of_ne hi] at hold
  | switch back hnext hne hroom =>
      refine ⟨fun he => hop (he ▸ rfl), haway.lt, hkeep fun a ht ha => ?_⟩
      have hapart := hinv.apart i s.current t prev haway.notCurrent ht hprev
      exact callSwitchContext_frame back _ hroom (hapart.not_owns ha)

/-- Nothing that others do reaches a thread that is not switched to. -/
theorem away_run {i : Nat} {mem : Mem} {ops : List SwitchOp} (hinv : SwitchInv s)
    (haway : Away i t mem s) (hops : ∀ op ∈ ops, op.target ≠ some i)
    (hrun : run (switchStep L) s ops = some s') : SwitchInv s' ∧ Away i t mem s' := by
  have halways : Always (switchStep L) (fun s => SwitchInv s ∧ Away i t mem s) s ops := by
    refine always_of_forall (fun s op s' h hop hstep => ?_) ⟨hinv, haway⟩ hops
    exact ⟨switchInv_step h.1 hstep, away_step h.1 h.2 hop hstep⟩
  exact always_iff_run.mp halways ops s' (List.prefix_refl _) hrun

/-- The step that switches to a parked thread. -/
theorem switch_resumes {i : Nat} {mem : Mem} {above : List Word} {back : Word}
    (hinv : SwitchInv s) (haway : Away i t mem s) (hpark : Parked t mem sp (above ++ words))
    (hlen : words.length = 7) (h : switchStep L s (.switch back i) = some s') :
    s'.m.rip :: switchRegs.map s'.m.regs = words ∧ s'.m.regs .rsp = slot sp above.length ∧
      ∀ a, t.Owns a → s'.m.mem a = mem a := by
  obtain ⟨prev, hprev, hstep⟩ := switchStep_cases h
  cases hstep with
  | switch _ hnext hne hroom =>
      obtain ⟨rfl, hkept⟩ := haway.kept _ hnext
      have hapart := hinv.apart i s.current _ prev haway.notCurrent hnext hprev
      have hparked := hpark.congr hkept
      obtain ⟨hregs, hrsp⟩ := callSwitchContext_resumes (t := prev) s.m back hroom.onStack hapart
        hparked hlen
      refine ⟨hregs, hrsp, fun a ha => ?_⟩
      exact (callSwitchContext_frame back _ hroom (hapart.not_owns ha)).trans (hkept a ha)

/-! ## Switching is transparent -/

/-- `SwitchContext`, called in `m` before `back`, has returned in `m'`. -/
structure Resumed (t : KernelThread) (back : Word) (m m' : Machine) : Prop where
  rip : m'.rip = back
  rsp : m'.regs .rsp = m.regs .rsp
  regs : ∀ r ∈ switchRegs, m'.regs r = m.regs r
  stack : ∀ a, t.OnStack a → (m.regs .rsp - t.kernelStack).toNat ≤ (a - t.kernelStack).toNat →
    m'.mem a = m.mem a

theorem resumes {s₁ s₂ s₃ : SwitchState} {back back' : Word} {tid : Nat} {ops : List SwitchOp}
    (hinv : SwitchInv s) (hcall : switchStep L s (.switch back tid) = some s₁)
    (hrun : run (switchStep L) s₁ ops = some s₂) (hops : ∀ op ∈ ops, op.target ≠ some s.current)
    (hback : switchStep L s₂ (.switch back' s.current) = some s₃) :
    ∃ t, s.threads s.current = some t ∧ Resumed t back s.m s₃.m := by
  have hinv₁ := switchInv_step hinv hcall
  obtain ⟨t, ht, hstep⟩ := switchStep_cases hcall
  refine ⟨t, ht, ?_⟩
  cases hstep with
  | @switch _ _ next hnext hne hroom =>
      have hmem := callSwitchContext_mem (t := t) s.m back (s.m.mem next.rspField)
      have hpark : Parked t (s.m.callSwitchContext back t.rspField (s.m.mem next.rspField)).mem
          (s.m.regs .rsp) ([] ++ back :: switchRegs.map s.m.regs) := by
        rw [hmem]
        exact park_parks hroom.onStack (by simp [switchRegs])
      have haway : Away s.current t
          (s.m.callSwitchContext back t.rspField (s.m.mem next.rspField)).mem
          { s with
            m := s.m.callSwitchContext back t.rspField (s.m.mem next.rspField)
            current := tid } := by
        -- nothing that runs in between is on its stack
        refine ⟨hne.symm, hinv.live _ t ht, fun t' ht' => ⟨?_, fun _ _ => rfl⟩⟩
        exact Option.some.inj (ht'.symm.trans ht)
      obtain ⟨hinv₂, haway₂⟩ := away_run hinv₁ haway hops hrun
      obtain ⟨hregs, hrsp, hkept⟩ := switch_resumes hinv₂ haway₂ hpark rfl hback
      obtain ⟨hrip, hsaved⟩ := List.cons.inj hregs
      -- above the parked registers the stack is what it was before the call
      refine ⟨hrip, hrsp.trans (slot_zero _), List.map_inj_left.mp hsaved, fun a ha habove => ?_⟩
      rw [hkept a (Or.inl ha), hmem, park, Mem.write_ne _ _ ha.ne_rspField]
      exact pushAll_frame fun k hk => KernelThread.above_ne_slot hroom.1 habove hk

theorem starts {s₁ s₂ s₃ : SwitchState} {back : Word} {t : KernelThread} {init : StackInit}
    {ops : List SwitchOp} (hinv : SwitchInv s)
    (hnew : switchStep L s (.newThread t init) = some s₁)
    (hrun : run (switchStep L) s₁ ops = some s₂) (hops : ∀ op ∈ ops, op.target ≠ some s.nextTid)
    (hswitch : switchStep L s₂ (.switch back s.nextTid) = some s₃) :
    ∃ m, s₃.m.land L = some m ∧ init.Started m := by
  have hinv₁ := switchInv_step hinv hnew
  obtain ⟨prev, hprev, hstep⟩ := switchStep_cases hnew
  cases hstep with
  | newThread _ _ hsize hfresh =>
      have hpark := build_parks L s.m.mem init hsize
      have hne : s.nextTid ≠ s.current := (Nat.ne_of_lt (hinv.live _ prev hprev)).symm
      -- until the first switch to it, nobody else uses its stack
      have haway : Away s.nextTid t (init.build L t (t.construct s.m.mem))
          { s with
            m := { s.m with mem := init.build L t (t.construct s.m.mem) }
            nextTid := s.nextTid + 1
            threads := Function.update s.threads s.nextTid (some t) } := by
        refine ⟨hne, Nat.lt_succ_self _, fun t' ht' => ⟨?_, fun _ _ => rfl⟩⟩
        have hself : Function.update s.threads s.nextTid (some t) s.nextTid = some t' := ht'
        rw [Function.update_self] at hself
        exact (Option.some.inj hself).symm
      obtain ⟨hinv₂, haway₂⟩ := away_run hinv₁ haway hops hrun
      have htaken : (init.taken L t).length = 7 := by cases init <;> rfl
      obtain ⟨hregs, hrsp, hkept⟩ := switch_resumes hinv₂ haway₂ hpark htaken hswitch
      -- what the initialiser has pushed is popped, and the landing point runs
      exact land_starts (hpark.congr hkept) hregs hrsp

/-- A CPU in the kernel with its stack pointer at `rsp`. -/
def cpuAt (rsp : Word) : Machine :=
  { regs := fun r => if r = .rsp then rsp else 0
    rip := 0, cs := 0x08, rflags := 0x2, ss := 0x10, mem := fun _ => 0
    gsBase := 0, kernelGsBase := 0, tssRsp0 := 0 }

def labels : Labels :=
  { threadTrampoline := 0x1000, userspaceTrampoline := 0x1020, forkReturn := 0x1060
    distinct := by decide }

/-- The boot thread and a second one. -/
def twoThreads : KernelThread × KernelThread :=
  (⟨0x10000, 0x100000, kStackSize, 0x100F8, by decide⟩,
    ⟨0x20000, 0x200000, kStackSize, 0x200F8, by decide⟩)

end Ceryx.Cpu
