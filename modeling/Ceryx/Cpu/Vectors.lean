import Ceryx.Cpu.GsBase

/-!
# Ceryx.Cpu.Vectors — the 256 interrupt stubs

`Interrupts.asm` has one stub for each vector: `isr_err_stub` where the processor has
pushed an error code, and `isr_no_err_stub`, which pushes a zero, where it has not. The
table of the stubs and the processor have to agree on which vectors these are.

* `raised`: a vector from the interrupted context to the call of `InterruptDispatch`;
  `resumed`: from there back.
* `isrEntry_eventFrame`: the frame that `InterruptDispatch` gets is the whole context.
* `resumed_restores`: the context that is resumed is the one in the frame.
* `raised_transparent_iff`: an interrupt whose handler leaves the frame alone is not
  noticed by the interrupted code, except for the vectors 21 and 29: the processor
  pushes an error code for them, and the stubs another word.
-/

namespace Ceryx.Cpu

open Lib Machine
open Proc (InterruptFrame)

/-! ## The way in and the way out -/

/-- The exceptions for which the processor pushes an error code. -/
def errorCodeVectors : List Nat := [8, 10, 11, 12, 13, 14, 17, 21, 29, 30]

/-- The vectors with an `isr_err_stub`. -/
def errStubs : List Nat := [8, 10, 11, 12, 13, 14, 17, 30]

/-- `isr_stub_<v>`. -/
def isrStubOf (v : Nat) : List Instr :=
  if v ∈ errStubs then [.pushImm (BitVec.ofNat 64 v)]
  else [.pushImm 0, .pushImm (BitVec.ofNat 64 v)]

/-- What the processor pushes last. -/
def errorCodeOf (v : Nat) (code : Word) : Option Word :=
  if v ∈ errorCodeVectors then some code else none

/-- From the interrupted context to `call InterruptDispatch`. -/
def raised (v : Nat) (code : Word) (m : Machine) : Machine :=
  ((((m.interrupt (errorCodeOf v code)).exec (isrStubOf v)).execIfUser 24 [.swapgs]).exec
    isrSave).gate

/-- `isr_common` from the call on, with what `InterruptDispatch` and `SignalCheckPending`
leave behind. -/
def resumed (m : Machine) (dispatch check : CallEffect) : Machine :=
  match isrCheck (m.afterCall dispatch) with
  | none => isrLeave (m.afterCall dispatch)
  | some m' => isrExit (m'.afterCall check)

/-- The frame at `a` is left alone. -/
def KeepsFrame (a : Word) (mem mem' : Mem) : Prop :=
  ∀ off ∈ frameOffsets, mem' (a + off) = mem (a + off)

/-- The same context, down to the GS bases. -/
structure SameContext (m m' : Machine) : Prop where
  regs : m'.regs = m.regs
  rip : m'.rip = m.rip
  cs : m'.cs = m.cs
  rflags : m'.rflags = m.rflags
  ss : m'.ss = m.ss
  gsBase : m'.gsBase = m.gsBase
  kernelGsBase : m'.kernelGsBase = m.kernelGsBase

/-- The interrupted code does not notice the interrupt. -/
def Transparent (v : Nat) : Prop :=
  ∀ (m : Machine) (code : Word) (dispatch check : CallEffect),
    KeepsFrame ((raised v code m).regs .rsp) (raised v code m).mem dispatch.mem →
    KeepsFrame ((raised v code m).regs .rsp) (raised v code m).mem check.mem →
      SameContext m (resumed (raised v code m) dispatch check)

/-! ## The frame -/

/-- The interrupted context as an `InterruptFrame`. -/
def eventFrame (ev : Event) (m : Machine) : InterruptFrame where
  r15 := m.regs .r15
  r14 := m.regs .r14
  r13 := m.regs .r13
  r12 := m.regs .r12
  r11 := m.regs .r11
  r10 := m.regs .r10
  r9 := m.regs .r9
  r8 := m.regs .r8
  rbp := m.regs .rbp
  rdi := m.regs .rdi
  rsi := m.regs .rsi
  rdx := m.regs .rdx
  rcx := m.regs .rcx
  rbx := m.regs .rbx
  rax := m.regs .rax
  interruptNumber := ev.vector
  errorCode := ev.errorCode.getD 0
  rip := m.rip
  cs := m.cs
  rflags := m.rflags
  rsp := m.regs .rsp
  ss := m.ss

/-- What is pushed first lies highest. -/
theorem eventFrame_fields (ev : Event) (m : Machine) :
    frameFields (eventFrame ev m) =
      (List.range 22).map fun k => (BitVec.ofNat 64 (8 * k), (isrFrame ev m).getD (21 - k) 0) :=
  rfl

/-- `InterruptDispatch` gets the whole context. -/
theorem isrEntry_eventFrame (ev : Event) (m : Machine) :
    frameAt (isrEntry ev m).mem ((isrEntry ev m).regs .rsp) = eventFrame ev m := by
  apply frameAt_of_fields
  intro x hx
  rw [eventFrame_fields, List.mem_map] at hx
  rcases hx with ⟨k, hk, rfl⟩
  have hk' : k < 22 := List.mem_range.mp hk
  have hlen : (isrFrame ev m).length = 22 := rfl
  have hin : 21 - k < (isrFrame ev m).length := by omega
  have hplace : slot m.interruptTop 22 + BitVec.ofNat 64 (8 * k) =
      slot m.interruptTop (21 - k + 1) := by
    have hindex : 21 - k + 1 = 22 - k := by omega
    rw [slot_add (show k ≤ 22 by omega), hindex]
  rw [(isrEntry_spec ev m).rsp, (isrEntry_spec ev m).mem]
  dsimp only
  rw [hplace, pushAll_slot hin (by rw [hlen]; decide), List.getD_eq_getElem?_getD,
    List.getElem?_eq_getElem hin, Option.getD_some]

/-! ## The way back -/

theorem isrLeave_ss (m : Machine) : (isrLeave m).ss = m.mem (m.regs .rsp + 168) := by
  obtain ⟨hmem, hrsp, hget, -⟩ := exec_pop popOrder (by decide) (by decide) m
  obtain ⟨hmem', hregs'⟩ := execIfUser_swapgs (m.exec (popOrder.map .pop)) 24
  apply (iretq_restores (hmem'.trans hmem) _ _).2
  · rw [hregs']
    exact hrsp
  · intro k hk
    rw [hregs']
    exact hget k hk

/-- What `isr_common` restores is the frame in memory. -/
theorem resumed_restores {m : Machine} {dispatch check : CallEffect}
    (hdispatch : KeepsFrame (m.regs .rsp) m.mem dispatch.mem)
    (hcheck : KeepsFrame (m.regs .rsp) m.mem check.mem) :
    Restored m (resumed m dispatch check) (m.regs .rsp) ∧
      (resumed m dispatch check).ss = m.mem (m.regs .rsp + 168) := by
  -- both ways out read a memory that has the frame
  have hkept : ∀ {mem : Mem} {m' : Machine}, KeepsFrame (m.regs .rsp) m.mem mem →
      (∀ k (hk : k < popOrder.length),
        m'.regs popOrder[k] = mem (m.regs .rsp + BitVec.ofNat 64 (8 * k))) →
      m'.rip = mem (m.regs .rsp + 136) → m'.cs = mem (m.regs .rsp + 144) →
      m'.rflags = mem (m.regs .rsp + 152) → m'.regs .rsp = mem (m.regs .rsp + 160) →
      m'.ss = mem (m.regs .rsp + 168) →
      Restored m m' (m.regs .rsp) ∧ m'.ss = m.mem (m.regs .rsp + 168) := by
    intro mem m' hmem hreg hrip hcs hflags hrsp hss
    refine ⟨⟨fun k hk => ?_, ?_, ?_, ?_, ?_⟩, ?_⟩
    · have hk' : k < 15 := hk
      have hoff : BitVec.ofNat 64 (8 * k) ∈ frameOffsets := by
        rw [frameOffsets_eq]
        exact List.mem_map.mpr ⟨k, List.mem_range.mpr (by omega), rfl⟩
      rw [hreg k hk, hmem _ hoff]
    · rw [hrip, hmem _ (by decide)]
    · rw [hcs, hmem _ (by decide)]
    · rw [hflags, hmem _ (by decide)]
    · rw [hrsp, hmem _ (by decide)]
    · rw [hss, hmem _ (by decide)]
  unfold resumed
  split
  · have hleave := isrLeave_spec (m.afterCall dispatch)
    exact hkept hdispatch hleave.reg hleave.rip hleave.cs hleave.rflags hleave.rsp
      (isrLeave_ss (m.afterCall dispatch))
  · rename_i m' hsome
    have hrsp : (m'.afterCall check).regs .rsp + 8 = m.regs .rsp := by
      have hbelow : m'.regs .rsp = m.regs .rsp - 8 := (isrCheck_some hsome).2
      rw [afterCall_rsp, hbelow]
      bv_omega
    have hexit := isrExit_spec (m'.afterCall check)
    have hpop : ((m'.afterCall check).exec [.pop .rax]).regs .rsp = m.regs .rsp := by
      rw [← hrsp]
      simp [exec, execOne, popReg]
    have hss := isrLeave_ss ((m'.afterCall check).exec [.pop .rax])
    rw [hrsp] at hexit
    rw [hpop] at hss
    exact hkept hcheck hexit.reg hexit.rip hexit.cs hexit.rflags hexit.rsp hss

theorem resumed_balanced {m : Machine} (hkernel : ¬ m.UserMode) (dispatch check : CallEffect) :
    Balanced m (resumed m dispatch check) := by
  have hcs : (m.afterCall dispatch).cs = m.cs := rfl
  have hret : ¬ (m.afterCall dispatch).UserMode := fun hu => hkernel ((userMode_congr hcs).mp hu)
  unfold resumed
  split
  · -- no signal check
    have hleave := isrLeave_balanced hret
    exact hleave.congr hcs rfl rfl
  · -- with one, on the way to which nothing is swapped
    rename_i m' hsome
    unfold isrCheck at hsome
    split at hsome
    · cases hsome
    · simp only [Option.some.injEq] at hsome
      have hcs' : (m'.afterCall check).cs = m.cs := by
        rw [← hsome]
        rfl
      have hgs : (m'.afterCall check).gsBase = m.gsBase := by
        rw [← hsome]
        rfl
      have hkgs : (m'.afterCall check).kernelGsBase = m.kernelGsBase := by
        rw [← hsome]
        rfl
      have hexit := isrExit_balanced (fun hu => hkernel ((userMode_congr hcs').mp hu))
      exact hexit.congr hcs' hgs hkgs

/-! ## There and back -/

/-- Away and back to the same ring. -/
theorem Balanced.back {m m' m'' : Machine} (hin : Balanced m m') (hout : Balanced m' m'')
    (hring : m''.UserMode ↔ m.UserMode) :
    m''.gsBase = m.gsBase ∧ m''.kernelGsBase = m.kernelGsBase := by
  by_cases hstay : m.UserMode ↔ m'.UserMode
  · rcases hin.stay hstay with ⟨hgs, hkgs⟩
    rcases hout.stay (hstay.symm.trans hring.symm) with ⟨hgs', hkgs'⟩
    exact ⟨hgs'.trans hgs, hkgs'.trans hkgs⟩
  · rcases hin.swap hstay with ⟨hgs, hkgs⟩
    rcases hout.swap fun h => hstay (h.trans hring).symm with ⟨hgs', hkgs'⟩
    exact ⟨hgs'.trans hkgs, hkgs'.trans hgs⟩

/-- The stub and the processor agree. -/
theorem raised_eq {v : Nat} (h₂₁ : v ≠ 21) (h₂₉ : v ≠ 29) (code : Word) (m : Machine) :
    raised v code m = m.isrEntered ⟨BitVec.ofNat 64 v, errorCodeOf v code⟩ := by
  have hagree : v ∈ errStubs ↔ v ∈ errorCodeVectors := by
    simp only [errStubs, errorCodeVectors, List.mem_cons, List.not_mem_nil, or_false]
    omega
  have hstub : isrStubOf v = isrStub ⟨BitVec.ofNat 64 v, errorCodeOf v code⟩ := by
    unfold isrStubOf isrStub errorCodeOf
    by_cases hv : v ∈ errStubs
    · rw [if_pos hv]
      simp only [if_pos (hagree.mp hv)]
    · rw [if_neg hv]
      simp only [if_neg fun h => hv (hagree.mpr h)]
  rw [raised, hstub]
  rfl

/-- The frame in memory, from its lowest word on. -/
theorem eventFrame_words {mem : Mem} {a : Word} {ev : Event} {m : Machine}
    (h : frameAt mem a = eventFrame ev m) :
    ∀ k < 22, mem (a + BitVec.ofNat 64 (8 * k)) = (isrFrame ev m).getD (21 - k) 0 := by
  have hfields : (List.range 22).map (fun k => mem (a + BitVec.ofNat 64 (8 * k))) =
      (List.range 22).map fun k => (isrFrame ev m).getD (21 - k) 0 := by
    have hsnd := congrArg (fun f => (frameFields f).map Prod.snd) h
    rw [eventFrame_fields, List.map_map] at hsnd
    exact hsnd
  intro k hk
  exact List.map_inj_left.mp hfields k (List.mem_range.mpr hk)

/-- The registers lie in the order of the pops. -/
theorem isrFrame_popOrder (ev : Event) (m : Machine) {k : Nat} (hk : k < popOrder.length) :
    (isrFrame ev m).getD (21 - k) 0 = m.regs popOrder[k] := by
  have hk' : k < 15 := hk
  have hall : (List.range 15).map (fun k => (isrFrame ev m).getD (21 - k) 0) =
      popOrder.map m.regs := rfl
  have hat := congrArg (fun ws => ws[k]?) hall
  rw [List.getElem?_map, List.getElem?_map, List.getElem?_range hk',
    List.getElem?_eq_getElem hk] at hat
  exact Option.some.inj hat

/-- Where the frame is the context, the context is resumed. -/
theorem sameContext_of_frame {m m₁ : Machine} {ev : Event} {dispatch check : CallEffect}
    (hframe : frameAt m₁.mem (m₁.regs .rsp) = eventFrame ev m) (hkernel : ¬ m₁.UserMode)
    (hin : Balanced m m₁) (hdispatch : KeepsFrame (m₁.regs .rsp) m₁.mem dispatch.mem)
    (hcheck : KeepsFrame (m₁.regs .rsp) m₁.mem check.mem) :
    SameContext m (resumed m₁ dispatch check) := by
  obtain ⟨hback, hss⟩ := resumed_restores hdispatch hcheck
  have hword := eventFrame_words hframe
  have hcs : (resumed m₁ dispatch check).cs = m.cs := hback.cs.trans (hword 18 (by decide))
  obtain ⟨hgs, hkgs⟩ := hin.back (resumed_balanced hkernel dispatch check) (userMode_congr hcs)
  refine ⟨?_, ?_, hcs, ?_, ?_, hgs, hkgs⟩
  · -- the registers: fifteen are popped, and `iretq` loads the stack pointer
    funext r
    by_cases hr : r ∈ popOrder
    · obtain ⟨k, hk, rfl⟩ := List.getElem_of_mem hr
      have hk' : k < 15 := hk
      rw [hback.reg k hk, hword k (by omega), isrFrame_popOrder ev m hk]
    · have hsp : r = .rsp := by
        cases r <;> first | rfl | exact absurd (by decide) hr
      rw [hsp]
      exact hback.rsp.trans (hword 20 (by decide))
  · exact hback.rip.trans (hword 17 (by decide))
  · exact hback.rflags.trans (hword 19 (by decide))
  · exact hss.trans (hword 21 (by decide))

theorem isrEntered_eventFrame (ev : Event) (m : Machine) :
    frameAt (m.isrEntered ev).mem ((m.isrEntered ev).regs .rsp) = eventFrame ev m := by
  rw [isrEntered, gate_mem, gate_regs]
  exact isrEntry_eventFrame ev m

theorem raised_transparent {v : Nat} (h₂₁ : v ≠ 21) (h₂₉ : v ≠ 29) : Transparent v := by
  intro m code dispatch check hdispatch hcheck
  obtain ⟨ev, hentered⟩ : ∃ ev, raised v code m = m.isrEntered ev :=
    ⟨_, raised_eq h₂₁ h₂₉ code m⟩
  have hframe := isrEntered_eventFrame ev m
  have hkernel : ¬ (m.isrEntered ev).UserMode := kernelCs_not_user (gate_cs (isrEntry ev m))
  have hin := isrEntered_balanced ev m
  rw [← hentered] at hframe hkernel hin
  exact sameContext_of_frame hframe hkernel hin hdispatch hcheck

/-! ## The two vectors that do not agree -/

/-- With a zero too many, the error code lies where the return address should. -/
theorem raised_shifted {v : Nat} (hv : v = 21 ∨ v = 29) (code : Word) (m : Machine) :
    (raised v code m).mem ((raised v code m).regs .rsp + 136) = code ∧
      (raised v code m).mem ((raised v code m).regs .rsp + 120) = BitVec.ofNat 64 v := by
  have hcode : errorCodeOf v code = some code := by
    rcases hv with rfl | rfl <;> rfl
  have hstub : isrStubOf v = [.pushImm 0, .pushImm (BitVec.ofNat 64 v)] := by
    rcases hv with rfl | rfl <;> rfl
  rw [raised, hcode, hstub, gate_mem, gate_regs]
  -- eight words, and the registers below them
  have hmem : ((m.interrupt (some code)).exec
      [.pushImm 0, .pushImm (BitVec.ofNat 64 v)]).mem =
        pushAll m.interruptTop
          [m.ss, m.regs .rsp, m.rflags, m.cs, m.rip, code, 0, BitVec.ofNat 64 v] m.mem := by
    simp [interrupt, exec, execOne, setReg, pushVal, pushAll]
  have hrsp : ((m.interrupt (some code)).exec
      [.pushImm 0, .pushImm (BitVec.ofNat 64 v)]).regs .rsp = slot m.interruptTop 8 := by
    have hslot : slot m.interruptTop 8 = m.interruptTop - 8 - 8 - 8 - 8 - 8 - 8 - 8 - 8 := by
      unfold slot
      bv_omega
    rw [hslot]
    simp [interrupt, exec, execOne, setReg, pushVal]
  generalize (m.interrupt (some code)).exec [.pushImm 0, .pushImm (BitVec.ofNat 64 v)] = m₁
    at hmem hrsp
  obtain ⟨hmem', hregs'⟩ := execIfUser_swapgs m₁ 24
  obtain ⟨hsave, hsaved, -, -⟩ := exec_save_spec (m₁.execIfUser 24 [.swapgs])
  rw [hmem', hregs', hrsp, hmem] at hsave
  rw [hregs', hrsp, slot_slot] at hsaved
  have hcodeAt : slot m.interruptTop (8 + 15) + 136 = slot m.interruptTop (5 + 1) :=
    slot_add (i := 23) (j := 17) (by decide)
  have hvectorAt : slot m.interruptTop (8 + 15) + 120 = slot m.interruptTop (7 + 1) :=
    slot_add (i := 23) (j := 15) (by decide)
  have habove : ∀ i < 8, ∀ k, k < (gprs.map m₁.regs).length →
      slot m.interruptTop (i + 1) ≠ slot (slot m.interruptTop 8) (k + 1) := by
    intro i hi k hk
    have hk' : k < 15 := hk
    rw [slot_slot]
    exact slot_ne (by omega) (by omega) (by omega)
  rw [hsaved, hsave, hcodeAt, hvectorAt, pushAll_frame (habove 5 (by decide)),
    pushAll_frame (habove 7 (by decide))]
  constructor
  · exact pushAll_slot (k := 5) (by simp) (by simp)
  · exact pushAll_slot (k := 7) (by simp) (by simp)

/-- Calls that leave memory alone. -/
def quiet (m : Machine) : CallEffect := ⟨0, fun _ => 0, m.mem⟩

theorem quiet_keeps (m : Machine) (a : Word) : KeepsFrame a m.mem (quiet m).mem := fun _ _ => rfl

theorem quiet_rip (m : Machine) :
    (resumed m (quiet m) (quiet m)).rip = m.mem (m.regs .rsp + 136) :=
  (resumed_restores (quiet_keeps m _) (quiet_keeps m _)).1.rip

/-- The code is resumed at the address that the error code is. -/
theorem not_transparent {v : Nat} (hv : v = 21 ∨ v = 29) (m : Machine) : ¬ Transparent v := by
  intro htransparent
  have hsame := (htransparent m (m.rip + 1) _ _ (quiet_keeps _ _) (quiet_keeps _ _)).rip
  rw [quiet_rip, (raised_shifted hv _ m).1] at hsame
  bv_omega

/-- Of the 256 vectors, two are not transparent. -/
theorem raised_transparent_iff (v : Nat) : Transparent v ↔ v ≠ 21 ∧ v ≠ 29 := by
  have m : Machine := ⟨fun _ => 0, 0, 0, 0, 0, fun _ => 0, 0, 0, 0⟩
  constructor
  · intro htransparent
    constructor
    · intro hv
      exact not_transparent (Or.inl hv) m htransparent
    · intro hv
      exact not_transparent (Or.inr hv) m htransparent
  · rintro ⟨h₂₁, h₂₉⟩
    exact raised_transparent h₂₁ h₂₉

end Ceryx.Cpu
