import Ceryx.Cpu.Entry
import Ceryx.Proc.Signal

/-!
# Ceryx.Cpu.SavedFrame — saved contexts in memory

An `InterruptFrame` as it lies on a kernel stack, and `SignalCheckPending` as
the exit code calls it: with a pointer, on whatever lies there.

* `frameAt_putFrame`: a frame is read back as it was stored.
* `isrEntry_frame`, `syscallSave_frame`: the code segment and the flags that the
  two entry paths save.
* `signalCheck_checked`, `signalCheck_frame`: what delivery does to the frame
  behind the pointer.
-/

namespace Ceryx.Cpu

open Lib Machine Proc

/-! ## Frames in memory -/

/-- The fields of an `InterruptFrame` at their offsets. -/
def frameFields (f : InterruptFrame) : List (Word × Word) :=
  [(0, f.r15), (8, f.r14), (16, f.r13), (24, f.r12), (32, f.r11), (40, f.r10), (48, f.r9),
    (56, f.r8), (64, f.rbp), (72, f.rdi), (80, f.rsi), (88, f.rdx), (96, f.rcx), (104, f.rbx),
    (112, f.rax), (120, f.interruptNumber), (128, f.errorCode), (136, f.rip), (144, f.cs),
    (152, f.rflags), (160, f.rsp), (168, f.ss)]

def frameOffsets : List Word :=
  [0, 8, 16, 24, 32, 40, 48, 56, 64, 72, 80, 88, 96, 104, 112, 120, 128, 136, 144, 152, 160, 168]

/-- Store a frame at `a`. -/
def putFrame (mem : Mem) (a : Word) (f : InterruptFrame) : Mem := mem.writeFields a (frameFields f)

/-- The frame at `a`. -/
def frameAt (mem : Mem) (a : Word) : InterruptFrame :=
  let w := fun off : Word => mem (a + off)
  { r15 := w 0, r14 := w 8, r13 := w 16, r12 := w 24, r11 := w 32, r10 := w 40, r9 := w 48
    r8 := w 56, rbp := w 64, rdi := w 72, rsi := w 80, rdx := w 88, rcx := w 96, rbx := w 104
    rax := w 112, interruptNumber := w 120, errorCode := w 128, rip := w 136, cs := w 144
    rflags := w 152, rsp := w 160, ss := w 168 }

theorem frameFields_offsets (f : InterruptFrame) :
    (frameFields f).map Prod.fst = frameOffsets := rfl

theorem frameOffsets_nodup : frameOffsets.Nodup := by decide

theorem frameOffsets_eq :
    frameOffsets = (List.range 22).map fun k => BitVec.ofNat 64 (8 * k) := by decide

theorem putFrame_get {mem : Mem} {a off v : Word} {f : InterruptFrame}
    (h : (off, v) ∈ frameFields f) : putFrame mem a f (a + off) = v := by
  apply Mem.writeFields_get
  · rw [frameFields_offsets]
    exact frameOffsets_nodup
  · exact h

theorem putFrame_cs (mem : Mem) (a : Word) (f : InterruptFrame) :
    putFrame mem a f (a + 144) = f.cs := putFrame_get (by simp [frameFields])

theorem putFrame_rflags (mem : Mem) (a : Word) (f : InterruptFrame) :
    putFrame mem a f (a + 152) = f.rflags := putFrame_get (by simp [frameFields])

/-- A frame is what lies at its fields. -/
theorem frameAt_of_fields {mem : Mem} {a : Word} {f : InterruptFrame}
    (h : ∀ x ∈ frameFields f, mem (a + x.1) = x.2) : frameAt mem a = f := by
  have hread : (frameOffsets.map fun off => mem (a + off)) = (frameFields f).map Prod.snd := by
    rw [← frameFields_offsets f, List.map_map]
    exact List.map_congr_left fun x hx => h x hx
  simp only [frameOffsets, frameFields, List.map_cons, List.map_nil, List.cons.injEq,
    and_true] at hread
  simp only [frameAt, hread]

theorem frameAt_congr {mem mem' : Mem} {a : Word}
    (h : ∀ off ∈ frameOffsets, mem' (a + off) = mem (a + off)) :
    frameAt mem' a = frameAt mem a := by
  have hread : (frameOffsets.map fun off => mem' (a + off)) =
      frameOffsets.map fun off => mem (a + off) := List.map_congr_left h
  simp only [frameOffsets, List.map_cons, List.map_nil, List.cons.injEq, and_true] at hread
  simp only [frameAt, hread]

theorem frameAt_putFrame (mem : Mem) (a : Word) (f : InterruptFrame) :
    frameAt (putFrame mem a f) a = f := frameAt_of_fields fun _ hx => putFrame_get hx

/-- A store next to a frame leaves it alone. -/
theorem frameAt_write_ne (mem : Mem) {a b : Word} (v : Word)
    (h : ∀ off ∈ frameOffsets, a + off ≠ b) :
    frameAt (mem.write b v) a = frameAt mem a :=
  frameAt_congr fun off hoff => Mem.write_ne mem v (h off hoff)

/-- The quadword below a frame is none of its own. -/
theorem below_frame (a : Word) : ∀ off ∈ frameOffsets, a + off ≠ a - 8 := by
  intro off hoff he
  have hval : off = 0 - 8 := by bv_omega
  rw [hval] at hoff
  exact absurd hoff (by decide)

/-! ## What the entry code saves -/

theorem isrEntry_frame (ev : Event) (m : Machine) :
    (frameAt (isrEntry ev m).mem ((isrEntry ev m).regs .rsp)).cs = m.cs ∧
      (frameAt (isrEntry ev m).mem ((isrEntry ev m).regs .rsp)).rflags = m.rflags := by
  have hlen : (isrFrame ev m).length = 22 := rfl
  have hcs : slot m.interruptTop 22 + 144 = slot m.interruptTop (3 + 1) :=
    slot_add (i := 22) (j := 18) (by decide)
  have hflags : slot m.interruptTop 22 + 152 = slot m.interruptTop (2 + 1) :=
    slot_add (i := 22) (j := 19) (by decide)
  simp only [frameAt]
  rw [(isrEntry_spec ev m).rsp, (isrEntry_spec ev m).mem, hcs, hflags]
  constructor
  · exact pushAll_slot (by rw [hlen]; decide) (by rw [hlen]; decide)
  · exact pushAll_slot (by rw [hlen]; decide) (by rw [hlen]; decide)

theorem syscallSave_frame (m : Machine) :
    (frameAt (m.exec syscallSave).mem ((m.exec syscallSave).regs .rsp)).cs = 0x23 ∧
      (frameAt (m.exec syscallSave).mem ((m.exec syscallSave).regs .rsp)).rflags =
        m.regs .r11 := by
  rcases exec_save_spec (m.exec syscallHead) with ⟨hmem, hrsp, -, -⟩
  rw [← exec_syscallSave, syscallHead_pushes] at hmem hrsp
  simp only [Function.update_self] at hmem hrsp
  have hptr : (m.exec syscallSave).regs .rsp = slot (syscallTop m) 22 := by
    rw [hrsp]
    unfold slot
    bv_omega
  -- the fifteen registers lie below the seven quadwords of the context
  have habove : ∀ {i : Nat}, i < 7 → (m.exec syscallSave).mem (slot (syscallTop m) (i + 1)) =
      pushAll (syscallTop m) [0x1B, pushedRsp m, m.regs .r11, 0x23, m.regs .rcx, 0, 0]
        (m.mem.write (m.kernelGsBase + 24) (m.regs .rsp)) (slot (syscallTop m) (i + 1)) := by
    intro i hi
    rw [hmem]
    apply pushAll_frame
    intro k hk
    have hk' : k < 15 := hk
    rw [slot_slot]
    exact slot_ne (by omega) (by omega) (by omega)
  have hcs : slot (syscallTop m) 22 + 144 = slot (syscallTop m) (3 + 1) :=
    slot_add (i := 22) (j := 18) (by decide)
  have hflags : slot (syscallTop m) 22 + 152 = slot (syscallTop m) (2 + 1) :=
    slot_add (i := 22) (j := 19) (by decide)
  simp only [frameAt]
  rw [hptr, hcs, hflags, habove (by decide), habove (by decide)]
  constructor
  · exact pushAll_slot (k := 3) (by simp) (by simp)
  · exact pushAll_slot (k := 2) (by simp) (by simp)

/-! ## SignalCheckPending -/

/-- `SignalCheckPending` called with the pointer `a` by a thread in signal state
`sig`: memory when it returns; `none` when a signal has ended the thread, whose
`Yield` does not come back. -/
def signalCheckPending (sig : SigThread) (mem : Mem) (a : Word) : Option Mem :=
  let t := (doPendingSignals { sig with frame := frameAt mem a, mem := mem }).1
  if t.terminated = true ∧ sig.terminated = false then none
  else some (putFrame t.mem a t.frame)

/-- The signal that `SignalCheckPending` builds a frame for. -/
def signalDelivered (sig : SigThread) (mem : Mem) (a : Word) : Option Nat :=
  (doPendingSignals { sig with frame := frameAt mem a, mem := mem }).2

/-- The context that `SignalCheckPending` leaves behind its pointer where it has
found `f`: the same, or that of a handler. -/
def checkedFrame (sig : SigThread) (f : InterruptFrame) : InterruptFrame :=
  (doPendingSignals { sig with frame := f }).1.frame

/-- Kernel code is sent no signals. -/
theorem checkedFrame_kernel {sig : SigThread} {f : InterruptFrame} (h : f.cs &&& 3 = 0) :
    checkedFrame sig f = f := by
  unfold checkedFrame doPendingSignals
  rw [if_pos h]

theorem signalCheck_checked {sig : SigThread} {mem mem' : Mem} {a : Word}
    (h : signalCheckPending sig mem a = some mem') :
    frameAt mem' a = checkedFrame sig (frameAt mem a) := by
  unfold signalCheckPending at h
  dsimp only at h
  split at h
  · cases h
  · cases h
    rw [frameAt_putFrame]
    exact doPendingSignals_frame { sig with frame := frameAt mem a } mem

/-- Through its pointer `SignalCheckPending` leaves the code segment and the
flags, and moves the stack pointer exactly when it delivers. -/
theorem signalCheck_frame {sig : SigThread} {mem mem' : Mem} {a : Word}
    (h : signalCheckPending sig mem a = some mem') :
    (frameAt mem' a).cs = (frameAt mem a).cs ∧ (frameAt mem' a).rflags = (frameAt mem a).rflags ∧
      (frameAt mem' a).rsp =
        if signalDelivered sig mem a = none then (frameAt mem a).rsp
        else sigframeAddr (frameAt mem a) - 8 := by
  unfold signalCheckPending at h
  dsimp only at h
  split at h
  · cases h
  · cases h
    rw [frameAt_putFrame]
    unfold signalDelivered
    rcases doPendingSignals_cases { sig with frame := frameAt mem a, mem := mem } with
      ⟨hnone, hframe⟩ | ⟨umem, n, action, hsome, hbuilt⟩
    · -- nothing delivered
      rw [hframe, hnone]
      exact ⟨rfl, rfl, rfl⟩
    · -- a handler's frame was built
      have hframe := congrArg Prod.fst hbuilt
      dsimp only at hframe
      rw [hframe, hsome]
      exact ⟨rfl, rfl, rfl⟩

/-- Delivery leaves the selectors and the flags of a context. -/
theorem checkedFrame_kept (sig : SigThread) (f : InterruptFrame) :
    (checkedFrame sig f).cs = f.cs ∧ (checkedFrame sig f).ss = f.ss ∧
      (checkedFrame sig f).rflags = f.rflags := by
  unfold checkedFrame
  rcases doPendingSignals_cases { sig with frame := f } with
    ⟨-, hframe⟩ | ⟨umem, n, action, -, hbuilt⟩
  · rw [hframe]
    exact ⟨rfl, rfl, rfl⟩
  · have hframe := congrArg Prod.fst hbuilt
    dsimp only at hframe
    rw [hframe]
    exact ⟨rfl, rfl, rfl⟩

end Ceryx.Cpu
