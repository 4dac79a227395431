import Ceryx.Lib.Runs
import Ceryx.Proc.Signal

/-!
# Ceryx.Proc.SignalReturn — is signal handling transparent?

One thread that runs user code, installs handlers, changes its mask, is sent
signals, has them delivered and returns from handlers, in any nesting. Each
delivery that builds a frame is remembered with the context and the mask it
interrupted; a return is the one of the innermost delivery that has not
returned, through its unmodified signal frame.

The context always comes back. The mask comes back exactly when it was empty:
`SetupFrame` does not store it, and `rt_sigreturn` loads the zero it finds.
-/

namespace Ceryx.Proc

open Lib

/-- A delivery whose handler has not returned: the frame and the mask it
interrupted, and user memory right after `SetupFrame`. -/
structure Delivery where
  frame : InterruptFrame
  blocked : Word
  mem : Mem

/-- A return through `rt_sigreturn`: the delivery it belongs to, and the frame
and the mask after it. -/
structure HandlerReturn where
  delivery : Delivery
  frame : InterruptFrame
  blocked : Word

structure SigState where
  thread : SigThread
  /-- Outstanding deliveries, innermost first. -/
  deliveries : List Delivery
  lastReturn : Option HandlerReturn

inductive SigOp where
  /-- User code runs and enters the kernel again with this frame. -/
  | enter (frame : InterruptFrame)
  /-- User code stores. -/
  | store (a v : Word)
  | send (sig : Nat)
  | rtSigaction (sig : Nat) (act : SigAction)
  | rtSigprocmask (how : Int) (set : Word)
  /-- `SignalCheckPending` on the way out of the kernel. -/
  | checkPending
  | rtSigreturn

/-- The signal frame of a delivery is as `SetupFrame` left it. -/
def Unmodified (mem : Mem) (d : Delivery) : Prop :=
  ∀ k, k < sigframeQwords → mem (sigframeAddr d.frame + BitVec.ofNat 64 (8 * k)) =
    d.mem (sigframeAddr d.frame + BitVec.ofNat 64 (8 * k))

instance (mem : Mem) (d : Delivery) : Decidable (Unmodified mem d) := Nat.decidableBallLT _ _

/-- `SignalCheckPending`, remembering the delivery if one was made. -/
def SigState.checkPending (s : SigState) : SigState :=
  match doPendingSignals s.thread with
  | (t, none) => { s with thread := t }
  | (t, some _) =>
      { s with
        thread := t
        deliveries := ⟨s.thread.frame, s.thread.blocked, t.mem⟩ :: s.deliveries }

/-- One step of the thread. It stops when a fatal signal has ended it, and
`rt_sigreturn` happens only as the return of the innermost delivery. -/
def sigStep (s : SigState) (op : SigOp) : Option SigState :=
  if s.thread.terminated then none
  else
    match op with
    | .enter frame => some { s with thread := { s.thread with frame := frame } }
    | .store a v => some { s with thread := { s.thread with mem := s.thread.mem.write a v } }
    | .send sig => some { s with thread := send s.thread sig }
    | .rtSigaction sig act =>
        some { s with thread := (rtSigaction s.thread sig act).getD s.thread }
    | .rtSigprocmask how set =>
        some { s with thread := (rtSigprocmask s.thread how set).getD s.thread }
    | .checkPending => some s.checkPending
    | .rtSigreturn =>
        match s.deliveries with
        | [] => none
        | d :: rest =>
            if s.thread.frame.rsp = sigframeAddr d.frame ∧ Unmodified s.thread.mem d then
              let t := rtSigreturn s.thread s.thread.frame.rsp
              some ⟨t, rest, some ⟨d, t.frame, t.blocked⟩⟩
            else none

/-- Every handler that returned gave back the context and the mask it
interrupted. -/
def Transparent (s : SigState) : Prop :=
  ∀ r ∈ s.lastReturn,
    r.frame.context = r.delivery.frame.context ∧ r.blocked = r.delivery.blocked

/-- The condition: the delivery that returns had interrupted an empty mask. -/
def MaskEmpty (s : SigState) : SigOp → Prop
  | .rtSigreturn => ∀ d ∈ s.deliveries.head?, d.blocked = 0
  | _ => True

/-- What is known of an outstanding delivery: its memory is what `SetupFrame`
made of some memory, for some signal and action. -/
def Built (d : Delivery) : Prop :=
  ∃ mem sig action, d.mem = (setupFrame d.frame mem sig action).2

/-- The invariant of all runs. -/
def AllBuilt (s : SigState) : Prop := ∀ d ∈ s.deliveries, Built d

/-! ## Deliveries -/

theorem doPendingSignals_built {t t' : SigThread} {i : Nat}
    (h : doPendingSignals t = (t', some i)) :
    ∃ mem sig action, t'.mem = (setupFrame t.frame mem sig action).2 := by
  rcases doPendingSignals_cases t with ⟨hnone, -⟩ | ⟨mem, sig, action, -, hbuilt⟩
  · rw [h] at hnone
    cases hnone
  · rw [h] at hbuilt
    exact ⟨mem, sig, action, congrArg Prod.snd hbuilt⟩

/-! ## Steps -/

theorem sigStep_built {s s' : SigState} {op : SigOp} (h : AllBuilt s)
    (hstep : sigStep s op = some s') : AllBuilt s' := by
  unfold sigStep at hstep
  split at hstep
  · cases hstep
  · cases op with
    | enter _ | store _ _ | send _ | rtSigaction _ _ | rtSigprocmask _ _ =>
        cases hstep
        exact h
    -- a delivery is built from the state before it
    | checkPending =>
        cases hstep
        unfold SigState.checkPending
        split
        · exact h
        · rename_i t i hdo
          intro d hd
          rcases List.mem_cons.mp hd with rfl | hold
          · exact doPendingSignals_built hdo
          · exact h d hold
    -- a return takes the newest one away
    | rtSigreturn =>
        dsimp only at hstep
        split at hstep
        · cases hstep
        · rename_i d rest hdel
          split at hstep
          · cases hstep
            intro e he
            apply h
            rw [hdel]
            exact List.mem_cons_of_mem _ he
          · cases hstep

/-- The return of a delivery gives back its context, and an empty mask. -/
theorem rtSigreturn_unmodified {t : SigThread} {d : Delivery} (hd : Built d)
    (hrsp : t.frame.rsp = sigframeAddr d.frame) (hmem : Unmodified t.mem d) :
    (rtSigreturn t t.frame.rsp).frame.context = d.frame.context ∧
      (rtSigreturn t t.frame.rsp).blocked = 0 := by
  obtain ⟨mem, sig, action, hbuilt⟩ := hd
  rw [hrsp]
  apply rtSigreturn_setupFrame t d.frame mem sig action
  intro off hoff
  obtain ⟨k, hk, rfl⟩ := hoff.index
  rw [hmem k hk, hbuilt]

theorem sigStep_transparent {s s' : SigState} {op : SigOp} (h : AllBuilt s) (ht : Transparent s)
    (hstep : sigStep s op = some s') : Transparent s' ↔ MaskEmpty s op := by
  unfold sigStep at hstep
  split at hstep
  · cases hstep
  · cases op with
    | enter _ | store _ _ | send _ | rtSigaction _ _ | rtSigprocmask _ _ =>
        cases hstep
        exact iff_of_true ht trivial
    | checkPending =>
        cases hstep
        refine iff_of_true ?_ trivial
        unfold SigState.checkPending
        split
        · exact ht
        · exact ht
    | rtSigreturn =>
        dsimp only at hstep
        split at hstep
        · cases hstep
        · rename_i d rest hdel
          split at hstep
          · rename_i hguard
            cases hstep
            have hd : Built d := h d (by rw [hdel]; exact List.mem_cons_self)
            obtain ⟨hcontext, hblocked⟩ := rtSigreturn_unmodified hd hguard.1 hguard.2
            have hhead : s.deliveries.head? = some d := by rw [hdel]; rfl
            -- the context comes back in any case; the mask comes back empty
            constructor
            · intro htr e he
              rw [hhead] at he
              cases he
              have := (htr _ rfl).2
              rw [hblocked] at this
              exact this.symm
            · intro hempty r hr
              cases hr
              refine ⟨hcontext, hblocked.trans ?_⟩
              exact (hempty d hhead).symm
          · cases hstep

/-- From any thread without outstanding deliveries, handlers are transparent
throughout a run if and only if every delivery that returns had interrupted an
empty mask. -/
theorem transparent_iff_maskEmpty (t : SigThread) (ops : List SigOp) :
    Always sigStep Transparent ⟨t, [], none⟩ ops ↔ StepsMeet sigStep MaskEmpty ⟨t, [], none⟩ ops := by
  refine always_iff_stepsMeet (B := AllBuilt) ?_ ?_ ?_ ops ?_ ?_
  · intro s op s' h hstep
    exact sigStep_built h hstep
  · intro s op s' h ht hok hstep
    exact (sigStep_transparent h ht hstep).mpr hok
  · intro s op s' h ht hok hstep ht'
    exact hok ((sigStep_transparent h ht hstep).mp ht')
  · intro d hd
    cases hd
  · intro r hr
    cases hr

/-- A frame from user mode with the given stack pointer. -/
def userFrame (rsp : Word) : InterruptFrame :=
  { r15 := 15, r14 := 14, r13 := 13, r12 := 12, r11 := 11, r10 := 10, r9 := 9, r8 := 8
    rbp := 7, rdi := 6, rsi := 5, rdx := 4, rcx := 3, rbx := 2, rax := 1
    interruptNumber := 32, errorCode := 0
    rip := 0x401000, cs := 0x23, rflags := 0x202, rsp := rsp, ss := 0x1B }

/-- A thread with no handler and no signal. -/
def userThread : SigThread where
  frame := userFrame 0x7FFF0000
  mem := fun _ => 0
  pending := 0
  blocked := 0
  actions := fun _ => {}
  zombie := false
  terminated := false

/-- SIGUSR2 is blocked, a handler for SIGUSR1 runs and returns: SIGUSR2 is no
longer blocked. -/
theorem blocked_mask_lost :
    ∃ s, run sigStep ⟨userThread, [], none⟩
        [.rtSigprocmask 0 0x800, .rtSigaction 10 { saHandler := 0x402000, saRestorer := 0x403000 },
          .send 10, .checkPending, .enter (userFrame 0x7FFEFEF0), .rtSigreturn] = some s ∧
      (s.lastReturn.map fun r => (r.delivery.blocked, r.blocked)) = some (0x800, 0) ∧
      ¬ Transparent s := by
  -- USR2 is blocked before the delivery and not after the return
  have hrun : ((run sigStep ⟨userThread, [], none⟩
      [.rtSigprocmask 0 0x800, .rtSigaction 10 { saHandler := 0x402000, saRestorer := 0x403000 },
        .send 10, .checkPending, .enter (userFrame 0x7FFEFEF0), .rtSigreturn]).map fun s =>
      s.lastReturn.map fun r => (r.delivery.blocked, r.blocked)) = some (some (0x800, 0)) := by
    decide +kernel
  obtain ⟨s, hs, hret⟩ := Option.map_eq_some_iff.mp hrun
  refine ⟨s, hs, hret, fun ht => ?_⟩
  obtain ⟨r, hr, hpair⟩ := Option.map_eq_some_iff.mp hret
  have hsame := (ht r hr).2
  obtain ⟨hbefore, hafter⟩ := Prod.mk.inj hpair
  rw [hbefore, hafter] at hsame
  exact absurd hsame (by decide)

end Ceryx.Proc
