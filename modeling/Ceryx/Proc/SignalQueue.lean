import Mathlib.Order.Bounds.Basic
import Ceryx.Lib.BitSet
import Ceryx.Lib.Simulation
import Ceryx.Proc.SignalReturn

/-!
# Ceryx.Proc.SignalQueue — pending signals are delivered once, lowest first

A thread of a live process is sent signals, has its blocked mask and its action
table changed, and calls `DoPendingSignals` with frames of user mode. The calls
of `SetupFrame` and of `Process::Exit` are recorded in the order they are made.

* `SigView`, `Delivers`, `queueSpec`: what the calls are for. A signal is in a
  set from `Send` on; a delivery takes out the unblocked ones up to the lowest
  that acts, and performs its action.
* `deliverLoop_delivers`: the loop over the two words does this.
* `pending_delivered`: every run is one that the specification allows, and a
  signal stops being pending only in a delivery that finds it unblocked.
-/

namespace Ceryx.Proc

open Lib

/-! ## The calls of DoPendingSignals -/

/-- The calls through which a signal takes effect. -/
inductive SigCall where
  | setupFrame (sig : Nat)
  | exit (status : Int)
deriving DecidableEq, Repr

/-- The calls that the loop of `DoPendingSignals` makes, in order. -/
def deliverCalls (pending : Word) (actions : Nat → SigAction) : List Nat → List SigCall
  | [] => []
  | i :: is =>
      if pending &&& sigBit i = 0 then deliverCalls pending actions is
      else
        let action := actions i
        if action.saHandler = SIG_IGN then deliverCalls pending actions is
        else if action.saHandler = SIG_DFL then
          if i ∈ fatalSignals then [.exit (-i)]
          else deliverCalls pending actions is
        else [.setupFrame i]

/-- The calls that `DoPendingSignals` makes. -/
def doPendingCalls (t : SigThread) : List SigCall :=
  if t.frame.cs &&& 3 = 0 then []
  else
    let pending := t.pending &&& ~~~t.blocked
    if pending = 0 then []
    else if t.zombie then []
    else if t.terminated then []
    else deliverCalls pending t.actions signals

/-! ## Runs of one thread -/

inductive QueueOp where
  /-- `Signal::Send` with this thread. -/
  | send (sig : Nat)
  /-- `BlockedSignals()` is assigned. -/
  | setBlocked (mask : Word)
  | rtSigaction (sig : Nat) (act : SigAction)
  /-- `DoPendingSignals` with this frame, in this user memory. -/
  | doPending (frame : InterruptFrame) (mem : Mem)

/-- One step, with the calls it makes. `DoPendingSignals` is for a frame of user
mode and a live process. -/
def queueStep (t : SigThread) : QueueOp → Option (List SigCall × SigThread)
  | .send sig => some ([], send t sig)
  | .setBlocked mask => some ([], { t with blocked := mask })
  | .rtSigaction sig act => some ([], (rtSigaction t sig act).getD t)
  | .doPending frame mem =>
      if frame.cs &&& 3 ≠ 0 ∧ t.zombie = false ∧ t.terminated = false then
        let t := { t with frame := frame, mem := mem }
        some (doPendingCalls t, (doPendingSignals t).1)
      else none

/-! ## The specification -/

/-- The signals in a `sigset_t`. -/
def sigsOf (w : Word) : Set Nat := {i | (1 ≤ i ∧ i < NSIG) ∧ i - 1 ∈ bits w}

/-- A thread as signals see it. -/
structure SigView where
  pending : Set Nat
  blocked : Set Nat
  actions : Nat → SigAction
  live : Bool
  frame : InterruptFrame
  mem : Mem

/-- A delivery of the signal does something: its action is a handler, or the
default of a fatal signal. -/
def Acts (action : SigAction) (sig : Nat) : Prop :=
  action.saHandler ≠ SIG_IGN ∧ (action.saHandler = SIG_DFL → sig ∈ fatalSignals)

instance (action : SigAction) (sig : Nat) : Decidable (Acts action sig) :=
  inferInstanceAs (Decidable (action.saHandler ≠ SIG_IGN ∧
    (action.saHandler = SIG_DFL → sig ∈ fatalSignals)))

/-- A delivery that finds the signals `D` deliverable. -/
inductive Delivers (D : Set Nat) (v : SigView) : List SigCall → SigView → Prop where
  /-- None of them acts: all are consumed. -/
  | nothing (hquiet : ∀ i ∈ D, ¬ Acts (v.actions i) i) :
      Delivers D v [] { v with pending := v.pending \ D }
  /-- The lowest that acts has a handler. -/
  | handler (s : Nat) (hleast : IsLeast {i | i ∈ D ∧ Acts (v.actions i) i} s)
      (hhandler : (v.actions s).saHandler ≠ SIG_DFL) :
      Delivers D v [.setupFrame s]
        { v with
          pending := v.pending \ {i | i ∈ D ∧ i ≤ s}
          frame := (setupFrame v.frame v.mem s (v.actions s)).1
          mem := (setupFrame v.frame v.mem s (v.actions s)).2 }
  /-- The lowest that acts ends the process. -/
  | exit (s : Nat) (hleast : IsLeast {i | i ∈ D ∧ Acts (v.actions i) i} s)
      (hdefault : (v.actions s).saHandler = SIG_DFL) :
      Delivers D v [.exit (-s)]
        { v with pending := v.pending \ {i | i ∈ D ∧ i ≤ s}, live := false }

/-- What one step may do. -/
def queueSpec (v : SigView) : QueueOp → List SigCall → SigView → Prop
  | .send sig, calls, v' =>
      calls = [] ∧ v' = { v with pending := v.pending ∪ {i | i = sig ∧ 1 ≤ i ∧ i < NSIG} }
  | .setBlocked mask, calls, v' => calls = [] ∧ v' = { v with blocked := sigsOf mask }
  | .rtSigaction sig act, calls, v' =>
      calls = [] ∧
        v' = if (1 ≤ sig ∧ sig < NSIG) ∧ sig ≠ SIGKILL ∧ sig ≠ SIGSTOP then
          { v with actions := Function.update v.actions sig act } else v
  | .doPending frame mem, calls, v' =>
      v.live = true ∧ frame.cs &&& 3 ≠ 0 ∧
        Delivers (v.pending \ v.blocked) { v with frame := frame, mem := mem } calls v'

def SigThread.view (t : SigThread) : SigView :=
  ⟨sigsOf t.pending, sigsOf t.blocked, t.actions, !t.zombie && !t.terminated, t.frame, t.mem⟩

/-! ## The words as sets of signals -/

theorem bits_sigBit {sig : Nat} (h : 1 ≤ sig ∧ sig < NSIG) : bits (sigBit sig) = {sig - 1} := by
  have hlt : sig - 1 < 64 := by
    have := h.2
    unfold NSIG at this
    omega
  exact bits_twoPow hlt

/-- The test of the loop. -/
theorem and_sigBit_eq_zero {w : Word} {sig : Nat} (h : 1 ≤ sig ∧ sig < NSIG) :
    w &&& sigBit sig = 0 ↔ sig ∉ sigsOf w := by
  have hlt : sig - 1 < 64 := by
    have := h.2
    unfold NSIG at this
    omega
  have htest : w &&& sigBit sig = 0 ↔ sig - 1 ∉ bits w := and_twoPow_eq_zero hlt
  rw [htest]
  constructor
  · intro hnot hmem
    exact hnot hmem.2
  · intro hnot hmem
    exact hnot ⟨h, hmem⟩

theorem sigsOf_andNot (v w : Word) : sigsOf (v &&& ~~~w) = sigsOf v \ sigsOf w := by
  ext i
  unfold sigsOf
  rw [bits_andNot]
  constructor
  · rintro ⟨hi, hv, hw⟩
    exact ⟨⟨hi, hv⟩, fun h => hw h.2⟩
  · rintro ⟨⟨hi, hv⟩, hw⟩
    exact ⟨hi, hv, fun h => hw ⟨hi, h⟩⟩

theorem sigsOf_or (v w : Word) : sigsOf (v ||| w) = sigsOf v ∪ sigsOf w := by
  ext i
  unfold sigsOf
  rw [bits_or]
  constructor
  · rintro ⟨hi, hv | hw⟩
    · exact .inl ⟨hi, hv⟩
    · exact .inr ⟨hi, hw⟩
  · rintro (⟨hi, hv⟩ | ⟨hi, hw⟩)
    · exact ⟨hi, .inl hv⟩
    · exact ⟨hi, .inr hw⟩

theorem sigsOf_sigBit {sig : Nat} (h : 1 ≤ sig ∧ sig < NSIG) : sigsOf (sigBit sig) = {sig} := by
  ext i
  unfold sigsOf
  rw [bits_sigBit h]
  constructor
  · rintro ⟨hi, heq⟩
    have heq' : i - 1 = sig - 1 := heq
    show i = sig
    omega
  · intro heq
    have heq' : i = sig := heq
    subst heq'
    exact ⟨h, rfl⟩

/-! ## The loop -/

/-- A signal below the others that does not act is consumed before them. -/
theorem Delivers.skip {D : Set Nat} {v v' : SigView} {calls : List SigCall} {i : Nat}
    (hquiet : ¬ Acts (v.actions i) i) (hbelow : ∀ j ∈ D, i < j)
    (h : Delivers D { v with pending := v.pending \ {i} } calls v') :
    Delivers (insert i D) v calls v' := by
  -- the lowest signal that acts is the same
  have hleast : ∀ s, IsLeast {j | j ∈ D ∧ Acts (v.actions j) j} s →
      IsLeast {j | j ∈ insert i D ∧ Acts (v.actions j) j} s := by
    rintro s ⟨⟨hs, hacts⟩, hmin⟩
    refine ⟨⟨Set.mem_insert_of_mem i hs, hacts⟩, ?_⟩
    rintro j ⟨rfl | hj, hactsj⟩
    · exact absurd hactsj hquiet
    · exact hmin ⟨hj, hactsj⟩
  have hconsumed : ∀ s, s ∈ D →
      (v.pending \ {i}) \ {j | j ∈ D ∧ j ≤ s} = v.pending \ {j | j ∈ insert i D ∧ j ≤ s} := by
    intro s hs
    rw [Set.sdiff_sdiff]
    congr 1
    ext j
    constructor
    · rintro (rfl | ⟨hj, hle⟩)
      · exact ⟨Set.mem_insert j D, Nat.le_of_lt (hbelow s hs)⟩
      · exact ⟨Set.mem_insert_of_mem i hj, hle⟩
    · rintro ⟨rfl | hj, hle⟩
      · exact .inl rfl
      · exact .inr ⟨hj, hle⟩
  cases h with
  | nothing hD =>
      have hall : v.pending \ insert i D = (v.pending \ {i}) \ D := by
        rw [Set.sdiff_sdiff, Set.insert_eq]
      rw [← hall]
      refine .nothing ?_
      rintro j (rfl | hj)
      · exact hquiet
      · exact hD j hj
  | handler s hs hhandler =>
      dsimp only
      rw [hconsumed s hs.1.1]
      exact .handler s (hleast s hs) hhandler
  | exit s hs hdefault =>
      dsimp only
      rw [hconsumed s hs.1.1]
      exact .exit s (hleast s hs) hdefault

theorem delivers_empty {D : Set Nat} {v : SigView} (hD : D = ∅) : Delivers D v [] v := by
  have hnothing : Delivers D v [] { v with pending := v.pending \ D } := by
    refine .nothing ?_
    intro i hi
    rw [hD] at hi
    exact absurd hi (Set.notMem_empty i)
  rw [hD, Set.sdiff_empty] at hnothing
  exact hD ▸ hnothing

/-- The deliverable signals among those the loop has still to look at. -/
def remaining (pending : Word) (is : List Nat) : Set Nat := {i | i ∈ is ∧ i ∈ sigsOf pending}

theorem remaining_cons_of_notMem {pending : Word} {i : Nat} {is : List Nat}
    (h : i ∉ sigsOf pending) : remaining pending (i :: is) = remaining pending is := by
  ext j
  constructor
  · rintro ⟨hj, hmem⟩
    rcases List.mem_cons.mp hj with rfl | htail
    · exact absurd hmem h
    · exact ⟨htail, hmem⟩
  · rintro ⟨hj, hmem⟩
    exact ⟨List.mem_cons_of_mem i hj, hmem⟩

theorem remaining_cons_of_mem {pending : Word} {i : Nat} {is : List Nat}
    (h : i ∈ sigsOf pending) :
    remaining pending (i :: is) = insert i (remaining pending is) := by
  ext j
  constructor
  · rintro ⟨hj, hmem⟩
    rcases List.mem_cons.mp hj with rfl | htail
    · exact .inl rfl
    · exact .inr ⟨htail, hmem⟩
  · rintro (rfl | ⟨hj, hmem⟩)
    · exact ⟨List.mem_cons_self, h⟩
    · exact ⟨List.mem_cons_of_mem i hj, hmem⟩

/-- The first of the remaining signals is the lowest, so the signals consumed
up to it are itself. -/
theorem isLeast_head {D : Set Nat} {p : Nat → Prop} {i : Nat} (hp : p i)
    (hbelow : ∀ j ∈ D, i < j) :
    IsLeast {j | j ∈ insert i D ∧ p j} i ∧ {j | j ∈ insert i D ∧ j ≤ i} = {i} := by
  constructor
  · refine ⟨⟨Set.mem_insert i D, hp⟩, ?_⟩
    rintro j ⟨rfl | hj, -⟩
    · exact Nat.le_refl j
    · exact Nat.le_of_lt (hbelow j hj)
  · ext j
    constructor
    · rintro ⟨rfl | hj, hle⟩
      · exact rfl
      · exact absurd (hbelow j hj) (Nat.not_lt.mpr hle)
    · rintro rfl
      exact ⟨Set.mem_insert j D, Nat.le_refl j⟩

/-- The view after the loop has cleared a pending bit. -/
theorem view_clear (t : SigThread) {i : Nat} (hi : 1 ≤ i ∧ i < NSIG) :
    SigThread.view { t with pending := t.pending &&& ~~~sigBit i } =
      { t.view with pending := t.view.pending \ {i} } := by
  unfold SigThread.view
  dsimp only
  rw [sigsOf_andNot, sigsOf_sigBit hi]

/-- The loop of `DoPendingSignals`: induction on the signal numbers left, which
are in increasing order. -/
theorem deliverLoop_delivers (pending : Word) {is : List Nat} {t : SigThread}
    (hsorted : is.Pairwise (· < ·)) (hvalid : ∀ i ∈ is, 1 ≤ i ∧ i < NSIG) :
    Delivers (remaining pending is) t.view (deliverCalls pending t.actions is)
      (deliverLoop pending is t).1.view := by
  induction is generalizing t with
  | nil =>
      apply delivers_empty
      ext j
      constructor
      · rintro ⟨hj, -⟩
        exact absurd hj List.not_mem_nil
      · intro hj
        exact absurd hj (Set.notMem_empty j)
  | cons i is ih =>
      rcases List.pairwise_cons.mp hsorted with ⟨hlt, hsorted'⟩
      have hi : 1 ≤ i ∧ i < NSIG := hvalid i List.mem_cons_self
      have hvalid' : ∀ j ∈ is, 1 ≤ j ∧ j < NSIG := fun j hj => hvalid j (List.mem_cons_of_mem i hj)
      have hbelow : ∀ j ∈ remaining pending is, i < j := fun j hj => hlt j hj.1
      unfold deliverLoop deliverCalls
      by_cases htest : pending &&& sigBit i = 0
      · -- not deliverable: the loop goes on
        rw [if_pos htest, if_pos htest, remaining_cons_of_notMem ((and_sigBit_eq_zero hi).mp htest)]
        exact ih hsorted' hvalid'
      · have hmem : i ∈ sigsOf pending := by
          by_contra hnot
          exact htest ((and_sigBit_eq_zero hi).mpr hnot)
        rw [if_neg htest, if_neg htest, remaining_cons_of_mem hmem]
        dsimp only
        have hrest := ih (t := { t with pending := t.pending &&& ~~~sigBit i }) hsorted' hvalid'
        rw [view_clear t hi] at hrest
        by_cases hign : (t.actions i).saHandler = SIG_IGN
        · -- SIG_IGN
          rw [if_pos hign, if_pos hign]
          exact hrest.skip (fun hacts => hacts.1 hign) hbelow
        · rw [if_neg hign, if_neg hign]
          by_cases hdfl : (t.actions i).saHandler = SIG_DFL
          · rw [if_pos hdfl, if_pos hdfl]
            by_cases hfatal : i ∈ fatalSignals
            · -- a fatal default
              rw [if_pos hfatal, if_pos hfatal]
              have hacts : Acts (t.view.actions i) i := ⟨hign, fun _ => hfatal⟩
              obtain ⟨hleast, hup⟩ :=
                isLeast_head (p := fun j => Acts (t.view.actions j) j) hacts hbelow
              have hexit := Delivers.exit i hleast hdfl
              rw [hup] at hexit
              rw [← sigsOf_sigBit hi] at hexit
              unfold SigThread.view
              rw [sigsOf_andNot]
              exact hexit
            · -- a default action that is ignored
              rw [if_neg hfatal, if_neg hfatal]
              exact hrest.skip (fun hacts => hfatal (hacts.2 hdfl)) hbelow
          · -- a handler
            rw [if_neg hdfl, if_neg hdfl]
            have hacts : Acts (t.view.actions i) i := ⟨hign, fun h => absurd h hdfl⟩
            obtain ⟨hleast, hup⟩ :=
              isLeast_head (p := fun j => Acts (t.view.actions j) j) hacts hbelow
            have hhandler := Delivers.handler i hleast hdfl
            rw [hup, ← sigsOf_sigBit hi] at hhandler
            unfold SigThread.view
            rw [sigsOf_andNot]
            exact hhandler

/-! ## One call -/

theorem signals_valid : ∀ i ∈ signals, 1 ≤ i ∧ i < NSIG := by
  intro i hi
  rcases List.mem_range'_1.mp hi with ⟨hlo, hhi⟩
  unfold NSIG at hhi ⊢
  omega

theorem signals_sorted : signals.Pairwise (· < ·) := List.pairwise_lt_range'

theorem remaining_signals (w : Word) : remaining w signals = sigsOf w := by
  ext i
  constructor
  · rintro ⟨-, h⟩
    exact h
  · intro h
    refine ⟨List.mem_range'_1.mpr ?_, h⟩
    have hi := h.1
    unfold NSIG at hi ⊢
    omega

/-- `DoPendingSignals`, called with a frame of user mode by a thread of a live
process. -/
theorem doPendingSignals_delivers {t : SigThread} (huser : t.frame.cs &&& 3 ≠ 0)
    (hzombie : t.zombie = false) (hterm : t.terminated = false) :
    Delivers (t.view.pending \ t.view.blocked) t.view (doPendingCalls t)
      (doPendingSignals t).1.view := by
  have hdeliverable : t.view.pending \ t.view.blocked = sigsOf (t.pending &&& ~~~t.blocked) :=
    (sigsOf_andNot _ _).symm
  unfold doPendingSignals doPendingCalls
  rw [if_neg huser, if_neg huser]
  dsimp only
  by_cases hzero : t.pending &&& ~~~t.blocked = 0
  · -- nothing is deliverable
    rw [if_pos hzero, if_pos hzero]
    have hnone : t.view.pending \ t.view.blocked = ∅ := by
      rw [hdeliverable, hzero]
      ext i
      constructor
      · rintro ⟨-, hi⟩
        have hnot : i - 1 ∉ bits (0#64) := by
          rw [bits_zero]
          exact Set.notMem_empty _
        exact absurd hi hnot
      · intro hi
        exact absurd hi (Set.notMem_empty i)
    exact delivers_empty hnone
  · rw [if_neg hzero, if_neg hzero, hzombie, hterm]
    simp only [Bool.false_eq_true, ↓reduceIte]
    rw [hdeliverable, ← remaining_signals]
    exact deliverLoop_delivers _ signals_sorted signals_valid

/-! ## Runs -/

theorem send_view (t : SigThread) (sig : Nat) :
    (send t sig).view =
      { t.view with pending := t.view.pending ∪ {i | i = sig ∧ 1 ≤ i ∧ i < NSIG} } := by
  unfold send
  split
  · -- a number out of range adds nothing
    rename_i hinvalid
    have hnone : {i | i = sig ∧ 1 ≤ i ∧ i < NSIG} = (∅ : Set Nat) := by
      ext i
      constructor
      · rintro ⟨rfl, hi⟩
        omega
      · intro hi
        exact absurd hi (Set.notMem_empty i)
    rw [hnone, Set.union_empty]
  · -- a number in range adds itself
    rename_i hvalid
    have hsig : 1 ≤ sig ∧ sig < NSIG := by omega
    have hone : {i | i = sig ∧ 1 ≤ i ∧ i < NSIG} = sigsOf (sigBit sig) := by
      rw [sigsOf_sigBit hsig]
      ext i
      constructor
      · rintro ⟨rfl, -⟩
        exact rfl
      · rintro rfl
        exact ⟨rfl, hsig⟩
    unfold SigThread.view
    dsimp only
    rw [hone, sigsOf_or]

/-- Every step is one of the specification. -/
theorem queueStep_spec {t t' : SigThread} {op : QueueOp} {calls : List SigCall}
    (h : queueStep t op = some (calls, t')) : queueSpec t.view op calls t'.view := by
  cases op with
  | send sig =>
      cases h
      exact ⟨rfl, send_view t sig⟩
  | setBlocked mask =>
      cases h
      exact ⟨rfl, rfl⟩
  | rtSigaction sig act =>
      cases h
      refine ⟨rfl, ?_⟩
      unfold rtSigaction
      split
      · -- -EINVAL
        rename_i hinvalid
        rw [if_neg (by omega)]
        rfl
      · rename_i hvalid
        rw [if_pos (by omega)]
        rfl
  | doPending frame mem =>
      unfold queueStep at h
      dsimp only at h
      split at h
      · rename_i hguard
        obtain ⟨huser, hzombie, hterm⟩ := hguard
        cases h
        refine ⟨?_, huser, ?_⟩
        · show (!t.zombie && !t.terminated) = true
          rw [hzombie, hterm]
          rfl
        · exact doPendingSignals_delivers (t := { t with frame := frame, mem := mem })
            huser hzombie hterm
      · cases h

/-- A delivery takes out only what it finds deliverable. -/
theorem Delivers.pending_mem {D : Set Nat} {v v' : SigView} {calls : List SigCall} {i : Nat}
    (h : Delivers D v calls v') (hi : i ∈ v.pending) (hout : i ∉ v'.pending) : i ∈ D := by
  by_contra hnot
  apply hout
  cases h with
  | nothing => exact ⟨hi, hnot⟩
  | handler | exit => exact ⟨hi, fun hc => hnot hc.1⟩

/-- Pending signals are delivered once, lowest first, and only when unblocked.
Every run is allowed by the specification, calls included, and a signal that
was pending and is no longer was consumed by a `DoPendingSignals` that found it
unblocked. -/
theorem pending_delivered (t t' : SigThread) (ops : List QueueOp) (calls : List (List SigCall))
    (hrun : trace queueStep t ops = some (calls, t')) :
    SpecRun queueSpec t.view ops calls t'.view ∧
      ∀ i ∈ t.view.pending, i ∉ t'.view.pending →
        ∃ before frame mem after calls₁ t₁ calls₂ t₂,
          ops = before ++ .doPending frame mem :: after ∧
          trace queueStep t before = some (calls₁, t₁) ∧
          i ∈ t₁.view.pending ∧ i ∉ t₁.view.blocked ∧
          queueStep t₁ (.doPending frame mem) = some (calls₂, t₂) ∧ i ∉ t₂.view.pending := by
  constructor
  · -- the view of the state simulates it
    have hstep : ∀ s v op cs s', v = SigThread.view s → queueStep s op = some (cs, s') →
        ∃ v', queueSpec v op cs v' ∧ v' = s'.view := by
      rintro s v op cs s' rfl hs
      exact ⟨s'.view, queueStep_spec hs, rfl⟩
    rcases specRun_of_trace hstep rfl hrun with ⟨v, hspec, rfl⟩
    exact hspec
  · intro i hi hout
    rcases trace_lost (P := fun s : SigThread => i ∈ s.view.pending) hrun hi hout with
      ⟨before, op, after, calls₁, t₁, calls₂, t₂, rfl, hpre, hin, hs, hlost⟩
    have hspec := queueStep_spec hs
    cases op with
    | send sig =>
        rw [hspec.2] at hlost
        exact absurd (Or.inl hin) hlost
    | setBlocked mask =>
        rw [hspec.2] at hlost
        exact absurd hin hlost
    | rtSigaction sig act =>
        rw [hspec.2] at hlost
        split at hlost
        · exact absurd hin hlost
        · exact absurd hin hlost
    | doPending frame mem =>
        have hD := hspec.2.2.pending_mem hin hlost
        exact ⟨before, frame, mem, after, calls₁, t₁, calls₂, t₂, rfl, hpre, hin, hD.2, hs, hlost⟩

/-- SIGUSR1 with a handler is sent while it is blocked, together with SIGHUP:
the first delivery consumes SIGHUP alone, the second one, after the mask has
been cleared, runs the handler. -/
theorem usr1_waits_until_unblocked :
    ∃ t', trace queueStep userThread
        [.rtSigaction 10 { saHandler := 0x402000 }, .setBlocked 0x200, .send 10, .send 1,
          .doPending (userFrame 0x7FFF0000) userThread.mem, .setBlocked 0,
          .doPending (userFrame 0x7FFF0000) userThread.mem] =
        some ([[], [], [], [], [], [], [.setupFrame 10]], t') ∧
      SpecRun queueSpec userThread.view
        [.rtSigaction 10 { saHandler := 0x402000 }, .setBlocked 0x200, .send 10, .send 1,
          .doPending (userFrame 0x7FFF0000) userThread.mem, .setBlocked 0,
          .doPending (userFrame 0x7FFF0000) userThread.mem]
        [[], [], [], [], [], [], [.setupFrame 10]] t'.view := by
  -- the first `DoPendingSignals` takes SIGHUP, the second one runs the handler
  have hcalls : (trace queueStep userThread
      [.rtSigaction 10 { saHandler := 0x402000 }, .setBlocked 0x200, .send 10, .send 1,
        .doPending (userFrame 0x7FFF0000) userThread.mem, .setBlocked 0,
        .doPending (userFrame 0x7FFF0000) userThread.mem]).map Prod.fst =
      some [[], [], [], [], [], [], [.setupFrame 10]] := by
    decide +kernel
  rcases Option.map_eq_some_iff.mp hcalls with ⟨⟨calls, t'⟩, hrun, rfl⟩
  exact ⟨t', hrun, (pending_delivered _ _ _ _ hrun).1⟩

end Ceryx.Proc
