import Ceryx.Proc.ProcTree

/-!
# Ceryx.Proc.WaitOnce — several threads in `waitpid`

`sys_waitpid` keeps the pointer to the child across `Block`. `Exit` wakes one
of the threads blocked on the child, and whichever thread comes first reaps it:
a second thread that holds the same child then holds a deleted process, blocked
for ever when it was not woken, and reading freed memory when it was.

* `WaitOnce`: every child is reaped and returned at most once, no `waitpid`
  goes on with a reaped child, none is blocked on one.
* `SoleHolder`: the condition on a step. No thread but the running one holds
  the child that the step reaps.
* `noStale_iff_soleHolder`: the condition is exactly what keeps every pointer
  held across `Block` valid. `waitOnce_of_soleHolder`: `WaitOnce` follows.
-/

namespace Ceryx.Proc

open Sched Kernel Lib

/-! ## The property and the condition -/

structure WaitOnce (k : Kernel) : Prop where
  returned : k.returned.Nodup
  reaped : k.reaped.Nodup
  /-- The running thread, when it is inside `waitpid`, goes on with the child. -/
  used : ∀ t c, k.currentThread = some t → k.waiting t = some c → (k.procs c).deleted = false
  blocked : ∀ t c, t ∈ k.waitQueue → k.waiting t = some c → (k.procs c).deleted = false

/-- No thread inside `waitpid`, blocked or not, holds a deleted child. -/
def NoStale (k : Kernel) : Prop :=
  ∀ t c, k.waiting t = some c → (k.procs c).deleted = false

/-- No other thread holds the child that the step reaps. -/
def SoleHolder (k : Kernel) (op : KernelOp) : Prop :=
  ∀ c, reapedBy k op = some c →
    ∀ t, t < k.nextTid → k.waiting t = some c → k.currentThread = some t

instance (k : Kernel) (op : KernelOp) : Decidable (SoleHolder k op) :=
  inferInstanceAs (Decidable (∀ c ∈ reapedBy k op,
    ∀ t, t < k.nextTid → k.waiting t = some c → k.currentThread = some t))

/-- That no child is reaped or returned twice holds of every run: a child is
off its list once it is reaped, and a stale pointer is not followed here. -/
theorem NoStale.waitOnce {k : Kernel} (h : KernelInv k) (hs : NoStale k) : WaitOnce k where
  returned := h.tree.returned.nodup h.tree.once
  reaped := h.tree.once
  used t c _ hc := hs t c hc
  blocked t c _ hc := hs t c hc

/-! ## One step -/

theorem step_noStale {k k' : Kernel} (h : KernelInv k) (hs : NoStale k) {op : KernelOp}
    (hstep : kernelStep k op = some k') : NoStale k' ↔ SoleHolder k op := by
  have hframe := (kernelStep_effect h hstep).frame h
  constructor
  · intro hs' c hc t _ hheld
    -- a thread that is not running keeps its pointer while the child goes
    by_contra hcur
    have halive := hs' t c ((hframe.others c hc t hcur).trans hheld)
    have hdel := (hframe.deleted c (hframe.old c hc)).mpr (Or.inr hc)
    rw [halive] at hdel
    cases hdel
  · intro hok t c hheld'
    rcases hframe.waiting t c hheld' with hheld | halive
    · have hinv := h.tree.held t c hheld
      rw [Bool.eq_false_iff]
      intro hdel
      rcases (hframe.deleted c hinv.old).mp hdel with hold | hreap
      · rw [hs t c hheld] at hold
        cases hold
      · have hcur := hok c hreap t hinv.created hheld
        exact hframe.released c hreap t hcur c hheld'
    · exact halive

/-! ## Runs -/

theorem noStale_iff_soleHolder {rootPa : Option ProcId → Nat}
    {idleStack reaperStack initStack : Nat} {load : Bool} {k : Kernel}
    (hboot : boot rootPa idleStack reaperStack initStack load = some k) (ops : List KernelOp) :
    Always kernelStep NoStale k ops ↔ StepsMeet kernelStep SoleHolder k ops := by
  obtain ⟨hinv, -, hnone⟩ := boot_inv hboot
  have hstart : NoStale k := by
    intro t c hc
    rw [hnone t] at hc
    cases hc
  refine always_iff_stepsMeet (B := KernelInv) ?_ ?_ ?_ ops hinv hstart
  · intro k op k' h hstep
    exact h.step hstep
  · intro k op k' h hs hok hstep
    exact (step_noStale h hs hstep).mpr hok
  · intro k op k' h hs hok hstep hs'
    exact hok ((step_noStale h hs hstep).mp hs')

/-- From the boot on, in a run in which every child is reaped while no other
thread holds it, `WaitOnce` holds of every state. -/
theorem waitOnce_of_soleHolder {rootPa : Option ProcId → Nat}
    {idleStack reaperStack initStack : Nat} {load : Bool} {k : Kernel}
    (hboot : boot rootPa idleStack reaperStack initStack load = some k) {ops : List KernelOp}
    (hok : StepsMeet kernelStep SoleHolder k ops) : Always kernelStep WaitOnce k ops := by
  have hstale := (noStale_iff_soleHolder hboot ops).mpr hok
  have hinv : Always kernelStep KernelInv k ops :=
    always_of_inv (fun _ _ _ h hstep => h.step hstep) ops (boot_inv hboot).1
  exact (hinv.and hstale).mono fun k h => h.2.waitOnce h.1

/-- Two threads of `/sbin/init`, each waiting for a child of its own. -/
theorem two_waiters_two_children :
    ∃ k, boot (fun _ => 0) 0x10000 0x20000 0x30000 true = some k ∧
      (run kernelStep k
        [.yield, .clone 0x40000, .fork (.enough 0x50000), .fork (.enough 0x60000), .waitpid 2 0,
          .waitpid 3 0, .exit 7, .exit 8, .resume, .yield, .resume]).map Kernel.returned =
        some [1, 2] ∧
      Always kernelStep WaitOnce k
        [.yield, .clone 0x40000, .fork (.enough 0x50000), .fork (.enough 0x60000), .waitpid 2 0,
          .waitpid 3 0, .exit 7, .exit 8, .resume, .yield, .resume] := by
  -- two threads of `init` wait, each for another child
  rcases exists_start (o := boot (fun _ => 0) 0x10000 0x20000 0x30000 true)
    (P := fun k =>
      (run kernelStep k
        [.yield, .clone 0x40000, .fork (.enough 0x50000), .fork (.enough 0x60000), .waitpid 2 0,
          .waitpid 3 0, .exit 7, .exit 8, .resume, .yield, .resume]).map Kernel.returned =
        some [1, 2] ∧
      StepsMeet kernelStep SoleHolder k
        [.yield, .clone 0x40000, .fork (.enough 0x50000), .fork (.enough 0x60000), .waitpid 2 0,
          .waitpid 3 0, .exit 7, .exit 8, .resume, .yield, .resume])
    (by decide +kernel) with ⟨k, hboot, hreturned, hok⟩
  exact ⟨k, hboot, hreturned, waitOnce_of_soleHolder hboot hok⟩

/-- Two threads of `/sbin/init` that wait for the same child: the exit wakes
thread 3, which reaps the child, and thread 4 stays blocked on it. -/
theorem two_waiters_one_child :
    ∃ k k', boot (fun _ => 0) 0x10000 0x20000 0x30000 true = some k ∧
      run kernelStep k
        [.yield, .clone 0x40000, .fork (.enough 0x50000), .waitpid (-1) 0, .waitpid (-1) 0,
          .exit 42, .resume] = some k' ∧
      k'.waitQueue = [4] ∧ k'.waiting 4 = some 1 ∧ (k'.procs 1).deleted = true ∧
      ¬ WaitOnce k' := by
  rcases exists_run kernelStep
    [.yield, .clone 0x40000, .fork (.enough 0x50000), .waitpid (-1) 0, .waitpid (-1) 0,
      .exit 42, .resume]
    (o := boot (fun _ => 0) 0x10000 0x20000 0x30000 true)
    (P := fun k' => k'.waitQueue = [4] ∧ k'.waiting 4 = some 1 ∧ (k'.procs 1).deleted = true)
    (by decide +kernel) with ⟨k, k', hboot, hrun, hwait, hheld, hdel⟩
  refine ⟨k, k', hboot, hrun, hwait, hheld, hdel, fun hw => ?_⟩
  -- thread 4 still waits for the child that thread 3 has reaped
  have hmem : 4 ∈ k'.waitQueue := by
    rw [hwait]
    exact List.mem_cons_self
  rw [hw.blocked 4 1 hmem hheld] at hdel
  cases hdel

end Ceryx.Proc
