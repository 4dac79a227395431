import Ceryx.Proc.ProcTree

/-!
# Ceryx.Proc.ThreadOutlives — a process deleted under its threads

`waitpid` deletes the child as soon as it is a zombie. The threads of the child
may still be there: the one that called `exit` waits for the reaper, which has
the lowest priority, and threads made by `clone` go on running.

`NoThreadOutlives` says that no thread belongs to a deleted process.
`ReapsThreadless` is the condition on a step: the child it reaps has no thread
left. `noThreadOutlives_iff_reapsThreadless` says that it is exactly what a run
needs.
-/

namespace Ceryx.Proc

open Sched Kernel Lib

/-! ## The property and the condition -/

/-- No thread that runs, is ready, is blocked or waits for the reaper belongs
to a deleted process. -/
def NoThreadOutlives (k : Kernel) : Prop :=
  ∀ t p, Occupied k.toSched t → (k.threads t).process = some p → (k.procs p).deleted = false

/-- The child that a step reaps has no thread. -/
def ReapsThreadless (k : Kernel) (op : KernelOp) : Prop :=
  ∀ c, reapedBy k op = some c → ∀ t, Occupied k.toSched t → (k.threads t).process ≠ some c

/-- The threads that are somewhere, one by one. -/
def occupants (s : Sched) : List Tid :=
  s.currentThread.toList ++ s.readyList ++ s.waitQueue ++ s.deadList ++ s.localDead

theorem mem_occupants {s : Sched} {t : Tid} : t ∈ occupants s ↔ Occupied s t := by
  unfold occupants Occupied
  rw [← mem_readyList]
  simp only [List.mem_append, Option.mem_toList, or_assoc]

instance (k : Kernel) (op : KernelOp) : Decidable (ReapsThreadless k op) :=
  decidable_of_iff
    (∀ c ∈ reapedBy k op, ∀ t ∈ occupants k.toSched, (k.threads t).process ≠ some c) <| by
    unfold ReapsThreadless
    simp only [Option.mem_def, mem_occupants]

/-- `PerformSwitch` has read the process of the running thread, and
`Reaper::ThreadFunc` reads that of the thread it reclaims. -/
theorem NoThreadOutlives.uses_alive {k : Kernel} (h : NoThreadOutlives k) :
    (∀ t p, k.currentThread = some t → (k.threads t).process = some p →
      (k.procs p).deleted = false) ∧
    ∀ t rest, k.localDead = t :: rest →
      k.reclaim = some (k.onSched { k.toSched with localDead := rest }) := by
  constructor
  · intro t p ht hp
    exact h t p (Or.inl ht) hp
  · intro t rest hdead
    -- the reaper reads the process of a thread on its local list
    have hocc : Occupied k.toSched t := by
      refine Or.inr (Or.inr (Or.inr (Or.inr ?_)))
      rw [hdead]
      exact List.mem_cons_self
    unfold reclaim
    simp only [hdead]
    rw [if_neg]
    intro hany
    rcases Option.any_eq_true _ _ |>.mp hany with ⟨p, hp, hdel⟩
    rw [h t p hocc hp] at hdel
    cases hdel

/-! ## One step -/

/-- A step keeps the property if and only if the child it reaps has no
thread. -/
theorem step_noThreadOutlives {k k' : Kernel} (h : KernelInv k) (hl : NoThreadOutlives k)
    {op : KernelOp} (hstep : kernelStep k op = some k') :
    NoThreadOutlives k' ↔ ReapsThreadless k op := by
  have hframe := (kernelStep_effect h hstep).frame h
  constructor
  · intro hl' c hc t hocc hp
    -- reaping moves no thread, so `t` is left behind
    have hsame := hframe.sched c hc
    have halive := hl' t c (hsame ▸ hocc) (hsame ▸ hp)
    have hdel := (hframe.deleted c (hframe.old c hc)).mpr (Or.inr hc)
    rw [halive] at hdel
    cases hdel
  · intro hok t p hocc hp
    rcases hframe.occupied t p hocc hp with ⟨hocc', hp'⟩ | halive
    · rw [Bool.eq_false_iff]
      intro hdel
      rcases (hframe.deleted p (h.tree.threadProcess t p hp')).mp hdel with hold | hreap
      · rw [hl t p hocc' hp'] at hold
        cases hold
      · exact hok p hreap t hocc' hp'
    · exact halive

/-! ## Runs -/

/-- From the boot on, a run leaves no thread to a deleted process in any state
it passes if and only if every child that `waitpid` reaps has no thread left at
that moment. -/
theorem noThreadOutlives_iff_reapsThreadless {rootPa : Option ProcId → Nat}
    {idleStack reaperStack initStack : Nat} {load : Bool} {k : Kernel}
    (hboot : boot rootPa idleStack reaperStack initStack load = some k) (ops : List KernelOp) :
    Always kernelStep NoThreadOutlives k ops ↔ StepsMeet kernelStep ReapsThreadless k ops := by
  obtain ⟨hinv, halive, -⟩ := boot_inv hboot
  refine always_iff_stepsMeet (B := KernelInv) ?_ ?_ ?_ ops hinv fun t p _ => halive t p
  · intro k op k' h hstep
    exact h.step hstep
  · intro k op k' h hl hok hstep
    exact (step_noThreadOutlives h hl hstep).mpr hok
  · intro k op k' h hl hok hstep hl'
    exact hok ((step_noThreadOutlives h hl hstep).mp hl')

/-- The reaper gets its turn between the child's exit and the `waitpid`. -/
theorem reaper_first_noThreadOutlives :
    ∃ k, boot (fun _ => 0) 0x10000 0x20000 0x30000 true = some k ∧
      (run kernelStep k
        [.yield, .fork (.enough 0x40000), .yield, .exit 42, .block 0x7000, .drain, .reclaim,
          .wake 0x7000 false, .yield, .waitpid (-1) 0]).map Kernel.reaped = some [1] ∧
      Always kernelStep NoThreadOutlives k
        [.yield, .fork (.enough 0x40000), .yield, .exit 42, .block 0x7000, .drain, .reclaim,
          .wake 0x7000 false, .yield, .waitpid (-1) 0] := by
  -- the parent blocks on another channel until the reaper has run
  rcases exists_start (o := boot (fun _ => 0) 0x10000 0x20000 0x30000 true)
    (P := fun k =>
      (run kernelStep k
        [.yield, .fork (.enough 0x40000), .yield, .exit 42, .block 0x7000, .drain, .reclaim,
          .wake 0x7000 false, .yield, .waitpid (-1) 0]).map Kernel.reaped = some [1] ∧
      StepsMeet kernelStep ReapsThreadless k
        [.yield, .fork (.enough 0x40000), .yield, .exit 42, .block 0x7000, .drain, .reclaim,
          .wake 0x7000 false, .yield, .waitpid (-1) 0])
    (by decide +kernel) with ⟨k, hboot, hreaped, hok⟩
  exact ⟨k, hboot, hreaped, (noThreadOutlives_iff_reapsThreadless hboot _).mpr hok⟩

/-- The fork test of `/sbin/init`: the parent waits, the child exits, the parent
reaps it. The child's thread, 4, is on the reaper's list with its process
deleted. -/
theorem fork_wait_thread_outlives :
    ∃ k k', boot (fun _ => 0) 0x10000 0x20000 0x30000 true = some k ∧
      run kernelStep k [.yield, .fork (.enough 0x40000), .waitpid (-1) 0, .exit 42, .resume] =
        some k' ∧
      k'.deadList = [4] ∧ (k'.threads 4).process = some 1 ∧ (k'.procs 1).deleted = true ∧
      ¬ NoThreadOutlives k' := by
  rcases exists_run kernelStep
    [.yield, .fork (.enough 0x40000), .waitpid (-1) 0, .exit 42, .resume]
    (o := boot (fun _ => 0) 0x10000 0x20000 0x30000 true)
    (P := fun k' => k'.deadList = [4] ∧ (k'.threads 4).process = some 1 ∧
      (k'.procs 1).deleted = true) (by decide +kernel) with ⟨k, k', hboot, hrun, hdead, hp, hdel⟩
  refine ⟨k, k', hboot, hrun, hdead, hp, hdel, fun hl => ?_⟩
  -- the dead thread is still on the reaper's list
  have hocc : Occupied k'.toSched 4 := by
    refine Or.inr (Or.inr (Or.inr (Or.inl ?_)))
    rw [hdead]
    exact List.mem_cons_self
  rw [hl 4 1 hocc hp] at hdel
  cases hdel

end Ceryx.Proc
