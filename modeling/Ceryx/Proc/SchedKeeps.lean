import Ceryx.Proc.SchedFrame

/-!
# Ceryx.Proc.SchedKeeps — what a thread keeps, and what the CPU has loaded

The scheduler never touches a thread's process, kernel stack and signal words,
nor the address space of a process. `PerformSwitch` is the only code of its that
writes `current_thread`, CR3 and the two kernel stack pointers, and it writes
all four for the same thread: once they agree they agree after every entry
point.
-/

namespace Ceryx.Proc

open Sched

/-- The fields that no scheduler entry point assigns. -/
def Thread.kept (th : Thread) : Option ProcId × Nat × BitVec 64 × BitVec 64 :=
  (th.process, th.kernelStack, th.pendingSignals, th.blockedSignals)

/-- CR3 and the two kernel stack pointers are those of thread `t`. -/
structure LoadedFor (s : Sched) (t : Tid) : Prop where
  cr3 : s.cr3 = s.rootPa (s.threads t).process
  kernelStack : s.kernelStack = (s.threads t).kernelStack + kStackSize
  tssRsp0 : s.tssRsp0 = (s.threads t).kernelStack + kStackSize

/-- The CPU has loaded the running thread's values. -/
def Loaded (s : Sched) : Prop := ∀ t, s.currentThread = some t → LoadedFor s t

/-- What an entry point called in `b` has kept on the way to `s`. -/
structure Keeps (b s : Sched) : Prop where
  kept : ∀ t, (s.threads t).kept = (b.threads t).kept
  next : s.nextTid = b.nextTid
  rootPa : s.rootPa = b.rootPa
  loaded : Loaded b → Loaded s

/-- The process is one of the kept fields, -/
theorem kept_process {th th' : Thread} (h : th'.kept = th.kept) : th'.process = th.process :=
  congrArg Prod.fst h

/-- the kernel stack another, -/
theorem kept_kernelStack {th th' : Thread} (h : th'.kept = th.kept) :
    th'.kernelStack = th.kernelStack :=
  congrArg (fun k => k.2.1) h

/-- and the signal mask a third. -/
theorem kept_blocked {th th' : Thread} (h : th'.kept = th.kept) :
    th'.blockedSignals = th.blockedSignals :=
  congrArg (fun k => k.2.2.2) h

/-- The same values are loaded after a change of what `LoadedFor` does not read. -/
theorem LoadedFor.congr {s s' : Sched} {t : Tid} (h : LoadedFor s t)
    (hkept : (s'.threads t).kept = (s.threads t).kept) (hroot : s'.rootPa = s.rootPa)
    (hcr3 : s'.cr3 = s.cr3) (hstack : s'.kernelStack = s.kernelStack)
    (htss : s'.tssRsp0 = s.tssRsp0) : LoadedFor s' t where
  cr3 := by rw [hcr3, hroot, kept_process hkept]; exact h.cr3
  kernelStack := by rw [hstack, kept_kernelStack hkept]; exact h.kernelStack
  tssRsp0 := by rw [htss, kept_kernelStack hkept]; exact h.tssRsp0

namespace Keeps

variable {b s s' : Sched}

/-- Nothing has changed. -/
theorem refl (s : Sched) : Keeps s s := ⟨fun _ => rfl, rfl, rfl, id⟩

/-- One step after another. -/
theorem trans (h : Keeps b s) (h' : Keeps s s') : Keeps b s' where
  kept t := (h'.kept t).trans (h.kept t)
  next := h'.next.trans h.next
  rootPa := h'.rootPa.trans h.rootPa
  loaded hb := h'.loaded (h.loaded hb)

/-! ## The pieces -/

/-- A step that does not switch. -/
theorem of_same (hkept : ∀ t, (s'.threads t).kept = (s.threads t).kept)
    (hnext : s'.nextTid = s.nextTid) (hroot : s'.rootPa = s.rootPa)
    (hcur : s'.currentThread = s.currentThread) (hcr3 : s'.cr3 = s.cr3)
    (hstack : s'.kernelStack = s.kernelStack) (htss : s'.tssRsp0 = s.tssRsp0) : Keeps s s' := by
  refine ⟨hkept, hnext, hroot, ?_⟩
  intro hloaded t ht
  exact (hloaded t (hcur.symm.trans ht)).congr (hkept t) hroot hcr3 hstack htss

/-- A change of other fields of one thread. -/
theorem updThread (s : Sched) (t : Tid) {f : Thread → Thread}
    (hf : (f (s.threads t)).kept = (s.threads t).kept) : Keeps s (s.updThread t f) :=
  of_same (updThread_field Thread.kept s t hf) rfl rfl rfl rfl rfl rfl

/-- The queues are not part of it. -/
theorem pushReady (s : Sched) (l : Int) (t : Tid) : Keeps s (s.pushReady l t) :=
  of_same (fun _ => rfl) rfl rfl rfl rfl rfl rfl

/-- Not when they get shorter, either. -/
theorem setQueue (s : Sched) (i : Int) (q : List Tid) : Keeps s (s.setQueue i q) :=
  of_same (fun _ => rfl) rfl rfl rfl rfl rfl rfl

/-- A switch changes a state, the current thread, and the CPU's registers. -/
theorem performSwitch (s : Sched) (n : Tid) : Keeps s (s.performSwitch n) := by
  have hkept : ∀ t, ((s.performSwitch n).threads t).kept = (s.threads t).kept :=
    updThread_field Thread.kept s n (f := fun th => { th with state := .running }) rfl
  refine ⟨hkept, rfl, rfl, ?_⟩
  intro _ t ht
  have htn : n = t := Option.some.inj ht
  subst htn
  exact ⟨rfl, rfl, rfl⟩

/-- So `ScheduleLocked` keeps them, -/
theorem scheduleLocked (s : Sched) : Keeps s s.scheduleLocked := by
  unfold Sched.scheduleLocked
  rcases popBest_cases s with ⟨hpop, -⟩ | ⟨i, -, t, rest, -, -, hpop⟩
  · simp only [hpop, Option.none_or]
    split
    · exact refl s
    · split
      · exact refl s
      · exact performSwitch s _
  · simp only [hpop, Option.some_or]
    split
    · exact setQueue s i rest
    · exact (setQueue s i rest).trans (performSwitch _ t)

end Keeps

/-! ## The entry points -/

/-- a boost, which writes level and quantum, -/
theorem boostOne_keeps (s : Sched) (t : Tid) : Keeps s (s.boostOne t) :=
  ((Keeps.updThread s t rfl).trans (Keeps.updThread _ t rfl)).trans (Keeps.pushReady _ 0 t)

/-- or one for each thread of a queue, -/
theorem foldl_boostOne_keeps (q : List Tid) (s : Sched) : Keeps s (q.foldl boostOne s) := by
  induction q generalizing s with
  | nil => exact Keeps.refl s
  | cons t q ih => exact (boostOne_keeps s t).trans (ih _)

/-- that is, of the queue, -/
theorem boostQueue_keeps (s : Sched) (i : Int) : Keeps s (s.boostQueue i) :=
  (Keeps.setQueue s i []).trans (foldl_boostOne_keeps _ _)

/-- and so the clock. -/
theorem tickClock_keeps (s : Sched) : Keeps s s.tickClock := by
  have hcount : Keeps s { s with tickCounter := (s.tickCounter + 1) % 2 ^ 64 } :=
    Keeps.of_same (fun _ => rfl) rfl rfl rfl rfl rfl rfl
  unfold tickClock
  dsimp only
  split
  · exact hcount.trans ((boostQueue_keeps _ 1).trans (boostQueue_keeps _ 2))
  · exact hcount

/-- A thread that is put back has a new quantum, -/
theorem requeue_keeps (s : Sched) (t : Tid) : Keeps s (s.requeue t) :=
  ((Keeps.updThread s t rfl).trans (Keeps.updThread _ t rfl)).trans (Keeps.pushReady _ _ t)

/-- and perhaps a new level. -/
theorem demote_keeps (s : Sched) (t : Tid) : Keeps s (s.demote t) :=
  (((Keeps.updThread s t rfl).trans (Keeps.updThread _ t rfl)).trans
    (Keeps.updThread _ t rfl)).trans (Keeps.pushReady _ _ t)

/-- `Tick`. -/
theorem tick_keeps (s : Sched) : Keeps s s.tick := by
  have hclock := tickClock_keeps s
  have hswitch := hclock.trans (Keeps.scheduleLocked s.tickClock)
  unfold Sched.tick
  dsimp only
  split
  · rename_i c hc
    split
    · have hcharge : Keeps s (s.tickClock.chargeTick c) := hclock.trans (Keeps.updThread _ c rfl)
      split
      · -- the quantum is used up
        exact (hcharge.trans (demote_keeps _ c)).trans (Keeps.scheduleLocked _)
      · exact hcharge
    · split
      · exact hclock
      · exact hswitch
  · split
    · exact hclock
    · exact hswitch

/-- `Yield`. -/
theorem yield_keeps (s : Sched) : Keeps s s.yield := by
  unfold Sched.yield
  split
  · rename_i c hc
    split
    · exact (requeue_keeps s c).trans (Keeps.scheduleLocked _)
    · exact Keeps.scheduleLocked s
  · exact Keeps.scheduleLocked s

/-- `Block` writes the channel. -/
theorem block_keeps (s : Sched) (ch : Channel) : Keeps s (s.block ch) := by
  unfold Sched.block
  split
  · exact Keeps.refl s
  · rename_i t ht
    have hmarked : Keeps s ((s.setState t .blocked).setWaitChannel t (some ch)) :=
      (Keeps.updThread s t rfl).trans (Keeps.updThread _ t rfl)
    have hqueued : Keeps ((s.setState t .blocked).setWaitChannel t (some ch)) (s.parkOn t ch) :=
      Keeps.of_same (fun _ => rfl) rfl rfl rfl rfl rfl rfl
    exact (hmarked.trans hqueued).trans (Keeps.scheduleLocked _)

/-- A thread that wakes is ready again. -/
theorem wakeOne_keeps (s : Sched) (t : Tid) : Keeps s (s.wakeOne t) := by
  have herase : Keeps s { s with waitQueue := s.waitQueue.erase t } :=
    Keeps.of_same (fun _ => rfl) rfl rfl rfl rfl rfl rfl
  exact (((herase.trans (Keeps.updThread _ t rfl)).trans (Keeps.updThread _ t rfl)).trans
    (Keeps.updThread _ t rfl)).trans (Keeps.pushReady _ _ t)

/-- By induction on what is left of the wait queue. -/
theorem wakeLoop_keeps (ch : Channel) (wakeAll : Bool) (rest : List Tid) (s : Sched) :
    Keeps s (wakeLoop ch wakeAll rest s) := by
  induction rest generalizing s with
  | nil => exact Keeps.refl s
  | cons t rest ih =>
      unfold wakeLoop
      split
      · split
        · exact (wakeOne_keeps s t).trans (ih _)
        · exact wakeOne_keeps s t
      · exact ih s

/-- `Wake`. -/
theorem wake_keeps (s : Sched) (ch : Channel) (wakeAll : Bool) : Keeps s (s.wake ch wakeAll) :=
  wakeLoop_keeps ch wakeAll s.waitQueue s

/-- The end of a thread writes its state and the dead list. -/
theorem exitThread_keeps {s s' : Sched} {t : Tid} (hexit : s.exitThread t = some s') :
    Keeps s s' := by
  rcases Option.map_eq_some_iff.mp hexit with ⟨s₁, henq, rfl⟩
  unfold enqueueDead at henq
  split at henq
  · cases henq
  · split at henq
    · cases henq
    · cases henq
      have hterm : Keeps s (s.setState t .terminated) := Keeps.updThread s t rfl
      have hlist : Keeps (s.setState t .terminated)
          { s.setState t .terminated with deadList := (s.setState t .terminated).deadList ++ [t] } :=
        Keeps.of_same (fun _ => rfl) rfl rfl rfl rfl rfl rfl
      exact (hterm.trans hlist).trans (yield_keeps _)

/-- Every entry point but `addThread`. -/
theorem schedStep_keeps {s s' : Sched} {op : SchedOp}
    (hop : ∀ process stack level, op ≠ .addThread process stack level)
    (hstep : schedStep s op = some s') : Keeps s s' := by
  cases op with
  -- only `AddThread` makes a thread; the others move threads
  | addThread process stack level => exact absurd rfl (hop process stack level)
  | tick =>
      cases hstep
      exact tick_keeps s
  | yield =>
      cases hstep
      exact yield_keeps s
  | block ch =>
      simp only [schedStep] at hstep
      split at hstep
      · cases hstep
      · cases hstep
        exact block_keeps s ch
  | wake ch wakeAll =>
      cases hstep
      exact wake_keeps s ch wakeAll
  | exit =>
      simp only [schedStep] at hstep
      split at hstep
      · cases hstep
      · split at hstep
        · cases hstep
        · exact exitThread_keeps hstep

/-! ## New threads -/

/-- A new thread has no signal pending and none blocked, and all others are as
they were. -/
structure KeepsNew (b : Sched) (process : Option ProcId) (stack : Nat) (s : Sched) : Prop where
  kept : ∀ t, t ≠ b.nextTid → (s.threads t).kept = (b.threads t).kept
  new : (s.threads b.nextTid).kept = (process, stack, 0, 0)
  next : s.nextTid = b.nextTid + 1
  current : s.currentThread = b.currentThread
  rootPa : s.rootPa = b.rootPa
  loaded : Loaded b → b.currentThread ≠ some b.nextTid → Loaded s

/-- `AddThread` writes all fields of one thread, which is new. -/
theorem addThread_keeps {b s : Sched} {process : Option ProcId} {stack : Nat} {level : Int}
    (hstep : schedStep b (.addThread process stack level) = some s) :
    KeepsNew b process stack s := by
  obtain ⟨-, rfl⟩ := addThread_eq hstep
  have hready : Keeps (b.newThread process stack).2
      (((b.newThread process stack).2.updThread (b.newThread process stack).1 fun th =>
        { th with mlfqLevel := level, ticksRemaining := kQuantum level,
                  state := .ready }).pushReady level (b.newThread process stack).1) :=
    (Keeps.updThread _ _ rfl).trans (Keeps.pushReady _ _ _)
  -- the constructor writes to the new thread only
  have hold : ∀ t, t ≠ b.nextTid →
      (((b.newThread process stack).2.threads t).kept = (b.threads t).kept) := by
    intro t ht
    simp [newThread, ht]
  refine ⟨fun t ht => (hready.kept t).trans (hold t ht), ?_, rfl, rfl, rfl, ?_⟩
  · refine (hready.kept b.nextTid).trans ?_
    simp [newThread, Thread.kept]
  · intro hloaded hne
    apply hready.loaded
    intro t ht
    have htne : t ≠ b.nextTid := by
      rintro rfl
      exact hne ht
    exact (hloaded t ht).congr (hold t htne) rfl rfl rfl rfl

end Ceryx.Proc
