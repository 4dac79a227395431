import Ceryx.Proc.BoostWait

/-!
# Ceryx.Proc.SchedLock — who releases `s_lock`

Every entry point holds `s_lock` through a guard on the kernel stack of the
thread that called it. When `PerformSwitch` switches, the guard of the thread
switched away from stays on its stack, and the lock is released by the guard of
the thread switched to, once `SwitchContext` has returned there. A thread that
runs for the first time has no such guard: its stack was made by
`InitializeStack`, `InitializeUserStack` or `InitializeForkStack`, and
`SwitchContext`'s `ret` lands in a trampoline that knows nothing of the lock.

* `LockState`: the scheduler, the lock, and for each thread whether its saved
  stack lies inside an entry point.
* `Resumes`: the condition on a step; the thread it hands the CPU to has been
  switched away from before.
* `lockFree_iff_resumes`: it is exactly what a run needs.
-/

namespace Ceryx.Proc

open Sched Lib

/-- The scheduler with its lock. -/
structure LockState extends Sched where
  /-- `s_lock` is held. -/
  held : Bool
  /-- The thread's saved stack lies inside an entry point and has a guard on
  it. Otherwise it is the running thread, or its stack ends in a trampoline. -/
  guarded : Tid → Bool

namespace LockState

/-- The end of `~InterruptSafeSpinLock`. -/
def release (s : LockState) : LockState := { s with held := false }

/-- `SwitchContext` from `prev` to `next`, up to the code of `next`: the rest of
an entry point, whose guard releases the lock, or a trampoline. -/
def switchContext (s : LockState) (prev next : Tid) : LockState :=
  let saved := Function.update s.guarded prev true
  let s' := { s with guarded := Function.update saved next false }
  if s.guarded next then s'.release else s'

/-- The second half of an entry point, from `ScheduleLocked` to the thread that
has the CPU then. -/
def leave (s : LockState) (e : Sched × Bool) : LockState :=
  let s' := { s with toSched := finish e }
  match s.currentThread, s'.currentThread with
  | some prev, some next => if next = prev then s'.release else s'.switchContext prev next
  | _, _ => s'.release

end LockState

/-- One call of an entry point. With the lock held the guard's constructor
spins for ever: there is no step. -/
def lockStep (s : LockState) (op : SchedOp) : Option LockState :=
  if s.held then none else (enter s.toSched op).map { s with held := true }.leave

/-- `Scheduler::Start` leaves the lock free. Nobody has been switched away
from; the idle thread is the boot context itself. -/
def lockStart (rootPa : Option ProcId → Nat) (idleStack reaperStack : Nat) : Option LockState :=
  (start rootPa idleStack reaperStack).map fun s =>
    { toSched := s, held := false, guarded := fun _ => false }

/-- Control is in a thread's own code and the lock can be taken. -/
def LockFree (s : LockState) : Prop := s.held = false

instance (s : LockState) : Decidable (LockFree s) := inferInstanceAs (Decidable (_ = _))

/-! ## The condition -/

/-- The call gives the CPU to the first ready thread, if there is one. -/
def GivesUp (s : Sched) : SchedOp → Prop
  | .tick =>
      s.currentThread = s.idleThread ∨
        ∃ c, s.currentThread = some c ∧ (s.threads c).ticksRemaining ≤ 1 ∧
          if (s.tickCounter + 1) % 2 ^ 64 % kBoostInterval = 0 then RivalAt s (kNumLevels - 1)
          else RivalAt s (demotedLevel (s.threads c).mlfqLevel)
  | .yield =>
      ∀ c, s.currentThread = some c → s.currentThread ≠ s.idleThread →
        (s.threads c).state = .running → RivalAt s (s.threads c).mlfqLevel
  | .block _ | .exit => True
  | .addThread .. | .wake .. => False

/-- The first ready thread, if the call gives it the CPU, has run before. -/
def Resumes (s : LockState) (op : SchedOp) : Prop :=
  GivesUp s.toSched op → ∀ t, s.readyList.head? = some t → s.guarded t = true

/-! ## The best thread -/

/-- `PopBest` returns the first thread in the order of the queues. -/
theorem popBest_head (s : Sched) : s.popBest.1 = s.readyList.head? := by
  unfold popBest readyList levels
  cases h0 : s.queues 0 with
  | cons t rest => simp [popFrom, h0]
  | nil =>
      cases h1 : s.queues 1 with
      | cons t rest => simp [popFrom, h0, h1]
      | nil => cases h2 : s.queues 2 <;> simp [popFrom, h0, h1, h2]

theorem readyList_congr {s s' : Sched} (h : s'.queues = s.queues) : s'.readyList = s.readyList := by
  rw [readyList, readyList, h]

/-- The boost keeps the order of the ready threads. -/
theorem tickClock_readyList (s : Sched) : s.tickClock.readyList = s.readyList := by
  unfold tickClock
  dsimp only
  split
  · have h0 := boostAll_queue_zero { s with tickCounter := (s.tickCounter + 1) % 2 ^ 64 }
    have h1 := boostAll_queue { s with tickCounter := (s.tickCounter + 1) % 2 ^ 64 } (i := 1)
      (by decide) (by decide)
    have h2 := boostAll_queue { s with tickCounter := (s.tickCounter + 1) % 2 ^ 64 } (i := 2)
      (by decide) (by decide)
    simp only [readyList, levels, List.flatMap_cons, List.flatMap_nil] at h0 ⊢
    rw [h0, h1, h2]
    simp
  · rfl

/-- With a rival the thread just pushed is not the first. -/
theorem readyList_pushReady_head {s : Sched} {l : Int} (hl : l ∈ levels) (c : Tid)
    (hrival : RivalAt s l) : (s.pushReady l c).readyList.head? = s.readyList.head? := by
  rcases hrival with ⟨i, hi, hil, hne⟩
  rcases List.exists_cons_of_ne_nil hne with ⟨a, as, hq⟩
  simp only [levels, List.mem_cons, List.not_mem_nil, or_false] at hl hi
  unfold readyList levels
  -- the queues before the rival's decide when they are not empty
  cases h0 : s.queues 0 with
  | cons b bs => rcases hl with rfl | rfl | rfl <;> simp [pushReady, h0]
  | nil =>
      cases h1 : s.queues 1 with
      | cons b bs =>
          rcases hl with rfl | rfl | rfl
          · rcases hi with rfl | rfl | rfl
            · exact absurd h0 hne
            · omega
            · omega
          · simp [pushReady, h0, h1]
          · simp [pushReady, h0, h1]
      | nil =>
          rcases hi with rfl | rfl | rfl
          · exact absurd h0 hne
          · exact absurd h1 hne
          · obtain rfl : l = 2 := by omega
            simp [pushReady, h0, h1, hq]

/-! ## The invariant -/

/-- Besides the scheduler's own invariant: the idle context is running or has
been switched away from. -/
structure LockInv (s : LockState) : Prop where
  sched : SchedInv s.toSched
  idle : ∀ d, s.idleThread = some d → s.currentThread = some d ∨ s.guarded d = true

/-- What a call of an entry point comes to, with the running thread `c`: it
returns to its caller, or `SwitchContext` goes to another thread. -/
theorem lockStep_cases {s s' : LockState} {op : SchedOp} (h : SchedInv s.toSched) {c : Tid}
    (hc : s.currentThread = some c) (hstep : lockStep s op = some s') :
    ∃ m calls, enter s.toSched op = some (m, calls) ∧ s'.toSched = finish (m, calls) ∧
      ((s'.currentThread = some c ∧ s'.held = false ∧ s'.guarded = s.guarded) ∨
        ∃ n, n ≠ c ∧ s'.currentThread = some n ∧ s'.held = !s.guarded n ∧
          s'.guarded = Function.update (Function.update s.guarded c true) n false) := by
  unfold lockStep at hstep
  split at hstep
  · cases hstep
  · rcases Option.map_eq_some_iff.mp hstep with ⟨⟨m, calls⟩, henter, hleave⟩
    refine ⟨m, calls, henter, ?_⟩
    have hinv : SchedInv (finish (m, calls)) :=
      schedStep_inv h (by rw [schedStep_enter, henter]; rfl)
    rcases hinv.current with ⟨n, hn, -⟩
    simp only [LockState.leave, hc, hn] at hleave
    -- back to the same thread: its guard gives the lock back
    by_cases hnc : n = c
    · rw [if_pos hnc] at hleave
      obtain rfl := hleave
      exact ⟨rfl, Or.inl ⟨hnc ▸ hn, rfl, rfl⟩⟩
    · rw [if_neg hnc] at hleave
      unfold LockState.switchContext at hleave
      -- to another one: the lock is free if that one left from inside the guard
      by_cases hg : s.guarded n = true
      · simp only [hg, if_true] at hleave
        obtain rfl := hleave
        exact ⟨rfl, Or.inr ⟨n, hnc, hn, by rw [hg]; rfl, rfl⟩⟩
      · simp only [hg] at hleave
        obtain rfl := hleave
        refine ⟨rfl, Or.inr ⟨n, hnc, hn, ?_, rfl⟩⟩
        rw [Bool.not_eq_true] at hg
        rw [hg]
        rfl

theorem LockInv.step {s s' : LockState} {op : SchedOp} (h : LockInv s)
    (hstep : lockStep s op = some s') : LockInv s' := by
  rcases h.sched.current with ⟨c, hc, -⟩
  rcases lockStep_cases h.sched hc hstep with ⟨m, calls, henter, hfinish, hcases⟩
  have hsched : schedStep s.toSched op = some s'.toSched := by
    rw [schedStep_enter, henter, hfinish]
    rfl
  have hidle : s'.idleThread = s.idleThread := by
    rw [hfinish, ← (enter_same h.sched henter).2]
    cases calls with
    | false => rfl
    | true => exact scheduleLocked_frame Sched.idleThread (fun _ _ _ => rfl) (fun _ _ => rfl) m
  refine ⟨schedStep_inv h.sched hsched, ?_⟩
  intro d hd
  have hold := h.idle d (hidle.symm.trans hd)
  -- the idle thread runs, or has left from inside the guard
  rcases hcases with ⟨hcur, -, hguarded⟩ | ⟨n, hnc, hcur, -, hguarded⟩
  · rw [hcur, hguarded, ← hc]
    exact hold
  · by_cases hdn : d = n
    · exact Or.inl (hdn ▸ hcur)
    · right
      rw [hguarded, Function.update_of_ne hdn]
      by_cases hdc : d = c
      · rw [hdc, Function.update_self]
      · rw [Function.update_of_ne hdc]
        refine hold.resolve_left ?_
        intro hcd
        exact hdc (Option.some.inj (hcd.symm.trans hc))

/-! ## Which thread gets the CPU -/

theorem scheduleLocked_current {s : Sched} {n : Tid} (hn : s.popBest.1.or s.idleThread = some n) :
    s.scheduleLocked.currentThread = some n := by
  have hframe : s.popBest.2.idleThread = s.idleThread ∧
      s.popBest.2.currentThread = s.currentThread := by
    rcases popBest_cases s with ⟨hpop, -⟩ | ⟨i, -, t, rest, -, -, hpop⟩
    · rw [hpop]
      exact ⟨rfl, rfl⟩
    · rw [hpop]
      exact ⟨rfl, rfl⟩
  have hnext : s.popBest.1.or s.popBest.2.idleThread = some n := by rw [hframe.1, hn]
  unfold scheduleLocked
  simp only [hnext]
  split
  · rename_i hprev
    rw [hframe.2, ← hprev]
  · rfl

theorem mlfqEmpty_iff (s : Sched) : s.mlfqEmpty = true ↔ s.readyList = [] := by
  simp [mlfqEmpty, readyList]

/-- The quantum branch of `Tick`: the thread pushed is picked again unless it
has a rival. -/
theorem pick_pushed {s : Sched} {c : Tid} (hcount : s.listCount c = 0) {l : Int}
    (hl : l ∈ levels) :
    (RivalAt s l ∧ (s.pushReady l c).popBest.1 = s.readyList.head?) ∨
      (¬ RivalAt s l ∧ (s.pushReady l c).popBest.1 = some c) := by
  by_cases hrival : RivalAt s l
  · left
    refine ⟨hrival, ?_⟩
    rw [popBest_head, readyList_pushReady_head hl c hrival]
  · exact Or.inr ⟨hrival, (popBest_pushReady hcount hl).mpr hrival⟩

theorem tick_expired {s : Sched} (h : SchedInv s) {c : Tid} (hc : s.currentThread = some c) :
    ((s.tickClock.chargeTick c).threads c).ticksRemaining = (s.threads c).ticksRemaining - 1 ∧
      ((s.tickClock.chargeTick c).threads c).mlfqLevel = (s.threads c).mlfqLevel := by
  have hthread : s.tickClock.threads c = s.threads c :=
    tickClock_thread (h.current_count hc) h.toListInv
  constructor <;> simp [chargeTick, hthread]

theorem tick_pick {s m : Sched} {calls : Bool} (h : SchedInv s) {c : Tid}
    (hc : s.currentThread = some c) (henter : s.tickEnter = (m, calls)) :
    (calls = false ∧ (GivesUp s .tick → s.readyList = [])) ∨
      (calls = true ∧ ((GivesUp s .tick ∧ m.popBest.1 = s.readyList.head?) ∨
        (¬ GivesUp s .tick ∧ m.popBest.1 = some c))) := by
  have hsame := (tickClock_inv h.toListInv).2
  have hc' : s.tickClock.currentThread = some c := hsame.current.trans hc
  have hready := tickClock_readyList s
  unfold tickEnter at henter
  simp only [hc', hsame.idle] at henter
  by_cases hd : s.currentThread = s.idleThread
  · -- the idle thread gives the CPU to any ready thread
    rw [if_neg (not_not.mpr (hc.symm.trans hd))] at henter
    obtain ⟨rfl, rfl⟩ := Prod.mk.inj henter
    cases hempty : s.tickClock.mlfqEmpty with
    | true =>
        left
        rw [mlfqEmpty_iff, hready] at hempty
        exact ⟨rfl, fun _ => hempty⟩
    | false =>
        right
        refine ⟨rfl, Or.inl ⟨Or.inl hd, ?_⟩⟩
        rw [popBest_head, hready]
  · have hd' : some c ≠ s.idleThread := fun he => hd (hc.trans he)
    rw [if_pos hd'] at henter
    rcases tick_expired h hc with ⟨hticks, hlevel⟩
    by_cases hle : (s.threads c).ticksRemaining ≤ 1
    · rw [if_pos (by omega)] at henter
      obtain ⟨rfl, rfl⟩ := Prod.mk.inj henter
      right
      refine ⟨rfl, ?_⟩
      have hcount : (s.tickClock.chargeTick c).listCount c = 0 :=
        (hsame.count c).trans (h.current_count hc)
      have hl := demotedLevel_mem (h.level c)
      have hgives : GivesUp s .tick ↔ RivalAt s.tickClock (demotedLevel (s.threads c).mlfqLevel) := by
        rw [rivalAt_tickClock h.toListInv hl]
        constructor
        · rintro (hidle | ⟨c', hcur, -, hrival⟩)
          · exact absurd hidle hd
          · obtain rfl : c = c' := Option.some.inj (hc.symm.trans hcur)
            exact hrival
        · intro hrival
          exact Or.inr ⟨c, hc, hle, hrival⟩
      have hpush := pick_pushed (s := (s.tickClock.chargeTick c).updThread c fun th =>
        { th with
          mlfqLevel := demotedLevel ((s.tickClock.chargeTick c).threads c).mlfqLevel
          ticksRemaining := kQuantum (demotedLevel ((s.tickClock.chargeTick c).threads c).mlfqLevel)
          state := .ready }) hcount hl
      rw [demote_eq, hlevel, hgives, ← hready]
      rw [hlevel] at hpush
      exact hpush
    · rw [if_neg (by omega)] at henter
      obtain ⟨rfl, rfl⟩ := Prod.mk.inj henter
      left
      refine ⟨rfl, ?_⟩
      rintro (hidle | ⟨c', hcur, hle', -⟩)
      · exact absurd hidle hd
      · obtain rfl : c = c' := Option.some.inj (hc.symm.trans hcur)
        exact absurd hle' hle

theorem yield_pick {s : Sched} (h : SchedInv s) {c : Tid} (hc : s.currentThread = some c) :
    (GivesUp s .yield ∧ s.yieldEnter.popBest.1 = s.readyList.head?) ∨
      (¬ GivesUp s .yield ∧ s.yieldEnter.popBest.1 = some c) := by
  unfold yieldEnter
  simp only [hc]
  split
  · -- the idle thread is not pushed back
    rename_i hrun
    have hne : s.currentThread ≠ s.idleThread := hc ▸ hrun.1
    -- it is pushed back at its own level, so a rival there or above comes first
    have hgives : GivesUp s .yield ↔ RivalAt s (s.threads c).mlfqLevel := by
      constructor
      · intro hall
        exact hall c hc hne hrun.2
      · intro hrival c' hcur _ _
        obtain rfl : c = c' := Option.some.inj (hc.symm.trans hcur)
        exact hrival
    rw [requeue_eq, hgives]
    exact pick_pushed (s := s.updThread c fun th =>
      { th with state := .ready, ticksRemaining := kQuantum (s.threads c).mlfqLevel })
      (h.current_count hc) (h.level c)
  · rename_i hrun
    left
    refine ⟨?_, popBest_head s⟩
    intro c' hcur hne hstate
    obtain rfl : c = c' := Option.some.inj (hc.symm.trans hcur)
    exact absurd ⟨hc ▸ hne, hstate⟩ hrun

/-- Which thread `PopBest` returns in a call, and that a call without it gives
the CPU to nobody. -/
theorem enter_pick {s m : Sched} {op : SchedOp} {calls : Bool} (h : SchedInv s) {c : Tid}
    (hc : s.currentThread = some c) (henter : enter s op = some (m, calls)) :
    (calls = false ∧ (GivesUp s op → s.readyList = [])) ∨
      (calls = true ∧ ((GivesUp s op ∧ m.popBest.1 = s.readyList.head?) ∨
        (¬ GivesUp s op ∧ m.popBest.1 = some c))) := by
  cases enter_cases hc henter with
  | addThread hadd => exact Or.inl ⟨rfl, False.elim⟩
  | tick htick => exact tick_pick h hc htick
  | yield => exact Or.inr ⟨rfl, yield_pick h hc⟩
  | block ch hidle =>
      refine Or.inr ⟨rfl, Or.inl ⟨trivial, ?_⟩⟩
      rw [popBest_head]
      exact congrArg List.head? (readyList_congr rfl)
  | wake ch wakeAll => exact Or.inl ⟨rfl, False.elim⟩
  | exit hidle hdead =>
      have hend := enqueueDead_ended h hc hdead
      obtain rfl := enqueueDead_eq hdead
      refine Or.inr ⟨rfl, Or.inl ⟨trivial, ?_⟩⟩
      -- a terminated thread is not put back
      have hstay := yieldEnter_ended hend.state (hend.current.trans hc)
      rw [hstay, popBest_head]
      exact congrArg List.head? (readyList_congr rfl)

/-! ## The condition is exact -/

/-- A call leaves the lock free if and only if it meets the condition. -/
theorem step_lockFree {s s' : LockState} {op : SchedOp} (h : LockInv s)
    (hstep : lockStep s op = some s') : LockFree s' ↔ Resumes s op := by
  rcases h.sched.current with ⟨c, hc, hcount, -⟩
  rcases h.sched.idle with ⟨d, hd, -⟩
  rcases lockStep_cases h.sched hc hstep with ⟨m, calls, henter, hfinish, hcases⟩
  have hsame := enter_same h.sched henter
  have hstay : s'.currentThread = some c → LockFree s' := by
    intro hcur
    rcases hcases with ⟨-, hheld, -⟩ | ⟨n, hnc, hcur', -⟩
    · exact hheld
    · exact absurd (Option.some.inj (hcur'.symm.trans hcur)) hnc
  rcases enter_pick h.sched hc henter with ⟨rfl, hgives⟩ | ⟨rfl, ⟨hgives, hpick⟩ | ⟨hgives, hpick⟩⟩
  · -- an early return
    refine iff_of_true (hstay ?_) ?_
    · rw [hfinish]
      exact hsame.1.trans hc
    · intro hgive t ht
      rw [hgives hgive] at ht
      cases ht
  · cases hhead : s.readyList.head? with
    | none =>
        -- nothing is ready: the idle thread, which resumes
        have hcur : s'.currentThread = some d := by
          rw [hfinish]
          exact scheduleLocked_current (by rw [hpick, hhead, hsame.2, hd]; rfl)
        refine iff_of_true ?_ ?_
        · by_cases hdc : d = c
          · exact hstay (hdc ▸ hcur)
          · rcases hcases with ⟨-, hheld, -⟩ | ⟨n, -, hcur', hheld, -⟩
            · exact hheld
            · obtain rfl : d = n := Option.some.inj (hcur.symm.trans hcur')
              have hguarded := (h.idle d hd).resolve_left fun he =>
                hdc (Option.some.inj (he.symm.trans hc))
              rw [LockFree, hheld, hguarded]
              rfl
        · intro _ t ht
          rw [hhead] at ht
          cases ht
    | some t =>
        have hcur : s'.currentThread = some t := by
          rw [hfinish]
          exact scheduleLocked_current (by rw [hpick, hhead]; rfl)
        have htc : t ≠ c := by
          rintro rfl
          have hmem : t ∈ s.readyList := List.mem_of_head? hhead
          have hpos := List.count_pos_iff.mpr hmem
          rw [listCount, readyCount] at hcount
          omega
        have hheld : s'.held = !s.guarded t := by
          rcases hcases with ⟨hcur', -⟩ | ⟨n, -, hcur', hheld, -⟩
          · exact absurd (Option.some.inj (hcur.symm.trans hcur')) htc
          · obtain rfl : t = n := Option.some.inj (hcur.symm.trans hcur')
            exact hheld
        rw [LockFree, hheld, Bool.not_eq_false']
        constructor
        · intro hguarded _ u hu
          obtain rfl : t = u := Option.some.inj (hhead.symm.trans hu)
          exact hguarded
        · intro hres
          exact hres hgives t hhead
  · -- the running thread is picked again
    refine iff_of_true (hstay ?_) fun hgive => absurd hgive hgives
    rw [hfinish]
    exact scheduleLocked_current (by rw [hpick]; rfl)

/-! ## Runs -/

theorem lockStart_inv {rootPa : Option ProcId → Nat} {idleStack reaperStack : Nat} {s : LockState}
    (hstart : lockStart rootPa idleStack reaperStack = some s) : LockInv s ∧ LockFree s := by
  rcases Option.map_eq_some_iff.mp hstart with ⟨s₀, hs₀, rfl⟩
  have hinv := start_inv hs₀
  rw [start_eq] at hs₀
  rcases addThread_eq hs₀ with ⟨-, rfl⟩
  exact ⟨⟨hinv, fun d hd => Or.inl hd⟩, rfl⟩

/-- On every run from `Scheduler::Start`, the lock is free each time control is
in a thread if and only if no call gives the CPU to a thread that has not run
before. -/
theorem lockFree_iff_resumes {rootPa : Option ProcId → Nat} {idleStack reaperStack : Nat}
    {s : LockState} (hstart : lockStart rootPa idleStack reaperStack = some s)
    (ops : List SchedOp) :
    Always lockStep LockFree s ops ↔ StepsMeet lockStep Resumes s ops := by
  rcases lockStart_inv hstart with ⟨hinv, hfree⟩
  refine always_iff_stepsMeet (B := LockInv) ?_ ?_ ?_ ops hinv hfree
  · intro s op s' h hstep
    exact h.step hstep
  · intro s op s' h _ hres hstep
    exact (step_lockFree h hstep).mpr hres
  · intro s op s' h _ hres hstep hfree'
    exact hres ((step_lockFree h hstep).mp hfree')

/-- New threads alone do not take the CPU. -/
theorem addThread_lockFree :
    ∃ s, lockStart (fun _ => 0) 0 0 = some s ∧
      Always lockStep LockFree s [.addThread none 0 0, .addThread none 0 1] := by
  rcases exists_start (o := lockStart (fun _ => 0) 0 0) (P := fun _ => True) (by decide +kernel)
    with ⟨s, hstart, -⟩
  refine ⟨s, hstart, (lockFree_iff_resumes hstart _).mpr ?_⟩
  intro s₁ _
  refine ⟨False.elim, ?_⟩
  intro s₂ _
  exact ⟨False.elim, trivial⟩

/-- The first tick runs the reaper for the first time, with the lock held: the
next tick spins for ever. -/
theorem first_dispatch_holds_lock :
    ∃ s s', lockStart (fun _ => 0) 0 0 = some s ∧ lockStep s .tick = some s' ∧ ¬ LockFree s' ∧
      lockStep s' .tick = none ∧ ¬ Always lockStep LockFree s [.tick] := by
  rcases exists_run lockStep [.tick] (o := lockStart (fun _ => 0) 0 0)
    (P := fun s => ¬ LockFree s ∧ lockStep s .tick = none) (by decide +kernel)
    with ⟨s, s', hstart, hrun, hheld, hspin⟩
  have hstep : lockStep s .tick = some s' := by
    rcases Option.bind_eq_some_iff.mp hrun with ⟨s₁, hs₁, hnil⟩
    rw [hs₁]
    exact hnil
  refine ⟨s, s', hstart, hstep, hheld, hspin, ?_⟩
  intro halways
  exact hheld (halways.2 s' hstep)

end Ceryx.Proc
