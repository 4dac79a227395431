import Ceryx.Proc.QueueChange

/-!
# Ceryx.Proc.BoostWait — the priority boost bounds waiting

After a boost all ready threads stand in queue 0, in the order of the queues
they came from, each with the quantum of level 0. Later pushes go behind them,
so `PopBest` serves them in that order, and each turn ends after at most five
ticks. The first turn is that of the thread running at the boost, which has at
most the largest quantum left.

* `QuantumInv`: a queued thread has its queue's full quantum, the running one
  between one tick and twenty.
* `budget`: how many more ticks the current turn can last.
* `front_step`: one call either serves the head of queue 0 or leaves the front
  of the queue alone, and a tick then takes one from the budget.
* `boost_bounds_waiting`: the bound for every run from a boosting tick on.
-/

namespace Ceryx.Proc

open Sched Lib

/-! ## Quanta -/

/-- Every queued thread has the full quantum of its queue. -/
def FullQuanta (s : Sched) : Prop :=
  ∀ i ∈ levels, ∀ t ∈ s.queues i, (s.threads t).ticksRemaining = kQuantum i

structure QuantumInv (s : Sched) : Prop where
  queued : FullQuanta s
  current : ∀ c, s.currentThread = some c → s.currentThread ≠ s.idleThread →
    1 ≤ (s.threads c).ticksRemaining ∧ (s.threads c).ticksRemaining ≤ 20

theorem kQuantum_bounds {l : Int} (hl : l ∈ levels) : 1 ≤ kQuantum l ∧ kQuantum l ≤ 20 := by
  simp only [levels, List.mem_cons, List.not_mem_nil, or_false] at hl
  rcases hl with rfl | rfl | rfl <;> decide

/-- What the first half of an entry point keeps: the front of queue 0 and the
full quanta. -/
structure Entered (s m : Sched) : Prop where
  front : s.queues 0 <+: m.queues 0
  full : FullQuanta s → FullQuanta m

/-- A change pushes at the back, and never empties the first queue. -/
theorem QueueChange.front {s m : Sched} (h : QueueChange s m) : s.queues 0 <+: m.queues 0 := by
  cases h with
  | other hq _ => rw [hq]
  | @drain i hi =>
      have hne : (0 : Int) ≠ i := Ne.symm hi
      simp [setQueue, hne]
  | @push t l _ _ _ _ _ =>
      by_cases hl : 0 = l
      · subst hl
        simp [pushReady, updThread]
      · simp [pushReady, updThread, hl]

theorem entered_of_changes {s m : Sched} (h : QueueChanges s m) : Entered s m where
  front := by
    induction h with
    | refl => exact List.prefix_refl _
    | tail _ hlast ih => exact ih.trans hlast.front
  full hs := h.inQueues (fun _ _ _ _ hticks => hticks) hs

theorem enter_entered {s m : Sched} {op : SchedOp} {calls : Bool} (h : SchedInv s)
    (henter : enter s op = some (m, calls)) : Entered s m :=
  entered_of_changes (enter_changes h henter)

/-! ## The boost -/

theorem foldl_boostOne_queue_zero (q : List Tid) (s : Sched) :
    (q.foldl boostOne s).queues 0 = s.queues 0 ++ q := by
  induction q generalizing s with
  | nil => simp
  | cons t q ih => rw [List.foldl_cons, ih, boostOne_queue_zero, List.append_assoc]; rfl

theorem boostQueue_queue_zero (s : Sched) {i : Int} (hi : i ≠ 0) :
    (s.boostQueue i).queues 0 = s.queues 0 ++ s.queues i := by
  rw [boostQueue, foldl_boostOne_queue_zero]
  simp [Ne.symm hi]

/-- The boost lines the ready threads up in queue 0, level by level. -/
theorem boostAll_queue_zero (s : Sched) : s.boostAll.queues 0 = s.readyList := by
  have h2 : (s.boostQueue 1).queues 2 = s.queues 2 := by
    rw [boostQueue_queue_ne s 1 (by decide)]
    simp [setQueue]
  rw [boostAll, boostQueue_queue_zero _ (by decide), boostQueue_queue_zero _ (by decide), h2]
  simp [readyList, levels]

/-! ## The running thread's turn -/

/-- How many more ticks the current turn can last. -/
def budget (s : Sched) : Int :=
  match s.currentThread with
  | some c => if s.currentThread = s.idleThread then 1 else (s.threads c).ticksRemaining
  | none => 1

/-- The ticks a call takes. -/
def tickOf (op : SchedOp) : Int := if op = .tick then 1 else 0

theorem budget_idle {s : Sched} (h : s.currentThread = s.idleThread) : budget s = 1 := by
  unfold budget
  cases hc : s.currentThread with
  | none => rfl
  | some c => simp [← h, hc]

theorem budget_thread {s : Sched} {c : Tid} (hc : s.currentThread = some c)
    (hne : s.currentThread ≠ s.idleThread) : budget s = (s.threads c).ticksRemaining := by
  have hne' : s.idleThread ≠ some c := fun hd => hne (hc.trans hd.symm)
  simp [budget, hc, Ne.symm hne']

theorem QuantumInv.budget {s : Sched} (hq : QuantumInv s) : 1 ≤ budget s ∧ budget s ≤ 20 := by
  by_cases hd : s.currentThread = s.idleThread
  · rw [budget_idle hd]
    omega
  · rcases Option.eq_none_or_eq_some s.currentThread with hc | ⟨c, hc⟩
    · simp [Ceryx.Proc.budget, hc]
    · rw [budget_thread hc hd]
      exact hq.current c hc hd

/-- A thread that keeps running has used up one tick of its quantum, and has
some left. -/
theorem tick_stays {s m : Sched} (h : SchedInv s) {c : Tid} (hc : s.currentThread = some c)
    (hne : s.currentThread ≠ s.idleThread) (henter : s.tickEnter = (m, false)) :
    (m.threads c).ticksRemaining + 1 = (s.threads c).ticksRemaining ∧
      1 ≤ (m.threads c).ticksRemaining := by
  have hsame := (tickClock_inv h.toListInv).2
  have hc' : s.tickClock.currentThread = some c := hsame.current.trans hc
  have hne' : ¬ some c = s.tickClock.idleThread := by
    rw [hsame.idle, ← hc]
    exact hne
  have hthread : s.tickClock.threads c = s.threads c :=
    tickClock_thread (h.current_count hc) h.toListInv
  -- the tick is charged
  have hcharge : ((s.tickClock.chargeTick c).threads c).ticksRemaining =
      (s.threads c).ticksRemaining - 1 := by
    simp [chargeTick, hthread]
  unfold tickEnter at henter
  simp only [hc', ne_eq, hne', not_false_eq_true, if_true] at henter
  split at henter
  · cases congrArg Prod.snd henter
  · obtain rfl : s.tickClock.chargeTick c = m := congrArg Prod.fst henter
    constructor <;> omega

/-- A call that returns early and is not a tick leaves the running thread's
quantum alone. -/
theorem stays_thread {s m : Sched} {op : SchedOp} (h : SchedInv s) {c : Tid}
    (hc : s.currentThread = some c) (hop : op ≠ .tick) (henter : enter s op = some (m, false)) :
    m.threads c = s.threads c := by
  have hcount := h.current_count hc
  have hlt := h.current_created hc
  cases enter_cases hc henter with
  | @addThread process stack level _ hadd =>
      rcases addThread_eq hadd with ⟨-, rfl⟩
      have hne : c ≠ s.nextTid := Nat.ne_of_lt hlt.2
      rw [pushReady_threads]
      refine (updThread_ne _ _ hne).trans ?_
      simp [newThread, hne]
  | tick _ => exact absurd rfl hop
  | wake ch wakeAll =>
      exact (wake_inv h.toListInv ch wakeAll).2.thread c (ListInv.not_mem_waitQueue hcount)

/-- A tick of the idle thread that returns early found nothing ready. -/
theorem tick_idle_stays {s m : Sched} (h : SchedInv s) (hidle : s.currentThread = s.idleThread)
    (henter : s.tickEnter = (m, false)) : m.queues 0 = [] := by
  have hsame := (tickClock_inv h.toListInv).2
  have hidle' : s.tickClock.currentThread = s.tickClock.idleThread :=
    hsame.current.trans (hidle.trans hsame.idle.symm)
  rcases h.tickClock.current with ⟨c, hc, -⟩
  have hd : s.tickClock.idleThread = some c := hidle'.symm.trans hc
  unfold tickEnter at henter
  simp only [hc, hd, ne_eq, not_true, if_false] at henter
  obtain rfl : s.tickClock = m := congrArg Prod.fst henter
  have hempty : s.tickClock.mlfqEmpty = true := by simpa using congrArg Prod.snd henter
  have hall := List.all_eq_true.mp hempty 0 zero_mem_levels
  exact List.isEmpty_iff.mp hall

/-- A call that returns early while threads wait in queue 0: a tick takes one
from the budget, the others nothing. -/
theorem stays_budget {s m : Sched} {op : SchedOp} (h : SchedInv s)
    (henter : enter s op = some (m, false)) (hfront : m.queues 0 ≠ []) :
    budget m + tickOf op = budget s := by
  have hsame := enter_same h henter
  rcases h.current with ⟨c, hc, -⟩
  by_cases hd : s.currentThread = s.idleThread
  · have hd' : m.currentThread = m.idleThread := hsame.1.trans (hd.trans hsame.2.symm)
    -- an idle CPU would dispatch on a tick
    have hop : op ≠ .tick := by
      rintro rfl
      exact hfront (tick_idle_stays h hd (Option.some.inj henter))
    simp [budget_idle hd, budget_idle hd', tickOf, hop]
  · have hc' : m.currentThread = some c := hsame.1.trans hc
    have hd' : m.currentThread ≠ m.idleThread := by
      rw [hsame.1, hsame.2]
      exact hd
    rw [budget_thread hc hd, budget_thread hc' hd']
    by_cases hop : op = .tick
    · subst hop
      exact (tick_stays h hc hd (Option.some.inj henter)).1
    · simp [stays_thread h hc hop henter, tickOf, hop]

/-! ## The invariant -/

/-- The thread that `ScheduleLocked` leaves running has a full quantum. -/
theorem scheduleLocked_quantum {m : Sched} (h : ListInv m) {p : Tid} (hp : m.currentThread = some p)
    (hf : FullQuanta m) : QuantumInv m.scheduleLocked := by
  rcases scheduleLocked_inQueues (P := fun i th => th.ticksRemaining = kQuantum i)
    (fun _ _ _ hticks => hticks) h hp hf with ⟨hqueued, hcurrent⟩
  constructor
  · exact hqueued
  · -- a thread taken from a queue brings the quantum it was queued with
    intro c hc hne
    rcases hcurrent c hc hne with ⟨i, hi, hticks⟩
    rw [hticks]
    exact kQuantum_bounds hi

theorem step_quantum {s s' : Sched} {op : SchedOp} (h : SchedInv s) (hq : QuantumInv s)
    (hstep : schedStep s op = some s') : QuantumInv s' := by
  rcases h.current with ⟨c, hc, -⟩
  rcases schedStep_cases hstep with ⟨henter, -⟩ | ⟨m, henter, rfl, -⟩
  · -- an early return
    have hent := enter_entered h henter
    have hsame := enter_same h henter
    constructor
    · exact hent.full hq.queued
    · intro u hu hne
      have hu' : s.currentThread = some u := hsame.1.symm.trans hu
      have hne' : s.currentThread ≠ s.idleThread := by
        rw [← hsame.1, ← hsame.2]
        exact hne
      by_cases hop : op = .tick
      · subst hop
        have hticks := tick_stays h hu' hne' (Option.some.inj henter)
        have hbounds := hq.current u hu' hne'
        constructor <;> omega
      · rw [stays_thread h hu' hop henter]
        exact hq.current u hu' hne'
  · have hent := enter_entered h henter
    exact scheduleLocked_quantum (enter_inv h henter) ((enter_same h henter).1.trans hc)
      (hent.full hq.queued)

/-! ## One call -/

theorem popBest_front {m : Sched} {a : Tid} {L : List Tid} (h : a :: L <+: m.queues 0) :
    ∃ rest, m.queues 0 = a :: rest ∧ L <+: rest ∧
      m.popBest = (some a, m.setQueue 0 rest) := by
  rcases h with ⟨rest, hrest⟩
  have hq : m.queues 0 = a :: (L ++ rest) := hrest.symm
  refine ⟨L ++ rest, hq, List.prefix_append _ _, ?_⟩
  simp [popBest, popFrom, levels, hq, setQueue]

/-- `ScheduleLocked` serves the head of queue 0. -/
theorem scheduleLocked_front {m : Sched} {p a : Tid} {L : List Tid} (hp : m.currentThread = some p)
    (hf : FullQuanta m) (h : a :: L <+: m.queues 0) :
    L <+: m.scheduleLocked.queues 0 ∧ budget m.scheduleLocked ≤ 5 := by
  rcases popBest_front h with ⟨rest, hq, hL, hpop⟩
  have hfull : (m.threads a).ticksRemaining = 5 :=
    hf 0 zero_mem_levels a (by rw [hq]; exact List.mem_cons_self)
  have hzero : (m.setQueue 0 rest).queues 0 = rest := by simp [setQueue]
  by_cases hap : a = p
  · -- the thread just pushed is the one popped again
    subst hap
    have heq : m.scheduleLocked = m.setQueue 0 rest := by simp [scheduleLocked, hpop, hp]
    rw [heq, hzero]
    refine ⟨hL, ?_⟩
    by_cases hd : (m.setQueue 0 rest).currentThread = (m.setQueue 0 rest).idleThread
    · rw [budget_idle hd]
      omega
    · have hp' : (m.setQueue 0 rest).currentThread = some a := hp
      rw [budget_thread hp' hd, show (m.setQueue 0 rest).threads = m.threads from rfl, hfull]
  · have heq : m.scheduleLocked = (m.setQueue 0 rest).performSwitch a := by
      simp [scheduleLocked, hpop, hp, hap]
    rw [heq, show ((m.setQueue 0 rest).performSwitch a).queues 0 = rest from hzero]
    refine ⟨hL, ?_⟩
    by_cases hd : ((m.setQueue 0 rest).performSwitch a).currentThread =
        ((m.setQueue 0 rest).performSwitch a).idleThread
    · rw [budget_idle hd]
      omega
    · have hticks : (((m.setQueue 0 rest).performSwitch a).threads a).ticksRemaining =
          (m.threads a).ticksRemaining :=
        updThread_field Thread.ticksRemaining (m.setQueue 0 rest) a
          (f := fun th => { th with state := .running }) rfl a
      rw [budget_thread rfl hd, hticks, hfull]

/-- What one call does to the threads `a :: L` at the front of queue 0: it
serves `a`, or it leaves them there and a tick takes one from the budget. -/
theorem front_step {s s' : Sched} {op : SchedOp} {a : Tid} {L : List Tid} (h : SchedInv s)
    (hq : QuantumInv s) (hstep : schedStep s op = some s')
    (hfront : ∀ m calls, enter s op = some (m, calls) → a :: L <+: m.queues 0) :
    (popped s op = [] ∧ a :: L <+: s'.queues 0 ∧ budget s' + tickOf op = budget s) ∨
      (popped s op = [some a] ∧ L <+: s'.queues 0 ∧ budget s' ≤ 5) := by
  rcases h.current with ⟨c, hc, -⟩
  rcases schedStep_cases hstep with ⟨henter, hpop⟩ | ⟨m, henter, rfl, hpop⟩
  · left
    -- nothing is dispatched, and the front has not moved
    have hfront' := hfront s' false henter
    have hne : s'.queues 0 ≠ [] := by
      intro hnil
      rw [hnil] at hfront'
      exact absurd (List.prefix_nil.mp hfront') (List.cons_ne_nil _ _)
    exact ⟨hpop, hfront', stays_budget h henter hne⟩
  · right
    -- the front is served, and with a full quantum at most
    have hent := enter_entered h henter
    have hfront' := hfront m true henter
    rcases popBest_front hfront' with ⟨rest, -, -, hbest⟩
    refine ⟨by rw [hpop, hbest], ?_⟩
    exact scheduleLocked_front ((enter_same h henter).1.trans hc) (hent.full hq.queued) hfront'

/-! ## A run -/

/-- The calls of `Tick` in a run. -/
def ticks (ops : List SchedOp) : Nat := ops.count .tick

theorem ticks_cons (op : SchedOp) (ops : List SchedOp) :
    (ticks (op :: ops) : Int) = ticks ops + tickOf op := by
  unfold ticks tickOf
  rw [List.count_cons]
  by_cases hop : op = .tick <;> simp [hop]

/-- The threads `L` are served in order before all others, within the budget
and five ticks for each but the last. -/
structure Served (s : Sched) (ops : List SchedOp) (L : List Tid) : Prop where
  order : (pops s ops).take L.length <+: L.map some
  soon : L ≠ [] → budget s + 5 * (L.length - 1 : Int) ≤ ticks ops →
    L.length ≤ (pops s ops).length

theorem served_cons {s s' : Sched} {op : SchedOp} {ops : List SchedOp} {a : Tid} {L : List Tid}
    (h : SchedInv s) (hq : QuantumInv s) (hstep : schedStep s op = some s')
    (hfront : ∀ m calls, enter s op = some (m, calls) → a :: L <+: m.queues 0)
    (hrest : ∀ L', L' <+: s'.queues 0 → Served s' ops L') : Served s (op :: ops) (a :: L) := by
  have hbudget := hq.budget
  have hticks := ticks_cons op ops
  rcases front_step h hq hstep hfront with ⟨hpop, hstay, htick⟩ | ⟨hpop, hserved, hfive⟩
  · have hlater := hrest (a :: L) hstay
    constructor
    · rw [pops_cons hstep, hpop]
      exact hlater.order
    · intro hne hle
      rw [pops_cons hstep, hpop]
      exact hlater.soon hne (by omega)
  · have hlater := hrest L hserved
    constructor
    · rw [pops_cons hstep, hpop]
      simpa using hlater.order
    · intro _ hle
      rw [pops_cons hstep, hpop]
      by_cases hL : L = []
      · simp [hL]
      · -- the turn of `a` is over in five ticks, and one call of the run is spent
        have hone : tickOf op ≤ 1 := by
          unfold tickOf
          split <;> decide
        have hcons : ((a :: L).length : Int) = L.length + 1 := by simp
        have hmore := hlater.soon hL (by omega)
        simp only [List.length_cons, List.length_append, List.length_nil]
        omega

theorem served_of_front {s s' : Sched} {ops : List SchedOp} {L : List Tid} (h : SchedInv s)
    (hq : QuantumInv s) (hrun : run schedStep s ops = some s') (hfront : L <+: s.queues 0) :
    Served s ops L := by
  induction ops generalizing s L with
  | nil =>
      constructor
      · simp [pops]
      · intro hne hle
        have hpos := List.length_pos_iff.mpr hne
        have hbudget := hq.budget
        have hnone : ticks [] = 0 := rfl
        omega
  -- one call, and by induction the others
  | cons op ops ih =>
      rcases Option.bind_eq_some_iff.mp hrun with ⟨s₁, hstep, hrun'⟩
      cases L with
      | nil => exact ⟨by simp, fun hne => absurd rfl hne⟩
      | cons a L =>
          have hrest : ∀ L', L' <+: s₁.queues 0 → Served s₁ ops L' :=
            fun L' hL' => ih (schedStep_inv h hstep) (step_quantum h hq hstep) hrun' hL'
          refine served_cons h hq hstep ?_ hrest
          intro m calls henter
          exact hfront.trans (enter_entered h henter).front

/-! ## From a boosting tick on -/

/-- This `Tick` runs the boost. -/
def BoostTick (s : Sched) : Prop := (s.tickCounter + 1) % 2 ^ 64 % kBoostInterval = 0

instance (s : Sched) : Decidable (BoostTick s) :=
  inferInstanceAs (Decidable ((s.tickCounter + 1) % 2 ^ 64 % kBoostInterval = 0))

/-- A boosting tick starts with all ready threads at the front of queue 0. -/
theorem boost_front {s m : Sched} {calls : Bool} (h : SchedInv s) (hboost : BoostTick s)
    (henter : enter s .tick = some (m, calls)) : s.readyList <+: m.queues 0 := by
  obtain rfl : s.tickEnter.1 = m := congrArg Prod.fst (Option.some.inj henter)
  have hclock : s.tickClock.queues 0 = s.readyList := by
    unfold BoostTick at hboost
    unfold tickClock
    dsimp only
    rw [if_pos hboost, boostAll_queue_zero]
    rfl
  rw [← hclock]
  exact (entered_of_changes (tickEnter_changes h)).front

/-- How long a thread waits that had `ahead` before it in the ready queues: the
first results of `PopBest` are the threads ahead, each once, and then the
thread itself, and it is reached within `20 + 5 * ahead.length` ticks. -/
structure BoundedWait (ahead : List Tid) (t : Tid) (pops : List (Option Tid)) (ticks : Nat) :
    Prop where
  order : pops.take (ahead.length + 1) <+: (ahead ++ [t]).map some
  once : (ahead ++ [t]).Nodup
  soon : 20 + 5 * ahead.length ≤ ticks → some t ∈ pops.take (ahead.length + 1)

theorem startReaper_quantum (rootPa : Option ProcId → Nat) (idleStack reaperStack : Nat) :
    QuantumInv (startReaper rootPa idleStack reaperStack) := by
  constructor
  · intro i hi t ht
    have hnil : (startReaper rootPa idleStack reaperStack).queues i = [] := rfl
    rw [hnil] at ht
    cases ht
  · intro c _ hne
    exact absurd rfl hne

theorem start_quantum {rootPa : Option ProcId → Nat} {idleStack reaperStack : Nat} {s : Sched}
    (hstart : start rootPa idleStack reaperStack = some s) : QuantumInv s := by
  rw [start_eq] at hstart
  rcases startReaper_inv rootPa idleStack reaperStack with ⟨-, hun⟩
  rcases addThread_eq hstart with ⟨-, rfl⟩
  constructor
  · have hready := QueueChanges.makeReady hun.count (l := kNumLevels - 1) (by decide)
      (fun th => { th with
        mlfqLevel := kNumLevels - 1, ticksRemaining := kQuantum (kNumLevels - 1), state := .ready })
      rfl rfl
    exact (entered_of_changes hready).full (startReaper_quantum _ _ _).queued
  · intro c _ hne
    exact absurd rfl hne

theorem reachable_quantum {s s' : Sched} {ops : List SchedOp} (h : SchedInv s) (hq : QuantumInv s)
    (hrun : run schedStep s ops = some s') : SchedInv s' ∧ QuantumInv s' :=
  inv_of_run (I := fun s => SchedInv s ∧ QuantumInv s)
    (fun _ _ _ hi hstep => ⟨schedStep_inv hi.1 hstep, step_quantum hi.1 hi.2 hstep⟩) ⟨h, hq⟩ hrun

theorem readyList_nodup {s : Sched} (h : ListInv s) : s.readyList.Nodup := by
  refine List.nodup_iff_count_le_one.mpr fun t => ?_
  have honce := h.once t
  rw [listCount, readyCount] at honce
  omega

/-- Every thread that is ready at a boosting tick is served after the threads
that were ahead of it and within the bound, whatever calls follow. -/
theorem boost_bounds_waiting {rootPa : Option ProcId → Nat} {idleStack reaperStack : Nat}
    {s₀ s s' : Sched} {ops₀ ops : List SchedOp} {ahead behind : List Tid} {t : Tid}
    (hstart : start rootPa idleStack reaperStack = some s₀)
    (hreach : run schedStep s₀ ops₀ = some s) (hboost : BoostTick s)
    (hready : s.readyList = ahead ++ t :: behind)
    (hrun : run schedStep s (.tick :: ops) = some s') :
    BoundedWait ahead t (pops s (.tick :: ops)) (ticks (.tick :: ops)) := by
  rcases reachable_quantum (start_inv hstart) (start_quantum hstart) hreach with ⟨h, hq⟩
  rcases Option.bind_eq_some_iff.mp hrun with ⟨s₁, hstep, hrun'⟩
  have hfront : ahead ++ [t] <+: s.readyList := ⟨behind, by rw [hready]; simp⟩
  have hserved : Served s (.tick :: ops) (ahead ++ [t]) := by
    have hrest : ∀ L', L' <+: s₁.queues 0 → Served s₁ ops L' := fun L' =>
      served_of_front (schedStep_inv h hstep) (step_quantum h hq hstep) hrun'
    rcases List.exists_cons_of_ne_nil (show ahead ++ [t] ≠ [] by simp) with ⟨a, L, heq⟩
    rw [heq] at hfront ⊢
    refine served_cons h hq hstep ?_ hrest
    intro m calls henter
    exact hfront.trans (boost_front h hboost henter)
  have hlen : (ahead ++ [t]).length = ahead.length + 1 := by simp
  have horder := hserved.order
  rw [hlen] at horder
  refine ⟨horder, ?_, ?_⟩
  · exact (readyList_nodup h.toListInv).sublist hfront.sublist
  · intro hticks
    have hbudget := hq.budget
    have henough := hserved.soon (by simp) (by omega)
    -- as many as can be: the prefix is the whole list
    have hall : (pops s (.tick :: ops)).take (ahead.length + 1) = (ahead ++ [t]).map some := by
      apply horder.eq_of_length
      rw [List.length_take, List.length_map, hlen]
      omega
    rw [hall]
    simp

/-- A boosting tick at which two new threads are ahead of a third one. -/
theorem two_ahead_boundedWait :
    ∃ s₀ s s', start (fun _ => 0) 0 0 = some s₀ ∧
      run schedStep s₀ (List.replicate 99 .tick ++
        [.addThread none 0 1, .addThread none 0 2, .addThread none 0 0]) = some s ∧
      run schedStep s (.tick :: List.replicate 40 .tick) = some s' ∧
      s.readyList = [5, 3] ++ 4 :: [] ∧
      BoundedWait [5, 3] 4 (pops s (.tick :: List.replicate 40 .tick))
        (ticks (.tick :: List.replicate 40 .tick)) := by
  rcases exists_run schedStep (List.replicate 99 .tick ++
      [.addThread none 0 1, .addThread none 0 2, .addThread none 0 0])
      (o := start (fun _ => 0) 0 0)
      (P := fun s => BoostTick s ∧ s.readyList = [5, 3] ++ 4 :: [] ∧
        (run schedStep s (.tick :: List.replicate 40 .tick)).isSome = true)
      (by decide +kernel) with ⟨s₀, s, hstart, hreach, hboost, hready, hsome⟩
  rcases Option.isSome_iff_exists.mp hsome with ⟨s', hrun⟩
  exact ⟨s₀, s, s', hstart, hreach, hrun, hready,
    boost_bounds_waiting hstart hreach hboost hready hrun⟩

end Ceryx.Proc
