import Ceryx.Proc.BoostWait

/-!
# Ceryx.Proc.Levels — levels and quanta stay in range

The level and the remaining ticks of a thread stand in the thread object, and
its place in the ready queues says them again. `queues[]` and `kQuantum[]` are
arrays of `kNumLevels` elements that are indexed with that level.

* `InLevels`: the two agree for the queued threads, and the running thread has
  a level and a part of that level's quantum.
* `schedStepAt`: the entry points with every access to an array checked; an
  index outside has no value.
* `stepAt_eq`: when all levels are in range the checked entry points are the
  unchecked ones.
* `levels_in_range`: in every state of every run `InLevels` holds and no access
  is out of range.
-/

namespace Ceryx.Proc

open Sched Lib

/-- The levels and the quanta of the queued threads and of the running one. -/
structure InLevels (s : Sched) : Prop where
  queued : ∀ i ∈ levels, ∀ t ∈ s.queues i,
    (s.threads t).mlfqLevel = i ∧ (s.threads t).ticksRemaining = kQuantum i
  current : ∀ c, s.currentThread = some c → s.currentThread ≠ s.idleThread →
    (s.threads c).mlfqLevel ∈ levels ∧ 1 ≤ (s.threads c).ticksRemaining ∧
      (s.threads c).ticksRemaining ≤ kQuantum (s.threads c).mlfqLevel

/-- What `InLevels` says of a queued thread. -/
def AtLevel (i : Int) (th : Thread) : Prop := th.mlfqLevel = i ∧ th.ticksRemaining = kQuantum i

/-- Queued threads stay on the queue of their level, -/
theorem QueueChanges.atLevel {s m : Sched} (h : QueueChanges s m) (hs : InQueues AtLevel s) :
    InQueues AtLevel m :=
  h.inQueues (fun _ _ _ hlevel hticks => ⟨hlevel, hticks⟩) hs

/-! ## One call -/

/-- A tick after which the thread keeps running takes one tick from it and
leaves its level. -/
theorem tick_level {s m : Sched} (h : SchedInv s) {c : Tid} (hc : s.currentThread = some c)
    (hne : s.currentThread ≠ s.idleThread) (henter : s.tickEnter = (m, false)) :
    (m.threads c).mlfqLevel = (s.threads c).mlfqLevel := by
  have hsame := (tickClock_inv h.toListInv).2
  have hc' : s.tickClock.currentThread = some c := hsame.current.trans hc
  have hne' : ¬ some c = s.tickClock.idleThread := by
    rw [hsame.idle, ← hc]
    exact hne
  have hthread : s.tickClock.threads c = s.threads c :=
    tickClock_thread (h.current_count hc) h.toListInv
  unfold tickEnter at henter
  simp only [hc', ne_eq, hne', not_false_eq_true, if_true] at henter
  split at henter
  · cases congrArg Prod.snd henter
  · obtain rfl : s.tickClock.chargeTick c = m := congrArg Prod.fst henter
    unfold chargeTick
    rw [updThread_self, hthread]

/-- The running thread after a call that returns early. -/
theorem stays_inLevels {s m : Sched} {op : SchedOp} (h : SchedInv s) (hs : InLevels s) {c : Tid}
    (hc : s.currentThread = some c) (hne : s.currentThread ≠ s.idleThread)
    (henter : enter s op = some (m, false)) :
    (m.threads c).mlfqLevel ∈ levels ∧ 1 ≤ (m.threads c).ticksRemaining ∧
      (m.threads c).ticksRemaining ≤ kQuantum (m.threads c).mlfqLevel := by
  have hcurrent := hs.current c hc hne
  by_cases hop : op = .tick
  · subst hop
    have htick := Option.some.inj henter
    have hticks := tick_stays h hc hne htick
    rw [tick_level h hc hne htick]
    exact ⟨hcurrent.1, by omega, by omega⟩
  · rw [stays_thread h hc hop henter]
    exact hcurrent

/-- The thread that `ScheduleLocked` leaves running has the level of its queue
and all of its quantum. -/
theorem scheduleLocked_inLevels {m : Sched} (h : ListInv m) {p : Tid}
    (hp : m.currentThread = some p) (hm : InQueues AtLevel m) : InLevels m.scheduleLocked := by
  rcases scheduleLocked_inQueues (fun _ _ _ hat => hat) h hp hm with ⟨hqueued, hcurrent⟩
  constructor
  · exact hqueued
  · intro c hc hne
    rcases hcurrent c hc hne with ⟨i, hi, hlevel, hticks⟩
    rw [hlevel, hticks]
    exact ⟨hi, (kQuantum_bounds hi).1, Int.le_refl _⟩

/-- through every step, -/
theorem step_inLevels {s s' : Sched} {op : SchedOp} (h : SchedInv s) (hs : InLevels s)
    (hstep : schedStep s op = some s') : InLevels s' := by
  rcases h.current with ⟨c, hc, -⟩
  have hqueued : ∀ m calls, enter s op = some (m, calls) → InQueues AtLevel m := by
    intro m calls henter
    exact (enter_changes h henter).atLevel hs.queued
  rcases schedStep_cases hstep with ⟨henter, -⟩ | ⟨m, henter, rfl, -⟩
  · -- an early return: the running thread is the same
    have hsame := enter_same h henter
    constructor
    · exact hqueued s' false henter
    · intro u hu hne
      rw [hsame.1, hsame.2] at hne
      exact stays_inLevels h hs (hsame.1.symm.trans hu) hne henter
  · exact scheduleLocked_inLevels (enter_inv h henter) ((enter_same h henter).1.trans hc)
      (hqueued m true henter)

/-- from the start on. -/
theorem start_inLevels {rootPa : Option ProcId → Nat} {idleStack reaperStack : Nat} {s : Sched}
    (hstart : start rootPa idleStack reaperStack = some s) : InLevels s := by
  rw [start_eq] at hstart
  rcases startReaper_inv rootPa idleStack reaperStack with ⟨-, hun⟩
  rcases addThread_eq hstart with ⟨hl, rfl⟩
  have hempty : InQueues AtLevel (startReaper rootPa idleStack reaperStack) := by
    intro i hi t ht
    have hnil : (startReaper rootPa idleStack reaperStack).queues i = [] := rfl
    rw [hnil] at ht
    exact absurd ht List.not_mem_nil
  constructor
  · have hready := QueueChanges.makeReady hun.count hl
      (fun th => { th with
        mlfqLevel := kNumLevels - 1, ticksRemaining := kQuantum (kNumLevels - 1), state := .ready })
      rfl rfl
    exact hready.atLevel hempty
  · -- the idle thread runs
    intro c _ hne
    exact absurd rfl hne

/-! ## The arrays -/

namespace Sched

/-- `kQuantum[level]`; an index outside the array has no value. -/
def quantumAt (level : Int) : Option Int := if level ∈ levels then some (kQuantum level) else none

/-- `queues[level]`, read. -/
def queueAt (s : Sched) (level : Int) : Option (List Tid) :=
  if level ∈ levels then some (s.queues level) else none

/-- `queues[level].PushBack(&t->run_node)`. -/
def pushAt (s : Sched) (level : Int) (t : Tid) : Option Sched :=
  if level ∈ levels then some (s.pushReady level t) else none

/-- `MlfqImpl::PopBest`, from the given indices on. -/
def popFromAt (s : Sched) : List Int → Option (Option Tid × Sched)
  | [] => some (none, s)
  | i :: is =>
      (s.queueAt i).bind fun
        | [] => popFromAt s is
        | t :: rest => some (some t, { s with queues := Function.update s.queues i rest })

/-- `MlfqImpl::Empty`, from the given indices on. -/
def emptyAt (s : Sched) : List Int → Option Bool
  | [] => some true
  | i :: is => (s.queueAt i).bind fun q => if q.isEmpty then emptyAt s is else some false

/-- One turn of the loop in `MlfqImpl::Boost`. -/
def boostOneAt (s : Sched) (t : Tid) : Option Sched :=
  (quantumAt 0).bind fun quantum =>
    ((s.setMlfqLevel t 0).setTicksRemaining t quantum).pushAt 0 t

/-- The inner loop of `MlfqImpl::Boost`. -/
def boostLoopAt : List Tid → Sched → Option Sched
  | [], s => some s
  | t :: rest, s => (s.boostOneAt t).bind (boostLoopAt rest)

/-- `Boost`, for one queue. -/
def boostQueueAt (s : Sched) (i : Int) : Option Sched :=
  (s.queueAt i).bind fun q => boostLoopAt q { s with queues := Function.update s.queues i [] }

/-- `MlfqImpl::Boost`. -/
def boostAllAt (s : Sched) : Option Sched := (s.boostQueueAt 1).bind fun s => s.boostQueueAt 2

/-- `Scheduler::ScheduleLocked`. -/
def scheduleLockedAt (s : Sched) : Option Sched :=
  (s.popFromAt levels).map fun (best, m) =>
    match best.or m.idleThread with
    | none => m
    | some n => if some n = s.currentThread then m else m.performSwitch n

/-- `Scheduler::AddThread`, behind its `FK_BUG_ON`. -/
def addThreadAt (s : Sched) (t : Tid) (level : Int) : Option (Option Sched) :=
  if level < 0 ∨ kNumLevels ≤ level then some none
  else
    (quantumAt level).bind fun quantum =>
      ((((s.setMlfqLevel t level).setTicksRemaining t quantum).setState t .ready).pushAt level
        t).map some

/-- The first part of `Scheduler::Tick`. -/
def tickClockAt (s : Sched) : Option Sched :=
  let s := { s with tickCounter := (s.tickCounter + 1) % 2 ^ 64 }
  if s.tickCounter % kBoostInterval = 0 then s.boostAllAt else some s

/-- The expired quantum in `Scheduler::Tick`. -/
def demoteAt (s : Sched) (t : Tid) : Option Sched :=
  let newLevel := demotedLevel (s.threads t).mlfqLevel
  (quantumAt newLevel).bind fun quantum =>
    (((s.setMlfqLevel t newLevel).setTicksRemaining t quantum).setState t .ready).pushAt newLevel t

/-- `Scheduler::Tick`. -/
def tickAt (s : Sched) : Option Sched :=
  s.tickClockAt.bind fun s =>
    match s.currentThread with
    | some c =>
        if s.currentThread ≠ s.idleThread then
          let s := s.chargeTick c
          if (s.threads c).ticksRemaining ≤ 0 then (s.demoteAt c).bind scheduleLockedAt else some s
        else (s.emptyAt levels).bind fun empty => if empty then some s else s.scheduleLockedAt
    | none => (s.emptyAt levels).bind fun empty => if empty then some s else s.scheduleLockedAt

/-- The push of `Scheduler::Yield`. -/
def requeueAt (s : Sched) (t : Tid) : Option Sched :=
  let level := (s.threads t).mlfqLevel
  (quantumAt level).bind fun quantum =>
    ((s.setState t .ready).setTicksRemaining t quantum).pushAt level t

/-- `Scheduler::Yield`. -/
def yieldAt (s : Sched) : Option Sched :=
  match s.currentThread with
  | some c =>
      if s.currentThread ≠ s.idleThread ∧ (s.threads c).state = .running then
        (s.requeueAt c).bind scheduleLockedAt
      else s.scheduleLockedAt
  | none => s.scheduleLockedAt

/-- `Scheduler::Block`. -/
def blockAt (s : Sched) (ch : Channel) : Option Sched :=
  match s.currentThread with
  | none => some s
  | some t => (s.parkOn t ch).scheduleLockedAt

/-- One turn of the loop of `Scheduler::Wake`. -/
def wakeOneAt (s : Sched) (t : Tid) : Option Sched :=
  let s := { s with waitQueue := s.waitQueue.erase t }
  let s := (s.setWaitChannel t none).setState t .ready
  let level := (s.threads t).mlfqLevel
  (quantumAt level).bind fun quantum => (s.setTicksRemaining t quantum).pushAt level t

/-- The loop of `Scheduler::Wake`. -/
def wakeLoopAt (ch : Channel) (wakeAll : Bool) : List Tid → Sched → Option Sched
  | [], s => some s
  | t :: rest, s =>
      if (s.threads t).waitChannel = some ch then
        if wakeAll then (s.wakeOneAt t).bind (wakeLoopAt ch wakeAll rest) else s.wakeOneAt t
      else wakeLoopAt ch wakeAll rest s

/-- The end of a thread. -/
def exitThreadAt (s : Sched) (t : Tid) : Option (Option Sched) :=
  match (s.setState t .terminated).enqueueDead t with
  | none => some none
  | some s => s.yieldAt.map some

end Sched

/-- `schedStep` with checked accesses: no value when an access is out of range. -/
def schedStepAt (s : Sched) : SchedOp → Option (Option Sched)
  | .addThread process stack level =>
      let (t, s) := s.newThread process stack
      s.addThreadAt t level
  | .tick => s.tickAt.map some
  | .yield => s.yieldAt.map some
  | .block ch => if s.currentThread = s.idleThread then some none else (s.blockAt ch).map some
  | .wake ch wakeAll => (wakeLoopAt ch wakeAll s.waitQueue s).map some
  | .exit =>
      match s.currentThread with
      | none => some none
      | some t => if s.currentThread = s.idleThread then some none else s.exitThreadAt t

/-! ## No access is out of range -/

namespace Sched

/-- With a level in range each access is the plain one: of `kQuantum`, -/
theorem quantumAt_eq {level : Int} (h : level ∈ levels) :
    quantumAt level = some (kQuantum level) := if_pos h

/-- of a queue, -/
theorem queueAt_eq (s : Sched) {level : Int} (h : level ∈ levels) :
    s.queueAt level = some (s.queues level) := if_pos h

/-- and of a push. -/
theorem pushAt_eq (s : Sched) {level : Int} (h : level ∈ levels) (t : Tid) :
    s.pushAt level t = some (s.pushReady level t) := if_pos h

/-- `PopBest` indexes by the levels, -/
theorem popFromAt_eq (s : Sched) {is : List Int} (his : ∀ i ∈ is, i ∈ levels) :
    s.popFromAt is = some (s.popFrom is) := by
  induction is with
  | nil => rfl
  | cons i is ih =>
      have hrest := ih fun j hj => his j (List.mem_cons_of_mem _ hj)
      unfold popFromAt popFrom
      rw [queueAt_eq s (his i List.mem_cons_self), Option.bind_some]
      cases s.queues i with
      | nil => exact hrest
      | cons t rest => rfl

/-- and so does the test for work. -/
theorem emptyAt_eq (s : Sched) {is : List Int} (his : ∀ i ∈ is, i ∈ levels) :
    s.emptyAt is = some (is.all fun i => (s.queues i).isEmpty) := by
  induction is with
  | nil => rfl
  | cons i is ih =>
      have hrest := ih fun j hj => his j (List.mem_cons_of_mem _ hj)
      unfold emptyAt
      rw [queueAt_eq s (his i List.mem_cons_self), Option.bind_some, List.all_cons]
      cases (s.queues i).isEmpty with
      | true => exact hrest
      | false => rfl

/-- `Boost` pushes at level 0, -/
theorem boostOneAt_eq (s : Sched) (t : Tid) : s.boostOneAt t = some (s.boostOne t) := by
  unfold boostOneAt
  rw [quantumAt_eq zero_mem_levels, Option.bind_some, pushAt_eq _ zero_mem_levels]
  rfl

/-- thread after thread, -/
theorem boostLoopAt_eq (q : List Tid) (s : Sched) :
    boostLoopAt q s = some (q.foldl boostOne s) := by
  induction q generalizing s with
  | nil => rfl
  | cons t q ih =>
      unfold boostLoopAt
      rw [boostOneAt_eq, Option.bind_some]
      exact ih (s.boostOne t)

/-- for each of its queues -/
theorem boostQueueAt_eq (s : Sched) {i : Int} (hi : i ∈ levels) :
    s.boostQueueAt i = some (s.boostQueue i) := by
  unfold boostQueueAt
  rw [queueAt_eq s hi, Option.bind_some, boostLoopAt_eq]
  rfl

/-- in turn. -/
theorem boostAllAt_eq (s : Sched) : s.boostAllAt = some s.boostAll := by
  unfold boostAllAt
  rw [boostQueueAt_eq s (by decide), Option.bind_some, boostQueueAt_eq _ (by decide)]
  rfl

/-- `ScheduleLocked` needs no level of a thread, -/
theorem scheduleLockedAt_eq (s : Sched) : s.scheduleLockedAt = some s.scheduleLocked := by
  unfold scheduleLockedAt
  rw [popFromAt_eq s fun _ hi => hi]
  rfl

/-- and `AddThread` checks the one it is given. -/
theorem addThreadAt_eq (s : Sched) (t : Tid) (level : Int) :
    s.addThreadAt t level = some (s.addThread t level) := by
  unfold addThreadAt addThread
  split
  · rfl
  · -- the `FK_BUG_ON` is the check of the index
    rename_i hlevel
    have hmem : level ∈ levels := mem_levels.mpr (by omega)
    rw [quantumAt_eq hmem, Option.bind_some, pushAt_eq _ hmem]
    rfl

/-- The clock reads no level; -/
theorem tickClockAt_eq (s : Sched) : s.tickClockAt = some s.tickClock := by
  unfold tickClockAt tickClock
  dsimp only
  split
  · exact boostAllAt_eq _
  · rfl

/-- the charge reads that of the running thread, -/
theorem demoteAt_eq {s : Sched} {t : Tid} (h : (s.threads t).mlfqLevel ∈ levels) :
    s.demoteAt t = some (s.demote t) := by
  have hnew := demotedLevel_mem h
  unfold demoteAt
  dsimp only
  rw [quantumAt_eq hnew, Option.bind_some, pushAt_eq _ hnew]
  rfl

/-- and so does `Yield`; -/
theorem requeueAt_eq {s : Sched} {t : Tid} (h : (s.threads t).mlfqLevel ∈ levels) :
    s.requeueAt t = some (s.requeue t) := by
  unfold requeueAt
  dsimp only
  rw [quantumAt_eq h, Option.bind_some, pushAt_eq _ h]
  rfl

/-- `Wake` reads that of the woken one. -/
theorem wakeOneAt_eq {s : Sched} {t : Tid} (h : (s.threads t).mlfqLevel ∈ levels) :
    s.wakeOneAt t = some (s.wakeOne t) := by
  have hsame : ((({ s with waitQueue := s.waitQueue.erase t }.setWaitChannel t none).setState t
      .ready).threads t).mlfqLevel = (s.threads t).mlfqLevel := by
    simp [setState, setWaitChannel, updThread]
  rw [← hsame] at h
  unfold wakeOneAt
  dsimp only
  rw [quantumAt_eq h, Option.bind_some, pushAt_eq _ h]
  rfl

/-- Waking a thread leaves all levels. -/
theorem wakeOne_level (s : Sched) (t u : Tid) :
    ((s.wakeOne t).threads u).mlfqLevel = (s.threads u).mlfqLevel := by
  rw [wakeOne_eq, pushReady_threads]
  exact updThread_field Thread.mlfqLevel (s.removeWait t) t rfl u

/-- All threads have levels in range, so no turn of the loop is out of range, -/
theorem wakeLoopAt_eq (ch : Channel) (wakeAll : Bool) (rest : List Tid) {s : Sched}
    (h : ∀ t, (s.threads t).mlfqLevel ∈ levels) :
    wakeLoopAt ch wakeAll rest s = some (wakeLoop ch wakeAll rest s) := by
  induction rest generalizing s with
  | nil => rfl
  | cons t rest ih =>
      unfold wakeLoopAt wakeLoop
      by_cases hch : (s.threads t).waitChannel = some ch
      · rw [if_pos hch, if_pos hch, wakeOneAt_eq (h t)]
        cases wakeAll with
        | false => rfl
        | true =>
            -- waking gives no thread another level
            have hwoken : ∀ u, ((s.wakeOne t).threads u).mlfqLevel ∈ levels := by
              intro u
              rw [wakeOne_level]
              exact h u
            exact ih hwoken
      · rw [if_neg hch, if_neg hch]
        exact ih h

/-- nor is `Yield`, -/
theorem yieldAt_eq {s : Sched} (h : ∀ t, (s.threads t).mlfqLevel ∈ levels) :
    s.yieldAt = some s.yield := by
  unfold yieldAt yield
  cases s.currentThread with
  | none => exact scheduleLockedAt_eq s
  | some c =>
      dsimp only
      split
      · rw [requeueAt_eq (h c), Option.bind_some, scheduleLockedAt_eq]
      · exact scheduleLockedAt_eq s

/-- `Block`, -/
theorem blockAt_eq (s : Sched) (ch : Channel) : s.blockAt ch = some (s.block ch) := by
  unfold blockAt block
  cases s.currentThread with
  | none => rfl
  | some t => exact scheduleLockedAt_eq _

/-- `Tick` of the idle thread. -/
theorem tickIdle_eq (s : Sched) :
    ((s.emptyAt levels).bind fun empty => if empty then some s else s.scheduleLockedAt) =
      some (if s.mlfqEmpty then s else s.scheduleLocked) := by
  rw [emptyAt_eq s fun _ hi => hi, Option.bind_some, scheduleLockedAt_eq]
  unfold mlfqEmpty
  split
  · rfl
  · rfl

end Sched

/-- `Tick` -/
theorem tickAt_eq {s : Sched} (h : SchedInv s) : s.tickAt = some s.tick := by
  have hclock := h.tickClock
  unfold tickAt tick
  rw [tickClockAt_eq, Option.bind_some]
  dsimp only
  cases s.tickClock.currentThread with
  | none => exact tickIdle_eq _
  | some c =>
      dsimp only
      split
      · split
        · -- the charged thread has the level it had, and the next one down is a level too
          have hlevel : ((s.tickClock.chargeTick c).threads c).mlfqLevel ∈ levels := by
            unfold chargeTick
            rw [updThread_self]
            exact hclock.level c
          rw [demoteAt_eq hlevel, Option.bind_some, scheduleLockedAt_eq]
        · rfl
      · exact tickIdle_eq _

/-- or `Exit`. -/
theorem exitThreadAt_eq {s : Sched} (h : ∀ t, (s.threads t).mlfqLevel ∈ levels) (t : Tid) :
    s.exitThreadAt t = some (s.exitThread t) := by
  unfold exitThreadAt exitThread
  cases hdead : (s.setState t .terminated).enqueueDead t with
  | none => rfl
  | some s' =>
      have hthreads : s'.threads = (s.setState t .terminated).threads := by
        rw [enqueueDead_eq hdead]
      have hlevels : ∀ u, (s'.threads u).mlfqLevel ∈ levels := by
        intro u
        have hsame : ((s.setState t .terminated).threads u).mlfqLevel = (s.threads u).mlfqLevel :=
          updThread_field Thread.mlfqLevel s t rfl u
        rw [hthreads, hsame]
        exact h u
      dsimp only
      rw [yieldAt_eq hlevels]
      rfl

/-- With all levels in range the checked accesses all have values. -/
theorem stepAt_eq {s : Sched} (h : SchedInv s) (op : SchedOp) :
    schedStepAt s op = some (schedStep s op) := by
  cases op with
  | addThread process stack level => exact addThreadAt_eq _ _ _
  -- levels are read by `Tick`, `Yield`, `Wake` and `Exit`; each index is in range
  | tick =>
      unfold schedStepAt schedStep
      rw [tickAt_eq h]
      rfl
  | yield =>
      unfold schedStepAt schedStep
      rw [yieldAt_eq h.level]
      rfl
  | block ch =>
      unfold schedStepAt schedStep
      dsimp only
      split
      · rfl
      · rw [blockAt_eq]
        rfl
  | wake ch wakeAll =>
      unfold schedStepAt schedStep
      dsimp only
      rw [wakeLoopAt_eq ch wakeAll s.waitQueue h.level]
      rfl
  | exit =>
      unfold schedStepAt schedStep
      dsimp only
      cases s.currentThread with
      | none => rfl
      -- the idle thread does not exit
      | some t =>
          dsimp only
          split
          · rfl
          · exact exitThreadAt_eq h.level t

/-! ## Runs with boosts -/

/-- A call of an entry point, or a boost on its own. -/
inductive LevelOp where
  | call (op : SchedOp)
  | boost
deriving DecidableEq, Repr

/-- The steps on plain levels. -/
def levelStep (s : Sched) : LevelOp → Option Sched
  | .call op => schedStep s op
  | .boost => some s.boostAll

/-- `levelStep` with checked accesses. -/
def levelStepAt (s : Sched) : LevelOp → Option (Option Sched)
  | .call op => schedStepAt s op
  | .boost => s.boostAllAt.map some

/-- Both definitions agree where the invariant holds, -/
theorem levelStepAt_eq {s : Sched} (h : SchedInv s) (op : LevelOp) :
    levelStepAt s op = some (levelStep s op) := by
  cases op with
  | call op => exact stepAt_eq h op
  | boost =>
      unfold levelStepAt levelStep
      dsimp only
      rw [boostAllAt_eq]
      rfl

/-- A boost leaves the running thread alone. -/
theorem boostAll_inLevels {s : Sched} (h : SchedInv s) (hs : InLevels s) :
    InLevels s.boostAll := by
  have hsame := (boostAll_inv h.toListInv).2
  constructor
  · exact (boostAll_changes h.toListInv).atLevel hs.queued
  · intro c hc hne
    rw [hsame.current, hsame.idle] at hne
    have hc' : s.currentThread = some c := hsame.current.symm.trans hc
    have hthread : s.boostAll.threads c = s.threads c :=
      boostAll_thread (h.current_count hc') h.toListInv
    rw [hthread]
    exact hs.current c hc' hne

/-- which every step keeps. -/
theorem levelStep_inv {s s' : Sched} {op : LevelOp} (h : SchedInv s ∧ InLevels s)
    (hstep : levelStep s op = some s') : SchedInv s' ∧ InLevels s' := by
  cases op with
  | call op => exact ⟨schedStep_inv h.1 hstep, step_inLevels h.1 h.2 hstep⟩
  | boost =>
      obtain rfl : s.boostAll = s' := Option.some.inj hstep
      have hlists := boostAll_inv h.1.toListInv
      exact ⟨h.1.of_same hlists.1 hlists.2, boostAll_inLevels h.1 h.2⟩

/-- In every state of every run the levels and the quanta are in range, and the
call that comes next makes no access out of range. -/
theorem levels_in_range {rootPa : Option ProcId → Nat} {idleStack reaperStack : Nat}
    {s₀ s : Sched} {ops : List LevelOp} (hstart : start rootPa idleStack reaperStack = some s₀)
    (hrun : run levelStep s₀ ops = some s) :
    InLevels s ∧ ∀ op, levelStepAt s op = some (levelStep s op) := by
  have hinv : SchedInv s ∧ InLevels s :=
    inv_of_run (I := fun s => SchedInv s ∧ InLevels s) (fun _ _ _ h hstep => levelStep_inv h hstep)
      ⟨start_inv hstart, start_inLevels hstart⟩ hrun
  exact ⟨hinv.2, levelStepAt_eq hinv.1⟩

/-- A run in which a thread uses up its quantum while another one is boosted. -/
theorem levels_in_range_run :
    ∃ s₀ s, start (fun _ => 0) 0 0 = some s₀ ∧
      run levelStep s₀ ([.call (.addThread none 0 0), .call (.addThread none 0 2)] ++
        List.replicate 6 (.call .tick) ++ [.boost, .call .yield]) = some s ∧
      InLevels s ∧ ∀ op, levelStepAt s op = some (levelStep s op) := by
  rcases exists_run levelStep ([.call (.addThread none 0 0), .call (.addThread none 0 2)] ++
      List.replicate 6 (.call .tick) ++ [.boost, .call .yield])
      (o := start (fun _ => 0) 0 0) (P := fun s => s.currentThread = some 2)
      (by decide +kernel) with ⟨s₀, s, hstart, hreach, -⟩
  exact ⟨s₀, s, hstart, hreach, levels_in_range hstart hreach⟩

end Ceryx.Proc
