import Ceryx.Proc.NoThreadLost
import Ceryx.Proc.SchedEnter

/-!
# Ceryx.Proc.NodeLinks — every intrusive node is on one list at most

`PushBack` on a node that is already linked corrupts the list it is on. A
`Thread` has two nodes: `run_node` for the three ready queues, the reaper's
`dead_list` and its `local_dead`, and `wait_node` for the wait queue.

* `nodeStep`: the scheduler's entry points and the two parts of a reaper pass.
* `linkedStep`: the same with every `PushBack` checked: it has no step when the
  node to push is linked. `pushReady?`, `pushWait?`, `pushDead?` and
  `pushLocal?` are the only places where the two differ.
* `Gone`: a thread that has terminated and was handed to the reaper is on no
  ready queue, not waiting and not running.
* `nodes_linked_once`: in every reachable state both machines take the same
  steps, and what is on the dead list stays gone.
-/

namespace Ceryx.Proc

open Sched Lib

/-! ## The reaper's thread -/

namespace Sched

/-- The first loop of a pass of `Reaper::ThreadFunc`. -/
def drainDead (s : Sched) : Sched := { s with localDead := s.localDead ++ s.deadList, deadList := [] }

/-- A step of the reaper, when it is the running thread. -/
def asReaper (s : Sched) (f : Sched → Option Sched) : Option Sched :=
  if s.currentThread = s.reaperThread then f s else none

/-- One turn of the second loop: pop a thread and delete it. -/
def reclaimOne (s : Sched) : Option Sched :=
  match s.localDead with
  | [] => none
  | _ :: rest => some { s with localDead := rest }

end Sched

/-- The scheduler's entry points and the parts of a reaper pass. -/
inductive NodeOp where
  | sched (op : SchedOp)
  | drain
  | reclaim
deriving DecidableEq, Repr

/-- A pass of the reaper begins with an empty `local_dead`. -/
def nodeStep (s : Sched) : NodeOp → Option Sched
  | .sched op => schedStep s op
  | .drain => s.asReaper fun s => if s.localDead = [] then some s.drainDead else none
  | .reclaim => s.asReaper reclaimOne

/-! ## The checked machine -/

namespace Sched

/-- `run_node` is on a list. -/
def RunLinked (s : Sched) (t : Tid) : Prop :=
  t ∈ s.readyList ∨ t ∈ s.deadList ∨ t ∈ s.localDead

instance (s : Sched) (t : Tid) : Decidable (s.RunLinked t) :=
  inferInstanceAs (Decidable (_ ∨ _))

/-- `queues[level].PushBack(&t->run_node)`. -/
def pushReady? (s : Sched) (level : Int) (t : Tid) : Option Sched :=
  if s.RunLinked t then none else some (s.pushReady level t)

/-- `g_wait_queue.list.PushBack(&t->wait_node)`. -/
def pushWait? (s : Sched) (t : Tid) : Option Sched :=
  if t ∈ s.waitQueue then none else some (s.pushWait t)

/-- `s_state.dead_list.PushBack(&t->run_node)`. -/
def pushDead? (s : Sched) (t : Tid) : Option Sched :=
  if s.RunLinked t then none else some { s with deadList := s.deadList ++ [t] }

/-- `local_dead.PushBack(node)`. -/
def pushLocal? (s : Sched) (t : Tid) : Option Sched :=
  if s.RunLinked t then none else some { s with localDead := s.localDead ++ [t] }

/-- `Scheduler::AddThread`. -/
def addThread? (s : Sched) (t : Tid) (level : Int) : Option Sched :=
  if level < 0 ∨ kNumLevels ≤ level then none
  else
    (((s.setMlfqLevel t level).setTicksRemaining t (kQuantum level)).setState t
      .ready).pushReady? level t

/-- The inner loop of `MlfqImpl::Boost`; the list is what queue `i` holds. -/
def boostLoop? (i : Int) : List Tid → Sched → Option Sched
  | [], s => some s
  | t :: rest, s =>
      let s := s.setQueue i rest
      (((s.setMlfqLevel t 0).setTicksRemaining t (kQuantum 0)).pushReady? 0 t).bind
        (boostLoop? i rest)

/-- `MlfqImpl::Boost`. -/
def boostAll? (s : Sched) : Option Sched :=
  (boostLoop? 1 (s.queues 1) s).bind fun s => boostLoop? 2 (s.queues 2) s

/-- The first part of `Scheduler::Tick`. -/
def tickClock? (s : Sched) : Option Sched :=
  let s := { s with tickCounter := (s.tickCounter + 1) % 2 ^ 64 }
  if s.tickCounter % kBoostInterval = 0 then s.boostAll? else some s

/-- The branch of `Scheduler::Tick` for an expired quantum. -/
def demote? (s : Sched) (t : Tid) : Option Sched :=
  let newLevel := demotedLevel (s.threads t).mlfqLevel
  (((s.setMlfqLevel t newLevel).setTicksRemaining t (kQuantum newLevel)).setState t
    .ready).pushReady? newLevel t

/-- `Scheduler::Tick` before its `ScheduleLocked`. -/
def tickEnter? (s : Sched) : Option (Sched × Bool) :=
  s.tickClock?.bind fun s =>
    match s.currentThread with
    | some c =>
        if s.currentThread ≠ s.idleThread then
          let s := s.chargeTick c
          if (s.threads c).ticksRemaining ≤ 0 then (s.demote? c).map fun s => (s, true)
          else some (s, false)
        else some (s, !s.mlfqEmpty)
    | none => some (s, !s.mlfqEmpty)

/-- The re-enqueueing part of `Scheduler::Yield`. -/
def requeue? (s : Sched) (t : Tid) : Option Sched :=
  let level := (s.threads t).mlfqLevel
  ((s.setState t .ready).setTicksRemaining t (kQuantum level)).pushReady? level t

/-- `Scheduler::Yield` before its `ScheduleLocked`. -/
def yieldEnter? (s : Sched) : Option Sched :=
  match s.currentThread with
  | some c =>
      if s.currentThread ≠ s.idleThread ∧ (s.threads c).state = .running then s.requeue? c
      else some s
  | none => some s

/-- `Scheduler::Block` before its `ScheduleLocked`. -/
def blockEnter? (s : Sched) (ch : Channel) : Option (Sched × Bool) :=
  match s.currentThread with
  | none => some (s, false)
  | some t =>
      (((s.setState t .blocked).setWaitChannel t (some ch)).pushWait? t).map fun s => (s, true)

/-- What `Scheduler::Wake` does to one matching thread. -/
def wakeOne? (s : Sched) (t : Tid) : Option Sched :=
  let s := { s with waitQueue := s.waitQueue.erase t }
  let s := (s.setWaitChannel t none).setState t .ready
  let level := (s.threads t).mlfqLevel
  (s.setTicksRemaining t (kQuantum level)).pushReady? level t

/-- The loop of `Scheduler::Wake`. -/
def wakeLoop? (ch : Channel) (wakeAll : Bool) : List Tid → Sched → Option Sched
  | [], s => some s
  | t :: rest, s =>
      if (s.threads t).waitChannel = some ch then
        if wakeAll then (s.wakeOne? t).bind (wakeLoop? ch wakeAll rest) else s.wakeOne? t
      else wakeLoop? ch wakeAll rest s

/-- `Reaper::Enqueue`. -/
def enqueueDead? (s : Sched) (t : Tid) : Option Sched :=
  if s.reaperThread = some t then none
  else if (s.threads t).state ≠ .terminated then none
  else s.pushDead? t

/-- The first loop of a pass of `Reaper::ThreadFunc`; the list is what the dead
list holds. -/
def drainLoop? : List Tid → Sched → Option Sched
  | [], s => some s
  | t :: rest, s => ({ s with deadList := rest }.pushLocal? t).bind (drainLoop? rest)

end Sched

/-- `enter` with every `PushBack` checked. -/
def enter? (s : Sched) : SchedOp → Option (Sched × Bool)
  | .addThread process stack level =>
      let (t, s) := s.newThread process stack
      (s.addThread? t level).map fun s => (s, false)
  | .tick => s.tickEnter?
  | .yield => s.yieldEnter?.map fun s => (s, true)
  | .block ch => if s.currentThread = s.idleThread then none else s.blockEnter? ch
  | .wake ch wakeAll => (wakeLoop? ch wakeAll s.waitQueue s).map fun s => (s, false)
  | .exit =>
      match s.currentThread with
      | none => none
      | some t =>
          if s.currentThread = s.idleThread then none
          else
            (((s.setState t .terminated).enqueueDead? t).bind yieldEnter?).map fun s => (s, true)

/-- `nodeStep` with every `PushBack` checked. `ScheduleLocked` pushes
nothing. -/
def linkedStep (s : Sched) : NodeOp → Option Sched
  | .sched op => (enter? s op).map finish
  | .drain =>
      s.asReaper fun s => if s.localDead = [] then drainLoop? s.deadList s else none
  | .reclaim => s.asReaper reclaimOne

/-! ## The invariant -/

/-- A thread that has ended and is off the CPU. -/
structure Ended (s : Sched) (t : Tid) : Prop where
  state : (s.threads t).state = .terminated
  created : Created s t
  notIdle : s.idleThread ≠ some t
  off : s.currentThread ≠ some t

/-- What the reaper's lists hold: ended threads, each once. -/
structure NodeInv (s : Sched) : Prop extends SchedInv s where
  nodup : (s.deadList ++ s.localDead).Nodup
  ended : ∀ t ∈ s.deadList ++ s.localDead, Ended s t

/-- On no ready queue, not waiting, not running. -/
structure Gone (s : Sched) (t : Tid) : Prop where
  ready : t ∉ s.readyList
  waiting : t ∉ s.waitQueue
  off : s.currentThread ≠ some t

/-- A thread that has ended is on no list but the reaper's. -/
theorem Ended.gone {s : Sched} {t : Tid} (h : ListInv s) (ht : Ended s t) : Gone s t := by
  have hcount := h.dead t ht.state
  refine ⟨?_, ListInv.not_mem_waitQueue hcount, ht.off⟩
  intro hmem
  have hpos := List.count_pos_iff.mpr hmem
  rw [listCount, readyCount] at hcount
  omega

/-! ## The checks pass -/

namespace Sched

/-- In no ready queue and not dead, its `run_node` is free. -/
theorem not_runLinked {s : Sched} {t : Tid} (hready : s.listCount t = 0)
    (hdead : t ∉ s.deadList ++ s.localDead) : ¬ s.RunLinked t := by
  rintro (hmem | hmem | hmem)
  · have hpos := List.count_pos_iff.mpr hmem
    rw [listCount, readyCount] at hready
    omega
  · exact hdead (List.mem_append_left _ hmem)
  · exact hdead (List.mem_append_right _ hmem)

/-- So pushing it is allowed, -/
theorem pushReady?_eq {s : Sched} {t : Tid} (level : Int) (hready : s.listCount t = 0)
    (hdead : t ∉ s.deadList ++ s.localDead) : s.pushReady? level t = some (s.pushReady level t) :=
  if_neg (not_runLinked hready hdead)

/-- by `AddThread`, -/
theorem addThread?_eq {s : Sched} {t : Tid} (level : Int) (hready : s.listCount t = 0)
    (hdead : t ∉ s.deadList ++ s.localDead) : s.addThread? t level = s.addThread t level := by
  unfold addThread? addThread
  split
  · rfl
  · exact pushReady?_eq level hready hdead

/-- at the end of a quantum, -/
theorem demote?_eq {s : Sched} {t : Tid} (hready : s.listCount t = 0)
    (hdead : t ∉ s.deadList ++ s.localDead) : s.demote? t = some (s.demote t) :=
  pushReady?_eq _ hready hdead

/-- or in `Yield`. -/
theorem requeue?_eq {s : Sched} {t : Tid} (hready : s.listCount t = 0)
    (hdead : t ∉ s.deadList ++ s.localDead) : s.requeue? t = some (s.requeue t) :=
  pushReady?_eq _ hready hdead

/-- A turn of the boost loop on queue 0 and what is left of queue `i` do not
meet. -/
theorem boostOne_setQueue (s : Sched) (t : Tid) {i : Int} (hi : i ≠ 0) (q : List Tid) :
    (s.boostOne t).setQueue i q = (s.setQueue i q).boostOne t := by
  simp [boostOne, setQueue, pushReady, setTicksRemaining, setMlfqLevel, updThread, Ne.symm hi,
    Function.update_comm hi]

/-- `Boost` pops each node before it pushes it; the induction is on the rest of the
queue. -/
theorem boostLoop?_eq {i : Int} (hi : i ∈ levels) (hi0 : i ≠ 0) {q : List Tid} {s : Sched}
    (h : ListInv s) (hq : s.queues i = q) (hdead : ∀ t ∈ q, t ∉ s.deadList ++ s.localDead) :
    boostLoop? i q s = some (q.foldl boostOne (s.setQueue i [])) := by
  -- over the queue: its head is unlinked by the pop before `PushBack` sees it
  induction q generalizing s with
  | nil =>
      have hsame : s.setQueue i [] = s := by simp [setQueue, ← hq]
      rw [boostLoop?, List.foldl_nil, hsame]
  | cons t q ih =>
      have hun := h.unlisted_popped hi hq
      have hpopped := h.popped hi hq
      have hpush : (((s.setQueue i q).setMlfqLevel t 0).setTicksRemaining t (kQuantum 0)).pushReady?
          0 t = some ((s.setQueue i q).boostOne t) :=
        pushReady?_eq 0 hun.count (hdead t List.mem_cons_self)
      have hnext : ListInv ((s.setQueue i q).boostOne t) :=
        boostOne_inv hpopped hun (h.ready_of_head hi hq)
      have hqueue : ((s.setQueue i q).boostOne t).queues i = q := by
        simp [boostOne, setQueue, pushReady, setTicksRemaining, setMlfqLevel, updThread, hi0]
      rw [boostLoop?, hpush, Option.bind_some, ih hnext hqueue fun u hu => hdead u (List.mem_cons_of_mem _ hu),
        boostOne_setQueue _ t hi0, List.foldl_cons]
      simp [setQueue]

/-- Both queues. -/
theorem boostAll?_eq {s : Sched} (h : ListInv s)
    (hdead : ∀ i ∈ levels, ∀ t ∈ s.queues i, t ∉ s.deadList ++ s.localDead) :
    s.boostAll? = some s.boostAll := by
  have h₁ := (boostQueue_inv h (i := 1) (by decide)).1
  have hone : boostLoop? 1 (s.queues 1) s = some (s.boostQueue 1) :=
    boostLoop?_eq (by decide) (by decide) h rfl (hdead 1 (by decide))
  -- the first loop leaves the dead lists and the second queue as they were
  have hsame : (s.boostQueue 1).deadList ++ (s.boostQueue 1).localDead =
      s.deadList ++ s.localDead :=
    boostQueue_frame (fun s => s.deadList ++ s.localDead) (fun _ _ => rfl) (fun _ _ _ => rfl) s 1
  have hq : (s.boostQueue 1).queues 2 = s.queues 2 := by
    rw [boostQueue_queue_ne s 1 (by decide)]
    simp [setQueue]
  have htwo : boostLoop? 2 ((s.boostQueue 1).queues 2) (s.boostQueue 1) =
      some ((s.boostQueue 1).boostQueue 2) := by
    refine boostLoop?_eq (by decide) (by decide) h₁ rfl ?_
    rw [hq, hsame]
    exact hdead 2 (by decide)
  rw [boostAll?, hone, Option.bind_some, htwo, boostAll]

end Sched

namespace NodeInv

variable {s : Sched}

/-- A thread in any other state than `Terminated` is not with the reaper. -/
theorem not_dead (h : NodeInv s) {t : Tid} (ht : (s.threads t).state ≠ .terminated) :
    t ∉ s.deadList ++ s.localDead := fun hmem => ht (h.ended t hmem).state

/-- The running thread has not been handed to the reaper, -/
theorem current_not_dead (h : NodeInv s) {c : Tid} (hc : s.currentThread = some c) :
    c ∉ s.deadList ++ s.localDead := fun hmem => (h.ended c hmem).off hc

/-- no ready thread has, -/
theorem ready_not_dead (h : NodeInv s) {i : Int} (hi : i ∈ levels) {t : Tid}
    (ht : t ∈ s.queues i) : t ∉ s.deadList ++ s.localDead := by
  apply h.not_dead
  rw [h.ready t (readyCount_pos.mpr ⟨i, hi, ht⟩)]
  decide

/-- and no waiting one. -/
theorem waiting_not_dead (h : NodeInv s) {t : Tid} (ht : t ∈ s.waitQueue) :
    t ∉ s.deadList ++ s.localDead := by
  apply h.not_dead
  rw [h.blocked t ht]
  decide

/-- So the checks of a tick pass, -/
theorem tickClock? (h : NodeInv s) : s.tickClock? = some s.tickClock := by
  have hcount : ListInv { s with tickCounter := (s.tickCounter + 1) % 2 ^ 64 } :=
    h.toListInv.congr rfl rfl rfl rfl rfl
  unfold Sched.tickClock? Sched.tickClock
  dsimp only
  split
  · exact boostAll?_eq hcount fun i hi t ht => h.ready_not_dead hi ht
  · rfl

/-- which does not touch the reaper's lists, -/
theorem tickClock_dead (s : Sched) :
    s.tickClock.deadList ++ s.tickClock.localDead = s.deadList ++ s.localDead := by
  unfold Sched.tickClock
  dsimp only
  split
  · exact boostAll_frame (fun s => s.deadList ++ s.localDead) (fun _ _ => rfl) (fun _ _ _ => rfl) _
  · rfl

/-- up to its dispatch. -/
theorem tickEnter? (h : NodeInv s) : s.tickEnter? = some s.tickEnter := by
  have hclock := h.toSchedInv.tickClock
  rcases hclock.current with ⟨c, hc, hcount, -⟩
  have hc' : s.currentThread = some c := (tickClock_inv h.toListInv).2.current.symm.trans hc
  have hcharged : (s.tickClock.chargeTick c).listCount c = 0 := hcount
  have hdead : c ∉ (s.tickClock.chargeTick c).deadList ++ (s.tickClock.chargeTick c).localDead := by
    change c ∉ s.tickClock.deadList ++ s.tickClock.localDead
    rw [tickClock_dead]
    exact h.current_not_dead hc'
  unfold Sched.tickEnter? Sched.tickEnter
  rw [h.tickClock?, Option.bind_some]
  simp only [hc]
  split
  · split
    · rw [demote?_eq hcharged hdead]
      rfl
    · rfl
  · rfl

end NodeInv

/-- Those of `Yield` pass, -/
theorem yieldEnter?_eq {s : Sched} {c : Tid} (hc : s.currentThread = some c)
    (hcount : s.listCount c = 0)
    (hdead : (s.threads c).state = .running → c ∉ s.deadList ++ s.localDead) :
    s.yieldEnter? = some s.yieldEnter := by
  unfold Sched.yieldEnter? Sched.yieldEnter
  simp only [hc]
  split
  · rename_i hrun
    exact requeue?_eq hcount (hdead hrun.2)
  · rfl

/-- those of `Block`, -/
theorem blockEnter?_eq {s : Sched} {c : Tid} (hc : s.currentThread = some c)
    (hcount : s.listCount c = 0) (ch : Channel) : s.blockEnter? ch = some (s.blockEnter ch) := by
  have hwait : c ∉ s.waitQueue := ListInv.not_mem_waitQueue hcount
  have hpush : ((s.setState c .blocked).setWaitChannel c (some ch)).pushWait? c =
      some (((s.setState c .blocked).setWaitChannel c (some ch)).pushWait c) := if_neg hwait
  unfold Sched.blockEnter? Sched.blockEnter
  simp only [hc]
  rw [hpush]
  rfl

/-- those of `Wake`, thread by thread, -/
theorem wakeOne?_eq {s : Sched} (h : ListInv s) {t : Tid} (ht : t ∈ s.waitQueue)
    (hdead : t ∉ s.deadList ++ s.localDead) : s.wakeOne? t = some (s.wakeOne t) :=
  pushReady?_eq _ (h.unlisted_removeWait ht).count hdead

/-- that is, over the whole wait queue, -/
theorem wakeLoop?_eq (ch : Channel) (wakeAll : Bool) {rest : List Tid} {s : Sched}
    (h : ListInv s) (hnd : rest.Nodup) (hrest : ∀ t ∈ rest, t ∈ s.waitQueue)
    (hdead : ∀ t ∈ rest, t ∉ s.deadList ++ s.localDead) :
    wakeLoop? ch wakeAll rest s = some (wakeLoop ch wakeAll rest s) := by
  induction rest generalizing s with
  | nil => rfl
  | cons t rest ih =>
      rcases List.nodup_cons.mp hnd with ⟨htr, hnd'⟩
      have ht := hrest t List.mem_cons_self
      have hrest' : ∀ u ∈ rest, u ∈ s.waitQueue := fun u hu => hrest u (List.mem_cons_of_mem _ hu)
      have hdead' : ∀ u ∈ rest, u ∉ s.deadList ++ s.localDead :=
        fun u hu => hdead u (List.mem_cons_of_mem _ hu)
      have hone := wakeOne?_eq h ht (hdead t List.mem_cons_self)
      unfold wakeLoop? wakeLoop
      split
      · cases wakeAll with
        | false => exact hone
        | true =>
            -- the threads still to visit have not left the wait queue
            have hstill : ∀ u ∈ rest, u ∈ (s.wakeOne t).waitQueue := by
              intro u hu
              have hne : u ≠ t := by
                rintro rfl
                exact htr hu
              rw [wakeOne_eq]
              exact (List.mem_erase_of_ne hne).mpr (hrest' u hu)
            simp only [if_true]
            rw [hone, Option.bind_some]
            exact ih (h.wakeOne ht) hnd' hstill hdead'
      · exact ih h hnd' hrest' hdead'

/-- those at the end of a thread, -/
theorem enqueueDead?_eq {s : Sched} {t : Tid} (hready : s.listCount t = 0)
    (hdead : t ∉ s.deadList ++ s.localDead) : s.enqueueDead? t = s.enqueueDead t := by
  unfold enqueueDead? enqueueDead
  split
  · rfl
  · split
    · rfl
    · exact if_neg (not_runLinked hready hdead)

/-- and those of the reaper's first loop. -/
theorem drainLoop?_eq {q : List Tid} {s : Sched} (hq : s.deadList = q)
    (hnd : (q ++ s.localDead).Nodup) (hready : ∀ t ∈ q, s.listCount t = 0) :
    drainLoop? q s = some { s with localDead := s.localDead ++ q, deadList := [] } := by
  induction q generalizing s with
  | nil =>
      rw [drainLoop?, List.append_nil, ← hq]
  | cons t q ih =>
      rcases List.nodup_cons.mp hnd with ⟨htq, hnd'⟩
      -- the head is unlinked before it is pushed, so only the other lists matter
      have hpush : ({ s with deadList := q }).pushLocal? t =
          some { s with deadList := q, localDead := s.localDead ++ [t] } :=
        if_neg (not_runLinked (s := { s with deadList := q }) (hready t List.mem_cons_self) htq)
      have hnext : (q ++ (s.localDead ++ [t])).Nodup := by
        rw [← List.append_assoc]
        exact List.nodup_append_comm.mp hnd
      have hrest : ∀ u ∈ q, s.listCount u = 0 := fun u hu => hready u (List.mem_cons_of_mem _ hu)
      have hloop := ih (s := { s with deadList := q, localDead := s.localDead ++ [t] }) rfl hnext hrest
      rw [drainLoop?, hpush, Option.bind_some, hloop]
      simp

/-- Before `ScheduleLocked` no entry point pushes a node that is linked. -/
theorem enter?_eq {s : Sched} (h : NodeInv s) (op : SchedOp) : enter? s op = enter s op := by
  rcases h.current with ⟨c, hc, hcount, -⟩
  cases op with
  | addThread process stack level =>
      have hnew := newThread_unlisted h.toListInv process stack
      have hdead : s.nextTid ∉ s.deadList ++ s.localDead := fun hmem =>
        Nat.lt_irrefl _ (h.ended _ hmem).created.2
      simp only [enter?, enter]
      rw [addThread?_eq level hnew.count hdead]
  | tick => exact h.tickEnter?
  | yield =>
      simp only [enter?, enter]
      rw [yieldEnter?_eq hc hcount fun _ => h.current_not_dead hc]
      rfl
  | block ch =>
      simp only [enter?, enter]
      split
      · rfl
      · exact blockEnter?_eq hc hcount ch
  | wake ch wakeAll =>
      simp only [enter?, enter]
      rw [wakeLoop?_eq ch wakeAll h.toListInv (waitQueue_nodup h.toListInv) (fun _ ht => ht)
        fun _ => h.waiting_not_dead]
      rfl
  | exit =>
      simp only [enter?, enter, hc]
      split
      · rfl
      · -- the running thread is on no list: neither on a queue nor among the dead
        have henq : (s.setState c .terminated).enqueueDead? c =
            (s.setState c .terminated).enqueueDead c :=
          enqueueDead?_eq hcount (h.current_not_dead hc)
        rw [henq]
        cases hsome : (s.setState c .terminated).enqueueDead c with
        | none => rfl
        | some s' =>
            have hend := enqueueDead_ended h.toSchedInv hc hsome
            have hyield : s'.yieldEnter? = some s'.yieldEnter := by
              refine yieldEnter?_eq (hend.current.trans hc) ((hend.count c).trans hcount) ?_
              -- it has ended by now, so `Yield` does not push it
              intro hrun
              rw [hend.state] at hrun
              cases hrun
            rw [Option.bind_some, hyield]
            rfl

/-- In a state that meets the invariant every check passes. -/
theorem linkedStep_eq {s : Sched} (h : NodeInv s) (op : NodeOp) : linkedStep s op = nodeStep s op := by
  cases op with
  | sched op =>
      simp only [linkedStep, nodeStep]
      rw [enter?_eq h, schedStep_enter]
  | drain =>
      have hloop : drainLoop? s.deadList s = some s.drainDead := by
        refine drainLoop?_eq rfl h.nodup fun t ht => ?_
        exact h.dead t (h.ended t (List.mem_append_left _ ht)).state
      simp only [linkedStep, nodeStep, asReaper]
      split
      · rw [hloop]
      · rfl
  | reclaim => rfl

/-! ## One step -/

/-- What the first half of an entry point leaves alone: ended threads, and the
reaper's lists up to a push of the running thread, which then gives up the
CPU. -/
structure Kept (s m : Sched) (calls : Bool) : Prop where
  thread : ∀ t, Ended s t → m.threads t = s.threads t
  dead : m.deadList = s.deadList ∨ calls = true ∧ ∃ c, s.currentThread = some c ∧
    s.idleThread ≠ some c ∧ (m.threads c).state = .terminated ∧ m.deadList = s.deadList ++ [c]
  localDead : m.localDead = s.localDead
  next : s.nextTid ≤ m.nextTid

/-- `Wake` does not touch the reaper's lists. -/
theorem wakeLoop_dead (ch : Channel) (wakeAll : Bool) (rest : List Tid) (s : Sched) :
    (wakeLoop ch wakeAll rest s).deadList = s.deadList ∧
      (wakeLoop ch wakeAll rest s).localDead = s.localDead := by
  induction rest generalizing s with
  | nil => exact ⟨rfl, rfl⟩
  | cons t rest ih =>
      unfold wakeLoop
      split
      · split
        · exact ih (s.wakeOne t)
        · exact ⟨rfl, rfl⟩
      · exact ih s

/-- `Yield` writes the running thread only, -/
theorem yieldEnter_ne {s : Sched} {t : Tid} (ht : s.currentThread ≠ some t) :
    s.yieldEnter.threads t = s.threads t := by
  unfold yieldEnter
  split
  · rename_i c hc
    have hne : t ≠ c := by
      rintro rfl
      exact ht hc
    split
    · rw [requeue_eq, pushReady_threads]
      exact updThread_ne s _ hne
    · rfl
  · rfl

/-- and whatever a requeue keeps it keeps. -/
theorem yieldEnter_frame {β : Type} (g : Sched → β) (hg : ∀ s t, g (s.requeue t) = g s)
    (s : Sched) : g s.yieldEnter = g s := by
  unfold yieldEnter
  split
  · split
    · exact hg s _
    · rfl
  · rfl

/-- A tick does not write a thread that has ended, -/
theorem tickEnter_ne {s : Sched} (h : SchedInv s) {t : Tid} (ht : Ended s t) :
    s.tickEnter.1.threads t = s.threads t := by
  have hclock : s.tickClock.threads t = s.threads t :=
    tickClock_thread (h.dead t ht.state) h.toListInv
  have hcurrent := (tickClock_inv h.toListInv).2.current
  unfold tickEnter
  dsimp only
  split
  · rename_i c hc
    -- a tick writes to the running thread, and that one has not ended
    have hne : t ≠ c := by
      rintro rfl
      exact ht.off (hcurrent.symm.trans hc)
    have hcharge : (s.tickClock.chargeTick c).threads t = s.threads t :=
      (updThread_ne _ _ hne).trans hclock
    split
    · split
      · dsimp only
        rw [demote_eq, pushReady_threads]
        exact (updThread_ne _ _ hne).trans hcharge
      · exact hcharge
    · exact hclock
  · exact hclock

/-- and keeps what clock, charge and demotion keep. -/
theorem tickEnter_frame {β : Type} (g : Sched → β) (hclock : ∀ s, g (tickClock s) = g s)
    (hcharge : ∀ s t, g (s.chargeTick t) = g s) (hdemote : ∀ s t, g (s.demote t) = g s)
    (s : Sched) : g s.tickEnter.1 = g s := by
  unfold tickEnter
  dsimp only
  split
  · split
    · split
      · exact (hdemote _ _).trans ((hcharge _ _).trans (hclock s))
      · exact (hcharge _ _).trans (hclock s)
    · exact hclock s
  · exact hclock s

/-- The clock keeps what the moves of a boost keep. -/
theorem tickClock_frame {β : Type} (g : Sched → β) (hboost : ∀ s t, g (s.boostOne t) = g s)
    (hset : ∀ (s : Sched) i q, g (s.setQueue i q) = g s)
    (hcount : ∀ (s : Sched) n, g { s with tickCounter := n } = g s) (s : Sched) :
    g s.tickClock = g s := by
  unfold Sched.tickClock
  dsimp only
  split
  · exact (boostAll_frame g hboost hset _).trans (hcount s _)
  · exact hcount s _

/-- What every call keeps up to its dispatch. -/
theorem enter_kept {s m : Sched} {op : SchedOp} {calls : Bool} (h : SchedInv s)
    (henter : enter s op = some (m, calls)) : Kept s m calls := by
  rcases h.current with ⟨c, hc, -⟩
  -- the running thread has not ended
  have hne : ∀ t, Ended s t → t ≠ c := by
    rintro t ht rfl
    exact ht.off hc
  cases enter_cases hc henter with
  | @addThread process stack level _ hadd =>
      rcases addThread_eq hadd with ⟨-, rfl⟩
      refine ⟨fun t ht => ?_, Or.inl rfl, rfl, Nat.le_succ _⟩
      have hold : t ≠ s.nextTid := Nat.ne_of_lt ht.created.2
      rw [pushReady_threads]
      refine (updThread_ne _ _ hold).trans ?_
      simp [newThread, hold]
  | tick htick =>
      obtain rfl : s.tickEnter.1 = m := congrArg Prod.fst htick
      have hframe : ∀ {β : Type} (g : Sched → β), (∀ s t, g (s.boostOne t) = g s) →
          (∀ (s : Sched) i q, g (s.setQueue i q) = g s) →
          (∀ (s : Sched) n, g { s with tickCounter := n } = g s) →
          (∀ s t, g (s.chargeTick t) = g s) → (∀ s t, g (s.demote t) = g s) →
          g s.tickEnter.1 = g s := fun g hboost hset hcount hcharge hdemote =>
        tickEnter_frame g (tickClock_frame g hboost hset hcount) hcharge hdemote s
      refine ⟨fun t ht => tickEnter_ne h ht, Or.inl ?_, ?_, Nat.le_of_eq ?_⟩
      · exact hframe Sched.deadList (fun _ _ => rfl) (fun _ _ _ => rfl) (fun _ _ => rfl)
          (fun _ _ => rfl) (fun _ _ => rfl)
      · exact hframe Sched.localDead (fun _ _ => rfl) (fun _ _ _ => rfl) (fun _ _ => rfl)
          (fun _ _ => rfl) (fun _ _ => rfl)
      · exact (hframe Sched.nextTid (fun _ _ => rfl) (fun _ _ _ => rfl) (fun _ _ => rfl)
          (fun _ _ => rfl) (fun _ _ => rfl)).symm
  | yield =>
      exact ⟨fun t ht => yieldEnter_ne ht.off,
        Or.inl (yieldEnter_frame Sched.deadList (fun _ _ => rfl) s),
        yieldEnter_frame Sched.localDead (fun _ _ => rfl) s,
        Nat.le_of_eq (yieldEnter_frame Sched.nextTid (fun _ _ => rfl) s).symm⟩
  | block ch hidle =>
      refine ⟨fun t ht => ?_, Or.inl rfl, rfl, Nat.le_refl _⟩
      rw [parkOn_eq, pushWait_threads]
      exact updThread_ne s _ (hne t ht)
  | wake ch wakeAll =>
      have hwoken := (wake_inv h.toListInv ch wakeAll).2
      have hdead := wakeLoop_dead ch wakeAll s.waitQueue s
      refine ⟨fun t ht => hwoken.thread t ?_, Or.inl hdead.1, hdead.2, Nat.le_of_eq hwoken.next.symm⟩
      exact ListInv.not_mem_waitQueue (h.dead t ht.state)
  | exit hidle hdead =>
      have hend := enqueueDead_ended h hc hdead
      have hstay := yieldEnter_ended hend.state (hend.current.trans hc)
      have hlists := enqueueDead_eq hdead
      rw [hstay]
      rw [hc] at hidle
      -- the thread that ends is the one that goes on the dead list
      refine ⟨fun t ht => hend.thread t (hne t ht), Or.inr ⟨rfl, c, hc, ?_, hend.state, ?_⟩, ?_, ?_⟩
      · exact fun hd => hidle hd.symm
      · rw [hlists]
        rfl
      · rw [hlists]
        rfl
      · exact Nat.le_of_eq hend.next.symm

/-- An ended thread is not the one `ScheduleLocked` switches to, and it is
switched away from. -/
theorem scheduleLocked_ended {s : Sched} (h : ListInv s) {p t : Tid} (hp : s.currentThread = some p)
    (hstate : (s.threads t).state = .terminated) (hcreated : Created s t)
    (hidle : s.idleThread ≠ some t) : Ended s.scheduleLocked t := by
  have hcount := h.dead t hstate
  have hframe : Created s.scheduleLocked t ∧ s.scheduleLocked.idleThread ≠ some t := by
    rw [Created, scheduleLocked_frame Sched.nextTid (fun _ _ _ => rfl) (fun _ _ => rfl),
      scheduleLocked_frame Sched.idleThread (fun _ _ _ => rfl) (fun _ _ => rfl)]
    exact ⟨hcreated, hidle⟩
  rcases h.idle with ⟨d, hd, -⟩
  have htd : t ≠ d := by
    rintro rfl
    exact hidle hd
  rcases scheduleLocked_cases hp hd with
    ⟨-, ⟨rfl, heq⟩ | ⟨-, heq⟩⟩ | ⟨i, hi, u, rest, hq, -, ⟨rfl, heq⟩ | ⟨-, heq⟩⟩
  · -- the idle thread is next, and `t` is another one
    refine ⟨?_, hframe.1, hframe.2, ?_⟩
    · rw [heq]
      exact hstate
    · rw [heq, hp]
      exact fun he => htd (Option.some.inj he).symm
  · refine ⟨?_, hframe.1, hframe.2, ?_⟩
    · rw [heq, performSwitch_ne s htd]
      exact hstate
    · rw [heq]
      exact fun he => htd (Option.some.inj he).symm
  all_goals
    -- the next thread comes from a queue, where no ended thread is
    have hut : t ≠ u := by
      rintro rfl
      have hpos := ListInv.listed_of_head hi hq
      omega
    refine ⟨?_, hframe.1, hframe.2, ?_⟩
  · rw [heq]
    exact hstate
  · rw [heq]
    exact fun he => hut (Option.some.inj (hp.symm.trans he)).symm
  · rw [heq, performSwitch_ne _ hut]
    exact hstate
  · rw [heq]
    exact fun he => hut (Option.some.inj he).symm

/-- An ended thread stays ended. -/
theorem Ended.step {s s' : Sched} {op : SchedOp} (h : SchedInv s) {t : Tid} (ht : Ended s t)
    (hstep : schedStep s op = some s') : Ended s' t := by
  rcases h.current with ⟨c, hc, -⟩
  rcases schedStep_cases hstep with ⟨henter, -⟩ | ⟨m, henter, rfl, -⟩
  all_goals
    have hkept := enter_kept h henter
    have hsame := enter_same h henter
    have hstate := (congrArg Thread.state (hkept.thread t ht)).trans ht.state
    have hcreated : Created _ t := ⟨ht.created.1, Nat.lt_of_lt_of_le ht.created.2 hkept.next⟩
  · exact ⟨hstate, hcreated, hsame.2 ▸ ht.notIdle, hsame.1 ▸ ht.off⟩
  · exact scheduleLocked_ended (enter_inv h henter) (hsame.1.trans hc) hstate hcreated
      (hsame.2 ▸ ht.notIdle)

/-- What an entry point does to the reaper's lists. -/
theorem step_lists {s s' : Sched} {op : SchedOp} (h : SchedInv s)
    (hstep : schedStep s op = some s') :
    s'.localDead = s.localDead ∧ (s'.deadList = s.deadList ∨
      ∃ c, s.currentThread = some c ∧ Ended s' c ∧ s'.deadList = s.deadList ++ [c]) := by
  rcases schedStep_cases hstep with ⟨henter, -⟩ | ⟨m, henter, rfl, -⟩
  · -- the steps without `ScheduleLocked` do not exit
    have hkept := enter_kept h henter
    refine ⟨hkept.localDead, Or.inl (hkept.dead.resolve_right ?_)⟩
    rintro ⟨hcalls, -⟩
    cases hcalls
  · have hkept := enter_kept h henter
    have hsame := enter_same h henter
    have hdead := scheduleLocked_frame Sched.deadList (fun _ _ _ => rfl) (fun _ _ => rfl) m
    have hlocal := scheduleLocked_frame Sched.localDead (fun _ _ _ => rfl) (fun _ _ => rfl) m
    refine ⟨hlocal.trans hkept.localDead, ?_⟩
    -- with it: only `Exit` puts the running thread on the dead list
    rcases hkept.dead with hsame' | ⟨-, c, hc, hidle, hstate, hpush⟩
    · exact Or.inl (hdead.trans hsame')
    · refine Or.inr ⟨c, hc, ?_, hdead.trans hpush⟩
      have hcreated := h.current_created hc
      exact scheduleLocked_ended (enter_inv h henter) (hsame.1.trans hc) hstate
        ⟨hcreated.1, Nat.lt_of_lt_of_le hcreated.2 hkept.next⟩ (hsame.2 ▸ hidle)

/-- A step of the reaper moves threads between its lists or drops them. -/
theorem reaper_lists {s s' : Sched} {op : NodeOp} (hop : ∀ o, op ≠ .sched o)
    (hstep : nodeStep s op = some s') :
    ∃ dead loc, s' = { s with deadList := dead, localDead := loc } ∧
      List.Subperm (dead ++ loc) (s.deadList ++ s.localDead) := by
  cases op with
  | sched o => exact absurd rfl (hop o)
  -- both lists together hold what they held
  | drain =>
      simp only [nodeStep, asReaper] at hstep
      split at hstep
      · split at hstep
        · refine ⟨[], s.localDead ++ s.deadList, (Option.some.inj hstep).symm, ?_⟩
          rw [List.nil_append]
          exact List.perm_append_comm.subperm
        · cases hstep
      · cases hstep
  -- the head of the local list goes
  | reclaim =>
      simp only [nodeStep, asReaper, reclaimOne] at hstep
      split at hstep
      · split at hstep
        · cases hstep
        · rename_i t rest hlocal
          refine ⟨s.deadList, rest, (Option.some.inj hstep).symm, ?_⟩
          rw [hlocal]
          exact ((List.sublist_cons_self t rest).append_left _).subperm
      · cases hstep

/-- `NodeInv` is inductive. -/
theorem NodeInv.step {s s' : Sched} {op : NodeOp} (h : NodeInv s)
    (hstep : nodeStep s op = some s') : NodeInv s' := by
  -- a step of the scheduler, or one of the reaper
  by_cases hop : ∃ o, op = .sched o
  · rcases hop with ⟨o, rfl⟩
    have hinv := schedStep_inv h.toSchedInv hstep
    have hended : ∀ t ∈ s.deadList ++ s.localDead, Ended s' t :=
      fun t ht => (h.ended t ht).step h.toSchedInv hstep
    rcases step_lists h.toSchedInv hstep with ⟨hlocal, hdead | ⟨c, hc, hended', hdead⟩⟩
    · refine ⟨hinv, ?_, ?_⟩
      · rw [hdead, hlocal]
        exact h.nodup
      · rw [hdead, hlocal]
        exact hended
    · -- the exiting thread was on the CPU, so it is new to the lists
      have hperm : List.Perm (s'.deadList ++ s'.localDead) (c :: (s.deadList ++ s.localDead)) := by
        rw [hdead, hlocal, List.append_assoc]
        exact List.perm_middle
      refine ⟨hinv, ?_, ?_⟩
      · exact hperm.nodup_iff.mpr (List.nodup_cons.mpr ⟨h.current_not_dead hc, h.nodup⟩)
      · intro t ht
        rcases List.mem_cons.mp (hperm.mem_iff.mp ht) with rfl | hold
        · exact hended'
        · exact hended t hold
  · rcases reaper_lists (fun o ho => hop ⟨o, ho⟩) hstep with ⟨dead, loc, rfl, hsub⟩
    refine ⟨h.toSchedInv.setReaperLists dead loc, ?_, ?_⟩
    · rcases hsub with ⟨l, hperm, hsublist⟩
      exact hperm.nodup_iff.mp (h.nodup.sublist hsublist)
    · intro t ht
      have hold := h.ended t (List.Subperm.subset hsub ht)
      exact ⟨hold.state, hold.created, hold.notIdle, hold.off⟩

/-- An ended thread stays ended. -/
theorem Ended.nodeStep {s s' : Sched} {op : NodeOp} (h : NodeInv s) {t : Tid} (ht : Ended s t)
    (hstep : nodeStep s op = some s') : Ended s' t := by
  by_cases hop : ∃ o, op = .sched o
  · rcases hop with ⟨o, rfl⟩
    exact ht.step h.toSchedInv hstep
  · rcases reaper_lists (fun o ho => hop ⟨o, ho⟩) hstep with ⟨dead, loc, rfl, -⟩
    exact ⟨ht.state, ht.created, ht.notIdle, ht.off⟩

/-! ## Runs -/

/-- At the start no thread has ended. -/
theorem start_nodeInv {rootPa : Option ProcId → Nat} {idleStack reaperStack : Nat} {s : Sched}
    (hstart : start rootPa idleStack reaperStack = some s) : NodeInv s := by
  have hinv := start_inv hstart
  rw [start_eq] at hstart
  rcases addThread_eq hstart with ⟨-, rfl⟩
  refine ⟨hinv, List.nodup_nil, ?_⟩
  intro t ht
  cases ht

/-- In every state a run from `Scheduler::Start` reaches, no entry point and no
reaper pass pushes a node that is linked, and a thread on the dead list is and
stays on no ready queue, not waiting and not running. -/
theorem nodes_linked_once {rootPa : Option ProcId → Nat} {idleStack reaperStack : Nat}
    {s₀ s : Sched} {ops : List NodeOp} (hstart : start rootPa idleStack reaperStack = some s₀)
    (hrun : run nodeStep s₀ ops = some s) :
    (∀ op, linkedStep s op = nodeStep s op) ∧
      ∀ t ∈ s.deadList, ∀ ops', Always nodeStep (fun s' => Gone s' t) s ops' := by
  have h : NodeInv s := inv_of_run (fun _ _ _ hi hstep => hi.step hstep) (start_nodeInv hstart) hrun
  refine ⟨linkedStep_eq h, ?_⟩
  intro t ht ops'
  have hended := h.ended t (List.mem_append_left _ ht)
  have hstays : Always nodeStep (fun s' => NodeInv s' ∧ Ended s' t) s ops' :=
    always_of_inv (fun _ _ _ hi hstep => ⟨hi.1.step hstep, hi.2.nodeStep hi.1 hstep⟩) ops'
      ⟨h, hended⟩
  exact hstays.mono fun _ hi => hi.2.gone hi.1.toListInv

/-- A thread that has ended waits on the dead list. -/
theorem one_dead_linked_once :
    ∃ s₀ s, start (fun _ => 0) 0 0 = some s₀ ∧
      run nodeStep s₀ [.sched (.addThread none 0 0), .sched .tick, .sched .exit] = some s ∧
      s.deadList = [3] ∧ (∀ op, linkedStep s op = nodeStep s op) ∧
      ∀ t ∈ s.deadList, ∀ ops', Always nodeStep (fun s' => Gone s' t) s ops' := by
  rcases exists_run nodeStep [.sched (.addThread none 0 0), .sched .tick, .sched .exit]
      (o := start (fun _ => 0) 0 0) (P := fun s => s.deadList = [3]) (by decide +kernel)
    with ⟨s₀, s, hstart, hrun, hdead⟩
  exact ⟨s₀, s, hstart, hrun, hdead, nodes_linked_once hstart hrun⟩

end Ceryx.Proc
