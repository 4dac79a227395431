import Ceryx.Proc.ReadyLine
import Ceryx.Proc.SchedLock

/-!
# Ceryx.Proc.LineRefines — the scheduler refines the line

The three ready queues stand for one line, level by level, and the scheduler's
entry points do to them what the abstract machine does to the line. The boost
changes the levels of the line and nothing else.

* `ofSched`: the abstract state that a scheduler state stands for.
* `Midway`: the state in the middle of an entry point, where the fields of the
  running thread have already been changed for the queue it stands in.
* `scheduleLocked_refines`: `ScheduleLocked` serves the line.
* `step_refines`, `sched_is_line`: one call, and every run.
* `no_overtaking`: what follows for the order of the ready threads.
-/

namespace Ceryx.Proc

open Lib Sched

namespace LineSched

/-- The line that the ready queues stand for. -/
def lineOf (queues : Int → List Tid) : Line Int Tid where
  entries := bucketEntries levels queues
  ordered := ordered_bucketEntries (by decide) queues

/-- What the wait queue says of a thread. -/
def sleeperOf (threads : Tid → Thread) (t : Tid) : Sleeper :=
  ⟨t, (threads t).mlfqLevel, (threads t).waitChannel⟩

/-- What the fields of the running thread say of its turn: it is marked `Ready`
when it was popped again. -/
def turnFields (c : Tid) (th : Thread) : Turn where
  thread := c
  level := th.mlfqLevel
  left := th.ticksRemaining
  again := th.state ≠ .running

/-- The turn of the running thread. -/
def turnOf (s : Sched) : Option Turn :=
  if s.currentThread = s.idleThread then none
  else s.currentThread.map fun c => turnFields c (s.threads c)

/-- The abstract state. -/
def ofSched (s : Sched) : LineSched where
  line := lineOf s.queues
  parked := s.waitQueue.map (sleeperOf s.threads)
  turn := turnOf s
  reaper := s.reaperThread
  clock := s.tickCounter
  next := s.nextTid

/-- The line has the ready threads, level by level. -/
theorem lineOf_members (s : Sched) : (lineOf s.queues).members = s.readyList :=
  bucketEntries_members levels s.queues

/-! ## Pieces of the entry points -/

/-- A push on a queue is an entry at its level. -/
theorem lineOf_push {queues : Int → List Tid} {l : Int} (hl : l ∈ levels) (t : Tid) :
    lineOf (Function.update queues l (queues l ++ [t])) = (lineOf queues).enter l t :=
  Line.ext (bucketEntries_push (by decide) hl t)

/-- The first nonempty queue serves the line. -/
theorem lineOf_serve {queues : Int → List Tid} {i : Int} (hi : i ∈ levels) {t : Tid}
    {rest : List Tid} (hq : queues i = t :: rest)
    (hbefore : ∀ j ∈ levels, j < i → queues j = []) :
    (lineOf queues).serve? = some ((i, t), lineOf (Function.update queues i rest)) :=
  Line.serve?_cons (bucketEntries_pop (by decide) hi hq hbefore)

/-- With all queues empty there is no one to serve. -/
theorem lineOf_empty {queues : Int → List Tid} (h : ∀ i ∈ levels, queues i = []) :
    (lineOf queues).serve? = none :=
  Line.serve?_nil (bucketEntries_nil h)

/-- The boost drains the queues of level 1 and 2 into the first one, level by
level. -/
theorem lineOf_boost (s : Sched) : lineOf s.boostAll.queues = (lineOf s.queues).raise 0 := by
  have hothers : ∀ j ∈ ([1, 2] : List Int), s.boostAll.queues j = [] := by
    intro j hj
    have hlevel : j ∈ levels := List.mem_cons_of_mem 0 hj
    apply boostAll_queue s hlevel
    rintro rfl
    simp at hj
  exact Line.ext (bucketEntries_merge (boostAll_queue_zero s) hothers)

/-- Fields of a thread that does not wait. -/
theorem sleepers_updThread {s : Sched} {t : Tid} (ht : t ∉ s.waitQueue) (f : Thread → Thread) :
    s.waitQueue.map (sleeperOf (s.updThread t f).threads) =
      s.waitQueue.map (sleeperOf s.threads) := by
  apply List.map_congr_left
  intro u hu
  have hne : u ≠ t := fun he => ht (he ▸ hu)
  unfold sleeperOf
  rw [updThread_ne s f hne]

/-- The fields that `PerformSwitch` writes are not the sleepers'. -/
theorem sleepers_performSwitch (s : Sched) (n : Tid) :
    (s.performSwitch n).waitQueue.map (sleeperOf (s.performSwitch n).threads) =
      s.waitQueue.map (sleeperOf s.threads) := by
  apply List.map_congr_left
  intro u _
  have hlevel : ((s.performSwitch n).threads u).mlfqLevel = (s.threads u).mlfqLevel :=
    updThread_field Thread.mlfqLevel { s with currentThread := some n } n
      (f := fun th => { th with state := .running }) rfl u
  have hchannel : ((s.performSwitch n).threads u).waitChannel = (s.threads u).waitChannel :=
    updThread_field Thread.waitChannel { s with currentThread := some n } n
      (f := fun th => { th with state := .running }) rfl u
  unfold sleeperOf
  rw [hlevel, hchannel]

/-- Who has the processor. -/
def runner (s : Sched) : Option Tid :=
  if s.currentThread = s.idleThread then none else s.currentThread

/-- The turn belongs to the running thread. -/
theorem runner_eq (s : Sched) : (turnOf s).map Turn.thread = runner s := by
  unfold turnOf runner
  split
  · rfl
  · cases s.currentThread with
    | none => rfl
    | some c => rfl

/-- What a turn records of it. -/
theorem turnOf_running {s : Sched} {c : Tid} (hc : s.currentThread = some c)
    (hne : s.currentThread ≠ s.idleThread) :
    turnOf s = some (turnFields c (s.threads c)) := by
  unfold turnOf
  rw [if_neg hne, hc]
  rfl

/-- The idle thread has no turn. -/
theorem turnOf_idle {s : Sched} (h : s.currentThread = s.idleThread) : turnOf s = none :=
  if_pos h

/-- A turn depends on the running thread's own fields. -/
theorem turnOf_congr {s m : Sched} (hcurrent : m.currentThread = s.currentThread)
    (hidle : m.idleThread = s.idleThread)
    (hthread : ∀ c, s.currentThread = some c → m.threads c = s.threads c) :
    turnOf m = turnOf s := by
  unfold turnOf
  rw [hcurrent, hidle]
  split
  · rfl
  · cases hc : s.currentThread with
    | none => rfl
    | some c => exact congrArg (fun th => some (turnFields c th)) (hthread c hc)

/-- `L` is the abstract state in the middle of an entry point: it still has the
turn from before. -/
structure Midway (m : Sched) (L : LineSched) : Prop where
  state : L = { ofSched m with turn := L.turn }
  turn : L.turn.map Turn.thread = runner m

/-- A thread that neither runs in the abstract state nor waits changes its
fields. -/
theorem ofSched_updThread {s : Sched} {t : Tid} (ht : t ∉ s.waitQueue) (f : Thread → Thread) :
    ofSched (s.updThread t f) = { ofSched s with turn := turnOf (s.updThread t f) } := by
  unfold ofSched
  have hsleepers := sleepers_updThread ht f
  simp only [← hsleepers]
  rfl

/-- A thread that does not wait is pushed. -/
theorem ofSched_push {s : Sched} {t : Tid} (ht : t ∉ s.waitQueue) (f : Thread → Thread) {l : Int}
    (hl : l ∈ levels) :
    ofSched ((s.updThread t f).pushReady l t) =
      { (ofSched s).enter l t with turn := turnOf ((s.updThread t f).pushReady l t) } := by
  have hline : lineOf ((s.updThread t f).pushReady l t).queues = (lineOf s.queues).enter l t :=
    lineOf_push hl t
  have hsleepers := sleepers_updThread ht f
  unfold ofSched enter
  simp only [← hsleepers, ← hline]
  rfl

end LineSched

open LineSched

/-! ## ScheduleLocked -/

/-- `ScheduleLocked` is the line's dispatch, from any state on the way of a step. -/
theorem scheduleLocked_refines {m : Sched} {L : LineSched} (h : ListInv m)
    (hat : InQueues AtLevel m) {p : Tid} (hp : m.currentThread = some p) (hL : Midway m L) :
    ([m.popBest.1], ofSched m.scheduleLocked) = L.dispatch := by
  rcases h.idle with ⟨d, hd, hdcount, -⟩
  have hline : L.line = lineOf m.queues := congrArg LineSched.line hL.state
  have hpop := popBest_head m
  have hstate := hL.state
  rcases scheduleLocked_cases hp hd with
    ⟨hempty, hidle⟩ | ⟨i, hi, t, rest, hq, hbefore, hswitch⟩
  · -- nothing is ready
    have hnil : m.readyList = [] := List.flatMap_eq_nil_iff.mpr hempty
    rw [hnil] at hpop
    unfold LineSched.dispatch
    rw [hline, lineOf_empty hempty, hpop, hstate]
    rcases hidle with ⟨rfl, heq⟩ | ⟨-, heq⟩
    · rw [heq]
      have hturn : turnOf m = none := turnOf_idle (hp.trans hd.symm)
      unfold ofSched
      rw [hturn]
      rfl
    · rw [heq]
      have hturn : turnOf (m.performSwitch d) = none := turnOf_idle hd.symm
      have hsleepers := sleepers_performSwitch m d
      unfold ofSched
      rw [hturn, hsleepers]
      rfl
  · -- the head of queue `i`
    have hserve := lineOf_serve hi hq hbefore
    have hhead : m.readyList.head? = some t := by
      rw [← lineOf_members, Line.members, Line.entries_of_serve? hserve]
      rfl
    have hthread : AtLevel i (m.threads t) := hat i hi t (by rw [hq]; exact List.mem_cons_self)
    have htd : some t ≠ m.idleThread := by
      have hlisted := (h.listed (ListInv.listed_of_head hi hq)).2
      exact Ne.symm hlisted
    unfold LineSched.dispatch
    rw [hline, hserve, hpop, hhead, hstate]
    rcases hswitch with ⟨rfl, heq⟩ | ⟨hne, heq⟩
    · -- it is the running thread itself, which goes on
      have hready : (m.threads t).state = .ready := h.ready_of_head hi hq
      have hrunner : L.turn.map Turn.thread = some t := by
        rw [hL.turn, runner, if_neg (by rw [hp]; exact htd), hp]
      have hturn : turnOf (m.setQueue i rest) =
          some { thread := t, level := i, left := kQuantum i, again := true } := by
        have hne : m.currentThread ≠ m.idleThread := by
          rw [hp]
          exact htd
        rw [turnOf_running (s := m.setQueue i rest) hp hne]
        simp [setQueue, turnFields, hready, hthread.1, hthread.2]
      rw [heq]
      unfold ofSched
      rw [hturn]
      simp only [hrunner, decide_true]
      rfl
    · have hrunner : L.turn.map Turn.thread ≠ some t := by
        rw [hL.turn, runner]
        split
        · simp
        · rw [hp]
          exact fun he => hne (Option.some.inj he).symm
      have hturn : turnOf ((m.setQueue i rest).performSwitch t) =
          some { thread := t, level := i, left := kQuantum i, again := false } := by
        have hrun : ((m.setQueue i rest).performSwitch t).threads t =
            { m.threads t with state := .running } :=
          updThread_self (m.setQueue i rest) t fun th => { th with state := .running }
        rw [turnOf_running (c := t) rfl htd, hrun]
        simp [turnFields, hthread.1, hthread.2]
      have hsleepers := sleepers_performSwitch (m.setQueue i rest) t
      rw [heq]
      unfold ofSched
      rw [hturn, hsleepers]
      simp only [hrunner, decide_false]
      rfl

/-! ## The first half of an entry point -/

/-- A waiting thread is in no ready queue. -/
theorem ListInv.not_ready {s : Sched} (h : ListInv s) {t : Tid} (ht : t ∈ s.waitQueue) {i : Int}
    (hi : i ∈ levels) : t ∉ s.queues i := by
  intro hmem
  have hready := h.ready t (readyCount_pos.mpr ⟨i, hi, hmem⟩)
  rw [h.blocked t ht] at hready
  exact ThreadState.noConfusion hready

/-- A thread in another queue is not boosted with this one. -/
theorem boostQueue_thread {s : Sched} {i : Int} {t : Tid} (ht : t ∉ s.queues i) :
    (s.boostQueue i).threads t = s.threads t := by
  have hloop : ∀ (q : List Tid) (s : Sched), t ∉ q →
      (q.foldl boostOne s).threads t = s.threads t := by
    intro q
    induction q with
    | nil => exact fun s _ => rfl
    | cons u q ih =>
        intro s hq
        have hne : t ≠ u := fun he => hq (he ▸ List.mem_cons_self)
        rw [List.foldl_cons, ih _ fun hmem => hq (List.mem_cons_of_mem _ hmem), boostOne_eq,
          pushReady_threads, updThread_ne s _ hne]
  exact hloop (s.queues i) _ ht

/-- The boost does not touch the waiting threads. -/
theorem boostAll_sleepers {s : Sched} (h : ListInv s) :
    s.boostAll.waitQueue.map (sleeperOf s.boostAll.threads) =
      s.waitQueue.map (sleeperOf s.threads) := by
  rw [(boostAll_inv h).2.wait]
  apply List.map_congr_left
  intro t ht
  have hsecond : t ∉ (s.boostQueue 1).queues 2 := by
    rw [boostQueue_queue_ne s 1 (by decide)]
    exact h.not_ready ht (by decide)
  have hthread : s.boostAll.threads t = s.threads t :=
    (boostQueue_thread hsecond).trans (boostQueue_thread (h.not_ready ht (by decide)))
  unfold sleeperOf
  rw [hthread]

/-- The tick counter, with its boost, is the line's clock. -/
theorem ofSched_tickClock {s : Sched} (h : SchedInv s) :
    ofSched s.tickClock = (ofSched s).clockTick := by
  rcases h.current with ⟨c, hc, hcount, -⟩
  have hsame := (tickClock_inv h.toListInv).2
  have hturn : turnOf s.tickClock = turnOf s := by
    apply turnOf_congr hsame.current hsame.idle
    intro c' hc'
    obtain rfl : c = c' := Option.some.inj (hc.symm.trans hc')
    exact tickClock_thread hcount h.toListInv
  -- the boost runs after the counter has moved on
  have hcounted : ListInv { s with tickCounter := (s.tickCounter + 1) % 2 ^ 64 } :=
    h.toListInv.congr rfl rfl rfl rfl rfl
  have hsleepers := boostAll_sleepers hcounted
  have hline := lineOf_boost { s with tickCounter := (s.tickCounter + 1) % 2 ^ 64 }
  have hframe := boostAll_frame (fun s => (s.reaperThread, s.tickCounter, s.nextTid))
    (fun _ _ => rfl) (fun _ _ _ => rfl) { s with tickCounter := (s.tickCounter + 1) % 2 ^ 64 }
  unfold ofSched LineSched.clockTick
  rw [hturn]
  unfold tickClock
  dsimp only at hline hsleepers hframe ⊢
  -- on a boost tick the queues become one, in the order of the line
  by_cases hboost : (s.tickCounter + 1) % 2 ^ 64 % kBoostInterval = 0
  · rw [if_pos hboost, if_pos hboost, hline, hsleepers]
    injection hframe with hreaper hframe
    injection hframe with hclock hnext
    rw [hreaper, hclock, hnext]
  · rw [if_neg hboost, if_neg hboost]

/-- The state in the middle of an entry point of the running thread. -/
theorem Midway.of_same {s m : Sched} {L : LineSched} (hcurrent : m.currentThread = s.currentThread)
    (hidle : m.idleThread = s.idleThread) (hturn : L.turn = turnOf s)
    (hstate : L = { ofSched m with turn := L.turn }) : Midway m L where
  state := hstate
  turn := by
    rw [hturn, runner_eq]
    unfold runner
    rw [hcurrent, hidle]

/-! ## One call -/

/-- One call, with what its `PopBest` returned. -/
def servingStep (s : Sched) (op : SchedOp) : Option (List (Option Tid) × Sched) :=
  (schedStep s op).map fun s' => (popped s op, s')

/-- A step that reports who was served: what comes before the dispatch, and the
dispatch. -/
theorem servingStep_enter (s : Sched) (op : SchedOp) :
    servingStep s op = (enter s op).map fun e =>
      if e.2 then ([e.1.popBest.1], e.1.scheduleLocked) else ([], e.1) := by
  unfold servingStep popped
  rw [schedStep_enter]
  rcases Option.eq_none_or_eq_some (enter s op) with henter | ⟨⟨m, calls⟩, henter⟩
  · rw [henter]
    rfl
  · rw [henter]
    cases calls with
    | false => rfl
    | true => rfl

/-- A call that returns early. -/
theorem keeps_refines {s m : Sched} {op : SchedOp} (henter : enter s op = some (m, false)) :
    (servingStep s op).map (Prod.map id ofSched) = some ([], ofSched m) := by
  rw [servingStep_enter, henter]
  rfl

/-- A call that serves the line. -/
theorem serves_refines {s m : Sched} {op : SchedOp} {L : LineSched} (h : SchedInv s)
    (hl : InLevels s) (henter : enter s op = some (m, true)) (hL : Midway m L) :
    (servingStep s op).map (Prod.map id ofSched) = some L.dispatch := by
  rcases h.current with ⟨c, hc, -⟩
  have hinv := enter_inv h henter
  have hcurrent := (enter_same h henter).1.trans hc
  have hat := (enter_changes h henter).atLevel hl.queued
  rw [servingStep_enter, henter, ← scheduleLocked_refines hinv hat hcurrent hL]
  rfl

/-- `AddThread`: an entry at the thread's level. -/
theorem addThread_refines {s : Sched} (h : SchedInv s) (process : Option ProcId) (stack : Nat)
    (level : Int) :
    (servingStep s (.addThread process stack level)).map (Prod.map id ofSched) =
      lineStep (ofSched s) (.addThread process stack level) := by
  rcases h.current with ⟨c, hc, hcount, hlt, -⟩
  have hnew : s.nextTid ∉ s.waitQueue := ListInv.not_mem_waitQueue h.toListInv.count_nextTid
  by_cases hbad : level < 0 ∨ kNumLevels ≤ level
  · simp [servingStep, schedStep, addThread, lineStep, hbad]
  · have hlevel : level ∈ levels := mem_levels.mpr (by omega)
    rcases Option.isSome_iff_exists.mp (show ((s.newThread process stack).2.addThread
      (s.newThread process stack).1 level).isSome by simp [addThread, hbad]) with ⟨m, hadd⟩
    have henter : enter s (.addThread process stack level) = some (m, false) := by
      simp only [enter, hadd, Option.map_some]
    rw [keeps_refines henter]
    rcases addThread_eq hadd with ⟨-, rfl⟩
    -- the new thread is neither waiting nor running
    have hcur : s.nextTid ≠ c := fun he => absurd hlt.2 (he ▸ Nat.lt_irrefl _)
    have hturn : ∀ f, turnOf ((((s.newThread process stack).2.updThread s.nextTid f).pushReady level
        s.nextTid)) = turnOf s := by
      intro f
      refine turnOf_congr (s := s) rfl rfl ?_
      intro c' hc'
      obtain rfl : c = c' := Option.some.inj (hc.symm.trans hc')
      rw [pushReady_threads, updThread_ne _ _ (Ne.symm hcur)]
      exact Function.update_of_ne (Ne.symm hcur) _ _
    have hsleepers : s.waitQueue.map (sleeperOf (s.newThread process stack).2.threads) =
        s.waitQueue.map (sleeperOf s.threads) :=
      sleepers_updThread hnew fun _ => { process := process, kernelStack := stack }
    have hpush := ofSched_push (s := (s.newThread process stack).2) hnew
      (fun th => { th with mlfqLevel := level, ticksRemaining := kQuantum level, state := .ready })
      hlevel
    change some ([], ofSched (((s.newThread process stack).2.updThread s.nextTid _).pushReady level
      s.nextTid)) = _
    rw [hpush, hturn]
    unfold lineStep ofSched
    simp only [if_neg hbad, ← hsleepers]
    rfl

/-- `Yield`: the turn ends, and its thread goes to the end of its level. -/
theorem yield_refines {s : Sched} (h : SchedInv s) (hl : InLevels s) :
    (servingStep s .yield).map (Prod.map id ofSched) = lineStep (ofSched s) .yield := by
  rcases h.current with ⟨c, hc, hcount, hlt, -⟩
  have hwait := ListInv.not_mem_waitQueue hcount
  have henter : enter s .yield = some (s.yieldEnter, true) := rfl
  have hsame := enter_same h henter
  have hstep : lineStep (ofSched s) .yield = some (ofSched s).yield := rfl
  rw [hstep]
  unfold LineSched.yield
  by_cases hidle : s.currentThread = s.idleThread
  · -- the idle context enters no queue
    have hturn : (ofSched s).turn = none := turnOf_idle hidle
    have hkeeps : s.yieldEnter = s := by
      unfold yieldEnter
      rw [hc]
      exact if_neg fun hrun => hrun.1 (hc.symm.trans hidle)
    simp only [hturn]
    apply serves_refines h hl henter
    rw [hkeeps]
    exact Midway.of_same rfl rfl rfl rfl
  · have hturn : (ofSched s).turn = some (turnFields c (s.threads c)) := turnOf_running hc hidle
    simp only [hturn]
    by_cases hrun : (s.threads c).state = .running
    · have hrequeue : s.yieldEnter = s.requeue c := by
        unfold yieldEnter
        rw [hc]
        exact if_pos ⟨fun he => hidle (hc.trans he), hrun⟩
      have hagain : ¬ (turnFields c (s.threads c)).again = true := by simp [turnFields, hrun]
      rw [if_neg hagain]
      apply serves_refines h hl henter
      apply Midway.of_same hsame.1 hsame.2 rfl
      rw [hrequeue, requeue_eq, ofSched_push hwait _ (h.level c)]
      rfl
    · -- it was popped again, and leaves the processor without entering a queue
      have hkeeps : s.yieldEnter = s := by
        unfold yieldEnter
        rw [hc]
        exact if_neg fun hboth => hrun hboth.2
      have hagain : (turnFields c (s.threads c)).again = true := by simp [turnFields, hrun]
      rw [if_pos hagain]
      apply serves_refines h hl henter
      rw [hkeeps]
      exact Midway.of_same rfl rfl rfl rfl

/-- `Block`: the turn ends among the sleepers. -/
theorem block_refines {s : Sched} (h : SchedInv s) (hl : InLevels s) (ch : Channel) :
    (servingStep s (.block ch)).map (Prod.map id ofSched) = lineStep (ofSched s) (.block ch) := by
  rcases h.current with ⟨c, hc, hcount, hlt, -⟩
  have hwait := ListInv.not_mem_waitQueue hcount
  by_cases hidle : s.currentThread = s.idleThread
  · have hturn : (ofSched s).turn = none := turnOf_idle hidle
    simp [servingStep, schedStep, lineStep, hidle, hturn]
  · have hturn : (ofSched s).turn = some (turnFields c (s.threads c)) := turnOf_running hc hidle
    have henter : enter s (.block ch) = some (s.parkOn c ch, true) := by
      simp only [enter, if_neg hidle]
      unfold blockEnter
      rw [hc]
    have hstep : lineStep (ofSched s) (.block ch) =
        some ((ofSched s).park (turnFields c (s.threads c)) ch).dispatch := by
      unfold lineStep
      rw [hturn]
      rfl
    rw [hstep]
    apply serves_refines h hl henter
    refine Midway.of_same (s := s) rfl rfl rfl ?_
    -- the others on the wait queue keep their fields
    have hsleepers := sleepers_updThread hwait fun th =>
      { th with state := .blocked, waitChannel := some ch }
    have hself : sleeperOf (s.updThread c fun th =>
        { th with state := .blocked, waitChannel := some ch }).threads c =
        ⟨c, (s.threads c).mlfqLevel, some ch⟩ := by
      unfold sleeperOf
      rw [updThread_self]
    rw [parkOn_eq]
    unfold ofSched LineSched.park
    simp only [pushWait, List.map_append, List.map_cons, List.map_nil, hself, ← hsleepers]
    rfl

/-- `Exit`: the turn ends. -/
theorem exit_refines {s : Sched} (h : SchedInv s) (hl : InLevels s) :
    (servingStep s .exit).map (Prod.map id ofSched) = lineStep (ofSched s) .exit := by
  rcases h.current with ⟨c, hc, hcount, hlt, -⟩
  have hwait := ListInv.not_mem_waitQueue hcount
  by_cases hidle : s.currentThread = s.idleThread
  · have hturn : (ofSched s).turn = none := turnOf_idle hidle
    unfold servingStep schedStep lineStep
    rw [hturn, hc]
    simp only [Option.bind_none]
    rw [← hc, if_pos hidle]
    rfl
  · have hturn : (ofSched s).turn = some (turnFields c (s.threads c)) := turnOf_running hc hidle
    have hstep : lineStep (ofSched s) .exit =
        if s.reaperThread = some c then none else some (ofSched s).dispatch := by
      unfold lineStep
      rw [hturn]
      rfl
    rw [hstep]
    have hstate : ((s.setState c .terminated).threads c).state = .terminated := by
      unfold setState
      rw [updThread_self]
    by_cases hreaper : s.reaperThread = some c
    · -- the reaper may not end: the kernel stops
      have henter : enter s .exit = none := by
        have hstop : (s.setState c .terminated).enqueueDead c = none := if_pos hreaper
        simp only [enter, hc, hstop, Option.map_none]
        split <;> rfl
      rw [if_pos hreaper, servingStep_enter, henter]
      rfl
    · have hdead : (s.setState c .terminated).enqueueDead c =
          some { s.setState c .terminated with deadList := s.deadList ++ [c] } := by
        have hother : (s.setState c .terminated).reaperThread ≠ some c := hreaper
        unfold enqueueDead
        rw [if_neg hother, if_neg (not_not.mpr hstate)]
        rfl
      have hended :
          Sched.yieldEnter { s.setState c .terminated with deadList := s.deadList ++ [c] } =
            { s.setState c .terminated with deadList := s.deadList ++ [c] } :=
        yieldEnter_ended hstate hc
      have henter : enter s .exit =
          some ({ s.setState c .terminated with deadList := s.deadList ++ [c] }, true) := by
        rw [hc] at hidle
        simp only [enter, hc, if_neg hidle, hdead, Option.map_some, hended]
      rw [if_neg hreaper]
      apply serves_refines h hl henter
      refine Midway.of_same (s := s) rfl rfl rfl ?_
      have hsleepers := sleepers_updThread hwait fun th => { th with state := .terminated }
      unfold ofSched
      simp only [← hsleepers]
      rfl

/-- A tick that finds the idle context. -/
theorem tick_refines_idle {s : Sched} (h : SchedInv s) (hl : InLevels s)
    (hidle : s.tickClock.currentThread = s.tickClock.idleThread) :
    (servingStep s .tick).map (Prod.map id ofSched) = lineStep (ofSched s) .tick := by
  have hturn : (ofSched s.tickClock).turn = none := turnOf_idle hidle
  have henter : enter s .tick = some (s.tickClock, !s.tickClock.mlfqEmpty) := by
    have htick : s.tickEnter = (s.tickClock, !s.tickClock.mlfqEmpty) := by
      unfold tickEnter
      dsimp only
      split
      · rw [if_neg (not_not.mpr hidle)]
      · rfl
    rw [← htick]
    rfl
  have hstep : lineStep (ofSched s) .tick = some (ofSched s).tick := rfl
  rw [hstep]
  unfold LineSched.tick
  rw [← ofSched_tickClock h]
  simp only [hturn]
  -- the queues are empty when the line is
  have hempty : s.tickClock.mlfqEmpty = true ↔
      (ofSched s.tickClock).line.entries.isEmpty = true := by
    rw [mlfqEmpty_iff, ← lineOf_members, List.isEmpty_iff]
    exact List.map_eq_nil_iff
  by_cases hnone : s.tickClock.mlfqEmpty = true
  · rw [hnone] at henter
    rw [if_pos (hempty.mp hnone)]
    exact keeps_refines henter
  · rw [if_neg fun hline => hnone (hempty.mpr hline)]
    rw [Bool.not_eq_true] at hnone
    rw [hnone] at henter
    exact serves_refines h hl henter (Midway.of_same rfl rfl rfl rfl)

/-- A tick of a thread's turn. -/
theorem tick_refines_turn {s : Sched} (h : SchedInv s) (hl : InLevels s)
    (hidle : s.tickClock.currentThread ≠ s.tickClock.idleThread) :
    (servingStep s .tick).map (Prod.map id ofSched) = lineStep (ofSched s) .tick := by
  have hclock := h.tickClock
  rcases hclock.current with ⟨c, hc, hcount, -⟩
  have hwait := ListInv.not_mem_waitQueue hcount
  have hturn : (ofSched s.tickClock).turn = some (turnFields c (s.tickClock.threads c)) :=
    turnOf_running hc hidle
  have hcharged : (s.tickClock.chargeTick c).threads c =
      { s.tickClock.threads c with
        totalTicks := (s.tickClock.threads c).totalTicks + 1
        ticksRemaining := (s.tickClock.threads c).ticksRemaining - 1 } := updThread_self _ c _
  have htick : s.tickEnter =
      if (s.tickClock.threads c).ticksRemaining - 1 ≤ 0 then
        ((s.tickClock.chargeTick c).demote c, true)
      else (s.tickClock.chargeTick c, false) := by
    rw [hc] at hidle
    unfold tickEnter
    simp only [hc, if_pos hidle, hcharged]
  have henter : enter s .tick = some s.tickEnter := rfl
  have hstep : lineStep (ofSched s) .tick = some (ofSched s).tick := rfl
  rw [hstep]
  unfold LineSched.tick
  rw [← ofSched_tickClock h]
  simp only [hturn]
  by_cases hover : (s.tickClock.threads c).ticksRemaining - 1 ≤ 0
  · -- the quantum is used up
    rw [htick, if_pos hover] at henter
    rw [if_pos (show (turnFields c (s.tickClock.threads c)).left - 1 ≤ 0 from hover)]
    apply serves_refines h hl henter
    refine Midway.of_same (s := s.tickClock) rfl rfl rfl ?_
    rw [demote_eq, hcharged]
    unfold chargeTick
    rw [updThread_updThread, ofSched_push hwait _ (demotedLevel_mem (hclock.level c))]
    rfl
  · rw [htick, if_neg hover] at henter
    rw [if_neg (show ¬ (turnFields c (s.tickClock.threads c)).left - 1 ≤ 0 from hover),
      keeps_refines henter]
    have hcharge := ofSched_updThread hwait fun th =>
      { th with totalTicks := th.totalTicks + 1, ticksRemaining := th.ticksRemaining - 1 }
    have hafter : turnOf (s.tickClock.chargeTick c) =
        some (turnFields c ((s.tickClock.chargeTick c).threads c)) :=
      turnOf_running (s := s.tickClock.chargeTick c) hc hidle
    rw [hcharged] at hafter
    unfold chargeTick at hafter ⊢
    rw [hcharge, hafter]
    rfl

/-- `Tick`: the clock, and the end of the turn when its quantum is used up. -/
theorem tick_refines {s : Sched} (h : SchedInv s) (hl : InLevels s) :
    (servingStep s .tick).map (Prod.map id ofSched) = lineStep (ofSched s) .tick := by
  by_cases hidle : s.tickClock.currentThread = s.tickClock.idleThread
  · exact tick_refines_idle h hl hidle
  · exact tick_refines_turn h hl hidle

/-! ## Wake -/

/-- A sleeper is known by its thread. -/
theorem sleeperOf_inj {threads : Tid → Thread} {t u : Tid}
    (h : sleeperOf threads t = sleeperOf threads u) : t = u :=
  congrArg Sleeper.thread h

/-- `Wake` reaches the sleepers of its channel, or the first of them. -/
theorem reached_ofSched (s : Sched) (ch : Channel) (wakeAll : Bool) :
    (ofSched s).reached ch wakeAll =
      (if wakeAll then waiters s ch else (waiters s ch).head?.toList).map
        (sleeperOf s.threads) := by
  have hall : (ofSched s).parked.filter (fun p => p.channel = some ch) =
      (waiters s ch).map (sleeperOf s.threads) := List.filter_map
  unfold LineSched.reached
  dsimp only
  rw [hall]
  cases wakeAll with
  | true => rfl
  | false => cases waiters s ch <;> rfl

/-- What waking threads does not touch. -/
theorem Woke.frame {β : Type} (g : Sched → β)
    (hg : ∀ (s : Sched) w th q, g { s with waitQueue := w, threads := th, queues := q } = g s)
    {s s' : Sched} {woken : List Tid} (h : Woke s s' woken) : g s' = g s :=
  (hg s' s.waitQueue s.threads s.queues).symm.trans (congrArg g h.rest)

/-- Threads that are woken enter the line, one after the other. -/
theorem woke_refines {s s' : Sched} {woken : List Tid} (h : SchedInv s)
    (hsub : ∀ t ∈ woken, t ∈ s.waitQueue) (hwoke : Woke s s' woken) :
    ofSched s' =
      { ofSched s with
        parked := (ofSched s).parked.filter fun p => p ∉ woken.map (sleeperOf s.threads)
        line := (woken.map (sleeperOf s.threads)).foldl (fun q p => q.enter p.level p.thread)
          (ofSched s).line } := by
  rcases h.current with ⟨c, hc, hcount, -⟩
  have hline : lineOf s'.queues =
      (woken.map (sleeperOf s.threads)).foldl (fun q p => q.enter p.level p.thread)
        (lineOf s.queues) := by
    apply Line.ext
    have hpush : bucketEntries levels s'.queues =
        woken.foldl (fun es t => enterEntries ((s.threads t).mlfqLevel, t) es)
          (bucketEntries levels s.queues) :=
      bucketEntries_pushAll (by decide) (fun t _ => h.level t) hwoke.ready
    rw [List.foldl_map]
    exact hpush.trans (Line.entries_foldl_enter _ woken (lineOf s.queues)).symm
  have hparked : s'.waitQueue.map (sleeperOf s'.threads) =
      (s.waitQueue.map (sleeperOf s.threads)).filter fun p =>
        p ∉ woken.map (sleeperOf s.threads) := by
    rw [List.filter_map, hwoke.queue]
    have hsame : s.waitQueue.filter (fun t => t ∉ woken) =
        s.waitQueue.filter ((fun p => decide (p ∉ woken.map (sleeperOf s.threads))) ∘
          sleeperOf s.threads) := by
      apply List.filter_congr
      intro t _
      refine decide_eq_decide.mpr (not_congr ?_)
      constructor
      · exact fun ht => List.mem_map_of_mem ht
      · intro ht
        rcases List.mem_map.mp ht with ⟨u, hu, heq⟩
        exact sleeperOf_inj heq ▸ hu
    rw [← hsame]
    -- those who are not woken keep their fields
    apply List.map_congr_left
    intro t ht
    have hnot : t ∉ woken := of_decide_eq_true (List.mem_filter.mp ht).2
    unfold sleeperOf
    rw [hwoke.others t hnot]
  have hturn : turnOf s' = turnOf s := by
    have hcurrent := hwoke.frame Sched.currentThread fun _ _ _ _ => rfl
    have hidle := hwoke.frame Sched.idleThread fun _ _ _ _ => rfl
    apply turnOf_congr hcurrent hidle
    intro c' hc'
    obtain rfl : c = c' := Option.some.inj (hc.symm.trans hc')
    exact hwoke.others c fun hmem => ListInv.not_mem_waitQueue hcount (hsub c hmem)
  have hreaper := hwoke.frame Sched.reaperThread fun _ _ _ _ => rfl
  have hclock := hwoke.frame Sched.tickCounter fun _ _ _ _ => rfl
  have hnext := hwoke.frame Sched.nextTid fun _ _ _ _ => rfl
  unfold ofSched
  rw [hline, hparked, hturn, hreaper, hclock, hnext]

/-- `Wake`: they enter the line again, each at its level. -/
theorem wake_refines {s : Sched} (h : SchedInv s) (ch : Channel) (wakeAll : Bool) :
    (servingStep s (.wake ch wakeAll)).map (Prod.map id ofSched) =
      lineStep (ofSched s) (.wake ch wakeAll) := by
  have hnodup := waitQueue_nodup h.toListInv
  have henter : enter s (.wake ch wakeAll) = some (s.wake ch wakeAll, false) := rfl
  have hwaiters : ∀ t ∈ waiters s ch, t ∈ s.waitQueue := fun t ht => List.mem_of_mem_filter ht
  -- the waiters of the channel, all of them or the first
  have hwoke : Woke s (s.wake ch wakeAll)
      (if wakeAll then waiters s ch else (waiters s ch).head?.toList) := by
    cases wakeAll with
    | true => exact wake_all ch hnodup
    | false => exact wake_one ch hnodup
  have hsub : ∀ t ∈ (if wakeAll then waiters s ch else (waiters s ch).head?.toList),
      t ∈ s.waitQueue := by
    intro t ht
    cases wakeAll with
    | true => exact hwaiters t ht
    | false => exact hwaiters t (List.mem_of_head? (Option.mem_toList.mp ht))
  rw [keeps_refines henter, woke_refines h hsub hwoke, ← reached_ofSched]
  rfl

/-! ## Every run -/

/-- One call does to the scheduler what it does to the line. -/
theorem step_refines {s : Sched} (h : SchedInv s) (hl : InLevels s) (op : SchedOp) :
    (servingStep s op).map (Prod.map id ofSched) = lineStep (ofSched s) op := by
  cases op with
  | addThread process stack level => exact addThread_refines h process stack level
  | tick => exact tick_refines h hl
  | yield => exact yield_refines h hl
  | block ch => exact block_refines h hl ch
  | wake ch wakeAll => exact wake_refines h ch wakeAll
  | exit => exact exit_refines h hl

/-- Reporting who was served changes no step. -/
theorem servingStep_some {s s' : Sched} {op : SchedOp} {out : List (Option Tid)}
    (hstep : servingStep s op = some (out, s')) : schedStep s op = some s' ∧ popped s op = out := by
  rcases Option.map_eq_some_iff.mp hstep with ⟨s₁, hs, heq⟩
  cases heq
  exact ⟨hs, rfl⟩

/-- From `Start` on, any sequence of calls serves the threads that the line
machine serves, stops where it stops, and ends in the state it stands for. -/
theorem sched_is_line {rootPa : Option ProcId → Nat} {idleStack reaperStack : Nat} {s : Sched}
    (hstart : start rootPa idleStack reaperStack = some s) (ops : List SchedOp) :
    (trace servingStep s ops).map (Prod.map id ofSched) = trace lineStep (ofSched s) ops := by
  refine trace_map (I := fun s => SchedInv s ∧ InLevels s) ?_ ?_
    ⟨start_inv hstart, start_inLevels hstart⟩ ops
  · intro s op out s' hs hstep
    have hsched := (servingStep_some hstep).1
    exact ⟨schedStep_inv hs.1 hsched, step_inLevels hs.1 hs.2 hsched⟩
  · exact fun s op hs => step_refines hs.1 hs.2 op

/-- Two threads use up a quantum of level 0 each, and the first one's next turn
comes before the reaper's. -/
theorem two_threads_line :
    ∃ s, start (fun _ => 0) 0 0 = some s ∧
      ((trace servingStep s ([.addThread none 0 0, .addThread none 0 0] ++
        List.replicate 11 .tick)).map (Prod.map id ofSched)).map Prod.fst =
        some [[], [], [some 3], [], [], [], [], [some 4], [], [], [], [], [some 3]] := by
  rcases Option.isSome_iff_exists.mp
    (show (start (fun _ => 0) 0 0).isSome from rfl) with ⟨s, hstart⟩
  refine ⟨s, hstart, ?_⟩
  rw [sched_is_line hstart]
  cases hstart
  decide +kernel

/-! ## The order of the ready threads -/

/-- No thread is twice in the line. -/
theorem distinct_ofSched {s : Sched} (h : SchedInv s) : (ofSched s).Distinct where
  line := by
    have hmembers : (ofSched s).line.members = s.readyList := lineOf_members s
    rw [hmembers]
    exact readyList_nodup h.toListInv
  turn := by
    rcases h.current with ⟨c, hc, hcount, -⟩
    intro turn hturn hmem
    have hmembers : (ofSched s).line.members = s.readyList := lineOf_members s
    have hthread : (ofSched s).turn.map Turn.thread = runner s := runner_eq s
    rw [hturn, runner, hc] at hthread
    rw [hmembers] at hmem
    split at hthread
    · cases hthread
    · obtain rfl : turn.thread = c := Option.some.inj hthread
      rcases mem_readyList.mp hmem with ⟨i, hi, hqueue⟩
      exact not_mem_queue hcount hi hqueue

/-- One call. -/
theorem step_order {s s' : Sched} {op : SchedOp} (h : SchedInv s) (hl : InLevels s)
    (hstep : schedStep s op = some s') {a b : Tid} (hahead : [a, b].Sublist s.readyList)
    (ha : some a ∉ popped s op) : some b ∉ popped s op ∧ [a, b].Sublist s'.readyList := by
  -- the order is proved for the line; here it is read back for the queues
  have hserving : servingStep s op = some (popped s op, s') := by
    unfold servingStep
    rw [hstep]
    rfl
  have hline : lineStep (ofSched s) op = some (popped s op, ofSched s') := by
    rw [← step_refines h hl op, hserving]
    rfl
  have hbefore : Ahead (ofSched s).line a b := by
    change [a, b].Sublist (lineOf s.queues).members
    rw [lineOf_members]
    exact hahead
  rcases line_order (distinct_ofSched h) hbefore hline ha with ⟨hb, hafter⟩
  change [a, b].Sublist (lineOf s'.queues).members at hafter
  rw [lineOf_members] at hafter
  exact ⟨hb, hafter⟩

/-- A ready thread is never overtaken by one that stands behind it: until
`PopBest` has returned the first of the two it does not return the second, and
both stay in the ready queues in this order. -/
theorem no_overtaking {rootPa : Option ProcId → Nat} {idleStack reaperStack : Nat}
    {s₀ s s' : Sched} {ops₀ ops : List SchedOp} {a b : Tid}
    (hstart : start rootPa idleStack reaperStack = some s₀)
    (hreach : run schedStep s₀ ops₀ = some s) (hahead : [a, b].Sublist s.readyList)
    (hrun : run schedStep s ops = some s') (ha : some a ∉ pops s ops) :
    some b ∉ pops s ops ∧ [a, b].Sublist s'.readyList := by
  have hinv : SchedInv s ∧ InLevels s :=
    inv_of_run (I := fun s => SchedInv s ∧ InLevels s)
      (fun _ _ _ hs hstep => ⟨schedStep_inv hs.1 hstep, step_inLevels hs.1 hs.2 hstep⟩)
      ⟨start_inv hstart, start_inLevels hstart⟩ hreach
  clear hreach hstart
  -- over the run: a step that does not pop `a` keeps `a` before `b`
  induction ops generalizing s with
  | nil =>
      cases hrun
      exact ⟨List.not_mem_nil, hahead⟩
  | cons op ops ih =>
      rcases Option.bind_eq_some_iff.mp hrun with ⟨s₁, hstep, hrest⟩
      rw [pops_cons hstep] at ha ⊢
      rw [List.mem_append, not_or] at ha
      rcases step_order hinv.1 hinv.2 hstep hahead ha.1 with ⟨hb, hahead₁⟩
      have hinv₁ := And.intro (schedStep_inv hinv.1 hstep) (step_inLevels hinv.1 hinv.2 hstep)
      rcases ih hahead₁ hrest ha.2 hinv₁ with ⟨hb', hahead'⟩
      rw [List.mem_append, not_or]
      exact ⟨⟨hb, hb'⟩, hahead'⟩

/-- While the threads of level 0 are served, the reaper stays behind the thread
of level 1. -/
theorem kept_behind :
    ∃ s₀ s s', start (fun _ => 0) 0 0 = some s₀ ∧
      run schedStep s₀ [.addThread none 0 1, .addThread none 0 0, .addThread none 0 0, .tick] =
        some s ∧
      run schedStep s (List.replicate 7 .tick ++ [.addThread none 0 0]) = some s' ∧
      pops s (List.replicate 7 .tick ++ [.addThread none 0 0]) = [some 5] ∧
      [3, 2].Sublist s.readyList ∧
      some 2 ∉ pops s (List.replicate 7 .tick ++ [.addThread none 0 0]) ∧
      [3, 2].Sublist s'.readyList := by
  rcases exists_run schedStep
      [.addThread none 0 1, .addThread none 0 0, .addThread none 0 0, .tick]
      (o := start (fun _ => 0) 0 0)
      (P := fun s => [3, 2].Sublist s.readyList ∧
        pops s (List.replicate 7 .tick ++ [.addThread none 0 0]) = [some 5] ∧
        (run schedStep s (List.replicate 7 .tick ++ [.addThread none 0 0])).isSome = true)
      (by decide +kernel) with ⟨s₀, s, hstart, hreach, hahead, hpops, hsome⟩
  rcases Option.isSome_iff_exists.mp hsome with ⟨s', hrun⟩
  -- only thread 5 is popped in these eight steps
  have hnot : some 3 ∉ pops s (List.replicate 7 .tick ++ [.addThread none 0 0]) := by
    rw [hpops]
    decide
  exact ⟨s₀, s, s', hstart, hreach, hrun, hpops, hahead,
    no_overtaking hstart hreach hahead hrun hnot⟩

end Ceryx.Proc
