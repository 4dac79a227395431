import Ceryx.Proc.SchedInv

/-!
# Ceryx.Proc.SchedEnter — the two halves of an entry point

`Tick`, `Yield`, `Block` and the end of a thread first change the lists and
then, unless they return early, call `ScheduleLocked`. `enter` is the first
half and says whether the call follows; `schedStep_enter` puts the halves
together again. `popped` reads off what `PopBest` returns in the second half.
-/

namespace Ceryx.Proc

open Sched Lib

namespace Sched

/-- `Scheduler::Yield` before its `ScheduleLocked`. -/
def yieldEnter (s : Sched) : Sched :=
  match s.currentThread with
  | some c =>
      if s.currentThread ≠ s.idleThread ∧ (s.threads c).state = .running then s.requeue c else s
  | none => s

/-- `Scheduler::Tick` before its `ScheduleLocked`, and whether it gets there. -/
def tickEnter (s : Sched) : Sched × Bool :=
  let s := s.tickClock
  match s.currentThread with
  | some c =>
      if s.currentThread ≠ s.idleThread then
        let s := s.chargeTick c
        if (s.threads c).ticksRemaining ≤ 0 then (s.demote c, true) else (s, false)
      else (s, !s.mlfqEmpty)
  | none => (s, !s.mlfqEmpty)

/-- `Scheduler::Block` before its `ScheduleLocked`. -/
def blockEnter (s : Sched) (ch : Channel) : Sched × Bool :=
  match s.currentThread with
  | none => (s, false)
  | some t => (s.parkOn t ch, true)

/-- The second half of an entry point. -/
def finish (e : Sched × Bool) : Sched := if e.2 then e.1.scheduleLocked else e.1

/-- `Yield` is what it does under the lock before it schedules, and the dispatch. -/
theorem yield_enter (s : Sched) : s.yield = finish (s.yieldEnter, true) := by
  unfold yield yieldEnter finish
  cases s.currentThread with
  | none => rfl
  | some c =>
      dsimp only
      split <;> rfl

/-- So is `Tick`, which need not schedule. -/
theorem tick_enter (s : Sched) : s.tick = finish s.tickEnter := by
  unfold tick tickEnter finish
  dsimp only
  rcases Option.eq_none_or_eq_some s.tickClock.currentThread with hc | ⟨c, hc⟩
  · simp only [hc]
    cases s.tickClock.mlfqEmpty <;> rfl
  · simp only [hc]
    split
    · split <;> rfl
    · cases s.tickClock.mlfqEmpty <;> rfl

/-- So is `Block`. -/
theorem block_enter (s : Sched) (ch : Channel) : s.block ch = finish (s.blockEnter ch) := by
  unfold block blockEnter finish
  cases s.currentThread with
  | none => rfl
  | some t => rfl

end Sched

/-- What an entry point does before `ScheduleLocked`, and whether it calls
it. -/
def enter (s : Sched) : SchedOp → Option (Sched × Bool)
  | .addThread process stack level =>
      let (t, s) := s.newThread process stack
      (s.addThread t level).map fun s => (s, false)
  | .tick => some s.tickEnter
  | .yield => some (s.yieldEnter, true)
  | .block ch => if s.currentThread = s.idleThread then none else some (s.blockEnter ch)
  | .wake ch wakeAll => some (s.wake ch wakeAll, false)
  | .exit =>
      match s.currentThread with
      | none => none
      | some t =>
          if s.currentThread = s.idleThread then none
          else ((s.setState t .terminated).enqueueDead t).map fun s => (s.yieldEnter, true)

/-- Each entry point is its first half followed by its second. -/
theorem schedStep_enter (s : Sched) (op : SchedOp) :
    schedStep s op = (enter s op).map finish := by
  cases op with
  | addThread process stack level =>
      simp only [schedStep, enter, Option.map_map]
      cases (s.newThread process stack).2.addThread (s.newThread process stack).1 level with
      | none => rfl
      | some s' => rfl
  | tick => exact congrArg some (tick_enter s)
  | yield => exact congrArg some (yield_enter s)
  | block ch =>
      simp only [schedStep, enter]
      split
      · rfl
      · exact congrArg some (block_enter s ch)
  | wake ch wakeAll => rfl
  -- `Exit` is `EnqueueDead`, then `Yield`
  | exit =>
      simp only [schedStep, enter]
      cases hc : s.currentThread with
      | none => rfl
      | some t =>
          dsimp only
          split
          · rfl
          · rw [exitThread, Option.map_map]
            congr 1
            funext s'
            exact yield_enter s'

/-- What the `PopBest` of a call returned; nothing when there was none. -/
def popped (s : Sched) (op : SchedOp) : List (Option Tid) :=
  match enter s op with
  | some (s', true) => [s'.popBest.1]
  | _ => []

/-- What the `PopBest` calls of a run returned, in order. -/
def pops : Sched → List SchedOp → List (Option Tid)
  | _, [] => []
  | s, op :: ops =>
      match schedStep s op with
      | none => []
      | some s' => popped s op ++ pops s' ops

/-- A step seen as its two halves. -/
theorem schedStep_cases {s s' : Sched} {op : SchedOp} (hstep : schedStep s op = some s') :
    (enter s op = some (s', false) ∧ popped s op = []) ∨
      ∃ m, enter s op = some (m, true) ∧ s' = m.scheduleLocked ∧ popped s op = [m.popBest.1] := by
  rw [schedStep_enter] at hstep
  obtain ⟨⟨m, calls⟩, henter, hfinish⟩ := Option.map_eq_some_iff.mp hstep
  cases calls with
  | false =>
      left
      obtain rfl : m = s' := hfinish
      exact ⟨henter, by simp [popped, henter]⟩
  | true =>
      right
      exact ⟨m, henter, hfinish.symm, by simp [popped, henter]⟩

/-- What a run pops, call by call. -/
theorem pops_cons {s s' : Sched} {op : SchedOp} (hstep : schedStep s op = some s')
    (ops : List SchedOp) : pops s (op :: ops) = popped s op ++ pops s' ops := by
  simp only [pops, hstep]

/-- `Yield` does not push a thread that has terminated. -/
theorem yieldEnter_ended {s : Sched} {c : Tid} (hstate : (s.threads c).state = .terminated)
    (hc : s.currentThread = some c) : s.yieldEnter = s := by
  unfold yieldEnter
  simp only [hc]
  refine if_neg ?_
  rintro ⟨-, hrun⟩
  rw [hstate] at hrun
  cases hrun

/-! ## The lists between the halves -/

/-- The lists are in order when `Yield` gets to the dispatch, -/
theorem yieldEnter_inv {s : Sched} (h : ListInv s) {c : Tid} (hc : s.currentThread = some c)
    (hcount : s.listCount c = 0) (hlt : Created s c) : ListInv s.yieldEnter := by
  unfold yieldEnter
  simp only [hc]
  split
  · rename_i hrun
    exact h.requeue ⟨hcount, hlt, fun hd => hrun.1 hd.symm⟩
  · exact h

/-- and when `Tick` does. -/
theorem tickEnter_inv {s : Sched} (h : SchedInv s) : ListInv s.tickEnter.1 := by
  have hclock := h.tickClock
  rcases hclock.current with ⟨c, hc, hcount, hlt, -⟩
  unfold tickEnter
  simp only [hc]
  split
  · rename_i hne
    have hcharge : ListInv (s.tickClock.chargeTick c) :=
      hclock.updThread hcount (hclock.level c)
    split
    · exact hcharge.demote ⟨hcount, hlt, fun hd => hne hd.symm⟩
    · exact hcharge
  · exact hclock.toListInv

/-- A dead thread goes to the end of the dead list. -/
theorem enqueueDead_eq {s s' : Sched} {t : Tid} (h : s.enqueueDead t = some s') :
    s' = { s with deadList := s.deadList ++ [t] } := by
  unfold enqueueDead at h
  split at h
  · cases h
  · split at h
    · cases h
    · exact (Option.some.inj h).symm

/-- What `enter` does while thread `c` runs. -/
inductive Entering (s : Sched) (c : Tid) : SchedOp → Sched → Bool → Prop where
  | addThread {process : Option ProcId} {stack : Nat} {level : Int} {m : Sched}
      (hadd : (s.newThread process stack).2.addThread (s.newThread process stack).1 level =
        some m) : Entering s c (.addThread process stack level) m false
  | tick {m : Sched} {calls : Bool} (htick : s.tickEnter = (m, calls)) : Entering s c .tick m calls
  | yield : Entering s c .yield s.yieldEnter true
  | block (ch : Channel) (hidle : s.currentThread ≠ s.idleThread) :
      Entering s c (.block ch) (s.parkOn c ch) true
  | wake (ch : Channel) (wakeAll : Bool) : Entering s c (.wake ch wakeAll) (s.wake ch wakeAll) false
  | exit {s' : Sched} (hidle : s.currentThread ≠ s.idleThread)
      (hdead : (s.setState c .terminated).enqueueDead c = some s') :
      Entering s c .exit s'.yieldEnter true

/-- What a call has done when it gets to the dispatch, one constructor for each way. -/
theorem enter_cases {s m : Sched} {op : SchedOp} {calls : Bool} {c : Tid}
    (hc : s.currentThread = some c) (henter : enter s op = some (m, calls)) :
    Entering s c op m calls := by
  cases op with
  | addThread process stack level =>
      rcases Option.map_eq_some_iff.mp henter with ⟨s', hadd, heq⟩
      cases heq
      exact .addThread hadd
  | tick => exact .tick (Option.some.inj henter)
  | yield =>
      cases henter
      exact .yield
  -- the idle thread does not block
  | block ch =>
      simp only [enter, blockEnter, hc] at henter
      split at henter
      · cases henter
      · rename_i hidle
        cases henter
        exact .block ch (by rw [hc]; exact hidle)
  | wake ch wakeAll =>
      cases henter
      exact .wake ch wakeAll
  | exit =>
      simp only [enter, hc] at henter
      split at henter
      · cases henter
      · rename_i hidle
        rcases Option.map_eq_some_iff.mp henter with ⟨s', hdead, heq⟩
        cases heq
        exact .exit (by rw [hc]; exact hidle) hdead

/-- The lists are in order whenever `ScheduleLocked` is called. -/
theorem enter_inv {s m : Sched} {op : SchedOp} {calls : Bool} (h : SchedInv s)
    (henter : enter s op = some (m, calls)) : ListInv m := by
  rcases h.current with ⟨c, hc, hcount, hlt, -⟩
  cases enter_cases hc henter with
  | @addThread process stack level _ hadd =>
      exact addThread_inv (newThread_inv h.toListInv process stack)
        (newThread_unlisted h.toListInv process stack) hadd
  -- the current thread is on no queue, so each of these may push it once
  | tick htick =>
      obtain rfl : s.tickEnter.1 = m := congrArg Prod.fst htick
      exact tickEnter_inv h
  | yield => exact yieldEnter_inv h.toListInv hc hcount hlt
  | block ch hidle =>
      rw [hc] at hidle
      exact h.toListInv.parkOn ⟨hcount, hlt, fun hd => hidle hd.symm⟩ ch
  | wake ch wakeAll => exact (wake_inv h.toListInv ch wakeAll).1
  | exit hidle hdead =>
      have hterm : ListInv (s.setState c .terminated) :=
        h.toListInv.updThread hcount (h.level c)
      obtain rfl := enqueueDead_eq hdead
      have hlists : ListInv { s.setState c .terminated with
          deadList := (s.setState c .terminated).deadList ++ [c] } :=
        hterm.congr rfl rfl rfl rfl rfl
      exact yieldEnter_inv hlists hc hcount hlt

/-- The first half changes neither the running nor the idle thread. -/
theorem enter_same {s m : Sched} {op : SchedOp} {calls : Bool} (h : SchedInv s)
    (henter : enter s op = some (m, calls)) :
    m.currentThread = s.currentThread ∧ m.idleThread = s.idleThread := by
  -- no step moves to another thread before `ScheduleLocked`
  have hyield : ∀ s : Sched, s.yieldEnter.currentThread = s.currentThread ∧
      s.yieldEnter.idleThread = s.idleThread := by
    intro s
    unfold yieldEnter
    split
    · split <;> exact ⟨rfl, rfl⟩
    · exact ⟨rfl, rfl⟩
  rcases h.current with ⟨c, hc, -⟩
  cases enter_cases hc henter with
  | addThread hadd =>
      rcases addThread_eq hadd with ⟨-, rfl⟩
      exact ⟨rfl, rfl⟩
  | tick htick =>
      obtain rfl : s.tickEnter.1 = m := congrArg Prod.fst htick
      have hclock := (tickClock_inv h.toListInv).2
      unfold tickEnter
      dsimp only
      split
      · split
        · split <;> exact ⟨hclock.current, hclock.idle⟩
        · exact ⟨hclock.current, hclock.idle⟩
      · exact ⟨hclock.current, hclock.idle⟩
  | yield => exact hyield s
  | block ch hidle => exact ⟨rfl, rfl⟩
  | wake ch wakeAll =>
      have hwoken := (wake_inv h.toListInv ch wakeAll).2
      exact ⟨hwoken.current, hwoken.idle⟩
  | exit hidle hdead =>
      obtain rfl := enqueueDead_eq hdead
      exact hyield _

end Ceryx.Proc
