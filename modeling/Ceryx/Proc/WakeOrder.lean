import Ceryx.Proc.NodeLinks
import Ceryx.Proc.WaitAny

/-!
# Ceryx.Proc.WakeOrder — which threads Wake wakes

`Scheduler::Wake` on a wait queue of any length: the loop takes threads off the
list that it walks over and pushes them to the ready queues.

* `Woke s s' woken`: `s'` is `s` after the threads `woken` have been woken in this
  order, with everything else as it was.
* `wake_all`, `wake_one`: the threads that wait on the channel, or the first one.
* `Clock`: the scheduler with the time of each thread's last `Block`.
* `InOrder`: the wait queue is in the order of these times. It is in every run
  (`inOrder_run`).
* `wake_exact`: `Wake` wakes exactly the right threads, and a single one is the
  one that has waited longest.
-/

namespace Ceryx.Proc

open Lib Sched

/-! ## Waking -/

/-- The thread waits on the channel. -/
def WaitsOn (s : Sched) (ch : Channel) (t : Tid) : Prop := (s.threads t).waitChannel = some ch

instance (s : Sched) (ch : Channel) (t : Tid) : Decidable (WaitsOn s ch t) :=
  inferInstanceAs (Decidable (_ = _))

/-- The threads of the wait queue that wait on the channel, in its order. -/
def waiters (s : Sched) (ch : Channel) : List Tid := s.waitQueue.filter fun t => WaitsOn s ch t

/-- A thread that is woken: ready, with no channel and with a full quantum. -/
def wokenThread (th : Thread) : Thread :=
  { th with state := .ready, waitChannel := none, ticksRemaining := kQuantum th.mlfqLevel }

/-- `s'` is `s` after the threads `woken` have been woken, in this order. -/
structure Woke (s s' : Sched) (woken : List Tid) : Prop where
  queue : s'.waitQueue = s.waitQueue.filter fun t => t ∉ woken
  threads : ∀ t ∈ woken, s'.threads t = wokenThread (s.threads t)
  others : ∀ t, t ∉ woken → s'.threads t = s.threads t
  ready : ∀ i, s'.queues i = s.queues i ++ woken.filter fun t => (s.threads t).mlfqLevel = i
  rest : { s' with waitQueue := s.waitQueue, threads := s.threads, queues := s.queues } = s

theorem Woke.nil (s : Sched) : Woke s s [] where
  queue := by simp
  threads t ht := absurd ht List.not_mem_nil
  others _ _ := rfl
  ready i := by simp
  rest := rfl

/-- Waking `t` leaves the channels of the other threads alone. -/
theorem waitsOn_wakeOne {s : Sched} {t u : Tid} (ch : Channel) (hut : u ≠ t) :
    WaitsOn (s.wakeOne t) ch u ↔ WaitsOn s ch u := by
  unfold WaitsOn
  rw [wakeOne_ne s hut]

/-- `t` is woken, and the others after it. -/
theorem Woke.cons {s s' : Sched} {t : Tid} {woken : List Tid} (hnodup : s.waitQueue.Nodup)
    (ht : t ∉ woken) (h : Woke (s.wakeOne t) s' woken) : Woke s s' (t :: woken) where
  queue := by
    have herase : (s.wakeOne t).waitQueue = s.waitQueue.erase t := rfl
    rw [h.queue, herase, hnodup.erase_eq_filter, List.filter_filter]
    apply List.filter_congr
    intro u _
    rw [Bool.eq_iff_iff]
    simp [and_comm]
  threads := by
    intro u hu
    by_cases hut : u = t
    · -- `t` itself is not woken again
      subst hut
      rw [h.others u ht, wakeOne_eq, pushReady_threads, updThread_self]
      rfl
    · rw [h.threads u ((List.mem_cons.mp hu).resolve_left hut), wakeOne_ne s hut]
  others := by
    intro u hu
    have hut : u ≠ t := fun he => hu (he ▸ List.mem_cons_self)
    rw [h.others u fun hmem => hu (List.mem_cons_of_mem _ hmem), wakeOne_ne s hut]
  ready := by
    intro i
    -- waking `t` does not change the levels of the others
    have hlevels : woken.filter (fun u => ((s.wakeOne t).threads u).mlfqLevel = i) =
        woken.filter fun u => (s.threads u).mlfqLevel = i := by
      apply List.filter_congr
      intro u hu
      have hut : u ≠ t := fun he => ht (he ▸ hu)
      rw [wakeOne_ne s hut]
    -- and `t` goes to the end of the queue of its own level
    have hpush : (s.wakeOne t).queues i =
        s.queues i ++ if (s.threads t).mlfqLevel = i then [t] else [] := by
      rw [wakeOne_eq]
      by_cases hi : (s.threads t).mlfqLevel = i
      · rw [if_pos hi, ← hi]
        simp [pushReady, removeWait, updThread]
      · rw [if_neg hi, List.append_nil]
        simp [pushReady, removeWait, updThread, Ne.symm hi]
    rw [h.ready i, hlevels, hpush, List.append_assoc, List.filter_cons]
    congr 1
    by_cases hi : (s.threads t).mlfqLevel = i
    · simp [hi]
    · simp [hi]
  rest := by
    have hrest := h.rest
    have hframe : { s.wakeOne t with
        waitQueue := s.waitQueue, threads := s.threads, queues := s.queues } = s := by
      rw [wakeOne_eq]
      rfl
    rw [← hframe, ← hrest]

/-! ## The loop -/

/-- The loop over a part of the wait queue, when all are to be woken. -/
theorem wakeLoop_all (ch : Channel) (rest : List Tid) {s : Sched} (hnodup : s.waitQueue.Nodup)
    (hrest : rest.Nodup) :
    Woke s (wakeLoop ch true rest s) (rest.filter fun t => WaitsOn s ch t) := by
  induction rest generalizing s with
  | nil => exact Woke.nil s
  | cons t rest ih =>
      rcases List.nodup_cons.mp hrest with ⟨ht, hrest'⟩
      unfold wakeLoop
      by_cases hch : (s.threads t).waitChannel = some ch
      · have hwaits : decide (WaitsOn s ch t) = true := decide_eq_true hch
        rw [if_pos hch, if_pos rfl, List.filter_cons, if_pos hwaits]
        apply Woke.cons hnodup
        · intro hmem
          exact ht (List.mem_of_mem_filter hmem)
        · -- the channels of the threads behind `t` are what they were
          have hsame : rest.filter (fun u => WaitsOn s ch u) =
              rest.filter fun u => WaitsOn (s.wakeOne t) ch u := by
            apply List.filter_congr
            intro u hu
            have hut : u ≠ t := fun he => ht (he ▸ hu)
            exact decide_eq_decide.mpr (waitsOn_wakeOne ch hut).symm
          rw [hsame]
          exact ih (hnodup.erase t) hrest'
      · have hwaits : ¬ decide (WaitsOn s ch t) = true := fun h => hch (of_decide_eq_true h)
        rw [if_neg hch, List.filter_cons, if_neg hwaits]
        exact ih hnodup hrest'

/-- `Wake` of all threads wakes exactly those that wait on the channel. -/
theorem wake_all (ch : Channel) {s : Sched} (hnodup : s.waitQueue.Nodup) :
    Woke s (s.wake ch true) (waiters s ch) :=
  wakeLoop_all ch s.waitQueue hnodup hnodup

/-- `Wake` of one thread wakes the first of them. -/
theorem wake_one (ch : Channel) {s : Sched} (hnodup : s.waitQueue.Nodup) :
    Woke s (s.wake ch false) (waiters s ch).head?.toList := by
  unfold Sched.wake waiters
  rcases wakeLoop_one ch s.waitQueue s with
    ⟨hnone, heq⟩ | ⟨before, u, after, hqueue, hbefore, hu, heq⟩
  · -- nobody waits on the channel
    have hempty : s.waitQueue.filter (fun t => WaitsOn s ch t) = [] := by
      apply List.filter_eq_nil_iff.mpr
      intro t ht
      rw [decide_eq_true_eq]
      exact hnone t ht
    rw [heq, hempty]
    exact Woke.nil s
  · -- the first waiter is the head of the filtered queue
    have hfirst : s.waitQueue.filter (fun t => WaitsOn s ch t) =
        u :: after.filter fun t => WaitsOn s ch t := by
      have hskip : before.filter (fun t => WaitsOn s ch t) = [] := by
        apply List.filter_eq_nil_iff.mpr
        intro t ht
        rw [decide_eq_true_eq]
        exact hbefore t ht
      have hwaits : decide (WaitsOn s ch u) = true := decide_eq_true hu
      rw [hqueue, List.filter_append, hskip, List.nil_append, List.filter_cons, if_pos hwaits]
    rw [heq, hfirst]
    exact Woke.cons hnodup List.not_mem_nil (Woke.nil _)

/-! ## Waiting time -/

/-- The scheduler, the number of calls so far, and for each thread the call of its
last `Block`. -/
structure Clock where
  sched : Sched
  now : Nat
  since : Tid → Nat

/-- The times after a call: `Block` is a call of the running thread. -/
def Clock.sinceAfter (c : Clock) : SchedOp → Tid → Nat
  | .block _ =>
      match c.sched.currentThread with
      | some t => Function.update c.since t c.now
      | none => c.since
  | _ => c.since

/-- A call of an entry point, at the time `now`. -/
def clockStep (c : Clock) (op : SchedOp) : Option Clock :=
  (schedStep c.sched op).map fun s =>
    { sched := s, now := c.now + 1, since := c.sinceAfter op }

/-- The wait queue is in the order in which its threads called `Block`. -/
structure InOrder (c : Clock) : Prop where
  sorted : c.sched.waitQueue.Pairwise fun t u => c.since t < c.since u
  past : ∀ t ∈ c.sched.waitQueue, c.since t < c.now

theorem InOrder.nodup {c : Clock} (h : InOrder c) : c.sched.waitQueue.Nodup := by
  apply h.sorted.imp
  rintro t u hlt rfl
  exact Nat.lt_irrefl _ hlt

/-- No thread has come, some may have gone. -/
theorem InOrder.sublist {c : Clock} (h : InOrder c) {s : Sched}
    (hsub : s.waitQueue.Sublist c.sched.waitQueue) :
    InOrder { sched := s, now := c.now + 1, since := c.since } where
  sorted := h.sorted.sublist hsub
  past t ht := Nat.lt_succ_of_lt (h.past t (hsub.subset ht))

/-- A thread that was not in the queue comes last. -/
theorem InOrder.snoc {c : Clock} (h : InOrder c) {s : Sched} {t : Tid}
    (ht : t ∉ c.sched.waitQueue) (hqueue : s.waitQueue = c.sched.waitQueue ++ [t]) :
    InOrder { sched := s, now := c.now + 1, since := Function.update c.since t c.now } where
  sorted := by
    have hold : ∀ u ∈ c.sched.waitQueue, Function.update c.since t c.now u = c.since u := by
      intro u hu
      have hut : u ≠ t := by
        rintro rfl
        exact ht hu
      exact Function.update_of_ne hut _ _
    dsimp only
    rw [hqueue, List.pairwise_append]
    refine ⟨?_, List.pairwise_singleton _ _, ?_⟩
    · -- the new waiter's time is `now`, later than all that wait
      apply h.sorted.imp_of_mem
      intro u v hu hv hlt
      rw [hold u hu, hold v hv]
      exact hlt
    · intro u hu v hv
      rw [List.mem_singleton.mp hv, Function.update_self, hold u hu]
      exact h.past u hu
  past := by
    intro u hu
    dsimp only at hu ⊢
    rw [hqueue, List.mem_append, List.mem_singleton] at hu
    by_cases hut : u = t
    · rw [hut, Function.update_self]
      exact Nat.lt_succ_self _
    · rw [Function.update_of_ne hut]
      exact Nat.lt_succ_of_lt (h.past u (hu.resolve_right hut))

theorem tickEnter_waitQueue (s : Sched) : s.tickEnter.1.waitQueue = s.waitQueue :=
  tickEnter_frame Sched.waitQueue
    (tickClock_frame Sched.waitQueue (fun _ _ => rfl) (fun _ _ _ => rfl) (fun _ _ => rfl))
    (fun _ _ => rfl) (fun _ _ => rfl) s

theorem yieldEnter_waitQueue (s : Sched) : s.yieldEnter.waitQueue = s.waitQueue := by
  unfold yieldEnter
  split
  · split
    · rfl
    · rfl
  · rfl

theorem wake_sublist {s : Sched} (hnodup : s.waitQueue.Nodup) (ch : Channel) (wakeAll : Bool) :
    (s.wake ch wakeAll).waitQueue.Sublist s.waitQueue := by
  cases wakeAll with
  | true =>
      rw [(wake_all ch hnodup).queue]
      exact List.filter_sublist
  | false =>
      rw [(wake_one ch hnodup).queue]
      exact List.filter_sublist

/-- `Block` appends the running thread, the other calls append nothing. -/
theorem enter_waitQueue {s m : Sched} {op : SchedOp} {calls : Bool} {c : Tid}
    (hnodup : s.waitQueue.Nodup) (hc : s.currentThread = some c)
    (henter : enter s op = some (m, calls)) :
    (∃ ch, op = .block ch ∧ m.waitQueue = s.waitQueue ++ [c]) ∨
      (∀ ch, op ≠ .block ch) ∧ m.waitQueue.Sublist s.waitQueue := by
  cases enter_cases hc henter with
  | addThread hadd =>
      right
      rcases addThread_eq hadd with ⟨-, rfl⟩
      exact ⟨fun _ => SchedOp.noConfusion, List.Sublist.refl _⟩
  | tick htick =>
      right
      obtain rfl : s.tickEnter.1 = m := congrArg Prod.fst htick
      rw [tickEnter_waitQueue]
      exact ⟨fun _ => SchedOp.noConfusion, List.Sublist.refl _⟩
  | yield =>
      right
      rw [yieldEnter_waitQueue]
      exact ⟨fun _ => SchedOp.noConfusion, List.Sublist.refl _⟩
  -- only `Block` adds a waiter
  | block ch hidle => exact Or.inl ⟨ch, rfl, rfl⟩
  | wake ch wakeAll => exact Or.inr ⟨fun _ => SchedOp.noConfusion, wake_sublist hnodup ch wakeAll⟩
  | exit hidle hdead =>
      right
      obtain rfl := enqueueDead_eq hdead
      rw [yieldEnter_waitQueue]
      exact ⟨fun _ => SchedOp.noConfusion, List.Sublist.refl _⟩

theorem schedStep_waitQueue {s s' : Sched} {op : SchedOp} {c : Tid} (hnodup : s.waitQueue.Nodup)
    (hc : s.currentThread = some c) (hstep : schedStep s op = some s') :
    (∃ ch, op = .block ch ∧ s'.waitQueue = s.waitQueue ++ [c]) ∨
      (∀ ch, op ≠ .block ch) ∧ s'.waitQueue.Sublist s.waitQueue := by
  rcases schedStep_cases hstep with ⟨henter, -⟩ | ⟨m, henter, rfl, -⟩
  · exact enter_waitQueue hnodup hc henter
  · rw [scheduleLocked_waitQueue]
    exact enter_waitQueue hnodup hc henter

/-- One call keeps the queue in order. -/
theorem inOrder_step {c c' : Clock} {op : SchedOp} (hsched : SchedInv c.sched) (h : InOrder c)
    (hstep : clockStep c op = some c') : SchedInv c'.sched ∧ InOrder c' := by
  rcases Option.map_eq_some_iff.mp hstep with ⟨s, hs, rfl⟩
  refine ⟨schedStep_inv hsched hs, ?_⟩
  rcases hsched.current with ⟨t, ht, hcount, -⟩
  rcases schedStep_waitQueue h.nodup ht hs with ⟨ch, rfl, hqueue⟩ | ⟨hother, hsub⟩
  · have hsince : c.sinceAfter (.block ch) = Function.update c.since t c.now := by
      unfold Clock.sinceAfter
      rw [ht]
    rw [hsince]
    -- the running thread is on no list before it blocks
    exact h.snoc (ListInv.not_mem_waitQueue hcount) hqueue
  · -- no `Block`: the times are the same
    have hsince : c.sinceAfter op = c.since := by
      cases op with
      | block ch => exact absurd rfl (hother ch)
      | _ => rfl
    rw [hsince]
    exact h.sublist hsub

/-- The clock when the scheduler starts. -/
def Clock.start (s : Sched) : Clock := ⟨s, 0, fun _ => 0⟩

/-- In every run the wait queue is in the order of the `Block` calls. -/
theorem inOrder_run {rootPa : Option ProcId → Nat} {idleStack reaperStack : Nat} {s : Sched}
    (hstart : start rootPa idleStack reaperStack = some s) {ops : List SchedOp} {c : Clock}
    (hrun : run clockStep (Clock.start s) ops = some c) : InOrder c := by
  have hempty : s.waitQueue = [] := by
    rw [start_eq] at hstart
    rcases addThread_eq hstart with ⟨-, rfl⟩
    rfl
  -- nobody waits at the start
  have hfirst : InOrder (Clock.start s) := by
    constructor
    · change s.waitQueue.Pairwise _
      rw [hempty]
      exact List.Pairwise.nil
    · intro t ht
      change t ∈ s.waitQueue at ht
      rw [hempty] at ht
      exact absurd ht List.not_mem_nil
  have hinv := inv_of_run (I := fun c => SchedInv c.sched ∧ InOrder c)
    (fun _ _ _ h hstep => inOrder_step h.1 h.2 hstep) ⟨start_inv hstart, hfirst⟩ hrun
  exact hinv.2

/-! ## The right threads, in order -/

/-- The first of the waiters has waited longest. -/
theorem InOrder.longest {c : Clock} (h : InOrder c) {ch : Channel} {t : Tid}
    (ht : t ∈ (waiters c.sched ch).head?) {u : Tid} (hu : u ∈ waiters c.sched ch) :
    c.since t ≤ c.since u := by
  have hsorted : (waiters c.sched ch).Pairwise fun t u => c.since t < c.since u :=
    h.sorted.sublist List.filter_sublist
  rcases List.head?_eq_some_iff.mp ht with ⟨rest, hrest⟩
  rw [hrest] at hsorted hu
  rcases List.mem_cons.mp hu with rfl | hu
  · exact Nat.le_refl _
  · exact Nat.le_of_lt (List.rel_of_pairwise_cons hsorted hu)

/-- `Wake` wakes all threads that wait on the channel, or the first of them. In
a run the first one is the one that has waited longest. The hypothesis is what
an intrusive list is: a thread has one `wait_node`. -/
theorem wake_exact (c : Clock) (ch : Channel) (hnodup : c.sched.waitQueue.Nodup) :
    Woke c.sched (c.sched.wake ch true) (waiters c.sched ch) ∧
      Woke c.sched (c.sched.wake ch false) (waiters c.sched ch).head?.toList ∧
      (InOrder c → ∀ t ∈ (waiters c.sched ch).head?, ∀ u ∈ waiters c.sched ch,
        c.since t ≤ c.since u) ∧
      ∀ rootPa idleStack reaperStack s ops, start rootPa idleStack reaperStack = some s →
        run clockStep (Clock.start s) ops = some c → InOrder c := by
  refine ⟨wake_all ch hnodup, wake_one ch hnodup, ?_, ?_⟩
  · intro h t ht u hu
    exact h.longest ht hu
  · intro rootPa idleStack reaperStack s ops hstart hrun
    exact inOrder_run hstart hrun

/-- Three threads on the wait queue, two of them on one channel. -/
def threeWaiters : Clock where
  sched :=
    { boot fun _ => 0 with
      waitQueue := [3, 4, 5]
      threads := fun t =>
        { state := .blocked, waitChannel := some (.object (t % 2)), mlfqLevel := 1 } }
  now := 3
  since := fun t => t - 3

/-- Three threads wait, two of them on channel 1: the longer waiting one is woken. -/
theorem wake_exact_three :
    threeWaiters.sched.waitQueue.Nodup ∧
      waiters threeWaiters.sched (.object 1) = [3, 5] ∧
      Woke threeWaiters.sched (threeWaiters.sched.wake (.object 1) false) [3] := by
  have hnodup : threeWaiters.sched.waitQueue.Nodup := by decide
  exact ⟨hnodup, by decide, (wake_exact threeWaiters (.object 1) hnodup).2.1⟩

end Ceryx.Proc
