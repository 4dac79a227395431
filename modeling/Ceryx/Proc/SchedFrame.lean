import Ceryx.Proc.SchedInv

/-!
# Ceryx.Proc.SchedFrame — what the scheduler leaves alone

The entry points move threads between the CPU and the lists. They create no
thread, they put no thread on a list that was nowhere before (the idle thread
apart), and they never touch the process a thread belongs to. `Moves b s` says
so of a state `s` reached from `b` in the middle of an entry point.
-/

namespace Ceryx.Proc

open Sched

/-- A thread is on the CPU, in a ready queue, on the wait queue, or waiting for
the reaper. -/
def Occupied (s : Sched) (t : Tid) : Prop :=
  s.currentThread = some t ∨ (∃ i ∈ levels, t ∈ s.queues i) ∨ t ∈ s.waitQueue ∨
    t ∈ s.deadList ∨ t ∈ s.localDead

/-- Where an entry point called in `b` can take threads from. -/
def Within (b : Sched) (t : Tid) : Prop := Occupied b t ∨ b.idleThread = some t

/-- From `b` to `s` no thread is created and none changes its process, and who is
running or on a list in `s` was so in `b`, or is the idle thread. -/
structure Moves (b s : Sched) : Prop where
  process : ∀ t, (s.threads t).process = (b.threads t).process
  occupied : ∀ t, Occupied s t → Within b t
  idle : s.idleThread = b.idleThread
  next : s.nextTid = b.nextTid
  reaper : s.reaperThread = b.reaperThread

/-- A push puts one thread on one queue. -/
theorem mem_pushReady {s : Sched} {l i : Int} {t u : Tid} (h : u ∈ (s.pushReady l t).queues i) :
    u ∈ s.queues i ∨ u = t := by
  by_cases hil : i = l
  · subst hil
    have h' : u ∈ s.queues i ++ [t] := by simpa [Sched.pushReady] using h
    exact (List.mem_append.mp h').imp_right List.mem_singleton.mp
  · have h' : u ∈ s.queues i := by simpa [Sched.pushReady, hil] using h
    exact Or.inl h'

namespace Moves

variable {b s : Sched}

/-- Nothing has moved. -/
theorem refl (s : Sched) : Moves s s := ⟨fun _ => rfl, fun _ => Or.inl, rfl, rfl, rfl⟩

/-- Two moves are one. -/
theorem trans {s' : Sched} (h : Moves b s) (h' : Moves s s') : Moves b s' where
  process t := (h'.process t).trans (h.process t)
  occupied t ht := by
    rcases h'.occupied t ht with hocc | hidle
    · exact h.occupied t hocc
    · exact Or.inr (h.idle ▸ hidle)
  idle := h'.idle.trans h.idle
  next := h'.next.trans h.next
  reaper := h'.reaper.trans h.reaper

/-! ## The pieces -/

/-- A thread that keeps its process. -/
theorem updThread (h : Moves b s) (t : Tid) {f : Thread → Thread}
    (hf : (f (s.threads t)).process = (s.threads t).process) : Moves b (s.updThread t f) :=
  ⟨fun u => (updThread_field Thread.process s t hf u).trans (h.process u), h.occupied, h.idle,
    h.next, h.reaper⟩

/-- A thread of the old state may be put on any queue. -/
theorem pushReady (h : Moves b s) {t : Tid} (ht : Within b t) (l : Int) :
    Moves b (s.pushReady l t) where
  process := h.process
  occupied u hu := by
    rcases hu with hc | ⟨i, hi, hmem⟩ | hrest
    · exact h.occupied u (Or.inl hc)
    · rcases mem_pushReady hmem with hold | rfl
      · exact h.occupied u (Or.inr (Or.inl ⟨i, hi, hold⟩))
      · exact ht
    · exact h.occupied u (Or.inr (Or.inr hrest))
  idle := h.idle
  next := h.next
  reaper := h.reaper

/-- A queue may lose threads. -/
theorem setQueue (h : Moves b s) {i : Int} {q : List Tid} (hq : ∀ t ∈ q, t ∈ s.queues i) :
    Moves b (s.setQueue i q) where
  process := h.process
  occupied u hu := by
    rcases hu with hc | ⟨j, hj, hmem⟩ | hrest
    · exact h.occupied u (Or.inl hc)
    · by_cases hji : j = i
      · subst hji
        have hmem' : u ∈ q := by simpa [Sched.setQueue] using hmem
        exact h.occupied u (Or.inr (Or.inl ⟨j, hj, hq u hmem'⟩))
      · have hmem' : u ∈ s.queues j := by simpa [Sched.setQueue, hji] using hmem
        exact h.occupied u (Or.inr (Or.inl ⟨j, hj, hmem'⟩))
    · exact h.occupied u (Or.inr (Or.inr hrest))
  idle := h.idle
  next := h.next
  reaper := h.reaper

/-- Onto the wait queue, -/
theorem pushWait (h : Moves b s) {t : Tid} (ht : Within b t) : Moves b (s.pushWait t) where
  process := h.process
  occupied u hu := by
    rcases hu with hc | hready | hwait | hrest
    · exact h.occupied u (Or.inl hc)
    · exact h.occupied u (Or.inr (Or.inl hready))
    · rcases List.mem_append.mp hwait with hold | hnew
      · exact h.occupied u (Or.inr (Or.inr (Or.inl hold)))
      · exact List.mem_singleton.mp hnew ▸ ht
    · exact h.occupied u (Or.inr (Or.inr (Or.inr hrest)))
  idle := h.idle
  next := h.next
  reaper := h.reaper

/-- and off it. -/
theorem removeWait (h : Moves b s) (t : Tid) : Moves b (s.removeWait t) where
  process := h.process
  occupied u hu := by
    rcases hu with hc | hready | hwait | hrest
    · exact h.occupied u (Or.inl hc)
    · exact h.occupied u (Or.inr (Or.inl hready))
    · exact h.occupied u (Or.inr (Or.inr (Or.inl (List.mem_of_mem_erase hwait))))
    · exact h.occupied u (Or.inr (Or.inr (Or.inr hrest)))
  idle := h.idle
  next := h.next
  reaper := h.reaper

/-- The thread that is dispatched was there before. -/
theorem performSwitch (h : Moves b s) {n : Tid} (hn : Within b n) :
    Moves b (s.performSwitch n) where
  process t := (updThread_field Thread.process s n (f := fun th => { th with state := .running })
    rfl t).trans (h.process t)
  occupied u hu := by
    rcases hu with hc | hrest
    · exact Option.some.inj hc ▸ hn
    · exact h.occupied u (Or.inr hrest)
  idle := h.idle
  next := h.next
  reaper := h.reaper

/-- `ScheduleLocked` switches to a ready thread or to the idle one. -/
theorem scheduleLocked (h : Moves b s) : Moves b s.scheduleLocked := by
  unfold Sched.scheduleLocked
  rcases popBest_cases s with ⟨hpop, -⟩ | ⟨i, hi, t, rest, hq, -, hpop⟩
  · -- the queues are empty: the idle thread, if it does not run already
    simp only [hpop, Option.none_or]
    cases hd : s.idleThread with
    | none => exact h
    | some d =>
        dsimp only
        split
        · exact h
        · exact h.performSwitch (Or.inr (h.idle ▸ hd))
  · simp only [hpop, Option.some_or]
    -- the head of the first queue that is not empty
    have hpopped : Moves b (s.setQueue i rest) :=
      h.setQueue fun u hu => by rw [hq]; exact List.mem_cons_of_mem _ hu
    split
    · exact hpopped
    · apply hpopped.performSwitch
      apply h.occupied
      exact Or.inr (Or.inl ⟨i, hi, by rw [hq]; exact List.mem_cons_self⟩)

end Moves

/-! ## The entry points -/

/-- A boost moves one thread to level 0. -/
theorem boostOne_moves {b s : Sched} (h : Moves b s) {t : Tid} (ht : Within b t) :
    Moves b (s.boostOne t) :=
  ((h.updThread t rfl).updThread t rfl).pushReady ht 0

/-- Over a whole queue, by induction on it. -/
theorem foldl_boostOne_moves {b : Sched} {q : List Tid} (hq : ∀ t ∈ q, Within b t) {s : Sched}
    (h : Moves b s) : Moves b (q.foldl boostOne s) := by
  induction q generalizing s with
  | nil => exact h
  | cons t q ih =>
      exact ih (fun u hu => hq u (List.mem_cons_of_mem _ hu))
        (boostOne_moves h (hq t List.mem_cons_self))

/-- The boost of one queue. -/
theorem boostQueue_moves {b s : Sched} (h : Moves b s) {i : Int} (hi : i ∈ levels) :
    Moves b (s.boostQueue i) := by
  apply foldl_boostOne_moves
  · intro t ht
    exact h.occupied t (Or.inr (Or.inl ⟨i, hi, ht⟩))
  · exact h.setQueue fun t ht => absurd ht List.not_mem_nil

/-- The clock of a tick. -/
theorem tickClock_moves (s : Sched) : Moves s s.tickClock := by
  have hcount : Moves s { s with tickCounter := (s.tickCounter + 1) % 2 ^ 64 } :=
    ⟨fun _ => rfl, fun _ => Or.inl, rfl, rfl, rfl⟩
  unfold tickClock
  dsimp only
  split
  · exact boostQueue_moves (boostQueue_moves hcount (by decide)) (by decide)
  · exact hcount

/-- `Yield` and the end of a quantum put the running thread back. -/
theorem requeue_moves {b s : Sched} (h : Moves b s) {t : Tid} (ht : Within b t) :
    Moves b (s.requeue t) :=
  ((h.updThread t rfl).updThread t rfl).pushReady ht _

/-- One level down. -/
theorem demote_moves {b s : Sched} (h : Moves b s) {t : Tid} (ht : Within b t) :
    Moves b (s.demote t) :=
  (((h.updThread t rfl).updThread t rfl).updThread t rfl).pushReady ht _

/-- So a tick moves threads about, -/
theorem tick_moves (s : Sched) : Moves s s.tick := by
  have hclock := tickClock_moves s
  unfold Sched.tick
  dsimp only
  split
  · rename_i c hc
    -- whoever is charged was running
    have hwithin : Within s c := hclock.occupied c (Or.inl hc)
    split
    · have hcharge : Moves s (s.tickClock.chargeTick c) := hclock.updThread c rfl
      split
      · exact (demote_moves hcharge hwithin).scheduleLocked
      · exact hcharge
    · split
      · exact hclock
      · exact hclock.scheduleLocked
  · split
    · exact hclock
    · exact hclock.scheduleLocked

/-- as `Yield` does, -/
theorem yield_moves {b s : Sched} (h : Moves b s) : Moves b s.yield := by
  unfold Sched.yield
  split
  · rename_i c hc
    split
    · exact (requeue_moves h (h.occupied c (Or.inl hc))).scheduleLocked
    · exact h.scheduleLocked
  · exact h.scheduleLocked

/-- `Block` puts it on the wait queue. -/
theorem block_moves (s : Sched) (ch : Channel) : Moves s (s.block ch) := by
  unfold Sched.block
  split
  · exact Moves.refl s
  · rename_i t ht
    have hpark : Moves s (s.parkOn t ch) :=
      (((Moves.refl s).updThread t rfl).updThread t rfl).pushWait (Or.inl (Or.inl ht))
    exact hpark.scheduleLocked

/-- `WakeOne`, -/
theorem wakeOne_moves {b s : Sched} (h : Moves b s) {t : Tid} (ht : Within b t) :
    Moves b (s.wakeOne t) :=
  ((((h.removeWait t).updThread t rfl).updThread t rfl).updThread t rfl).pushReady ht _

/-- `Wake` takes threads from the wait queue to their levels; the induction is on what
is left of the queue. -/
theorem wakeLoop_moves {b : Sched} (ch : Channel) (wakeAll : Bool) {rest : List Tid}
    (hrest : ∀ t ∈ rest, Within b t) {s : Sched} (h : Moves b s) :
    Moves b (wakeLoop ch wakeAll rest s) := by
  induction rest generalizing s with
  | nil => exact h
  | cons t rest ih =>
      have hrest' : ∀ u ∈ rest, Within b u := fun u hu => hrest u (List.mem_cons_of_mem _ hu)
      have hone := wakeOne_moves h (hrest t List.mem_cons_self)
      unfold wakeLoop
      split
      · split
        · exact ih hrest' hone
        · exact hone
      · exact ih hrest' h

/-- `Wake`, -/
theorem wake_moves (s : Sched) (ch : Channel) (wakeAll : Bool) : Moves s (s.wake ch wakeAll) :=
  wakeLoop_moves ch wakeAll (fun _ ht => Or.inl (Or.inr (Or.inr (Or.inl ht)))) (Moves.refl s)

/-- and `Exit`, which hands the running one to the reaper. -/
theorem exitThread_moves {s s' : Sched} {t : Tid} (ht : s.currentThread = some t)
    (hexit : s.exitThread t = some s') : Moves s s' := by
  obtain ⟨s₁, henq, rfl⟩ := Option.map_eq_some_iff.mp hexit
  unfold enqueueDead at henq
  split at henq
  · cases henq
  · split at henq
    · cases henq
    · cases henq
      have hterm : Moves s (s.setState t .terminated) := (Moves.refl s).updThread t rfl
      apply yield_moves
      refine ⟨hterm.process, fun u hu => ?_, rfl, rfl, rfl⟩
      rcases hu with hc | hready | hwait | hdead | hlocal
      · exact hterm.occupied u (Or.inl hc)
      · exact hterm.occupied u (Or.inr (Or.inl hready))
      · exact hterm.occupied u (Or.inr (Or.inr (Or.inl hwait)))
      · -- who is new on the dead list was on the CPU
        rcases List.mem_append.mp hdead with hold | hnew
        · exact hterm.occupied u (Or.inr (Or.inr (Or.inr (Or.inl hold))))
        · obtain rfl := List.mem_singleton.mp hnew
          exact Or.inl (Or.inl ht)
      · exact hterm.occupied u (Or.inr (Or.inr (Or.inr (Or.inr hlocal))))

/-! ## New threads -/

/-- One more thread, of the given process, and nothing else moved. -/
structure Adds (b : Sched) (owner : Option ProcId) (s : Sched) : Prop where
  process : ∀ t, t ≠ b.nextTid → (s.threads t).process = (b.threads t).process
  new : (s.threads b.nextTid).process = owner
  occupied : ∀ t, Occupied s t → Occupied b t ∨ t = b.nextTid
  idle : s.idleThread = b.idleThread
  next : s.nextTid = b.nextTid + 1
  reaper : s.reaperThread = b.reaperThread

/-- Only `AddThread` adds one, with its process. -/
theorem addThread_adds {b s : Sched} {process : Option ProcId} {stack : Nat} {level : Int}
    (hstep : schedStep b (.addThread process stack level) = some s) : Adds b process s := by
  obtain ⟨-, rfl⟩ := addThread_eq hstep
  have hfield : ∀ t, (((b.newThread process stack).2.updThread (b.newThread process stack).1
      fun th => { th with mlfqLevel := level, ticksRemaining := kQuantum level,
                          state := .ready }).threads t).process =
      ((b.newThread process stack).2.threads t).process :=
    updThread_field Thread.process _ _ rfl
  refine ⟨fun t ht => (hfield t).trans ?_, (hfield b.nextTid).trans ?_, fun t ht => ?_, rfl, rfl,
    rfl⟩
  · simp [newThread, ht]
  · simp [newThread]
  · -- what is on a queue was there, or is the new thread
    rcases ht with hc | ⟨i, hi, hmem⟩ | hrest
    · exact Or.inl (Or.inl hc)
    · rcases mem_pushReady hmem with hold | rfl
      · exact Or.inl (Or.inr (Or.inl ⟨i, hi, hold⟩))
      · exact Or.inr rfl
    · exact Or.inl (Or.inr (Or.inr hrest))

end Ceryx.Proc
