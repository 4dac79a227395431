import Mathlib.Data.List.Count
import Mathlib.Data.List.Nodup
import Mathlib.Tactic.Common
import Ceryx.Proc.Sched

/-!
# Ceryx.Proc.SchedInv — where the threads are

Counting lemmas for the scheduler's lists, one inversion lemma for
`ScheduleLocked`, and the invariant `SchedInv` that every run of the scheduler
keeps: no thread is on two lists, the running one is on none, and a thread on a
list has that list's state. `SchedInv` does not say that every thread is
somewhere: that is the subject of `Ceryx.Proc.NoThreadLost`.
-/

namespace Ceryx.Proc

namespace Sched

/-! ## Counting -/

/-- All ready threads, level by level. -/
def readyList (s : Sched) : List Tid := levels.flatMap s.queues

/-- How often a thread occurs in the ready queues. -/
def readyCount (s : Sched) (t : Tid) : Nat := s.readyList.count t

/-- How often a thread occurs in the ready queues and the wait queue. -/
def listCount (s : Sched) (t : Tid) : Nat := s.readyCount t + s.waitQueue.count t

/-- How often a thread is queued, level by level. -/
theorem readyCount_eq (s : Sched) (t : Tid) :
    s.readyCount t = (s.queues 0).count t + (s.queues 1).count t + (s.queues 2).count t := by
  simp [readyCount, readyList, levels, List.count_append, Nat.add_assoc]

/-- The levels are 0, 1 and 2. -/
theorem mem_levels {i : Int} : i ∈ levels ↔ 0 ≤ i ∧ i < kNumLevels := by
  simp only [levels, kNumLevels, List.mem_cons, List.not_mem_nil, or_false]
  omega

/-- A thread is ready when it is on the queue of some level. -/
theorem mem_readyList {s : Sched} {t : Tid} :
    t ∈ s.readyList ↔ ∃ i ∈ levels, t ∈ s.queues i := List.mem_flatMap

/-- Ready is who is on one of the queues. -/
theorem readyCount_pos {s : Sched} {t : Tid} :
    0 < s.readyCount t ↔ ∃ i ∈ levels, t ∈ s.queues i := by
  rw [readyCount, List.count_pos_iff, mem_readyList]

/-- Only the queues count, -/
theorem readyCount_congr {s s' : Sched} (h : s'.queues = s.queues) (t : Tid) :
    s'.readyCount t = s.readyCount t := by
  rw [readyCount, readyList, h]; rfl

/-- and for all the lists the wait queue as well. -/
theorem listCount_congr {s s' : Sched} (hq : s'.queues = s.queues)
    (hw : s'.waitQueue = s.waitQueue) (t : Tid) : s'.listCount t = s.listCount t := by
  rw [listCount, readyCount_congr hq, hw]; rfl

/-- Replace the contents of one ready queue. -/
def setQueue (s : Sched) (i : Int) (q : List Tid) : Sched :=
  { s with queues := Function.update s.queues i q }

/-- Replacing a queue takes its threads off and puts the new ones on. -/
theorem readyCount_setQueue (s : Sched) {i : Int} (hi : i ∈ levels) (q : List Tid) (t : Tid) :
    (s.setQueue i q).readyCount t + (s.queues i).count t = s.readyCount t + q.count t := by
  simp only [readyCount_eq, setQueue]
  simp only [levels, List.mem_cons, List.not_mem_nil, or_false] at hi
  rcases hi with rfl | rfl | rfl <;> simp <;> omega

/-- What another queue in its place adds and takes away. -/
theorem listCount_setQueue (s : Sched) {i : Int} (hi : i ∈ levels) (q : List Tid) (t : Tid) :
    (s.setQueue i q).listCount t + (s.queues i).count t = s.listCount t + q.count t := by
  have h := readyCount_setQueue s hi q t
  rw [listCount, listCount]
  change _ + s.waitQueue.count t + _ = _
  omega

/-- A push queues one thread once more. -/
theorem readyCount_pushReady (s : Sched) {l : Int} (hl : l ∈ levels) (t u : Tid) :
    (s.pushReady l t).readyCount u = s.readyCount u + if t = u then 1 else 0 := by
  have h := readyCount_setQueue s hl (s.queues l ++ [t]) u
  have hone : [t].count u = if t = u then 1 else 0 := by simp [List.count_singleton]
  rw [List.count_append, hone] at h
  change (s.pushReady l t).readyCount u + _ = _ at h
  omega

/-- A push is one place more, -/
theorem listCount_pushReady (s : Sched) {l : Int} (hl : l ∈ levels) (t u : Tid) :
    (s.pushReady l t).listCount u = s.listCount u + if t = u then 1 else 0 := by
  rw [listCount, readyCount_pushReady s hl, listCount]
  simp only [pushReady]
  omega

/-- Taking the head of a queue. -/
theorem listCount_popped {s : Sched} {i : Int} (hi : i ∈ levels) {t : Tid} {rest : List Tid}
    (hq : s.queues i = t :: rest) (u : Tid) :
    (s.setQueue i rest).listCount u + (if t = u then 1 else 0) = s.listCount u := by
  have h := listCount_setQueue s hi rest u
  have hcons : (t :: rest).count u = rest.count u + if t = u then 1 else 0 := by
    simp [List.count_cons]
  rw [hq, hcons] at h
  omega

/-! ## Field updates -/

@[simp] theorem updThread_self (s : Sched) (t : Tid) (f : Thread → Thread) :
    (s.updThread t f).threads t = f (s.threads t) := by
  simp [updThread]

theorem updThread_ne (s : Sched) {t u : Tid} (f : Thread → Thread) (h : u ≠ t) :
    (s.updThread t f).threads u = s.threads u := by
  simp [updThread, h]

/-- An update that keeps a field keeps it for all threads. -/
theorem updThread_field {β : Type} (g : Thread → β) (s : Sched) (t : Tid) {f : Thread → Thread}
    (h : g (f (s.threads t)) = g (s.threads t)) (u : Tid) :
    g ((s.updThread t f).threads u) = g (s.threads u) := by
  by_cases hu : u = t
  · subst hu
    rw [updThread_self, h]
  · rw [updThread_ne s f hu]

@[simp] theorem listCount_updThread (s : Sched) (t : Tid) (f : Thread → Thread) (u : Tid) :
    (s.updThread t f).listCount u = s.listCount u := rfl

@[simp] theorem readyCount_updThread (s : Sched) (t : Tid) (f : Thread → Thread) (u : Tid) :
    (s.updThread t f).readyCount u = s.readyCount u := rfl

@[simp] theorem pushReady_threads (s : Sched) (l : Int) (t : Tid) :
    (s.pushReady l t).threads = s.threads := rfl

/-! ## PopBest and ScheduleLocked -/

/-- `PopBest` takes the head of the first queue that is not empty, if there is one. -/
theorem popFrom_cases (s : Sched) {is : List Int} (his : is.Pairwise (· < ·)) :
    (s.popFrom is = (none, s) ∧ ∀ i ∈ is, s.queues i = []) ∨
    ∃ i ∈ is, ∃ t rest, s.queues i = t :: rest ∧ (∀ j ∈ is, j < i → s.queues j = []) ∧
      s.popFrom is = (some t, { s with queues := Function.update s.queues i rest }) := by
  -- over the levels, best first: an empty one is passed, another one gives its head
  induction is with
  | nil => exact Or.inl ⟨rfl, by simp⟩
  | cons i is ih =>
      obtain ⟨hlt, his'⟩ := List.pairwise_cons.mp his
      cases hq : s.queues i with
      | cons t rest =>
          refine Or.inr ⟨i, List.mem_cons_self, t, rest, hq, ?_, by simp [popFrom, hq]⟩
          intro j hj hji
          rcases List.mem_cons.mp hj with rfl | hj'
          · omega
          · have := hlt j hj'
            omega
      | nil =>
          rcases ih his' with ⟨hpop, hall⟩ | ⟨k, hk, t, rest, hkq, hbefore, hpop⟩
          · left
            refine ⟨by simp [popFrom, hq, hpop], ?_⟩
            intro j hj
            rcases List.mem_cons.mp hj with rfl | hj'
            · exact hq
            · exact hall j hj'
          · right
            refine ⟨k, List.mem_cons_of_mem _ hk, t, rest, hkq, ?_, by simp [popFrom, hq, hpop]⟩
            intro j hj hjk
            rcases List.mem_cons.mp hj with rfl | hj'
            · exact hq
            · exact hbefore j hj' hjk

/-- `PopBest` takes the head of the first queue that is not empty. -/
theorem popBest_cases (s : Sched) :
    (s.popBest = (none, s) ∧ ∀ i ∈ levels, s.queues i = []) ∨
    ∃ i ∈ levels, ∃ t rest, s.queues i = t :: rest ∧ (∀ j ∈ levels, j < i → s.queues j = []) ∧
      s.popBest = (some t, { s with queues := Function.update s.queues i rest }) :=
  popFrom_cases s (by decide)

/-- Everything `ScheduleLocked` can do when thread `p` is running: stay in or
go to the idle thread when nothing is ready, otherwise pop the best thread
`t`, which is either `p` itself (and then nothing more happens) or the thread
switched to. -/
theorem scheduleLocked_cases {s : Sched} {p d : Tid} (hp : s.currentThread = some p)
    (hd : s.idleThread = some d) :
    ((∀ i ∈ levels, s.queues i = []) ∧
      ((p = d ∧ s.scheduleLocked = s) ∨ (p ≠ d ∧ s.scheduleLocked = s.performSwitch d))) ∨
    ∃ i ∈ levels, ∃ t rest, s.queues i = t :: rest ∧ (∀ j ∈ levels, j < i → s.queues j = []) ∧
      ((t = p ∧ s.scheduleLocked = s.setQueue i rest) ∨
        (t ≠ p ∧ s.scheduleLocked = (s.setQueue i rest).performSwitch t)) := by
  rcases popBest_cases s with ⟨hpop, hall⟩ | ⟨i, hi, t, rest, hq, hbefore, hpop⟩
  · refine Or.inl ⟨hall, ?_⟩
    by_cases hpd : p = d
    · exact Or.inl ⟨hpd, by simp [scheduleLocked, hpop, hp, hd, hpd]⟩
    · refine Or.inr ⟨hpd, ?_⟩
      simp [scheduleLocked, hpop, hp, hd, Ne.symm hpd]
  · refine Or.inr ⟨i, hi, t, rest, hq, hbefore, ?_⟩
    by_cases htp : t = p
    · exact Or.inl ⟨htp, by simp [scheduleLocked, hpop, hp, htp, setQueue]⟩
    · exact Or.inr ⟨htp, by simp [scheduleLocked, hpop, hp, htp, setQueue]⟩

/-- A field that neither a pop nor `PerformSwitch` touches. -/
theorem scheduleLocked_frame {β : Type} (g : Sched → β)
    (hset : ∀ (s : Sched) i q, g (s.setQueue i q) = g s)
    (hswitch : ∀ s n, g (s.performSwitch n) = g s) (s : Sched) : g s.scheduleLocked = g s := by
  unfold scheduleLocked
  rcases popBest_cases s with ⟨hpop, -⟩ | ⟨i, -, t, rest, -, -, hpop⟩
  · simp only [hpop, Option.none_or]
    split
    · rfl
    · split
      · rfl
      · exact hswitch s _
  · simp only [hpop, Option.some_or]
    split
    · exact hset s i rest
    · exact (hswitch _ t).trans (hset s i rest)

end Sched

/-! ## The invariant -/

open Sched

/-- A thread object has been made for this name; `s_next_tid` starts at 1. -/
def Created (s : Sched) (t : Tid) : Prop := 0 < t ∧ t < s.nextTid

/-- What holds of the lists also in the middle of an entry point, after the
running thread has been pushed somewhere. -/
structure ListInv (s : Sched) : Prop where
  /-- No thread occurs twice in the ready queues and the wait queue together. -/
  once : ∀ t, s.listCount t ≤ 1
  /-- Only created threads occur. -/
  fresh : ∀ t, ¬ Created s t → s.listCount t = 0
  next : 0 < s.nextTid
  /-- The idle thread occurs nowhere. -/
  idle : ∃ d, s.idleThread = some d ∧ s.listCount d = 0 ∧ Created s d
  /-- A terminated thread occurs nowhere. -/
  dead : ∀ t, (s.threads t).state = .terminated → s.listCount t = 0
  ready : ∀ t, 0 < s.readyCount t → (s.threads t).state = .ready
  blocked : ∀ t, t ∈ s.waitQueue → (s.threads t).state = .blocked
  level : ∀ t, (s.threads t).mlfqLevel ∈ levels

/-- What holds between two calls of entry points: in addition, the running
thread is on no list, and unless it is the idle thread it is `Running`, or
`Ready` when `ScheduleLocked` popped it again. -/
structure SchedInv (s : Sched) : Prop extends ListInv s where
  current : ∃ c, s.currentThread = some c ∧ s.listCount c = 0 ∧ Created s c ∧
    (s.currentThread ≠ s.idleThread →
      (s.threads c).state = .running ∨ (s.threads c).state = .ready)

/-- A created thread, not the idle one, that is on no list. -/
structure Unlisted (s : Sched) (t : Tid) : Prop where
  count : s.listCount t = 0
  fresh : Created s t
  notIdle : s.idleThread ≠ some t

namespace ListInv

variable {s : Sched}

/-- A thread on no list is not waiting. -/
theorem not_mem_waitQueue {t : Tid} (ht : s.listCount t = 0) : t ∉ s.waitQueue := by
  intro hmem
  have hpos := List.count_pos_iff.mpr hmem
  rw [listCount] at ht
  omega

/-- The invariant reads only the threads, the two kinds of queue, the idle
thread and the counter. -/
theorem congr {s' : Sched} (h : ListInv s) (hth : s'.threads = s.threads)
    (hq : s'.queues = s.queues) (hw : s'.waitQueue = s.waitQueue)
    (hd : s'.idleThread = s.idleThread) (hn : s'.nextTid = s.nextTid) : ListInv s' where
  once t := by rw [listCount_congr hq hw]; exact h.once t
  fresh t ht := by
    rw [listCount_congr hq hw]
    exact h.fresh t (by rwa [Created, ← hn])
  next := by rw [hn]; exact h.next
  idle := by
    obtain ⟨d, hidle, hcount, hlt⟩ := h.idle
    refine ⟨d, hd.trans hidle, ?_, ?_⟩
    · rw [listCount_congr hq hw]
      exact hcount
    · rwa [Created, hn]
  dead t ht := by
    rw [listCount_congr hq hw]
    exact h.dead t (by rwa [← hth])
  ready t ht := by
    rw [hth]
    exact h.ready t (by rwa [← readyCount_congr hq])
  blocked t ht := by
    rw [hth]
    exact h.blocked t (by rwa [← hw])
  level t := by rw [hth]; exact h.level t

/-- A thread on no list may change its fields freely, up to the bound on the
level. -/
theorem updThread (h : ListInv s) {t : Tid} {f : Thread → Thread} (ht : s.listCount t = 0)
    (hlevel : (f (s.threads t)).mlfqLevel ∈ levels) : ListInv (s.updThread t f) where
  once := h.once
  fresh := h.fresh
  next := h.next
  idle := h.idle
  dead := by
    intro u hu
    by_cases hut : u = t
    · exact hut ▸ ht
    · rw [updThread_ne s f hut] at hu
      exact h.dead u hu
  ready := by
    intro u hu
    -- `t` is on no list, so the thread on the queue is another one
    have hut : u ≠ t := by
      rintro rfl
      rw [listCount] at ht
      rw [readyCount_updThread] at hu
      omega
    rw [updThread_ne s f hut]
    exact h.ready u hu
  blocked := by
    intro u hu
    have hut : u ≠ t := fun he => not_mem_waitQueue ht (he ▸ hu)
    rw [updThread_ne s f hut]
    exact h.blocked u hu
  level := by
    intro u
    by_cases hut : u = t
    · subst hut
      rw [updThread_self]
      exact hlevel
    · rw [updThread_ne s f hut]
      exact h.level u

/-- One more thread on a list, in the state that the list is for. -/
theorem push {s' : Sched} (h : ListInv s) {t : Tid} (ht : Unlisted s t)
    (hcount : ∀ u, s'.listCount u = s.listCount u + if t = u then 1 else 0)
    (hthreads : s'.threads = s.threads) (hidle : s'.idleThread = s.idleThread)
    (hnext : s'.nextTid = s.nextTid) (hlive : (s.threads t).state ≠ .terminated)
    (hready : ∀ u, 0 < s'.readyCount u → (s.threads u).state = .ready)
    (hblocked : ∀ u, u ∈ s'.waitQueue → (s.threads u).state = .blocked) : ListInv s' where
  once := by
    intro u
    have hu := h.once u
    -- the one thread that is counted once more was counted nowhere
    have h0 := ht.count
    rw [hcount]
    split
    · subst t
      omega
    · omega
  fresh := by
    intro u hu
    unfold Created at hu
    rw [hnext] at hu
    have hne : t ≠ u := fun he => hu (he ▸ ht.fresh)
    rw [hcount, if_neg hne]
    exact h.fresh u hu
  next := by
    rw [hnext]
    exact h.next
  idle := by
    obtain ⟨d, hd, hzero, hlt⟩ := h.idle
    have hne : t ≠ d := by
      rintro rfl
      exact ht.notIdle hd
    refine ⟨d, hidle.trans hd, ?_, ?_⟩
    · rw [hcount, if_neg hne]
      exact hzero
    · unfold Created
      rw [hnext]
      exact hlt
  dead := by
    intro u hu
    rw [hthreads] at hu
    have hne : t ≠ u := by
      rintro rfl
      exact hlive hu
    rw [hcount, if_neg hne]
    exact h.dead u hu
  ready := by
    intro u hu
    rw [hthreads]
    exact hready u hu
  blocked := by
    intro u hu
    rw [hthreads]
    exact hblocked u hu
  level := by
    intro u
    rw [hthreads]
    exact h.level u

/-- A thread on no list may be queued. -/
theorem pushReady (h : ListInv s) {l : Int} (hl : l ∈ levels) {t : Tid} (ht : Unlisted s t)
    (hst : (s.threads t).state = .ready) : ListInv (s.pushReady l t) := by
  have hlive : (s.threads t).state ≠ .terminated := by
    rw [hst]
    exact ThreadState.noConfusion
  apply h.push ht (listCount_pushReady s hl t) rfl rfl rfl hlive
  · intro u hu
    by_cases htu : t = u
    · exact htu ▸ hst
    · rw [readyCount_pushReady s hl, if_neg htu] at hu
      exact h.ready u hu
  · exact h.blocked

/-- Taking a thread off a list leaves it on none. -/
theorem count_popped (h : ListInv s) {i : Int} (hi : i ∈ levels) {t : Tid} {rest : List Tid}
    (hq : s.queues i = t :: rest) : (s.setQueue i rest).listCount t = 0 := by
  have hcount := listCount_popped hi hq t
  have honce := h.once t
  rw [if_pos rfl] at hcount
  omega

/-- A thread that is popped was ready. -/
theorem ready_of_head (h : ListInv s) {i : Int} (hi : i ∈ levels) {t : Tid} {rest : List Tid}
    (hq : s.queues i = t :: rest) : (s.threads t).state = .ready :=
  h.ready t (readyCount_pos.mpr ⟨i, hi, by rw [hq]; exact List.mem_cons_self⟩)

/-- A listed thread is created and is not the idle one. -/
theorem listed (h : ListInv s) {t : Tid} (ht : 0 < s.listCount t) :
    Created s t ∧ s.idleThread ≠ some t := by
  constructor
  · by_contra hge
    have := h.fresh t hge
    omega
  · intro hidle
    obtain ⟨d, hd, hcount, -⟩ := h.idle
    obtain rfl : d = t := Option.some.inj (hd.symm.trans hidle)
    omega

/-- The head of a queue is on it. -/
theorem listed_of_head {i : Int} (hi : i ∈ levels) {t : Tid} {rest : List Tid}
    (hq : s.queues i = t :: rest) : 0 < s.listCount t := by
  have := listCount_popped hi hq t
  rw [if_pos rfl] at this
  omega

/-- A queue may be replaced by one in which no thread occurs more often. -/
theorem setQueue (h : ListInv s) {i : Int} (hi : i ∈ levels) {q : List Tid}
    (hq : ∀ t, q.count t ≤ (s.queues i).count t) : ListInv (s.setQueue i q) where
  once := by
    intro u
    have := listCount_setQueue s hi q u
    have := hq u
    have := h.once u
    omega
  fresh := by
    intro u hu
    have := listCount_setQueue s hi q u
    have := hq u
    have := h.fresh u hu
    omega
  next := h.next
  idle := by
    obtain ⟨d, hd, hcount, hlt⟩ := h.idle
    have := listCount_setQueue s hi q d
    have := hq d
    exact ⟨d, hd, by omega, hlt⟩
  dead := by
    intro u hu
    have := listCount_setQueue s hi q u
    have := hq u
    have := h.dead u hu
    omega
  ready := by
    intro u hu
    refine h.ready u ?_
    have := readyCount_setQueue s hi q u
    have := hq u
    omega
  blocked := h.blocked
  level := h.level

/-- A queue without its head. -/
theorem popped (h : ListInv s) {i : Int} (hi : i ∈ levels) {t : Tid} {rest : List Tid}
    (hq : s.queues i = t :: rest) : ListInv (s.setQueue i rest) :=
  h.setQueue hi fun u => by rw [hq]; exact List.count_le_count_cons

/-- The head is on no list any more, since it was on one only. -/
theorem unlisted_popped (h : ListInv s) {i : Int} (hi : i ∈ levels) {t : Tid} {rest : List Tid}
    (hq : s.queues i = t :: rest) : Unlisted (s.setQueue i rest) t :=
  ⟨h.count_popped hi hq, (h.listed (listed_of_head hi hq)).1, (h.listed (listed_of_head hi hq)).2⟩

/-- Switching to a thread on no list. -/
theorem performSwitch (h : ListInv s) {n : Tid} (hn : s.listCount n = 0) (hlt : Created s n) :
    SchedInv (s.performSwitch n) where
  toListInv :=
    (h.updThread (t := n) (f := fun th => { th with state := .running }) hn (h.level n)).congr
      rfl rfl rfl rfl rfl
  current := by
    refine ⟨n, rfl, hn, hlt, fun _ => Or.inl ?_⟩
    simp [Sched.performSwitch, setState, Sched.updThread]

/-- `ScheduleLocked` restores the full invariant, whatever the entry point did
with the running thread `p` before. -/
theorem scheduleLocked (h : ListInv s) {p : Tid} (hp : s.currentThread = some p) :
    SchedInv s.scheduleLocked := by
  obtain ⟨d, hd, hcount, hlt⟩ := h.idle
  rcases scheduleLocked_cases hp hd with
    ⟨-, ⟨rfl, heq⟩ | ⟨-, heq⟩⟩ | ⟨i, hi, t, rest, hq, -, ⟨rfl, heq⟩ | ⟨-, heq⟩⟩
  · rw [heq]
    exact ⟨h, p, hp, hcount, hlt, fun hne => absurd (hp.trans hd.symm) hne⟩
  · rw [heq]
    exact h.performSwitch hcount hlt
  · -- the thread just pushed is the one popped again
    rw [heq]
    have hun := h.unlisted_popped hi hq
    exact ⟨h.popped hi hq, t, hp, hun.count, hun.fresh, fun _ => Or.inr (h.ready_of_head hi hq)⟩
  · rw [heq]
    have hun := h.unlisted_popped hi hq
    exact (h.popped hi hq).performSwitch hun.count hun.fresh

end ListInv

/-! ## Boost -/

/-- What moving threads between the ready queues leaves alone. -/
structure SameThreads (s s' : Sched) : Prop where
  count : ∀ t, s'.listCount t = s.listCount t
  wait : s'.waitQueue = s.waitQueue
  state : ∀ t, (s'.threads t).state = (s.threads t).state
  current : s'.currentThread = s.currentThread
  idle : s'.idleThread = s.idleThread
  next : s'.nextTid = s.nextTid

/-- In two steps as in one. -/
theorem SameThreads.trans {s₁ s₂ s₃ : Sched} (h : SameThreads s₁ s₂) (h' : SameThreads s₂ s₃) :
    SameThreads s₁ s₃ where
  count t := (h'.count t).trans (h.count t)
  wait := h'.wait.trans h.wait
  state t := (h'.state t).trans (h.state t)
  current := h'.current.trans h.current
  idle := h'.idle.trans h.idle
  next := h'.next.trans h.next

theorem zero_mem_levels : (0 : Int) ∈ levels := by decide

/-- One turn of the loop of `Boost`, for a thread just popped. -/
theorem boostOne_inv {s : Sched} (h : ListInv s) {t : Tid} (ht : Unlisted s t)
    (hst : (s.threads t).state = .ready) : ListInv (s.boostOne t) := by
  have h₁ : ListInv (s.setMlfqLevel t 0) := h.updThread ht.count zero_mem_levels
  have h₂ : ListInv ((s.setMlfqLevel t 0).setTicksRemaining t (kQuantum 0)) :=
    h₁.updThread ht.count (h₁.level t)
  refine h₂.pushReady zero_mem_levels ⟨ht.count, ht.fresh, ht.notIdle⟩ ?_
  simpa [setTicksRemaining, setMlfqLevel] using hst

/-- A boosted thread is as ready as it was. -/
theorem boostOne_state (s : Sched) (t u : Tid) :
    ((s.boostOne t).threads u).state = (s.threads u).state := by
  change (((s.setMlfqLevel t 0).setTicksRemaining t (kQuantum 0)).threads u).state = _
  have h₁ := updThread_field Thread.state (s.setMlfqLevel t 0) t
    (f := fun th => { th with ticksRemaining := kQuantum 0 }) rfl u
  have h₂ := updThread_field Thread.state s t (f := fun th => { th with mlfqLevel := 0 }) rfl u
  exact h₁.trans h₂

/-- A boost queues the thread; the queue that it was on has been emptied before. -/
theorem boostOne_count (s : Sched) (t u : Tid) :
    (s.boostOne t).listCount u = s.listCount u + if t = u then 1 else 0 :=
  listCount_pushReady _ zero_mem_levels t u

/-- The loop of `Boost`, for the threads `q` of the queue being drained. -/
theorem foldl_boostOne {q : List Tid} {s : Sched} (h : ListInv s) (hnd : q.Nodup)
    (hq : ∀ t ∈ q, Unlisted s t ∧ (s.threads t).state = .ready) :
    ListInv (q.foldl boostOne s) ∧
      (∀ t, (q.foldl boostOne s).listCount t = s.listCount t + q.count t) ∧
      ∀ t, ((q.foldl boostOne s).threads t).state = (s.threads t).state := by
  -- over the queue that was taken off: each thread goes to level 0, none twice
  induction q generalizing s with
  | nil => exact ⟨h, fun t => by simp, fun t => rfl⟩
  | cons t q ih =>
      obtain ⟨htq, hnd'⟩ := List.nodup_cons.mp hnd
      obtain ⟨hun, hst⟩ := hq t List.mem_cons_self
      have hrest : ∀ u ∈ q, Unlisted (s.boostOne t) u ∧ ((s.boostOne t).threads u).state = .ready := by
        intro u hu
        obtain ⟨hunu, hstu⟩ := hq u (List.mem_cons_of_mem _ hu)
        have hne : t ≠ u := by
          rintro rfl
          exact htq hu
        refine ⟨⟨?_, hunu.fresh, hunu.notIdle⟩, (boostOne_state s t u).trans hstu⟩
        rw [boostOne_count, if_neg hne]
        exact hunu.count
      obtain ⟨hinv, hcount, hstate⟩ := ih (boostOne_inv h hun hst) hnd' hrest
      refine ⟨hinv, fun u => ?_, fun u => (hstate u).trans (boostOne_state s t u)⟩
      have hcons : (t :: q).count u = q.count u + if t = u then 1 else 0 := by
        simp [List.count_cons]
      have := hcount u
      rw [boostOne_count] at this
      rw [List.foldl_cons, hcons]
      omega

/-- A property that one turn of the loop keeps is kept by the loop. -/
theorem foldl_boostOne_frame {β : Type} (g : Sched → β) (hg : ∀ s t, g (s.boostOne t) = g s)
    (q : List Tid) (s : Sched) : g (q.foldl boostOne s) = g s := by
  induction q generalizing s with
  | nil => rfl
  | cons t q ih => exact (ih (s.boostOne t)).trans (hg s t)

/-- What neither a push nor an emptied queue changes is the same after a boost. -/
theorem boostQueue_frame {β : Type} (g : Sched → β) (hg : ∀ s t, g (s.boostOne t) = g s)
    (hset : ∀ (s : Sched) i q, g (s.setQueue i q) = g s) (s : Sched) (i : Int) :
    g (s.boostQueue i) = g s :=
  (foldl_boostOne_frame g hg _ _).trans (hset s i [])

/-- What `Boost` does not touch, -/
theorem boostAll_frame {β : Type} (g : Sched → β) (hg : ∀ s t, g (s.boostOne t) = g s)
    (hset : ∀ (s : Sched) i q, g (s.setQueue i q) = g s) (s : Sched) : g s.boostAll = g s :=
  (boostQueue_frame g hg hset _ 2).trans (boostQueue_frame g hg hset s 1)

/-- Boosting one queue moves its threads to level 0, by induction on the queue. -/
theorem boostQueue_inv {s : Sched} (h : ListInv s) {i : Int} (hi : i ∈ levels) :
    ListInv (s.boostQueue i) ∧ SameThreads s (s.boostQueue i) := by
  -- first the whole queue is taken off, so its threads are unlisted
  have hset : ListInv (s.setQueue i []) := h.setQueue hi fun t => by simp
  have hcount : ∀ t, (s.setQueue i []).listCount t + (s.queues i).count t = s.listCount t := by
    intro t
    simpa using listCount_setQueue s hi [] t
  have hnd : (s.queues i).Nodup := by
    refine List.nodup_iff_count_le_one.mpr fun t => ?_
    have := hcount t
    have := h.once t
    omega
  have hq : ∀ t ∈ s.queues i, Unlisted (s.setQueue i []) t ∧
      ((s.setQueue i []).threads t).state = .ready := by
    intro t ht
    have hpos := List.count_pos_iff.mpr ht
    have hc := hcount t
    have honce := h.once t
    have hlisted := h.listed (t := t) (by omega)
    exact ⟨⟨by omega, hlisted.1, hlisted.2⟩, h.ready t (readyCount_pos.mpr ⟨i, hi, ht⟩)⟩
  obtain ⟨hinv, hfold, hstate⟩ := foldl_boostOne hset hnd hq
  refine ⟨hinv, ?_, ?_, hstate, ?_, ?_, ?_⟩
  · intro t
    exact (hfold t).trans (hcount t)
  · exact boostQueue_frame Sched.waitQueue (fun _ _ => rfl) (fun _ _ _ => rfl) s i
  · exact boostQueue_frame Sched.currentThread (fun _ _ => rfl) (fun _ _ _ => rfl) s i
  · exact boostQueue_frame Sched.idleThread (fun _ _ => rfl) (fun _ _ _ => rfl) s i
  · exact boostQueue_frame Sched.nextTid (fun _ _ => rfl) (fun _ _ _ => rfl) s i

/-- and what it keeps. -/
theorem boostAll_inv {s : Sched} (h : ListInv s) :
    ListInv s.boostAll ∧ SameThreads s s.boostAll := by
  obtain ⟨h₁, hsame₁⟩ := boostQueue_inv h (i := 1) (by decide)
  obtain ⟨h₂, hsame₂⟩ := boostQueue_inv h₁ (i := 2) (by decide)
  exact ⟨h₂, hsame₁.trans hsame₂⟩

/-- The first part of `Tick` moves ready threads between queues and nothing
else. -/
theorem tickClock_inv {s : Sched} (h : ListInv s) :
    ListInv s.tickClock ∧ SameThreads s s.tickClock := by
  have hcount : ListInv { s with tickCounter := (s.tickCounter + 1) % 2 ^ 64 } :=
    h.congr rfl rfl rfl rfl rfl
  unfold tickClock
  dsimp only
  split
  · obtain ⟨h', hsame⟩ := boostAll_inv hcount
    exact ⟨h', hsame.count, hsame.wait, hsame.state, hsame.current, hsame.idle, hsame.next⟩
  · exact ⟨hcount, fun _ => rfl, rfl, fun _ => rfl, rfl, rfl, rfl⟩

/-! ## Pushing the running thread, waking a waiting one -/

namespace Sched

/-- Two updates of one thread are one. -/
theorem updThread_updThread (s : Sched) (t : Tid) (f g : Thread → Thread) :
    (s.updThread t f).updThread t g = s.updThread t fun th => g (f th) := by
  simp [updThread]

/-- Put a thread on the wait queue. -/
def pushWait (s : Sched) (t : Tid) : Sched := { s with waitQueue := s.waitQueue ++ [t] }

/-- Take a thread off the wait queue. -/
def removeWait (s : Sched) (t : Tid) : Sched := { s with waitQueue := s.waitQueue.erase t }

@[simp] theorem pushWait_threads (s : Sched) (t : Tid) : (s.pushWait t).threads = s.threads := rfl

/-- A demotion is an update of the thread and a push. -/
theorem demote_eq (s : Sched) (t : Tid) :
    s.demote t =
      (s.updThread t fun th =>
        { th with
          mlfqLevel := demotedLevel (s.threads t).mlfqLevel
          ticksRemaining := kQuantum (demotedLevel (s.threads t).mlfqLevel)
          state := .ready }).pushReady (demotedLevel (s.threads t).mlfqLevel) t := by
  simp only [demote, setMlfqLevel, setTicksRemaining, setState, updThread_updThread]

/-- So is a yield. -/
theorem requeue_eq (s : Sched) (t : Tid) :
    s.requeue t =
      (s.updThread t fun th =>
        { th with
          state := .ready
          ticksRemaining := kQuantum (s.threads t).mlfqLevel }).pushReady
        (s.threads t).mlfqLevel t := by
  simp only [requeue, setTicksRemaining, setState, updThread_updThread]

/-- Blocking is an update and a push on the wait queue. -/
theorem parkOn_eq (s : Sched) (t : Tid) (ch : Channel) :
    s.parkOn t ch =
      (s.updThread t fun th =>
        { th with state := .blocked, waitChannel := some ch }).pushWait t := by
  simp only [parkOn, setState, setWaitChannel, updThread_updThread, pushWait]

/-- Waking takes the thread off the wait queue, updates it and pushes it. -/
theorem wakeOne_eq (s : Sched) (t : Tid) :
    s.wakeOne t =
      ((s.removeWait t).updThread t fun th =>
        { th with
          waitChannel := none
          state := .ready
          ticksRemaining := kQuantum (s.threads t).mlfqLevel }).pushReady
        (s.threads t).mlfqLevel t := by
  simp [wakeOne, setTicksRemaining, setState, setWaitChannel, removeWait, updThread]

@[simp] theorem listCount_pushWait (s : Sched) (t u : Tid) :
    (s.pushWait t).listCount u = s.listCount u + if t = u then 1 else 0 := by
  have hone : [t].count u = if t = u then 1 else 0 := by simp [List.count_singleton]
  have hw : (s.pushWait t).waitQueue.count u = s.waitQueue.count u + if t = u then 1 else 0 := by
    rw [pushWait, List.count_append, hone]
  have hr : (s.pushWait t).readyCount u = s.readyCount u := rfl
  rw [listCount, listCount, hw, hr]
  omega

/-- A waiter that is taken off is one place less. -/
theorem listCount_removeWait {s : Sched} {t : Tid} (ht : t ∈ s.waitQueue) (u : Tid) :
    (s.removeWait t).listCount u + (if t = u then 1 else 0) = s.listCount u := by
  have hr : (s.removeWait t).readyCount u = s.readyCount u := rfl
  rw [listCount, listCount, hr]
  by_cases htu : t = u
  · subst htu
    have hpos := List.count_pos_iff.mpr ht
    have hw : (s.removeWait t).waitQueue.count t = s.waitQueue.count t - 1 :=
      List.count_erase_self
    rw [hw, if_pos rfl]
    omega
  · have hw : (s.removeWait t).waitQueue.count u = s.waitQueue.count u :=
      List.count_erase_of_ne (Ne.symm htu)
    rw [hw, if_neg htu]
    omega

end Sched

/-- The lowest level is its own next one. -/
theorem demotedLevel_mem {l : Int} (h : l ∈ levels) : demotedLevel l ∈ levels := by
  obtain ⟨h0, h3⟩ := mem_levels.mp h
  rw [mem_levels, demotedLevel]
  unfold kNumLevels at *
  split <;> omega

namespace ListInv

variable {s : Sched}

/-- The running thread, made `Ready` and pushed into a queue. -/
theorem makeReady (h : ListInv s) {t : Tid} (ht : Unlisted s t) {f : Thread → Thread} {l : Int}
    (hl : l ∈ levels) (hstate : (f (s.threads t)).state = .ready)
    (hlevel : (f (s.threads t)).mlfqLevel ∈ levels) :
    ListInv ((s.updThread t f).pushReady l t) := by
  have h' : ListInv (s.updThread t f) := h.updThread ht.count hlevel
  refine h'.pushReady hl ⟨ht.count, ht.fresh, ht.notIdle⟩ ?_
  rw [updThread_self]
  exact hstate

/-- A running thread is on no list, so it can be queued. -/
theorem demote (h : ListInv s) {t : Tid} (ht : Unlisted s t) : ListInv (s.demote t) := by
  have hl := demotedLevel_mem (h.level t)
  rw [demote_eq]
  exact h.makeReady ht hl rfl hl

/-- `Yield` pushes a thread that is on no list. -/
theorem requeue (h : ListInv s) {t : Tid} (ht : Unlisted s t) : ListInv (s.requeue t) := by
  rw [requeue_eq]
  exact h.makeReady ht (h.level t) rfl (h.level t)

/-- `Block` pushes one that is blocked by then. -/
theorem pushWait (h : ListInv s) {t : Tid} (ht : Unlisted s t)
    (hst : (s.threads t).state = .blocked) : ListInv (s.pushWait t) := by
  have hlive : (s.threads t).state ≠ .terminated := by
    rw [hst]
    exact ThreadState.noConfusion
  apply h.push ht (listCount_pushWait s t) rfl rfl rfl hlive
  · exact h.ready
  · intro u hu
    rcases List.mem_append.mp hu with hold | hnew
    · exact h.blocked u hold
    · obtain rfl := List.mem_singleton.mp hnew
      exact hst

/-- The same on the wait queue. -/
theorem parkOn (h : ListInv s) {t : Tid} (ht : Unlisted s t) (ch : Channel) :
    ListInv (s.parkOn t ch) := by
  rw [parkOn_eq]
  refine (h.updThread ht.count (h.level t)).pushWait ⟨ht.count, ht.fresh, ht.notIdle⟩ ?_
  rw [updThread_self]

/-- `Wake` takes one off. -/
theorem removeWait (h : ListInv s) {t : Tid} (ht : t ∈ s.waitQueue) :
    ListInv (s.removeWait t) where
  once := by
    intro u
    have := listCount_removeWait ht u
    have := h.once u
    omega
  fresh := by
    intro u hu
    have := listCount_removeWait ht u
    have := h.fresh u hu
    omega
  next := h.next
  idle := by
    obtain ⟨d, hd, hcount, hlt⟩ := h.idle
    have := listCount_removeWait ht d
    exact ⟨d, hd, by omega, hlt⟩
  dead := by
    intro u hu
    have := listCount_removeWait ht u
    have := h.dead u hu
    omega
  ready := h.ready
  blocked u hu := h.blocked u (List.mem_of_mem_erase hu)
  level := h.level

/-- Off the wait queue it is on no list. -/
theorem unlisted_removeWait (h : ListInv s) {t : Tid} (ht : t ∈ s.waitQueue) :
    Unlisted (s.removeWait t) t := by
  have hcount := listCount_removeWait ht t
  have honce := h.once t
  rw [if_pos rfl] at hcount
  have hlisted := h.listed (t := t) (by omega)
  exact ⟨by omega, hlisted.1, hlisted.2⟩

/-- What `Wake` does to one thread. -/
theorem wakeOne (h : ListInv s) {t : Tid} (ht : t ∈ s.waitQueue) : ListInv (s.wakeOne t) := by
  rw [wakeOne_eq]
  exact (h.removeWait ht).makeReady (h.unlisted_removeWait ht) (h.level t) rfl (h.level t)

/-- Waking moves a thread from one list to another. -/
theorem wakeOne_count (h : ListInv s) {t : Tid} (ht : t ∈ s.waitQueue) (u : Tid) :
    (s.wakeOne t).listCount u = s.listCount u := by
  rw [wakeOne_eq, listCount_pushReady _ (h.level t)]
  exact listCount_removeWait ht u

end ListInv

/-! ## The entry points -/

/-- The running thread is on no list, unless it is the idle thread. -/
theorem SchedInv.unlisted_current {s : Sched} (h : SchedInv s) {c : Tid}
    (hc : s.currentThread = some c) (hne : s.currentThread ≠ s.idleThread) : Unlisted s c := by
  obtain ⟨c', hc', hcount, hlt, -⟩ := h.current
  obtain rfl : c = c' := Option.some.inj (hc.symm.trans hc')
  exact ⟨hcount, hlt, fun hidle => hne (hc.trans hidle.symm)⟩

/-- A step that leaves the CPU alone. -/
theorem SchedInv.of_same {s s' : Sched} (h : SchedInv s) (h' : ListInv s')
    (hsame : SameThreads s s') : SchedInv s' where
  toListInv := h'
  current := by
    obtain ⟨c, hc, hcount, hlt, hst⟩ := h.current
    refine ⟨c, hsame.current.trans hc, (hsame.count c).trans hcount, by rwa [Created, hsame.next], ?_⟩
    intro hne
    rw [hsame.state c]
    exact hst (by rwa [← hsame.current, ← hsame.idle])

/-- The clock keeps the invariant. -/
theorem SchedInv.tickClock {s : Sched} (h : SchedInv s) : SchedInv s.tickClock :=
  h.of_same (tickClock_inv h.toListInv).1 (tickClock_inv h.toListInv).2

/-- A tick counts, boosts, and at the end of a quantum demotes the thread and schedules.
-/
theorem tick_inv {s : Sched} (h : SchedInv s) : SchedInv s.tick := by
  have hclock := h.tickClock
  obtain ⟨c, hc, hcount, hlt, hst⟩ := hclock.current
  unfold Sched.tick
  simp only [hc]
  by_cases hne : s.tickClock.currentThread ≠ s.tickClock.idleThread
  · rw [if_pos (hc ▸ hne)]
    have hun := hclock.unlisted_current hc hne
    have hcharge : ListInv (s.tickClock.chargeTick c) :=
      hclock.updThread hcount (hclock.level c)
    split
    · -- the quantum has expired
      exact (hcharge.demote ⟨hcount, hlt, hun.notIdle⟩).scheduleLocked hc
    · refine ⟨hcharge, c, hc, hcount, hlt, fun _ => ?_⟩
      have hstate : ((s.tickClock.chargeTick c).threads c).state = (s.tickClock.threads c).state :=
        updThread_field Thread.state _ c rfl c
      rw [hstate]
      exact hst hne
  · rw [if_neg (hc ▸ hne)]
    split
    · exact hclock
    · exact hclock.scheduleLocked hc

/-- A yield queues the thread again and schedules. -/
theorem yield_inv {s : Sched} (h : ListInv s) {c : Tid} (hc : s.currentThread = some c)
    (hcount : s.listCount c = 0) (hlt : Created s c) : SchedInv s.yield := by
  unfold Sched.yield
  simp only [hc]
  split
  · rename_i hrun
    exact (h.requeue ⟨hcount, hlt, fun hd => hrun.1 hd.symm⟩).scheduleLocked hc
  · exact h.scheduleLocked hc

/-- The idle thread does not block. -/
theorem block_inv {s : Sched} (h : SchedInv s) (hne : s.currentThread ≠ s.idleThread)
    (ch : Channel) : SchedInv (s.block ch) := by
  obtain ⟨c, hc, -⟩ := h.current
  unfold Sched.block
  simp only [hc]
  exact (h.parkOn (h.unlisted_current hc hne) ch).scheduleLocked hc

/-- What `Wake` leaves alone. -/
structure Woken (s s' : Sched) : Prop where
  count : ∀ t, s'.listCount t = s.listCount t
  thread : ∀ t, t ∉ s.waitQueue → s'.threads t = s.threads t
  wait : ∀ t, t ∈ s'.waitQueue → t ∈ s.waitQueue
  current : s'.currentThread = s.currentThread
  idle : s'.idleThread = s.idleThread
  next : s'.nextTid = s.nextTid

/-- One woken thread, -/
theorem wakeOne_woken {s : Sched} (h : ListInv s) {t : Tid} (ht : t ∈ s.waitQueue) :
    Woken s (s.wakeOne t) where
  count := h.wakeOne_count ht
  thread u hu := by
    have hne : u ≠ t := by
      rintro rfl
      exact hu ht
    rw [wakeOne_eq, pushReady_threads, updThread_ne _ _ hne]
    rfl
  wait u hu := by
    rw [wakeOne_eq] at hu
    exact List.mem_of_mem_erase hu
  current := rfl
  idle := rfl
  next := rfl

/-- The loop of `Wake`, by induction on what is left of the queue that it started on. -/
theorem wakeLoop_inv (ch : Channel) (wakeAll : Bool) {rest : List Tid} {s : Sched}
    (h : ListInv s) (hnd : rest.Nodup) (hrest : ∀ t ∈ rest, t ∈ s.waitQueue) :
    ListInv (wakeLoop ch wakeAll rest s) ∧ Woken s (wakeLoop ch wakeAll rest s) := by
  -- over the rest of the wait queue, which each wake-up leaves a waiter shorter
  induction rest generalizing s with
  | nil => exact ⟨h, fun _ => rfl, fun _ _ => rfl, fun _ hu => hu, rfl, rfl, rfl⟩
  | cons t rest ih =>
      obtain ⟨htr, hnd'⟩ := List.nodup_cons.mp hnd
      have ht : t ∈ s.waitQueue := hrest t List.mem_cons_self
      have hrest' : ∀ u ∈ rest, u ∈ s.waitQueue := fun u hu => hrest u (List.mem_cons_of_mem _ hu)
      unfold wakeLoop
      by_cases hch : (s.threads t).waitChannel = some ch
      · rw [if_pos hch]
        have hone := h.wakeOne ht
        have hwoken := wakeOne_woken h ht
        cases wakeAll with
        -- `WakeOne` stops at the first
        | false => exact ⟨hone, hwoken⟩
        | true =>
            -- the others still wait
            have hstill : ∀ u ∈ rest, u ∈ (s.wakeOne t).waitQueue := by
              intro u hu
              have hne : u ≠ t := by
                rintro rfl
                exact htr hu
              rw [wakeOne_eq]
              exact (List.mem_erase_of_ne hne).mpr (hrest' u hu)
            obtain ⟨hinv, hloop⟩ := ih hone hnd' hstill
            refine ⟨hinv, fun u => (hloop.count u).trans (hwoken.count u), ?_,
              fun u hu => hwoken.wait u (hloop.wait u hu), hloop.current.trans hwoken.current,
              hloop.idle.trans hwoken.idle, hloop.next.trans hwoken.next⟩
            intro u hu
            have hu' : u ∉ (s.wakeOne t).waitQueue := fun hmem => hu (hwoken.wait u hmem)
            exact (hloop.thread u hu').trans (hwoken.thread u hu)
      · rw [if_neg hch]
        exact ih h hnd' hrest'

/-- A thread waits once. -/
theorem waitQueue_nodup {s : Sched} (h : ListInv s) : s.waitQueue.Nodup := by
  refine List.nodup_iff_count_le_one.mpr fun t => ?_
  have := h.once t
  rw [listCount] at this
  omega

/-- and all that `Wake` wakes. -/
theorem wake_inv {s : Sched} (h : ListInv s) (ch : Channel) (wakeAll : Bool) :
    ListInv (s.wake ch wakeAll) ∧ Woken s (s.wake ch wakeAll) :=
  wakeLoop_inv ch wakeAll h (waitQueue_nodup h) fun _ ht => ht

/-- The running thread is not among them. -/
theorem SchedInv.wake {s : Sched} (h : SchedInv s) (ch : Channel) (wakeAll : Bool) :
    SchedInv (s.wake ch wakeAll) := by
  obtain ⟨hinv, hwoken⟩ := wake_inv h.toListInv ch wakeAll
  obtain ⟨c, hc, hcount, hlt, hst⟩ := h.current
  refine ⟨hinv, c, hwoken.current.trans hc, (hwoken.count c).trans hcount, by rwa [Created, hwoken.next],
    ?_⟩
  rw [hwoken.thread c (ListInv.not_mem_waitQueue hcount), hwoken.current, hwoken.idle]
  exact hst

/-- The next thread is on no list yet. -/
theorem ListInv.count_nextTid {s : Sched} (h : ListInv s) : s.listCount s.nextTid = 0 :=
  h.fresh s.nextTid fun hc => Nat.lt_irrefl _ hc.2

/-- `new Thread` makes a thread that is on no list. -/
theorem newThread_inv {s : Sched} (h : ListInv s) (process : Option ProcId) (stack : Nat) :
    ListInv (s.newThread process stack).2 where
  once := h.once
  fresh t ht := h.fresh t fun hc => ht ⟨hc.1, Nat.lt_succ_of_lt hc.2⟩
  next := Nat.lt_succ_of_lt h.next
  idle := by
    obtain ⟨d, hd, hcount, hlt⟩ := h.idle
    exact ⟨d, hd, hcount, hlt.1, Nat.lt_succ_of_lt hlt.2⟩
  dead := by
    intro t ht
    -- the new thread is on no list yet, and new
    by_cases htn : t = s.nextTid
    · exact htn ▸ h.count_nextTid
    · exact h.dead t (by simpa [newThread, htn] using ht)
  ready := by
    intro t ht
    by_cases htn : t = s.nextTid
    · simp [newThread, htn]
    · simpa [newThread, htn] using h.ready t ht
  blocked := by
    intro t ht
    have htn : t ≠ s.nextTid := by
      rintro rfl
      exact ListInv.not_mem_waitQueue h.count_nextTid ht
    simpa [newThread, htn] using h.blocked t ht
  level := by
    intro t
    by_cases htn : t = s.nextTid
    · simp [newThread, htn, levels]
    · simpa [newThread, htn] using h.level t

/-- A new thread is on no list. -/
theorem newThread_unlisted {s : Sched} (h : ListInv s) (process : Option ProcId) (stack : Nat) :
    Unlisted (s.newThread process stack).2 (s.newThread process stack).1 := by
  refine ⟨h.count_nextTid, ⟨h.next, Nat.lt_succ_self _⟩, ?_⟩
  intro hd
  obtain ⟨d, hd', -, hlt⟩ := h.idle
  obtain rfl : d = s.nextTid := Option.some.inj (hd'.symm.trans hd)
  exact Nat.lt_irrefl _ hlt.2

/-- `AddThread` puts an unlisted thread into the queue asked for. -/
theorem addThread_eq {s s' : Sched} {t : Tid} {l : Int} (hadd : s.addThread t l = some s') :
    l ∈ levels ∧
      s' = (s.updThread t fun th =>
        { th with mlfqLevel := l, ticksRemaining := kQuantum l, state := .ready }).pushReady l t := by
  unfold addThread at hadd
  split at hadd
  · cases hadd
  · rename_i hl
    refine ⟨mem_levels.mpr (by omega), ?_⟩
    have := Option.some.inj hadd
    simpa only [setMlfqLevel, setTicksRemaining, setState, updThread_updThread] using this.symm

/-- `AddThread` queues a thread on its level. -/
theorem addThread_inv {s s' : Sched} (h : ListInv s) {t : Tid} (ht : Unlisted s t) {l : Int}
    (hadd : s.addThread t l = some s') : ListInv s' := by
  obtain ⟨hl, rfl⟩ := addThread_eq hadd
  exact h.makeReady ht hl rfl hl

/-- `AddThread` leaves the running thread where it is. -/
theorem addThread_current {s s' : Sched} (h : SchedInv s) {t : Tid} (ht : Unlisted s t)
    (hnew : s.currentThread ≠ some t) {l : Int} (hadd : s.addThread t l = some s') :
    SchedInv s' := by
  refine ⟨addThread_inv h.toListInv ht hadd, ?_⟩
  obtain ⟨hl, rfl⟩ := addThread_eq hadd
  obtain ⟨c, hc, hcount, hlt, hst⟩ := h.current
  have hne : t ≠ c := by
    rintro rfl
    exact hnew hc
  refine ⟨c, hc, ?_, hlt, fun hidle => ?_⟩
  · rw [listCount_pushReady _ hl, if_neg hne]
    exact hcount
  · rw [pushReady_threads, updThread_ne s _ (Ne.symm hne)]
    exact hst hidle

/-- A thread that is made and not added changes nothing for the others. -/
theorem SchedInv.newThread {s : Sched} (h : SchedInv s) (process : Option ProcId) (stack : Nat) :
    SchedInv (s.newThread process stack).2 := by
  refine ⟨newThread_inv h.toListInv process stack, ?_⟩
  obtain ⟨c, hc, hcount, hlt, hst⟩ := h.current
  refine ⟨c, hc, hcount, ⟨hlt.1, Nat.lt_succ_of_lt hlt.2⟩, fun hidle => ?_⟩
  have hne : c ≠ s.nextTid := Nat.ne_of_lt hlt.2
  simpa [Sched.newThread, hne] using hst hidle

/-- The running thread has been created. -/
theorem SchedInv.current_created {s : Sched} (h : SchedInv s) {c : Tid}
    (hc : s.currentThread = some c) : Created s c := by
  obtain ⟨c', hc', -, hlt, -⟩ := h.current
  obtain rfl : c = c' := Option.some.inj (hc.symm.trans hc')
  exact hlt

/-- Whoever runs is on no list. -/
theorem SchedInv.current_count {s : Sched} (h : SchedInv s) {c : Tid}
    (hc : s.currentThread = some c) : s.listCount c = 0 := by
  obtain ⟨c', hc', hcount, -⟩ := h.current
  obtain rfl : c = c' := Option.some.inj (hc.symm.trans hc')
  exact hcount

/-- The end of the running thread. -/
theorem exitThread_inv {s s' : Sched} (h : SchedInv s) {c : Tid} (hc : s.currentThread = some c)
    (hexit : s.exitThread c = some s') : SchedInv s' := by
  obtain ⟨s₁, henq, rfl⟩ := Option.map_eq_some_iff.mp hexit
  have hterm : ListInv (s.setState c .terminated) :=
    h.updThread (h.current_count hc) (h.level c)
  unfold enqueueDead at henq
  split at henq
  · cases henq
  · split at henq
    · cases henq
    · cases henq
      have hdead : ListInv { s.setState c .terminated with
          deadList := (s.setState c .terminated).deadList ++ [c] } :=
        hterm.congr rfl rfl rfl rfl rfl
      exact yield_inv hdead hc (h.current_count hc) (h.current_created hc)

/-- `SchedInv` is inductive for all entry points. -/
theorem schedStep_inv {s s' : Sched} {op : SchedOp} (h : SchedInv s)
    (hstep : schedStep s op = some s') : SchedInv s' := by
  cases op with
  | addThread process stack level =>
      refine addThread_current (h.newThread process stack)
        (newThread_unlisted h.toListInv process stack) ?_ hstep
      -- a thread that has just been made is not the running one
      intro hc
      exact Nat.lt_irrefl _ (h.current_created hc).2
  | tick =>
      cases hstep
      exact tick_inv h
  | yield =>
      cases hstep
      obtain ⟨c, hc, hcount, hlt, -⟩ := h.current
      exact yield_inv h.toListInv hc hcount hlt
  | block ch =>
      simp only [schedStep] at hstep
      split at hstep
      · cases hstep
      · rename_i hne
        cases hstep
        exact block_inv h hne ch
  | wake ch wakeAll =>
      cases hstep
      exact h.wake ch wakeAll
  | exit =>
      simp only [schedStep] at hstep
      split at hstep
      · cases hstep
      · rename_i c hc
        split at hstep
        · cases hstep
        · exact exitThread_inv h hc hstep

/-! ## Start -/

/-- At the start all lists are empty. -/
theorem startIdle_count (rootPa : Option ProcId → Nat) (stack : Nat) (t : Tid) :
    (startIdle rootPa stack).listCount t = 0 := by
  rw [listCount, readyCount_eq]
  simp [startIdle, Sched.newThread, boot, setState, setMlfqLevel, Sched.updThread]

/-- With the idle thread alone. -/
theorem startIdle_inv (rootPa : Option ProcId → Nat) (stack : Nat) :
    SchedInv (startIdle rootPa stack) where
  once t := by rw [startIdle_count]; exact Nat.zero_le _
  fresh t _ := startIdle_count rootPa stack t
  next := Nat.two_pos
  idle := ⟨1, rfl, startIdle_count rootPa stack 1, ⟨Nat.one_pos, Nat.lt_succ_self 1⟩⟩
  dead t _ := startIdle_count rootPa stack t
  ready := by
    intro t ht
    have := startIdle_count rootPa stack t
    rw [listCount] at this
    omega
  blocked := by
    intro t ht
    cases ht
  level := by
    intro t
    by_cases ht : t = 1
    · subst ht
      simp [startIdle, Sched.newThread, boot, setState, setMlfqLevel, Sched.updThread, kNumLevels,
        levels]
    · simp [startIdle, Sched.newThread, boot, setState, setMlfqLevel, Sched.updThread, ht, levels]
  current := ⟨1, rfl, startIdle_count rootPa stack 1, ⟨Nat.one_pos, Nat.lt_succ_self 1⟩, fun hne => absurd rfl hne⟩

/-- The state in which `Reaper::Initialize` calls `AddThread`. -/
def startReaper (rootPa : Option ProcId → Nat) (idleStack reaperStack : Nat) : Sched :=
  { ((startIdle rootPa idleStack).newThread none reaperStack).2 with reaperThread := some 2 }

/-- The reaper is the second thread, on the lowest level, -/
theorem start_eq (rootPa : Option ProcId → Nat) (idleStack reaperStack : Nat) :
    start rootPa idleStack reaperStack =
      (startReaper rootPa idleStack reaperStack).addThread 2 (kNumLevels - 1) := by
  unfold start reaperInitialize
  rfl

/-- With the reaper created and not yet queued. -/
theorem startReaper_inv (rootPa : Option ProcId → Nat) (idleStack reaperStack : Nat) :
    SchedInv (startReaper rootPa idleStack reaperStack) ∧
      Unlisted (startReaper rootPa idleStack reaperStack) 2 := by
  have hidle := startIdle_inv rootPa idleStack
  have hnew := hidle.newThread none reaperStack
  have hun := newThread_unlisted hidle.toListInv none reaperStack
  exact ⟨⟨hnew.toListInv.congr rfl rfl rfl rfl rfl, hnew.current⟩, hun.count, hun.fresh,
    hun.notIdle⟩

/-- and does not run yet. -/
theorem startReaper_current (rootPa : Option ProcId → Nat) (idleStack reaperStack : Nat) :
    (startReaper rootPa idleStack reaperStack).currentThread ≠ some 2 := by
  change some 1 ≠ some 2
  decide

/-- `Scheduler::Start` establishes the invariant. -/
theorem start_inv {rootPa : Option ProcId → Nat} {idleStack reaperStack : Nat} {s : Sched}
    (hstart : start rootPa idleStack reaperStack = some s) : SchedInv s := by
  rw [start_eq] at hstart
  obtain ⟨hinv, hun⟩ := startReaper_inv rootPa idleStack reaperStack
  exact addThread_current hinv hun (startReaper_current _ _ _) hstart

/-- The scheduler's invariant does not read the reaper's lists. -/
theorem SchedInv.setReaperLists {s : Sched} (h : SchedInv s) (dead loc : List Tid) :
    SchedInv { s with deadList := dead, localDead := loc } :=
  ⟨h.toListInv.congr rfl rfl rfl rfl rfl, h.current⟩

end Ceryx.Proc
