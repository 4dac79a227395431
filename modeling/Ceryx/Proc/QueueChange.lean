import Ceryx.Proc.NoThreadLost
import Ceryx.Proc.SchedEnter
import Mathlib.Logic.Relation

/-!
# Ceryx.Proc.QueueChange — what an entry point does to the ready queues

The first half of an entry point is a sequence of few kinds of changes of the
ready queues, and the second half takes at most one thread off a queue. What
holds of the queued threads needs one case for each kind.

* `QueueChange`: one change.
* `enter_changes`: the first half is a sequence of changes.
* `QueueChange.inQueues`: what one change keeps of the queued threads.
* `scheduleLocked_inQueues`: what `ScheduleLocked` keeps, and what is known of
  the thread it takes.
-/

namespace Ceryx.Proc

open Sched Lib

/-- Every thread in a ready queue has the property, for the index of its queue. -/
def InQueues (P : Int → Thread → Prop) (s : Sched) : Prop :=
  ∀ i ∈ levels, ∀ t ∈ s.queues i, P i (s.threads t)

/-- One change of the ready queues. -/
inductive QueueChange (s : Sched) : Sched → Prop where
  /-- Neither the queues nor the threads in them change. -/
  | other {m : Sched} (hq : m.queues = s.queues)
      (hth : ∀ i ∈ levels, ∀ t ∈ s.queues i, m.threads t = s.threads t) : QueueChange s m
  /-- A queue behind the first one is emptied. -/
  | drain {i : Int} (hi : i ≠ 0) : QueueChange s (s.setQueue i [])
  /-- A thread that is in no other queue is pushed, with the level of its queue
  and a full quantum. -/
  | push {t : Tid} {l : Int} (f : Thread → Thread) (hl : l ∈ levels)
      (ht : ∀ i ∈ levels, i ≠ l → t ∉ s.queues i)
      (hlevel : (f (s.threads t)).mlfqLevel = l)
      (hticks : (f (s.threads t)).ticksRemaining = kQuantum l) :
      QueueChange s ((s.updThread t f).pushReady l t)

/-- A sequence of changes. -/
abbrev QueueChanges : Sched → Sched → Prop := Relation.ReflTransGen QueueChange

/-- Whoever is queued was queued before, or is the one that is pushed. -/
theorem mem_updPush {s : Sched} {t u : Tid} {f : Thread → Thread} {l i : Int}
    (hu : u ∈ ((s.updThread t f).pushReady l t).queues i) :
    u ∈ s.queues i ∨ i = l ∧ u = t := by
  by_cases hil : i = l
  · subst hil
    have hu' : u ∈ s.queues i ++ [t] := by simpa [pushReady, updThread] using hu
    rcases List.mem_append.mp hu' with hold | hnew
    · exact Or.inl hold
    · exact Or.inr ⟨rfl, List.mem_singleton.mp hnew⟩
  · left
    simpa [pushReady, updThread, hil] using hu

/-- What holds of a thread that enters its level with a full quantum holds of all who
are queued, -/
theorem QueueChange.inQueues {P : Int → Thread → Prop}
    (hP : ∀ l ∈ levels, ∀ th : Thread, th.mlfqLevel = l → th.ticksRemaining = kQuantum l → P l th)
    {s m : Sched} (h : QueueChange s m) (hs : InQueues P s) : InQueues P m := by
  cases h with
  | other hq hth =>
      intro i hi t ht
      rw [hq] at ht
      rw [hth i hi t ht]
      exact hs i hi t ht
  | @drain j _ =>
      intro i hi t ht
      by_cases hij : i = j
      · subst hij
        simp [setQueue] at ht
      · have ht' : t ∈ s.queues i := by simpa [setQueue, hij] using ht
        exact hs i hi t ht'
  | @push t l f hl ht hlevel hticks =>
      intro i hi u hu
      rw [pushReady_threads]
      by_cases hut : u = t
      · -- the thread that is pushed, or one push of it more
        subst hut
        rw [updThread_self]
        have hil : i = l := by
          by_contra hil
          rcases mem_updPush hu with hold | ⟨heq, -⟩
          · exact ht i hi hil hold
          · exact hil heq
        rw [hil]
        exact hP l hl _ hlevel hticks
      · rw [updThread_ne _ _ hut]
        rcases mem_updPush hu with hold | ⟨-, heq⟩
        · exact hs i hi u hold
        · exact absurd heq hut

/-- also after many changes. -/
theorem QueueChanges.inQueues {P : Int → Thread → Prop}
    (hP : ∀ l ∈ levels, ∀ th : Thread, th.mlfqLevel = l → th.ticksRemaining = kQuantum l → P l th)
    {s m : Sched} (h : QueueChanges s m) (hs : InQueues P s) : InQueues P m := by
  induction h with
  | refl => exact hs
  | tail _ hlast ih => exact hlast.inQueues hP ih

/-! ## The pieces -/

/-- Queues and queued threads as they were. -/
theorem QueueChanges.same {s m : Sched} (hq : m.queues = s.queues)
    (hth : ∀ i ∈ levels, ∀ t ∈ s.queues i, m.threads t = s.threads t) : QueueChanges s m :=
  Relation.ReflTransGen.single (.other hq hth)

/-- Fields of an unlisted thread. -/
theorem QueueChanges.updThread {s : Sched} {t : Tid} (ht : s.listCount t = 0)
    (f : Thread → Thread) : QueueChanges s (s.updThread t f) := by
  apply QueueChanges.same
  · rfl
  · intro i hi u hu
    have hut : u ≠ t := by
      rintro rfl
      exact not_mem_queue ht hi hu
    exact updThread_ne s f hut

/-- An unlisted thread becomes ready. -/
theorem QueueChanges.makeReady {s : Sched} {t : Tid} (ht : s.listCount t = 0) {l : Int}
    (hl : l ∈ levels) (f : Thread → Thread) (hlevel : (f (s.threads t)).mlfqLevel = l)
    (hticks : (f (s.threads t)).ticksRemaining = kQuantum l) :
    QueueChanges s ((s.updThread t f).pushReady l t) :=
  Relation.ReflTransGen.single (.push f hl (fun _ hi _ => not_mem_queue ht hi) hlevel hticks)

/-! ## The boost -/

/-- A boosted thread is last on level 0, -/
theorem boostOne_queue_zero (s : Sched) (t : Tid) : (s.boostOne t).queues 0 = s.queues 0 ++ [t] := by
  simp [boostOne, pushReady, setTicksRemaining, setMlfqLevel, updThread]

/-- and no other queue changes. -/
theorem boostOne_queue_ne (s : Sched) (t : Tid) {i : Int} (hi : i ≠ 0) :
    (s.boostOne t).queues i = s.queues i := by
  simp [boostOne, pushReady, setTicksRemaining, setMlfqLevel, updThread, hi]

/-- It gets the level and its quantum before it is pushed. -/
theorem boostOne_eq (s : Sched) (t : Tid) :
    s.boostOne t =
      (s.updThread t fun th =>
        { th with mlfqLevel := 0, ticksRemaining := kQuantum 0 }).pushReady 0 t := by
  simp only [boostOne, setMlfqLevel, setTicksRemaining, updThread_updThread]

/-- The loop of `Boost` over one queue, -/
theorem foldl_boostOne_changes {q : List Tid} {s : Sched}
    (hq : ∀ t ∈ q, ∀ i ∈ levels, i ≠ 0 → t ∉ s.queues i) : QueueChanges s (q.foldl boostOne s) := by
  induction q generalizing s with
  | nil => exact Relation.ReflTransGen.refl
  | cons t q ih =>
      have hone : QueueChange s (s.boostOne t) := by
        rw [boostOne_eq]
        exact .push _ zero_mem_levels (hq t List.mem_cons_self) rfl rfl
      apply Relation.ReflTransGen.head hone
      apply ih
      intro u hu i hi hi0
      rw [boostOne_queue_ne s t hi0]
      exact hq u (List.mem_cons_of_mem _ hu) i hi hi0

/-- A thread in one ready queue is in no other. -/
theorem ListInv.queues_disjoint {s : Sched} (h : ListInv s) {i : Int} (hi : i ∈ levels) {t : Tid}
    (ht : t ∈ s.queues i) : (s.setQueue i []).listCount t = 0 := by
  have hcount := listCount_setQueue s hi [] t
  have hpos := List.count_pos_iff.mpr ht
  have honce := h.once t
  rw [List.count_nil] at hcount
  omega

/-- that queue being empty then, -/
theorem boostQueue_changes {s : Sched} (h : ListInv s) {i : Int} (hi : i ∈ levels) (hi0 : i ≠ 0) :
    QueueChanges s (s.boostQueue i) := by
  apply Relation.ReflTransGen.head (.drain hi0)
  apply foldl_boostOne_changes
  intro t ht j hj _
  exact not_mem_queue (h.queues_disjoint hi ht) hj

/-- and over both. -/
theorem boostAll_changes {s : Sched} (h : ListInv s) : QueueChanges s s.boostAll :=
  (boostQueue_changes h (by decide) (by decide)).trans
    (boostQueue_changes (boostQueue_inv h (by decide)).1 (by decide) (by decide))

/-- The clock of a tick boosts or does nothing. -/
theorem tickClock_changes {s : Sched} (h : ListInv s) : QueueChanges s s.tickClock := by
  have hcount : ListInv { s with tickCounter := (s.tickCounter + 1) % 2 ^ 64 } :=
    h.congr rfl rfl rfl rfl rfl
  have hsame : QueueChanges s { s with tickCounter := (s.tickCounter + 1) % 2 ^ 64 } :=
    QueueChanges.same rfl fun _ _ _ _ => rfl
  unfold tickClock
  dsimp only
  split
  · exact hsame.trans (boostAll_changes hcount)
  · exact hsame

/-! ## The first half of each entry point -/

/-- Threads that are not the new one keep their fields in `new Thread`. -/
theorem newThread_changes {s : Sched} (h : ListInv s) (process : Option ProcId) (stack : Nat) :
    QueueChanges s (s.newThread process stack).2 := by
  apply QueueChanges.same
  · rfl
  · intro i hi t ht
    have hne : t ≠ s.nextTid := by
      rintro rfl
      exact not_mem_queue h.count_nextTid hi ht
    simp [newThread, hne]

/-- `Yield` pushes the running thread at its own level, -/
theorem yieldEnter_changes {s : Sched} {c : Tid} (hc : s.currentThread = some c)
    (hcount : s.listCount c = 0) (hlevel : (s.threads c).mlfqLevel ∈ levels) :
    QueueChanges s s.yieldEnter := by
  unfold yieldEnter
  simp only [hc]
  split
  · rw [requeue_eq]
    exact QueueChanges.makeReady hcount hlevel _ rfl rfl
  · exact Relation.ReflTransGen.refl

/-- `WakeOne` the woken one, -/
theorem wakeOne_changes {s : Sched} (h : ListInv s) {t : Tid} (ht : t ∈ s.waitQueue) :
    QueueChanges s (s.wakeOne t) := by
  rw [wakeOne_eq]
  have hout : QueueChanges s (s.removeWait t) := QueueChanges.same rfl fun _ _ _ _ => rfl
  exact hout.trans
    (QueueChanges.makeReady (h.unlisted_removeWait ht).count (h.level t) _ rfl rfl)

/-- one after the other. -/
theorem wakeLoop_changes (ch : Channel) (wakeAll : Bool) {rest : List Tid} {s : Sched}
    (h : ListInv s) (hnd : rest.Nodup) (hrest : ∀ t ∈ rest, t ∈ s.waitQueue) :
    QueueChanges s (wakeLoop ch wakeAll rest s) := by
  induction rest generalizing s with
  | nil => exact Relation.ReflTransGen.refl
  | cons t rest ih =>
      rcases List.nodup_cons.mp hnd with ⟨htr, hnd'⟩
      have ht : t ∈ s.waitQueue := hrest t List.mem_cons_self
      have hrest' : ∀ u ∈ rest, u ∈ s.waitQueue := fun u hu => hrest u (List.mem_cons_of_mem _ hu)
      unfold wakeLoop
      split
      · have hone := wakeOne_changes h ht
        cases wakeAll with
        | false => exact hone
        | true =>
            -- the threads still to visit have not left the wait queue
            have hstill : ∀ u ∈ rest, u ∈ (s.wakeOne t).waitQueue := by
              intro u hu
              have hne : u ≠ t := by
                rintro rfl
                exact htr hu
              rw [wakeOne_eq]
              exact (List.mem_erase_of_ne hne).mpr (hrest' u hu)
            exact hone.trans (ih (h.wakeOne ht) hnd' hstill)
      · exact ih h hnd' hrest'

/-- A tick pushes the running thread when its quantum is over. -/
theorem tickEnter_changes {s : Sched} (h : SchedInv s) :
    QueueChanges s.tickClock s.tickEnter.1 := by
  have hclock := h.tickClock
  rcases hclock.current with ⟨c, hc, hcount, -⟩
  unfold tickEnter
  simp only [hc]
  split
  · -- charged, and out of quantum: one level down, at the back
    have hcharge : QueueChanges s.tickClock (s.tickClock.chargeTick c) :=
      QueueChanges.updThread hcount _
    split
    · apply hcharge.trans
      have hcharged : (s.tickClock.chargeTick c).listCount c = 0 := hcount
      have hlevel : ((s.tickClock.chargeTick c).threads c).mlfqLevel ∈ levels := by
        have hsame : ((s.tickClock.chargeTick c).threads c).mlfqLevel =
            (s.tickClock.threads c).mlfqLevel := by
          unfold chargeTick
          rw [updThread_self]
        rw [hsame]
        exact hclock.level c
      rw [demote_eq]
      exact QueueChanges.makeReady hcharged (demotedLevel_mem hlevel) _ rfl rfl
    · exact hcharge
  · exact Relation.ReflTransGen.refl

/-- So do all the steps, up to their dispatch. -/
theorem enter_changes {s m : Sched} {op : SchedOp} {calls : Bool} (h : SchedInv s)
    (henter : enter s op = some (m, calls)) : QueueChanges s m := by
  rcases h.current with ⟨c, hc, hcount, hlt, -⟩
  cases enter_cases hc henter with
  | @addThread process stack level _ hadd =>
      rcases addThread_eq hadd with ⟨hl, rfl⟩
      have hnew := newThread_unlisted h.toListInv process stack
      exact (newThread_changes h.toListInv process stack).trans
        (QueueChanges.makeReady hnew.count hl _ rfl rfl)
  | tick htick =>
      obtain rfl : s.tickEnter.1 = m := congrArg Prod.fst htick
      exact (tickClock_changes h.toListInv).trans (tickEnter_changes h)
  | yield => exact yieldEnter_changes hc hcount (h.level c)
  | block ch hidle =>
      have hpark : QueueChanges s (s.updThread c fun th =>
          { th with state := .blocked, waitChannel := some ch }) := QueueChanges.updThread hcount _
      rw [parkOn_eq]
      exact hpark.trans (QueueChanges.same rfl fun _ _ _ _ => rfl)
  | wake ch wakeAll =>
      exact wakeLoop_changes ch wakeAll h.toListInv (waitQueue_nodup h.toListInv) fun _ ht => ht
  | exit hidle hdead =>
      obtain rfl := enqueueDead_eq hdead
      -- the lists of the queues do not change before the yield
      have hlists : QueueChanges s { s.setState c .terminated with
          deadList := (s.setState c .terminated).deadList ++ [c] } :=
        (QueueChanges.updThread hcount fun th => { th with state := .terminated }).trans
          (QueueChanges.same rfl fun _ _ _ _ => rfl)
      have hlevel : ((s.setState c .terminated).threads c).mlfqLevel ∈ levels := by
        unfold setState
        rw [updThread_self]
        exact h.level c
      exact hlists.trans (yieldEnter_changes hc hcount hlevel)

/-! ## The second half -/

/-- `ScheduleLocked` keeps the property, and a thread that it takes off a queue
has it for that queue. -/
theorem scheduleLocked_inQueues {P : Int → Thread → Prop}
    (hP : ∀ i th st, P i th → P i { th with state := st }) {m : Sched} (h : ListInv m) {p : Tid}
    (hp : m.currentThread = some p) (hm : InQueues P m) :
    InQueues P m.scheduleLocked ∧
      ∀ c, m.scheduleLocked.currentThread = some c →
        m.scheduleLocked.currentThread ≠ m.scheduleLocked.idleThread →
        ∃ i ∈ levels, P i (m.scheduleLocked.threads c) := by
  rcases h.idle with ⟨d, hd, -⟩
  have hpop : ∀ i t rest, m.queues i = t :: rest → InQueues P (m.setQueue i rest) := by
    intro i t rest hq j hj u hu
    by_cases hji : j = i
    · subst hji
      have hu' : u ∈ rest := by simpa [setQueue] using hu
      exact hm j hj u (by rw [hq]; exact List.mem_cons_of_mem _ hu')
    · exact hm j hj u (by simpa [setQueue, hji] using hu)
  -- `PerformSwitch` writes the state of a thread only
  have hswitch : ∀ (s : Sched) n u i, P i (s.threads u) → P i ((s.performSwitch n).threads u) := by
    intro s n u i hu
    by_cases hun : u = n
    · subst hun
      have hthread : (s.performSwitch u).threads u = { s.threads u with state := .running } :=
        updThread_self s u fun th => { th with state := .running }
      rw [hthread]
      exact hP i _ _ hu
    · have hthread : (s.performSwitch n).threads u = s.threads u :=
        updThread_ne s (fun th => { th with state := .running }) hun
      rw [hthread]
      exact hu
  have hfull : ∀ (s : Sched) n, InQueues P s → InQueues P (s.performSwitch n) :=
    fun s n hs i hi t ht => hswitch s n t i (hs i hi t ht)
  rcases scheduleLocked_cases hp hd with
    ⟨-, ⟨rfl, heq⟩ | ⟨-, heq⟩⟩ | ⟨i, hi, t, rest, hq, -, ⟨rfl, heq⟩ | ⟨-, heq⟩⟩
  · -- the idle thread is in no queue
    rw [heq]
    exact ⟨hm, fun c hc hne => absurd (hp.trans hd.symm) hne⟩
  · rw [heq]
    exact ⟨hfull m d hm, fun c hc hne => absurd hd.symm hne⟩
  · rw [heq]
    refine ⟨hpop i t rest hq, fun c hc _ => ⟨i, hi, ?_⟩⟩
    obtain rfl : t = c := Option.some.inj (hp.symm.trans hc)
    exact hm i hi t (by rw [hq]; exact List.mem_cons_self)
  · rw [heq]
    refine ⟨hfull _ t (hpop i t rest hq), fun c hc _ => ⟨i, hi, ?_⟩⟩
    obtain rfl : t = c := Option.some.inj hc
    apply hswitch
    exact hm i hi t (by rw [hq]; exact List.mem_cons_self)

end Ceryx.Proc
