import Mathlib.Data.Int.Order.Basic
import Ceryx.Proc.SchedInv

/-!
# Ceryx.Proc.NoThreadLost — where `ScheduleLocked` loses a thread

`Yield` and the quantum branch of `Tick` mark the running thread `Ready`, push
it into a ready queue and call `ScheduleLocked`. When the thread pushed is the
best one, `PopBest` takes it off its queue again and `next == prev` returns
early: the thread keeps running, but its state stays `Ready`. The next `Yield`
then does not push it, and it is nowhere.

`NoThreadLost` says that every live thread is in exactly one place with the
state of that place. `Rivalled` is the condition on a step under which the
pushed thread is not the best one; `noThreadLost_iff_rivalled` says that it is
exactly what a run needs.
-/

namespace Ceryx.Proc

open Sched Lib

/-! ## The property -/

/-- A thread that was added and has not terminated. -/
structure Live (s : Sched) (t : Tid) : Prop where
  created : Created s t
  notIdle : s.idleThread ≠ some t
  alive : (s.threads t).state ≠ .terminated

/-- In how many places a thread is: on the CPU, in the ready queues, on the
wait queue. -/
def places (s : Sched) (t : Tid) : Nat :=
  (if s.currentThread = some t then 1 else 0) + s.listCount t

/-- A thread is in exactly one place, with the state that belongs to it. -/
structure Placed (s : Sched) (t : Tid) : Prop where
  once : places s t = 1
  current : s.currentThread = some t → (s.threads t).state = .running
  ready : t ∈ s.readyList → (s.threads t).state = .ready
  waiting : t ∈ s.waitQueue → (s.threads t).state = .blocked

def NoThreadLost (s : Sched) : Prop := ∀ t, Live s t → Placed s t

/-- Under the scheduler's invariant only two things can be wrong: a thread is
nowhere, or the running one is marked `Ready`. -/
theorem noThreadLost_iff {s : Sched} (h : SchedInv s) :
    NoThreadLost s ↔
      (∀ t, Live s t → s.currentThread = some t ∨ 0 < s.listCount t) ∧
        ∀ t, Live s t → s.currentThread = some t → (s.threads t).state = .running := by
  constructor
  · intro hp
    refine ⟨fun t ht => ?_, fun t ht => (hp t ht).current⟩
    have honce := (hp t ht).once
    unfold places at honce
    by_cases hc : s.currentThread = some t
    · exact Or.inl hc
    · rw [if_neg hc] at honce
      omega
  · rintro ⟨hsome, hrun⟩ t ht
    refine ⟨?_, hrun t ht, ?_, h.blocked t⟩
    · -- the invariant bounds the places by one, the condition gives one
      unfold places
      by_cases hc : s.currentThread = some t
      · rw [if_pos hc, h.current_count hc]
      · have hpos := (hsome t ht).resolve_left hc
        have honce := h.once t
        rw [if_neg hc]
        omega
    · intro hmem
      exact h.ready t (List.count_pos_iff.mpr hmem)

/-! ## ScheduleLocked -/

/-- Every live thread is on a list: what the entry points establish before
they call `ScheduleLocked`. -/
def AllListed (s : Sched) : Prop := ∀ t, Live s t → 0 < s.listCount t

/-- A switch changes the state of the thread it switches to only. -/
theorem performSwitch_ne (s : Sched) {n t : Tid} (hne : t ≠ n) :
    (s.performSwitch n).threads t = s.threads t := by
  simp [performSwitch, setState, updThread, hne]

/-- So any other thread that is alive behind it was so before. -/
theorem live_performSwitch {s : Sched} {n t : Tid} (hne : t ≠ n) (h : Live (s.performSwitch n) t) :
    Live s t := by
  have hst := h.alive
  rw [performSwitch_ne s hne] at hst
  exact ⟨h.created, h.notIdle, hst⟩

/-- The one that it switches to is running. -/
theorem performSwitch_state (s : Sched) (n : Tid) :
    ((s.performSwitch n).threads n).state = .running := by
  simp [performSwitch, setState, updThread]

/-- When the best thread is not the running one, `ScheduleLocked` loses
nothing. -/
theorem scheduleLocked_lossless {s : Sched} (h : ListInv s) {p : Tid}
    (hp : s.currentThread = some p) (hall : AllListed s) (hpick : s.popBest.1 ≠ some p) :
    NoThreadLost s.scheduleLocked := by
  refine (noThreadLost_iff (h.scheduleLocked hp)).mpr ?_
  obtain ⟨d, hd, hcount, -⟩ := h.idle
  rcases scheduleLocked_cases hp hd with
    ⟨hempty, ⟨rfl, heq⟩ | ⟨-, heq⟩⟩ | ⟨i, hi, t, rest, hq, hbefore, ⟨rfl, heq⟩ | ⟨-, heq⟩⟩
  · rw [heq]
    refine ⟨fun t ht => Or.inr (hall t ht), fun t ht hc => ?_⟩
    exact absurd (hd.trans (hp.symm.trans hc)) ht.notIdle
  · rw [heq]
    refine ⟨fun t ht => ?_, fun t ht hc => ?_⟩
    · by_cases htd : t = d
      · exact absurd (htd ▸ hd) ht.notIdle
      · exact Or.inr (hall t (live_performSwitch htd ht))
    · obtain rfl : d = t := Option.some.inj hc
      exact performSwitch_state s d
  · -- `PopBest` took the running thread: excluded
    exfalso
    rcases popBest_cases s with ⟨-, hall'⟩ | ⟨j, hj, u, rest', hq', hbefore', hpop⟩
    · rw [hall' i hi] at hq
      cases hq
    · have hij : i = j := by
        rcases lt_trichotomy i j with hlt | rfl | hlt
        · rw [hbefore' i hi hlt] at hq
          cases hq
        · rfl
        · rw [hbefore j hj hlt] at hq'
          cases hq'
      subst hij
      obtain ⟨rfl, -⟩ := List.cons.inj (hq.symm.trans hq')
      rw [hpop] at hpick
      exact hpick rfl
  · rw [heq]
    refine ⟨fun u hu => ?_, fun u hu hc => ?_⟩
    · by_cases hut : u = t
      · exact Or.inl (hut ▸ rfl)
      · have hlive' : Live (s.setQueue i rest) u :=
          live_performSwitch (s := s.setQueue i rest) hut hu
        have hlive : Live s u := ⟨hlive'.created, hlive'.notIdle, hlive'.alive⟩
        have hpos := hall u hlive
        have hpopped := listCount_popped hi hq u
        rw [if_neg (Ne.symm hut)] at hpopped
        exact Or.inr (show 0 < (s.setQueue i rest).listCount u by omega)
    · obtain rfl : t = u := Option.some.inj hc
      exact performSwitch_state _ t

/-- When the best thread is the running one, it stays on the CPU marked
`Ready`. -/
theorem scheduleLocked_lossy {s : Sched} (h : ListInv s) {p : Tid}
    (hp : s.currentThread = some p) (hpick : s.popBest.1 = some p) :
    ¬ NoThreadLost s.scheduleLocked := by
  intro hlost
  -- the picked thread is the current one: it is popped, and nothing is switched
  rcases popBest_cases s with ⟨hpop, -⟩ | ⟨i, hi, t, rest, hq, -, hpop⟩
  · rw [hpop] at hpick
    cases hpick
  · rw [hpop] at hpick
    obtain rfl : t = p := Option.some.inj hpick
    have heq : s.scheduleLocked = s.setQueue i rest := by
      simp [scheduleLocked, hpop, hp, setQueue]
    have hstate : (s.threads t).state = .ready := h.ready_of_head hi hq
    obtain ⟨hlt, hnd⟩ := h.listed (ListInv.listed_of_head hi hq)
    have hlive : Live s.scheduleLocked t := by
      rw [heq]
      refine ⟨hlt, hnd, ?_⟩
      change (s.threads t).state ≠ .terminated
      rw [hstate]
      decide
    -- it is off the queues now and still `Ready`
    have hrun := (hlost t hlive).current (by rw [heq]; exact hp)
    rw [heq] at hrun
    change (s.threads t).state = .running at hrun
    rw [hstate] at hrun
    cases hrun

/-! ## The condition -/

/-- Some thread is ready at level `l` or a better one. -/
def RivalAt (s : Sched) (l : Int) : Prop := ∃ i ∈ levels, i ≤ l ∧ s.queues i ≠ []

instance (s : Sched) (l : Int) : Decidable (RivalAt s l) :=
  inferInstanceAs (Decidable (∃ i ∈ levels, i ≤ l ∧ s.queues i ≠ []))

/-- A step that pushes the running thread finds another thread ready at least
as high as the thread goes. On a boosting tick any ready thread will do. -/
def Rivalled (s : Sched) : SchedOp → Prop
  | .yield =>
      ∀ c, s.currentThread = some c → s.currentThread ≠ s.idleThread →
        (s.threads c).state = .running → RivalAt s (s.threads c).mlfqLevel
  | .tick =>
      ∀ c, s.currentThread = some c → s.currentThread ≠ s.idleThread →
        (s.threads c).ticksRemaining ≤ 1 →
          if (s.tickCounter + 1) % 2 ^ 64 % kBoostInterval = 0 then RivalAt s (kNumLevels - 1)
          else RivalAt s (demotedLevel (s.threads c).mlfqLevel)
  | _ => True

instance Rivalled.decidable (s : Sched) : (op : SchedOp) → Decidable (Rivalled s op)
  | .yield => inferInstanceAs (Decidable (∀ c ∈ s.currentThread, s.currentThread ≠ s.idleThread →
      (s.threads c).state = .running → RivalAt s (s.threads c).mlfqLevel))
  | .tick => inferInstanceAs (Decidable (∀ c ∈ s.currentThread, s.currentThread ≠ s.idleThread →
      (s.threads c).ticksRemaining ≤ 1 →
        if (s.tickCounter + 1) % 2 ^ 64 % kBoostInterval = 0 then RivalAt s (kNumLevels - 1)
        else RivalAt s (demotedLevel (s.threads c).mlfqLevel)))
  | .addThread .. | .block _ | .wake .. | .exit => isTrue trivial

/-- A thread on no list is in no ready queue. -/
theorem not_mem_queue {s : Sched} {t : Tid} (ht : s.listCount t = 0) {i : Int} (hi : i ∈ levels) :
    t ∉ s.queues i := by
  intro hmem
  have hpos : 0 < s.readyCount t := readyCount_pos.mpr ⟨i, hi, hmem⟩
  rw [listCount] at ht
  omega

/-- `PopBest` takes the thread just pushed exactly when it has no rival. -/
theorem popBest_pushReady {s : Sched} {c : Tid} (hc : s.listCount c = 0) {l : Int}
    (hl : l ∈ levels) : (s.pushReady l c).popBest.1 = some c ↔ ¬ RivalAt s l := by
  have hself : (s.pushReady l c).queues l = s.queues l ++ [c] := by simp [pushReady]
  have hother : ∀ i, i ≠ l → (s.pushReady l c).queues i = s.queues i := by
    intro i hi
    simp [pushReady, hi]
  rcases popBest_cases (s.pushReady l c) with ⟨-, hall⟩ | ⟨i, hi, t, rest, hq, hbefore, hpop⟩
  · -- the queue of level `l` holds `c` at least
    have := hall l hl
    rw [hself] at this
    simp at this
  · rw [hpop]
    constructor
    · intro htc
      obtain rfl : t = c := Option.some.inj htc
      -- `c` is on no other queue, and alone on its own
      have hil : i = l := by
        by_contra hne
        rw [hother i hne] at hq
        exact not_mem_queue hc hi (by rw [hq]; exact List.mem_cons_self)
      subst hil
      have hnil : s.queues i = [] := by
        rw [hself] at hq
        cases hqi : s.queues i with
        | nil => rfl
        | cons u us =>
            rw [hqi] at hq
            obtain ⟨rfl, -⟩ := List.cons.inj hq
            exact absurd (by rw [hqi]; exact List.mem_cons_self) (not_mem_queue hc hi)
      rintro ⟨j, hj, hji, hne⟩
      rcases lt_or_eq_of_le hji with hlt | rfl
      · exact hne ((hother j (ne_of_lt hlt)).symm.trans (hbefore j hj hlt))
      · exact hne hnil
    · intro hno
      have hempty : ∀ j ∈ levels, j ≤ l → s.queues j = [] := by
        intro j hj hjl
        by_contra hne
        exact hno ⟨j, hj, hjl, hne⟩
      -- `PopBest` gets as far as level `l`, and `c` is the head there
      rcases lt_trichotomy i l with hlt | rfl | hlt
      · rw [hother i (ne_of_lt hlt), hempty i hi (le_of_lt hlt)] at hq
        cases hq
      · rw [hself, hempty i hi (le_refl i)] at hq
        obtain ⟨rfl, -⟩ := List.cons.inj hq
        rfl
      · have := hbefore l hl hlt
        rw [hself] at this
        simp at this

/-! ## The boost and the condition -/

/-- The boost of a queue empties it and fills no other than the first. -/
theorem boostQueue_queue_ne (s : Sched) (i : Int) {j : Int} (hj : j ≠ 0) :
    (s.boostQueue i).queues j = (s.setQueue i []).queues j :=
  foldl_boostOne_frame (fun s => s.queues j) (by intro s t; simp [boostOne, pushReady, hj,
    setTicksRemaining, setMlfqLevel, updThread]) _ _

/-- After a boost only queue 0 has threads. -/
theorem boostAll_queue (s : Sched) {i : Int} (hi : i ∈ levels) (hne : i ≠ 0) :
    s.boostAll.queues i = [] := by
  rw [boostAll, boostQueue_queue_ne _ 2 hne]
  by_cases h2 : i = 2
  · simp [h2, setQueue]
  · have h1 : i = 1 := by
      have := mem_levels.mp hi
      unfold kNumLevels at this
      omega
    subst h1
    have : ((s.boostQueue 1).setQueue 2 []).queues 1 = (s.boostQueue 1).queues 1 := by
      simp [setQueue]
    rw [this, boostQueue_queue_ne s 1 hne]
    simp [setQueue]

/-- Any ready thread rivals one on the lowest level. -/
theorem rivalAt_top {s : Sched} : RivalAt s (kNumLevels - 1) ↔ ∃ t, 0 < s.readyCount t := by
  constructor
  · rintro ⟨i, hi, -, hne⟩
    obtain ⟨t, ht⟩ := List.exists_mem_of_ne_nil _ hne
    exact ⟨t, readyCount_pos.mpr ⟨i, hi, ht⟩⟩
  · rintro ⟨t, ht⟩
    obtain ⟨i, hi, hmem⟩ := readyCount_pos.mp ht
    have hlt := (mem_levels.mp hi).2
    exact ⟨i, hi, by omega, List.ne_nil_of_mem hmem⟩

/-- After a boost every ready thread is a rival at every level. -/
theorem rivalAt_boostAll {s : Sched} (h : ListInv s) {l : Int} (hl : l ∈ levels) :
    RivalAt s.boostAll l ↔ RivalAt s (kNumLevels - 1) := by
  obtain ⟨-, hsame⟩ := boostAll_inv h
  have hcount : ∀ t, s.boostAll.readyCount t = s.readyCount t := by
    intro t
    have := hsame.count t
    rw [listCount, listCount, hsame.wait] at this
    omega
  -- on the two lower levels the boost leaves nobody, so any level asks the same
  have htop : RivalAt s (kNumLevels - 1) ↔ RivalAt s.boostAll (kNumLevels - 1) := by
    rw [rivalAt_top, rivalAt_top]
    simp only [hcount]
  rw [htop]
  obtain ⟨h0, hlt⟩ := mem_levels.mp hl
  constructor
  · rintro ⟨i, hi, hil, hne⟩
    exact ⟨i, hi, by omega, hne⟩
  · rintro ⟨i, hi, -, hne⟩
    have hi0 : i = 0 := by
      by_contra hi0
      exact hne (boostAll_queue s hi hi0)
    exact ⟨i, hi, by omega, hne⟩

/-- Behind a clock that boosts, any ready thread is a rival; otherwise the rivals are
the old ones. -/
theorem rivalAt_tickClock {s : Sched} (h : ListInv s) {l : Int} (hl : l ∈ levels) :
    RivalAt s.tickClock l ↔
      if (s.tickCounter + 1) % 2 ^ 64 % kBoostInterval = 0 then RivalAt s (kNumLevels - 1)
      else RivalAt s l := by
  have hcount : ListInv { s with tickCounter := (s.tickCounter + 1) % 2 ^ 64 } :=
    h.congr rfl rfl rfl rfl rfl
  unfold tickClock
  dsimp only
  split
  · exact rivalAt_boostAll hcount hl
  · rfl

/-- The boost touches the fields of queued threads only. -/
theorem boostAll_thread {s : Sched} {c : Tid} (hc : s.listCount c = 0) (h : ListInv s) :
    s.boostAll.threads c = s.threads c := by
  have hone : ∀ (q : List Tid) (s : Sched), c ∉ q → (q.foldl boostOne s).threads c = s.threads c := by
    intro q
    induction q with
    | nil => exact fun s _ => rfl
    | cons t q ih =>
        intro s hq
        have hne : c ≠ t := fun he => hq (he ▸ List.mem_cons_self)
        rw [List.foldl_cons, ih _ fun hmem => hq (List.mem_cons_of_mem _ hmem)]
        simp [boostOne, setTicksRemaining, setMlfqLevel, updThread, hne]
  have hqueue : ∀ {s : Sched} {i : Int}, s.listCount c = 0 → i ∈ levels →
      (s.boostQueue i).threads c = s.threads c := by
    intro s i hs hi
    exact hone _ _ (not_mem_queue hs hi)
  have h₁ := (boostQueue_inv h (i := 1) (by decide)).2
  exact (hqueue ((h₁.count c).trans hc) (by decide)).trans (hqueue hc (by decide))

/-- The running thread, which is on no list, is not boosted. -/
theorem tickClock_thread {s : Sched} {c : Tid} (hc : s.listCount c = 0) (h : ListInv s) :
    s.tickClock.threads c = s.threads c := by
  have hcount : ListInv { s with tickCounter := (s.tickCounter + 1) % 2 ^ 64 } :=
    h.congr rfl rfl rfl rfl rfl
  unfold tickClock
  dsimp only
  split
  · exact boostAll_thread hc hcount
  · rfl

/-! ## One step -/

/-- A live thread that is not running is on a list. -/
theorem NoThreadLost.listed {s : Sched} (h : SchedInv s) (hl : NoThreadLost s) {t : Tid}
    (ht : Live s t) (hc : s.currentThread ≠ some t) : 0 < s.listCount t :=
  (((noThreadLost_iff h).mp hl).1 t ht).resolve_left hc

/-- The running thread, pushed into queue `l`: afterwards every live thread is
on a list, and `ScheduleLocked` loses the running one exactly when it has no
rival there. -/
theorem repush_noThreadLost {s : Sched} (h : SchedInv s) (hl : NoThreadLost s) {c : Tid}
    (hc : s.currentThread = some c) (hne : s.currentThread ≠ s.idleThread)
    {f : Thread → Thread} {l : Int} (hlev : l ∈ levels)
    (hstate : (f (s.threads c)).state = .ready) (hlevel : (f (s.threads c)).mlfqLevel ∈ levels) :
    NoThreadLost ((s.updThread c f).pushReady l c).scheduleLocked ↔ RivalAt s l := by
  have hun := h.unlisted_current hc hne
  have hpush := h.toListInv.makeReady hun hlev hstate hlevel
  have hpick := popBest_pushReady (s := s.updThread c f) hun.count hlev
  constructor
  · intro hlost
    -- no rival: `PopBest` gives back the thread that was just pushed
    by_contra hno
    exact scheduleLocked_lossy hpush hc (hpick.mpr hno) hlost
  · intro hrival
    -- a rival: somebody else runs, and the pushed thread stays in its queue
    apply scheduleLocked_lossless hpush hc
    · intro t ht
      rw [listCount_pushReady _ hlev]
      by_cases hct : c = t
      · rw [if_pos hct]
        omega
      · have hthread : ((s.updThread c f).pushReady l c).threads t = s.threads t :=
          updThread_ne s f (Ne.symm hct)
        have halive := ht.alive
        rw [hthread] at halive
        have hlive : Live s t := ⟨ht.created, ht.notIdle, halive⟩
        have hnc : s.currentThread ≠ some t := fun he => hct (Option.some.inj (hc.symm.trans he))
        have hpos := hl.listed h hlive hnc
        rw [listCount_updThread]
        omega
    · intro hbest
      exact hpick.mp hbest hrival

/-- When the idle thread runs, every live thread is on a list. -/
theorem allListed_of_idle {s : Sched} (h : SchedInv s) (hl : NoThreadLost s)
    (hidle : s.currentThread = s.idleThread) : AllListed s := by
  intro t ht
  apply hl.listed h ht
  intro hc
  exact ht.notIdle (hidle.symm.trans hc)

/-- `ScheduleLocked` called without pushing the running thread, which is on no
list, loses nothing. -/
theorem scheduleLocked_unpushed {s : Sched} (h : ListInv s) {c : Tid}
    (hc : s.currentThread = some c) (hready : s.readyCount c = 0) (hall : AllListed s) :
    NoThreadLost s.scheduleLocked := by
  apply scheduleLocked_lossless h hc hall
  intro hbest
  rcases popBest_cases s with ⟨hpop, -⟩ | ⟨i, hi, t, rest, hq, -, hpop⟩
  · rw [hpop] at hbest
    cases hbest
  · rw [hpop] at hbest
    obtain rfl : t = c := Option.some.inj hbest
    have hpos : 0 < s.readyCount t :=
      readyCount_pos.mpr ⟨i, hi, by rw [hq]; exact List.mem_cons_self⟩
    omega

/-- On no list, so in no ready queue. -/
theorem readyCount_of_listCount {s : Sched} {t : Tid} (h : s.listCount t = 0) :
    s.readyCount t = 0 := by
  rw [listCount] at h
  omega

/-- The running thread of a state that lost none is `Running`. -/
theorem NoThreadLost.running {s : Sched} (h : SchedInv s) (hl : NoThreadLost s) {c : Tid}
    (hc : s.currentThread = some c) (hne : s.currentThread ≠ s.idleThread) :
    (s.threads c).state = .running := by
  obtain ⟨c', hc', -, hlt, hst⟩ := h.current
  obtain rfl : c = c' := Option.some.inj (hc.symm.trans hc')
  have hlive : Live s c := by
    refine ⟨hlt, fun hd => hne (hc.trans hd.symm), ?_⟩
    rcases hst hne with hrun | hready
    · rw [hrun]
      decide
    · rw [hready]
      decide
  exact ((noThreadLost_iff h).mp hl).2 c hlive hc

/-- `Yield` loses no one exactly when the running thread has a rival: without one,
`ScheduleLocked` pops the thread that was just queued and leaves it on no list. -/
theorem yield_noThreadLost {s : Sched} (h : SchedInv s) (hl : NoThreadLost s) :
    NoThreadLost s.yield ↔ Rivalled s .yield := by
  obtain ⟨c, hc, hcount, -⟩ := h.current
  by_cases hne : s.currentThread ≠ s.idleThread
  · -- a user of the CPU: pushed at its own level
    have hrun := hl.running h hc hne
    have hyield : s.yield = (s.requeue c).scheduleLocked := by
      simp only [Sched.yield, hc]
      rw [if_pos ⟨hc ▸ hne, hrun⟩]
    rw [hyield, requeue_eq, repush_noThreadLost h hl hc hne (h.level c) rfl (h.level c)]
    constructor
    · intro hrival c' hc' _ _
      obtain rfl : c = c' := Option.some.inj (hc.symm.trans hc')
      exact hrival
    · intro hok
      exact hok c hc hne hrun
  · -- the idle thread is not pushed
    have hidle : s.currentThread = s.idleThread := not_not.mp hne
    have hyield : s.yield = s.scheduleLocked := by
      simp only [Sched.yield, hc]
      rw [if_neg]
      rintro ⟨hne', -⟩
      exact hne' (hc ▸ hidle)
    rw [hyield]
    constructor
    · intro _ c' _ hne' _
      exact absurd hidle hne'
    · intro _
      exact scheduleLocked_unpushed h.toListInv hc (readyCount_of_listCount hcount)
        (allListed_of_idle h hl hidle)

/-- Steps that keep threads and lists lose nobody. -/
theorem noThreadLost_of_same {s s' : Sched} (h : SchedInv s) (hl : NoThreadLost s)
    (h' : SchedInv s') (hsame : SameThreads s s') : NoThreadLost s' := by
  refine (noThreadLost_iff h').mpr ⟨fun t ht => ?_, fun t ht hc => ?_⟩
  all_goals
    have hlive : Live s t :=
      ⟨by have := ht.created; rwa [Created, hsame.next] at this, hsame.idle ▸ ht.notIdle,
        by have := ht.alive; rwa [hsame.state t] at this⟩
  · rw [hsame.current, hsame.count]
    exact ((noThreadLost_iff h).mp hl).1 t hlive
  · rw [hsame.state t]
    exact ((noThreadLost_iff h).mp hl).2 t hlive (hsame.current ▸ hc)

/-- Charging the running thread a tick loses nothing. -/
theorem chargeTick_noThreadLost {s : Sched} (h : SchedInv s) (hl : NoThreadLost s) {c : Tid}
    (hc : s.currentThread = some c) :
    SchedInv (s.chargeTick c) ∧ NoThreadLost (s.chargeTick c) := by
  have hsame : SameThreads s (s.chargeTick c) :=
    ⟨fun _ => rfl, rfl, fun t => updThread_field Thread.state s c rfl t, rfl, rfl, rfl⟩
  have h' : SchedInv (s.chargeTick c) :=
    h.of_same (h.toListInv.updThread (h.current_count hc) (h.level c)) hsame
  exact ⟨h', noThreadLost_of_same h hl h' hsame⟩

/-- The same for the end of a quantum. -/
theorem tick_noThreadLost {s : Sched} (h : SchedInv s) (hl : NoThreadLost s) :
    NoThreadLost s.tick ↔ Rivalled s .tick := by
  obtain ⟨c, hc, hcount, -⟩ := h.current
  have hsame := (tickClock_inv h.toListInv).2
  have hclock := h.tickClock
  have hlclock := noThreadLost_of_same h hl hclock hsame
  have hc' : s.tickClock.currentThread = some c := hsame.current.trans hc
  have hthread : s.tickClock.threads c = s.threads c := tickClock_thread hcount h.toListInv
  by_cases hne : s.currentThread ≠ s.idleThread
  · have hne' : s.tickClock.currentThread ≠ s.tickClock.idleThread := by
      rwa [hsame.current, hsame.idle]
    have hticks : ((s.tickClock.chargeTick c).threads c).ticksRemaining =
        (s.threads c).ticksRemaining - 1 := by
      rw [chargeTick, updThread_self, hthread]
    have hlevel : ((s.tickClock.chargeTick c).threads c).mlfqLevel = (s.threads c).mlfqLevel := by
      rw [chargeTick, updThread_self, hthread]
    have htick : s.tick =
        if (s.threads c).ticksRemaining - 1 ≤ 0 then
          ((s.tickClock.chargeTick c).demote c).scheduleLocked
        else s.tickClock.chargeTick c := by
      simp only [Sched.tick, hc']
      rw [if_pos (hc' ▸ hne'), hticks]
    obtain ⟨hcharge, hlcharge⟩ := chargeTick_noThreadLost hclock hlclock hc'
    rw [htick]
    by_cases hexp : (s.threads c).ticksRemaining ≤ 1
    · -- the quantum has expired: pushed at the demoted level
      have hlev := demotedLevel_mem (h.level c)
      have hrival : RivalAt (s.tickClock.chargeTick c) (demotedLevel (s.threads c).mlfqLevel) ↔
          RivalAt s.tickClock (demotedLevel (s.threads c).mlfqLevel) := Iff.rfl
      rw [if_pos (by omega), demote_eq, hlevel,
        repush_noThreadLost hcharge hlcharge hc' hne' hlev rfl hlev, hrival,
        rivalAt_tickClock h.toListInv hlev]
      constructor
      · intro hr d hd _ _
        obtain rfl : c = d := Option.some.inj (hc.symm.trans hd)
        exact hr
      · intro hok
        exact hok c hc hne hexp
    · rw [if_neg (by omega)]
      constructor
      · intro _ d hd _ hle
        obtain rfl : c = d := Option.some.inj (hc.symm.trans hd)
        exact absurd hle hexp
      · intro _
        exact hlcharge
  · -- the idle thread is neither charged nor pushed
    have hidle : s.currentThread = s.idleThread := not_not.mp hne
    have hidle' : s.tickClock.currentThread = s.tickClock.idleThread := by
      rw [hsame.current, hsame.idle, hidle]
    have htick : s.tick =
        if s.tickClock.mlfqEmpty then s.tickClock else s.tickClock.scheduleLocked := by
      simp only [Sched.tick, hc']
      rw [if_neg]
      exact fun hne' => hne' (hc' ▸ hidle')
    rw [htick]
    constructor
    · intro _ d _ hne' _
      exact absurd hidle hne'
    · intro _
      split
      · exact hlclock
      · exact scheduleLocked_unpushed hclock.toListInv hc'
          (readyCount_of_listCount (hclock.current_count hc'))
          (allListed_of_idle hclock hlclock hidle')

/-- A thread that blocks is on the wait queue, so `Block` loses nobody. -/
theorem block_noThreadLost {s : Sched} (h : SchedInv s) (hl : NoThreadLost s)
    (hne : s.currentThread ≠ s.idleThread) (ch : Channel) : NoThreadLost (s.block ch) := by
  obtain ⟨c, hc, hcount, -⟩ := h.current
  have hpark := h.toListInv.parkOn (h.unlisted_current hc hne) ch
  have hblock : s.block ch = (s.parkOn c ch).scheduleLocked := by simp only [block, hc]
  rw [hblock]
  -- the blocked thread is on the wait queue, and so not picked
  apply scheduleLocked_unpushed hpark hc
  · show s.readyCount c = 0
    exact readyCount_of_listCount hcount
  · intro t ht
    rw [parkOn_eq, listCount_pushWait, listCount_updThread]
    by_cases hct : c = t
    · rw [if_pos hct]
      omega
    · have hthread : (s.parkOn c ch).threads t = s.threads t := by
        rw [parkOn_eq, pushWait_threads, updThread_ne s _ (Ne.symm hct)]
      have halive := ht.alive
      rw [hthread] at halive
      have hnc : s.currentThread ≠ some t := fun he => hct (Option.some.inj (hc.symm.trans he))
      have hpos := hl.listed h ⟨ht.created, ht.notIdle, halive⟩ hnc
      omega

/-- `Wake` moves threads between lists. -/
theorem wake_noThreadLost {s : Sched} (h : SchedInv s) (hl : NoThreadLost s) (ch : Channel)
    (wakeAll : Bool) : NoThreadLost (s.wake ch wakeAll) := by
  have hwoken := (wake_inv h.toListInv ch wakeAll).2
  refine (noThreadLost_iff (h.wake ch wakeAll)).mpr ⟨fun t ht => ?_, fun t ht hc => ?_⟩
  · rw [hwoken.current, hwoken.count]
    by_cases hmem : t ∈ s.waitQueue
    · -- it was on the wait queue, so it is on some list still
      have hpos := List.count_pos_iff.mpr hmem
      right
      rw [listCount]
      omega
    · have hlive : Live s t := by
        refine ⟨?_, hwoken.idle ▸ ht.notIdle, hwoken.thread t hmem ▸ ht.alive⟩
        have := ht.created
        rwa [Created, hwoken.next] at this
      exact ((noThreadLost_iff h).mp hl).1 t hlive
  · have hc' : s.currentThread = some t := hwoken.current ▸ hc
    rw [hwoken.thread t (ListInv.not_mem_waitQueue (h.current_count hc'))]
    apply hl.running h hc'
    intro hidle
    exact ht.notIdle ((hwoken.idle.trans hidle.symm).trans hc')

/-- What `new Thread` followed by `AddThread` can do. -/
structure ThreadAdded (s s' : Sched) : Prop where
  count : ∀ t, s'.listCount t = s.listCount t + if s.nextTid = t then 1 else 0
  thread : ∀ t, t ≠ s.nextTid → s'.threads t = s.threads t
  next : s'.nextTid = s.nextTid + 1
  current : s'.currentThread = s.currentThread
  idle : s'.idleThread = s.idleThread

/-- What `AddThread` does to the lists. -/
theorem addThread_added {s s' : Sched} {process : Option ProcId} {stack : Nat} {l : Int}
    (hstep : schedStep s (.addThread process stack l) = some s') : ThreadAdded s s' := by
  have hadd : (s.newThread process stack).2.addThread s.nextTid l = some s' := hstep
  obtain ⟨hlev, rfl⟩ := addThread_eq hadd
  refine ⟨fun t => ?_, fun t ht => ?_, rfl, rfl, rfl⟩
  · rw [listCount_pushReady _ hlev]
    rfl
  · rw [pushReady_threads, updThread_ne _ _ ht]
    simp [newThread, ht]

/-- A new thread is queued at once. -/
theorem addThread_noThreadLost {s s' : Sched} (h : SchedInv s) (hl : NoThreadLost s)
    (h' : SchedInv s') (hadd : ThreadAdded s s') : NoThreadLost s' := by
  have hold : ∀ t, t ≠ s.nextTid → Live s' t → Live s t := by
    intro t htn ht
    have hcreated := ht.created
    rw [Created, hadd.next] at hcreated
    exact ⟨⟨hcreated.1, Nat.lt_of_le_of_ne (Nat.le_of_lt_succ hcreated.2) htn⟩,
      hadd.idle ▸ ht.notIdle, hadd.thread t htn ▸ ht.alive⟩
  refine (noThreadLost_iff h').mpr ⟨fun t ht => ?_, fun t ht hc => ?_⟩
  · rw [hadd.current, hadd.count]
    by_cases htn : t = s.nextTid
    · -- the new thread has just been pushed
      right
      rw [if_pos htn.symm]
      omega
    · rcases ((noThreadLost_iff h).mp hl).1 t (hold t htn ht) with hc | hpos
      · exact Or.inl hc
      · right
        omega
  · have hc' : s.currentThread = some t := hadd.current ▸ hc
    have htn : t ≠ s.nextTid := Nat.ne_of_lt (h.current_created hc').2
    rw [hadd.thread t htn]
    apply hl.running h hc'
    intro hidle
    exact ht.notIdle ((hadd.idle.trans hidle.symm).trans hc')

/-- What the end of thread `c` has done when it calls `Yield`. -/
structure ThreadEnded (s s' : Sched) (c : Tid) : Prop where
  list : ListInv s'
  count : ∀ t, s'.listCount t = s.listCount t
  state : (s'.threads c).state = .terminated
  thread : ∀ t, t ≠ c → s'.threads t = s.threads t
  next : s'.nextTid = s.nextTid
  current : s'.currentThread = s.currentThread
  idle : s'.idleThread = s.idleThread

/-- What the end of a thread does to the lists. -/
theorem enqueueDead_ended {s s' : Sched} (h : SchedInv s) {c : Tid} (hc : s.currentThread = some c)
    (henq : (s.setState c .terminated).enqueueDead c = some s') : ThreadEnded s s' c := by
  have hterm : ListInv (s.setState c .terminated) :=
    h.updThread (h.current_count hc) (h.level c)
  unfold enqueueDead at henq
  split at henq
  · cases henq
  · split at henq
    · cases henq
    · cases henq
      refine ⟨hterm.congr rfl rfl rfl rfl rfl, fun _ => rfl, ?_, fun t ht => ?_, rfl, rfl, rfl⟩
      · show ((s.setState c .terminated).threads c).state = .terminated
        rw [setState, updThread_self]
      · show (s.setState c .terminated).threads t = s.threads t
        rw [setState, updThread_ne s _ ht]

/-- A thread that ends is dead, and no longer to be found. -/
theorem exit_noThreadLost {s s' : Sched} (h : SchedInv s) (hl : NoThreadLost s) {c : Tid}
    (hc : s.currentThread = some c) (hexit : s.exitThread c = some s') : NoThreadLost s' := by
  obtain ⟨s₁, henq, rfl⟩ := Option.map_eq_some_iff.mp hexit
  have hend := enqueueDead_ended h hc henq
  have hc₁ : s₁.currentThread = some c := hend.current.trans hc
  -- a terminated thread is not running, so `Yield` does not push it back
  have hyield : s₁.yield = s₁.scheduleLocked := by
    simp only [Sched.yield, hc₁]
    rw [if_neg]
    rintro ⟨-, hrun⟩
    rw [hend.state] at hrun
    cases hrun
  rw [hyield]
  apply scheduleLocked_unpushed hend.list hc₁
  · exact readyCount_of_listCount ((hend.count c).trans (h.current_count hc))
  · intro t ht
    -- what is alive afterwards is not the thread that exits
    have htc : t ≠ c := by
      rintro rfl
      exact ht.alive hend.state
    have hcreated := ht.created
    rw [Created, hend.next] at hcreated
    rw [hend.count]
    apply hl.listed h ⟨hcreated, hend.idle ▸ ht.notIdle, hend.thread t htc ▸ ht.alive⟩
    intro he
    exact htc (Option.some.inj (he.symm.trans hc))

/-- A step from a state that lost no thread loses none exactly when it meets
the condition. -/
theorem step_noThreadLost {s s' : Sched} {op : SchedOp} (h : SchedInv s) (hl : NoThreadLost s)
    (hstep : schedStep s op = some s') : NoThreadLost s' ↔ Rivalled s op := by
  cases op with
  -- only a tick and a yield push the running thread back
  | addThread process stack l =>
      exact iff_of_true (addThread_noThreadLost h hl (schedStep_inv h hstep)
        (addThread_added hstep)) trivial
  | tick =>
      cases hstep
      exact tick_noThreadLost h hl
  | yield =>
      cases hstep
      exact yield_noThreadLost h hl
  | block ch =>
      simp only [schedStep] at hstep
      split at hstep
      · cases hstep
      · rename_i hne
        cases hstep
        exact iff_of_true (block_noThreadLost h hl hne ch) trivial
  | wake ch wakeAll =>
      cases hstep
      exact iff_of_true (wake_noThreadLost h hl ch wakeAll) trivial
  | exit =>
      simp only [schedStep] at hstep
      split at hstep
      · cases hstep
      · rename_i c hc
        split at hstep
        · cases hstep
        · exact iff_of_true (exit_noThreadLost h hl hc hstep) trivial

/-! ## Runs -/

/-- At the start there are the idle thread, which runs, and the reaper, which is queued.
-/
theorem start_noThreadLost {rootPa : Option ProcId → Nat} {idleStack reaperStack : Nat} {s : Sched}
    (hstart : start rootPa idleStack reaperStack = some s) : NoThreadLost s := by
  have h := start_inv hstart
  rw [start_eq] at hstart
  obtain ⟨hlev, rfl⟩ := addThread_eq hstart
  refine (noThreadLost_iff h).mpr ⟨fun t ht => ?_, fun t ht hc => ?_⟩
  · -- thread 1 is the idle one, thread 2 has just been pushed
    right
    have hne1 : t ≠ 1 := by
      rintro rfl
      exact ht.notIdle rfl
    have ht2 : t = 2 := by
      rcases Nat.lt_or_ge t 2 with hlt | hge
      · exact absurd (Nat.le_antisymm (Nat.le_of_lt_succ hlt) ht.created.1) hne1
      · exact Nat.le_antisymm (Nat.le_of_lt_succ ht.created.2) hge
    rw [listCount_pushReady _ hlev, if_pos ht2.symm]
    omega
  · have hidle : some 1 = some t := hc
    exact absurd hidle ht.notIdle

/-- A run from `Scheduler::Start` loses no thread in any state it passes if
and only if every step that pushes the running thread finds a rival for it. -/
theorem noThreadLost_iff_rivalled {rootPa : Option ProcId → Nat} {idleStack reaperStack : Nat}
    {s : Sched} (hstart : start rootPa idleStack reaperStack = some s) (ops : List SchedOp) :
    Always schedStep NoThreadLost s ops ↔ StepsMeet schedStep Rivalled s ops := by
  refine always_iff_stepsMeet (B := SchedInv) ?_ ?_ ?_ ops (start_inv hstart)
    (start_noThreadLost hstart)
  · intro s op s' h hstep
    exact schedStep_inv h hstep
  · intro s op s' h hl hok hstep
    exact (step_noThreadLost h hl hstep).mpr hok
  · intro s op s' h hl hok hstep hl'
    exact hok ((step_noThreadLost h hl hstep).mp hl')

/-- Two threads at level 0 that yield to each other. -/
theorem two_threads_noThreadLost :
    ∃ s, start (fun _ => 0) 0x10000 0x20000 = some s ∧
      Always schedStep NoThreadLost s
        [.addThread (some 0) 0x30000 0, .addThread (some 1) 0x40000 0, .tick, .yield, .yield] :=
  ⟨_, rfl, (noThreadLost_iff_rivalled rfl _).mpr (by decide)⟩

/-- One thread that yields twice: it is alive and nowhere. -/
theorem yield_twice_loses_thread :
    ∃ s s', start (fun _ => 0) 0x10000 0x20000 = some s ∧
      run schedStep s [.addThread (some 0) 0x30000 0, .tick, .yield, .yield] = some s' ∧
      Live s' 3 ∧ places s' 3 = 0 ∧ ¬ NoThreadLost s' := by
  refine ⟨_, _, rfl, rfl, ⟨?_, ?_, ?_⟩, ?_, ?_⟩
  · show 0 < 3 ∧ 3 < 4
    decide
  · decide
  · decide
  · decide
  · intro hl
    have hplaced := hl 3 ⟨by show 0 < 3 ∧ 3 < 4; decide, by decide, by decide⟩
    exact absurd hplaced.once (by decide)

end Ceryx.Proc
