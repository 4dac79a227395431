import Ceryx.Lib.PriorityLine
import Ceryx.Lib.Simulation
import Ceryx.Proc.Levels
import Ceryx.Proc.WakeOrder

/-!
# Ceryx.Proc.ReadyLine — the scheduler as one line of threads

What the scheduler is for, without its three queues, its wait list and the
fields of its threads: a line of ready threads ordered by level, the threads
that wait for something, and the turn of the thread that has the processor.

* `LineSched`, `lineStep`: the abstract machine. A step returns what it served:
  nothing when the turn goes on, else the first of the line, or no thread when the
  line is empty.
* `line_order`: one step never serves a thread before one that stands ahead of
  it, and never exchanges the two.

That the scheduler behaves as this machine is the subject of
`Ceryx.Proc.LineRefines`.
-/

namespace Ceryx.Proc

open Lib Sched

/-- The turn of the thread that has the processor. -/
structure Turn where
  thread : Tid
  level : Int
  /-- The ticks that are left. -/
  left : Int
  /-- The thread had entered the line and was served again at once. Its next
  `Yield` gives the processor away without entering the line. -/
  again : Bool
deriving DecidableEq, Repr

/-- A thread that waits. -/
structure Sleeper where
  thread : Tid
  level : Int
  channel : Option Channel
deriving DecidableEq, Repr

/-- The abstract scheduler. No turn is the idle context's. -/
structure LineSched where
  line : Line Int Tid
  parked : List Sleeper
  turn : Option Turn
  reaper : Option Tid
  clock : Nat
  next : Tid

namespace LineSched

/-! ## The abstract machine -/

/-- A thread enters the line. -/
def enter (L : LineSched) (level : Int) (t : Tid) : LineSched :=
  { L with line := L.line.enter level t }

/-- The first of the line gets the processor for a full quantum. -/
def dispatch (L : LineSched) : List (Option Tid) × LineSched :=
  match L.line.serve? with
  | none => ([none], { L with turn := none })
  | some ((level, t), rest) =>
      ([some t],
        { L with
          line := rest
          turn := some
            { thread := t, level := level, left := kQuantum level,
              again := L.turn.map Turn.thread = some t } })

/-- The clock, which makes all of the line equal every hundred ticks. -/
def clockTick (L : LineSched) : LineSched :=
  let clock := (L.clock + 1) % 2 ^ 64
  { L with
    clock := clock
    line := if clock % kBoostInterval = 0 then L.line.raise 0 else L.line }

/-- A tick of the timer. -/
def tick (L : LineSched) : List (Option Tid) × LineSched :=
  let L := L.clockTick
  match L.turn with
  | some turn =>
      if turn.left - 1 ≤ 0 then (L.enter (demotedLevel turn.level) turn.thread).dispatch
      else ([], { L with turn := some { turn with left := turn.left - 1 } })
  | none => if L.line.entries.isEmpty then ([], L) else L.dispatch

/-- The thread gives the processor away. -/
def yield (L : LineSched) : List (Option Tid) × LineSched :=
  match L.turn with
  | some turn => if turn.again then L.dispatch else (L.enter turn.level turn.thread).dispatch
  | none => L.dispatch

/-- The thread waits. -/
def park (L : LineSched) (turn : Turn) (ch : Channel) : LineSched :=
  { L with parked := L.parked ++ [⟨turn.thread, turn.level, some ch⟩] }

/-- The waiting threads that a wake-up reaches, in the order of their arrival. -/
def reached (L : LineSched) (ch : Channel) (wakeAll : Bool) : List Sleeper :=
  let waiting := L.parked.filter fun p => p.channel = some ch
  if wakeAll then waiting else waiting.head?.toList

/-- The threads reached enter the line. -/
def wake (L : LineSched) (ch : Channel) (wakeAll : Bool) : LineSched :=
  let woken := L.reached ch wakeAll
  { L with
    parked := L.parked.filter fun p => p ∉ woken
    line := woken.foldl (fun q p => q.enter p.level p.thread) L.line }

end LineSched

/-- One call of an entry point, on the line. -/
def lineStep (L : LineSched) : SchedOp → Option (List (Option Tid) × LineSched)
  | .addThread _ _ level =>
      if level < 0 ∨ kNumLevels ≤ level then none
      else some ([], { L.enter level L.next with next := L.next + 1 })
  | .tick => some L.tick
  | .yield => some L.yield
  | .block ch => L.turn.map fun turn => (L.park turn ch).dispatch
  | .wake ch wakeAll => some ([], L.wake ch wakeAll)
  | .exit =>
      L.turn.bind fun turn => if L.reaper = some turn.thread then none else some L.dispatch

/-! ## No thread is overtaken -/

/-- `a` stands in the line ahead of `b`. -/
def Ahead (q : Line Int Tid) (a b : Tid) : Prop := [a, b].Sublist q.members

/-- Nobody stands in the line twice, and whoever has the processor not at all. -/
structure LineSched.Distinct (L : LineSched) : Prop where
  line : L.line.members.Nodup
  turn : ∀ turn, L.turn = some turn → turn.thread ∉ L.line.members

theorem nodup_enter {q : Line Int Tid} (hq : q.members.Nodup) {t : Tid} (ht : t ∉ q.members)
    (l : Int) : (q.enter l t).members.Nodup := by
  have hperm : (q.enter l t).members.Perm (t :: q.members) :=
    (List.perm_orderedInsert _ (l, t) q.entries).map Prod.snd
  exact hperm.nodup_iff.mpr (List.nodup_cons.mpr ⟨ht, hq⟩)

theorem dispatch_order {L : LineSched} {a b : Tid} (hnodup : L.line.members.Nodup)
    (h : Ahead L.line a b) (ha : some a ∉ L.dispatch.1) :
    some b ∉ L.dispatch.1 ∧ Ahead L.dispatch.2.line a b := by
  unfold LineSched.dispatch at ha ⊢
  split
  · exact ⟨by simp, h⟩
  · rename_i level t rest hserve
    have hne : t ≠ a := by
      rintro rfl
      rw [hserve] at ha
      exact ha (List.mem_singleton.mpr rfl)
    have hpair := Line.pair_serve? hnodup h hserve hne
    refine ⟨?_, hpair.2⟩
    intro hb
    exact hpair.1 (Option.some.inj (List.mem_singleton.mp hb)).symm

/-- Somebody enters the line and then the first is served. -/
theorem enter_dispatch_order {L : LineSched} {a b t : Tid} (hnodup : L.line.members.Nodup)
    (ht : t ∉ L.line.members) (h : Ahead L.line a b) (level : Int)
    (ha : some a ∉ (L.enter level t).dispatch.1) :
    some b ∉ (L.enter level t).dispatch.1 ∧ Ahead (L.enter level t).dispatch.2.line a b :=
  dispatch_order (nodup_enter hnodup ht level) (Line.pair_enter h level t) ha

theorem clockTick_members (L : LineSched) : L.clockTick.line.members = L.line.members := by
  unfold LineSched.clockTick
  dsimp only
  split
  · exact Line.members_raise L.line 0
  · rfl

theorem tick_order {L : LineSched} {a b : Tid} (hL : L.Distinct) (h : Ahead L.line a b)
    (ha : some a ∉ L.tick.1) : some b ∉ L.tick.1 ∧ Ahead L.tick.2.line a b := by
  -- the clock does not change who stands where
  have hmembers := clockTick_members L
  have hnodup : L.clockTick.line.members.Nodup := by rw [hmembers]; exact hL.line
  have hahead : Ahead L.clockTick.line a b := by unfold Ahead; rw [hmembers]; exact h
  unfold LineSched.tick at ha ⊢
  dsimp only at ha ⊢
  cases hturn : L.clockTick.turn with
  | none =>
      simp only [hturn] at ha ⊢
      split
      · exact ⟨by simp, hahead⟩
      · rename_i hempty
        rw [if_neg hempty] at ha
        exact dispatch_order hnodup hahead ha
  | some turn =>
      simp only [hturn] at ha ⊢
      split
      · rename_i hover
        rw [if_pos hover] at ha
        have hnot : turn.thread ∉ L.clockTick.line.members := by
          rw [hmembers]
          exact hL.turn turn hturn
        exact enter_dispatch_order hnodup hnot hahead _ ha
      · exact ⟨by simp, hahead⟩

theorem yield_order {L : LineSched} {a b : Tid} (hL : L.Distinct) (h : Ahead L.line a b)
    (ha : some a ∉ L.yield.1) : some b ∉ L.yield.1 ∧ Ahead L.yield.2.line a b := by
  unfold LineSched.yield at ha ⊢
  cases hturn : L.turn with
  | none =>
      simp only [hturn] at ha ⊢
      exact dispatch_order hL.line h ha
  | some turn =>
      simp only [hturn] at ha ⊢
      split
      · rename_i hagain
        rw [if_pos hagain] at ha
        exact dispatch_order hL.line h ha
      · rename_i hagain
        rw [if_neg hagain] at ha
        exact enter_dispatch_order hL.line (hL.turn turn hturn) h _ ha

/-- Any number of threads may enter. -/
theorem ahead_foldl_enter (woken : List Sleeper) {q : Line Int Tid} {a b : Tid}
    (h : Ahead q a b) : Ahead (woken.foldl (fun q p => q.enter p.level p.thread) q) a b := by
  induction woken generalizing q with
  | nil => exact h
  | cons p woken ih => exact ih (Line.pair_enter h p.level p.thread)

/-- One call serves no thread before one that stands ahead of it, and does not
exchange the two. -/
theorem line_order {L L' : LineSched} {op : SchedOp} {out : List (Option Tid)} {a b : Tid}
    (hL : L.Distinct) (h : Ahead L.line a b) (hstep : lineStep L op = some (out, L'))
    (ha : some a ∉ out) : some b ∉ out ∧ Ahead L'.line a b := by
  cases op with
  | addThread process stack level =>
      simp only [lineStep] at hstep
      split at hstep
      · cases hstep
      · cases hstep
        exact ⟨List.not_mem_nil, Line.pair_enter h level L.next⟩
  -- the four steps that dispatch pop the head of the line; `a` is not it
  | tick =>
      obtain ⟨rfl, rfl⟩ := Prod.ext_iff.mp (Option.some.inj hstep)
      exact tick_order hL h ha
  | yield =>
      obtain ⟨rfl, rfl⟩ := Prod.ext_iff.mp (Option.some.inj hstep)
      exact yield_order hL h ha
  | block ch =>
      rcases Option.map_eq_some_iff.mp hstep with ⟨turn, -, heq⟩
      obtain ⟨rfl, rfl⟩ := Prod.ext_iff.mp heq
      exact dispatch_order (L := L.park turn ch) hL.line h ha
  -- the woken ones enter behind their level
  | wake ch wakeAll =>
      cases hstep
      exact ⟨List.not_mem_nil, ahead_foldl_enter _ h⟩
  | exit =>
      rcases Option.bind_eq_some_iff.mp hstep with ⟨turn, -, hexit⟩
      split at hexit
      · cases hexit
      · obtain ⟨rfl, rfl⟩ := Prod.ext_iff.mp (Option.some.inj hexit)
        exact dispatch_order hL.line h ha

end Ceryx.Proc
